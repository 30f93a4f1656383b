import Buzz.Agent.HandoffPrompt
import Buzz.Agent.Turn

namespace Buzz.Agent

open Buzz.Lib

inductive CallUpdate
  | pending (toolCallId title : String) (rawInput : Json)
  | inProgress (toolCallId : String)
  | completed (toolCallId text : String) (isError : Bool)
  | failed (toolCallId error : String)

namespace CallUpdate

def isPending : CallUpdate → Bool
  | pending _ _ _ => true
  | _ => false

def isTerminal : CallUpdate → Bool
  | completed _ _ _ | failed _ _ => true
  | _ => false

end CallUpdate

def emitPending (call : ToolCall) : CallUpdate := .pending call.providerId call.name call.arguments

def emitInProgress (call : ToolCall) : CallUpdate := .inProgress call.providerId

def emitCompleted (call : ToolCall) (result : ToolResult) : CallUpdate :=
  .completed call.providerId (String.ofList result.text) result.isError

def emitFailed (call : ToolCall) (err : String) : CallUpdate := .failed call.providerId err

def emitOutcome (call : ToolCall) : InvokeOutcome → CallUpdate
  | .done result => emitCompleted call result
  | .failed msg => emitFailed call msg

/-- The task of a call: waiting for a permit, with one, in `invoke_tool_inner`, with an outcome
that is not sent or is, and over, without an outcome when it panicked. -/
inductive Task
  | waiting
  | permitted
  | calling
  | reporting (outcome : InvokeOutcome) (permit : Bool)
  | reported (outcome : InvokeOutcome) (permit : Bool)
  | ended (outcome : Option InvokeOutcome)

namespace Task

def isOver : Task → Bool
  | ended _ => true
  | _ => false

def hasPermit : Task → Bool
  | permitted | calling => true
  | reporting _ permit | reported _ permit => permit
  | waiting | ended _ => false

end Task

inductive TaskAction
  | acquire
  | refuse
  | begin
  | ended (ending : ToolEnd)
  | report
  | finish
  | panic

inductive BatchPhase
  | preflight (idx : ℕ)
  | executing (cancelled : Bool)
  | returned

/-- `execute_calls` on the calls of a response. The updates on the wire are given with the index of
their call, and `appended` is what goes into the history. -/
structure Batch where
  calls : List ToolCall
  phase : BatchPhase
  cancel : Bool
  results : List (Option ToolResult)
  runnable : List ℕ
  tasks : ℕ → Option Task
  permits : ℕ
  closed : Bool
  wire : List (ℕ × CallUpdate)
  appended : List HistoryItem

inductive BatchAction
  | cancel
  | preflight (skill : List ToolResultContent × Bool)
  | task (i : ℕ) (action : TaskAction)
  | cancelSeen
  | joined (i : ℕ)
  | allJoined
  | drainTimedOut
  | aborted (i : ℕ)

def failSlot (calls : List ToolCall) (announced : ℕ → Bool)
    (slots : List (Option ToolResult) × List (ℕ × CallUpdate)) (i : ℕ) :
    List (Option ToolResult) × List (ℕ × CallUpdate) :=
  match slots.1[i]?, calls[i]? with
  | some none, some call =>
    (slots.1.set i (some (syntheticToolResult call "cancelled")),
      slots.2 ++ if announced i then [(i, emitFailed call "cancelled")] else [])
  | _, _ => slots

def failRemaining (calls : List ToolCall) (announced : ℕ → Bool) (idxs : List ℕ)
    (slots : List (Option ToolResult) × List (ℕ × CallUpdate)) :
    List (Option ToolResult) × List (ℕ × CallUpdate) :=
  idxs.foldl (failSlot calls announced) slots

namespace Batch

def start (maxParallelTools : ℕ) (calls : List ToolCall) (cancel : Bool) : Batch where
  calls := calls
  phase := .preflight 0
  cancel := cancel
  results := List.replicate calls.length none
  runnable := []
  tasks _ := none
  permits := max maxParallelTools 1
  closed := false
  wire := []
  appended := []

variable (b : Batch)

def send (i : ℕ) (update : CallUpdate) : Batch := { b with wire := b.wire ++ [(i, update)] }

def setTask (i : ℕ) (task : Option Task) : Batch :=
  { b with tasks := Function.update b.tasks i task }

def release (permit : Bool) : Batch := { b with permits := b.permits + permit.toNat }

def settle (announced : ℕ → Bool) (idxs : List ℕ) : Batch :=
  let (results, wire) := failRemaining b.calls announced idxs (b.results, b.wire)
  { b with
    results := results
    wire := wire
    phase := .returned
    appended := appendResults [] b.calls results }

def preflight (cfg : Config) (skill : List ToolResultContent × Bool) (idx : ℕ) : Batch :=
  match b.calls[idx]? with
  | none =>
    { b with
      phase := .executing false
      tasks := fun i ↦ if i ∈ b.runnable then some .waiting else none }
  | some call =>
    if b.cancel then b.settle (fun j ↦ decide (j < idx)) (List.range b.calls.length)
    else
      let b := { b.send idx (emitPending call) with phase := .preflight (idx + 1) }
      if call.name = LOAD_SKILL_TOOL then
        let result : ToolResult := ⟨call.providerId, skill.1, skill.2⟩
        let b := (b.send idx (emitInProgress call)).send idx (emitCompleted call result)
        { b with results := b.results.set idx (some result) }
      else if !cfg.has call.name || cfg.isHook call.name then
        let err := "unknown tool: " ++ call.name
        let b := b.send idx (emitFailed call err)
        { b with results := b.results.set idx (some (syntheticToolResult call err)) }
      else { b with runnable := b.runnable ++ [idx] }

def taskStep (cfg : Config) (i : ℕ) (call : ToolCall) : Task → TaskAction → Option Batch
  | .waiting, .acquire =>
    if b.closed = false ∧ 0 < b.permits then
      some { b.setTask i (some .permitted) with permits := b.permits - 1 }
    else none
  | .waiting, .refuse =>
    if b.closed then some (b.setTask i (some (.reporting (.failed "cancelled") false))) else none
  | .permitted, .begin => some ((b.send i (emitInProgress call)).setTask i (some .calling))
  | .calling, .ended .uncalled =>
    if b.cancel then
      some (b.setTask i (some (.reporting (invokeToolInner cfg true call .uncalled) true)))
    else none
  | .calling, .ended ending =>
    some (b.setTask i (some (.reporting (invokeToolInner cfg b.cancel call ending) true)))
  | .reporting outcome permit, .report =>
    some ((b.send i (emitOutcome call outcome)).setTask i (some (.reported outcome permit)))
  | .reported outcome permit, .finish =>
    some ((b.release permit).setTask i (some (.ended (some outcome))))
  | .reported _ _, .panic | .ended _, .panic => none
  | task, .panic => some ((b.release task.hasPermit).setTask i (some (.ended none)))
  | _, _ => none

def join (cancelled : Bool) (i : ℕ) (outcome : Option InvokeOutcome) : Batch :=
  let b := b.setTask i none
  match outcome with
  | some outcome => { b with results := joinResult b.calls b.results cancelled i fun _ ↦ outcome }
  | none => b

def step (cfg : Config) : BatchAction → Option Batch
  | .cancel => some { b with cancel := true }
  | .preflight skill =>
    match b.phase with
    | .preflight idx => some (b.preflight cfg skill idx)
    | _ => none
  | .task i action =>
    match b.tasks i, b.calls[i]? with
    | some task, some call => b.taskStep cfg i call task action
    | _, _ => none
  | .cancelSeen =>
    match b.phase with
    | .executing false =>
      if b.cancel then some { b with phase := .executing true, closed := true } else none
    | _ => none
  | .joined i =>
    match b.phase, b.tasks i with
    | .executing cancelled, some (.ended outcome) => some (b.join cancelled i outcome)
    | _, _ => none
  | .allJoined =>
    match b.phase with
    | .executing _ =>
      if b.runnable.all fun i ↦ (b.tasks i).isNone then some (b.settle (fun _ ↦ true) b.runnable)
      else none
    | _ => none
  | .drainTimedOut =>
    match b.phase with
    | .executing true =>
      if b.runnable.any (fun i ↦ (b.tasks i).isSome) &&
          b.runnable.all fun i ↦ !(b.tasks i).any Task.isOver then
        some (b.settle (fun _ ↦ true) b.runnable)
      else none
    | _ => none
  | .aborted i =>
    match b.phase with
    | .returned => some (b.setTask i none)
    | _ => none

def updates (i : ℕ) : List CallUpdate := (b.wire.filter fun u ↦ u.1 == i).map (·.2)

def announced (i : ℕ) : Bool := (b.updates i).any CallUpdate.isPending

def terminals (i : ℕ) : List CallUpdate := (b.updates i).filter CallUpdate.isTerminal

end Batch

def batchRun (cfg : Config) (maxParallelTools : ℕ) (calls : List ToolCall) (cancel : Bool)
    (actions : List BatchAction) : Option Batch :=
  actions.foldlM (fun b a ↦ b.step cfg a) (.start maxParallelTools calls cancel)

def Agrees (call : ToolCall) (result : ToolResult) : CallUpdate → Prop
  | .completed toolCallId text isError =>
    toolCallId = call.providerId ∧ text = String.ofList result.text ∧ isError = result.isError
  | .failed toolCallId error =>
    toolCallId = call.providerId ∧ result = syntheticToolResult call error
  | _ => False

def EndsOnce (b : Batch) : Prop :=
  ∀ i call, b.calls[i]? = some call →
    (b.terminals i).length ≤ 1 ∧ (b.announced i = false → b.terminals i = []) ∧
    (b.phase = .returned → b.announced i = true → ∃ update result,
      b.terminals i = [update] ∧ Agrees call result update ∧
      b.appended[i]? = some (.toolResult (settledResult call (some result))))

/-- No task has sent its outcome without being joined when the drain times out, and none that was
aborted sends it then. -/
def CleanStep (b : Batch) : BatchAction → Prop
  | .drainTimedOut => ∀ i outcome permit, b.tasks i ≠ some (.reported outcome permit)
  | .task _ .report => b.phase ≠ .returned
  | _ => True

theorem agrees_outcome (call : ToolCall) (outcome : InvokeOutcome) :
    Agrees call (outcomeToResult call outcome) (emitOutcome call outcome) := by
  cases outcome with
  | done result => exact ⟨rfl, rfl, rfl⟩
  | failed msg => exact ⟨rfl, rfl⟩

def Task.sent : Task → Option InvokeOutcome
  | reported outcome _ => some outcome
  | ended outcome => outcome
  | _ => none

structure CallView where
  phase : BatchPhase
  runnable : Bool
  task : Option Task
  result : Option ToolResult
  updates : List CallUpdate

namespace CallView

variable (v : CallView) (call : ToolCall)

def announced : Bool := v.updates.any CallUpdate.isPending

def terminals : List CallUpdate := v.updates.filter CallUpdate.isTerminal

def Unanswered : Prop := v.result = none ∧ v.terminals = []

def Settled : Prop :=
  ∃ update result, v.result = some result ∧ v.terminals = [update] ∧ Agrees call result update

def TaskOk : Prop :=
  match v.task with
  | none => v.Unanswered ∨ v.Settled call
  | some task =>
    match task.sent with
    | none => v.Unanswered
    | some outcome => v.result = none ∧ v.terminals = [emitOutcome call outcome]

def Ok (i : ℕ) : Prop :=
  match v.phase with
  | .preflight idx =>
    v.task = none ∧
      if i < idx then v.announced = true ∧ if v.runnable then v.Unanswered else v.Settled call
      else v.runnable = false ∧ v.updates = [] ∧ v.result = none
  | .executing _ =>
    v.announced = true ∧ if v.runnable then v.TaskOk call else v.task = none ∧ v.Settled call
  | .returned =>
    (v.announced = true → v.Settled call) ∧ (v.announced = false → v.terminals = [])

end CallView

def Batch.view (b : Batch) (i : ℕ) : CallView where
  phase := b.phase
  runnable := decide (i ∈ b.runnable)
  task := b.tasks i
  result := b.results[i]?.join
  updates := b.updates i

/-- What the steps keep. -/
structure BatchOk (b : Batch) : Prop where
  length : b.results.length = b.calls.length
  ok : ∀ i call, b.calls[i]? = some call → (b.view i).Ok call i
  appended : b.phase = .returned → b.appended = appendResults [] b.calls b.results

section Updates

variable {i j : ℕ}

theorem updates_of_wire {b b' : Batch} {updates : List CallUpdate}
    (h : b'.wire = b.wire ++ updates.map fun u ↦ (i, u)) (j : ℕ) :
    b'.updates j = b.updates j ++ if j = i then updates else [] := by
  rw [Batch.updates, h, List.filter_append, List.map_append, Batch.updates]
  split_ifs with hij
  · simp [hij, List.filter_map, Function.comp_def]
  · have hji : i ≠ j := fun h ↦ hij h.symm
    simp [hji, List.filter_map, Function.comp_def]

def slotAt (slots : List (Option ToolResult) × List (ℕ × CallUpdate)) (i : ℕ) :
    Option (Option ToolResult) × List (ℕ × CallUpdate) :=
  (slots.1[i]?, slots.2.filter fun u ↦ u.1 == i)

variable {calls : List ToolCall} {announced : ℕ → Bool}
  {slots : List (Option ToolResult) × List (ℕ × CallUpdate)}

theorem failSlot_other (hne : j ≠ i) :
    slotAt (failSlot calls announced slots j) i = slotAt slots i := by
  rw [failSlot]
  split
  · rw [slotAt, List.getElem?_set_ne hne, List.filter_append]
    split_ifs
    · simp [slotAt, hne]
    · simp [slotAt]
  · rfl

theorem failSlot_filled (h : slots.1[i]? ≠ some none) :
    failSlot calls announced slots i = slots := by
  rw [failSlot]
  split
  · exact absurd ‹_› h
  · rfl

theorem failSlot_open {call : ToolCall} (hcall : calls[i]? = some call)
    (h : slots.1[i]? = some none) : slotAt (failSlot calls announced slots i) i =
      (some (some (syntheticToolResult call "cancelled")),
        slots.2.filter (fun u ↦ u.1 == i) ++
          if announced i then [(i, emitFailed call "cancelled")] else []) := by
  obtain ⟨hi, -⟩ := List.getElem?_eq_some_iff.mp h
  rw [failSlot, h, hcall, slotAt, List.filter_append, List.getElem?_set_self hi]
  split_ifs
  · simp
  · simp

theorem failRemaining_filled (h : slots.1[i]? ≠ some none) (idxs : List ℕ) :
    slotAt (failRemaining calls announced idxs slots) i = slotAt slots i := by
  rw [failRemaining]
  induction idxs generalizing slots with
  | nil => rfl
  | cons j idxs ih =>
    have hslot : slotAt (failSlot calls announced slots j) i = slotAt slots i := by
      by_cases hne : j = i
      · rw [hne, failSlot_filled h]
      · exact failSlot_other hne
    rw [List.foldl_cons, ih, hslot]
    rw [show (failSlot calls announced slots j).1[i]? = slots.1[i]? from congrArg Prod.fst hslot]
    exact h

theorem failRemaining_open {call : ToolCall} (hcall : calls[i]? = some call)
    (h : slots.1[i]? = some none) {idxs : List ℕ} (hmem : i ∈ idxs) :
    slotAt (failRemaining calls announced idxs slots) i =
      (some (some (syntheticToolResult call "cancelled")),
        slots.2.filter (fun u ↦ u.1 == i) ++
          if announced i then [(i, emitFailed call "cancelled")] else []) := by
  rw [failRemaining]
  induction idxs generalizing slots with
  | nil => cases hmem
  | cons j idxs ih =>
    rw [List.foldl_cons]
    by_cases hne : j = i
    · have hslot : slotAt (failSlot calls announced slots i) i = _ := failSlot_open hcall h
      have hfilled : (failSlot calls announced slots i).1[i]? ≠ some none := by
        rw [show (failSlot calls announced slots i).1[i]? = _ from congrArg Prod.fst hslot]
        simp
      rw [hne, ← hslot]
      exact failRemaining_filled hfilled idxs
    · have hslot : slotAt (failSlot calls announced slots j) i = slotAt slots i :=
        failSlot_other hne
      have hnone : (failSlot calls announced slots j).1[i]? = some none :=
        (congrArg Prod.fst hslot).trans h
      rw [ih hnone ((List.mem_cons.mp hmem).resolve_left (Ne.symm hne)),
        show (failSlot calls announced slots j).2.filter (fun u ↦ u.1 == i) = _ from
          congrArg Prod.snd hslot]
      rfl

theorem failRemaining_length (calls : List ToolCall) (announced : ℕ → Bool) (idxs : List ℕ)
    (slots : List (Option ToolResult) × List (ℕ × CallUpdate)) :
    (failRemaining calls announced idxs slots).1.length = slots.1.length := by
  rw [failRemaining]
  induction idxs generalizing slots with
  | nil => rfl
  | cons j idxs ih =>
    rw [List.foldl_cons, ih, failSlot]
    split
    · exact List.length_set
    · rfl

end Updates

namespace BatchOk

variable {cfg : Config} {b b' : Batch}

theorem start (maxParallelTools : ℕ) (calls : List ToolCall) (cancel : Bool) :
    BatchOk (.start maxParallelTools calls cancel) where
  length := List.length_replicate
  ok i call hcall := by
    obtain ⟨hi, -⟩ := List.getElem?_eq_some_iff.mp hcall
    refine ⟨rfl, ?_⟩
    rw [if_neg (Nat.not_lt_zero i)]
    refine ⟨by simp [Batch.view, Batch.start], rfl, ?_⟩
    rw [Batch.view, Batch.start]
    dsimp only
    rw [List.getElem?_replicate]
    split_ifs <;> rfl
  appended h := by cases h

/-- A step that leaves all calls but one alone. -/
theorem set (h : BatchOk b) {i : ℕ} (hcalls : b'.calls = b.calls)
    (hlength : b'.results.length = b.results.length)
    (happended : b'.phase = .returned → b'.appended = appendResults [] b'.calls b'.results)
    (hothers : ∀ j call, j ≠ i → (b.view j).Ok call j → (b'.view j).Ok call j)
    (hi : ∀ call, b.calls[i]? = some call → (b.view i).Ok call i → (b'.view i).Ok call i) :
    BatchOk b' where
  length := by rw [hlength, hcalls, h.length]
  ok j call hcall := by
    rw [hcalls] at hcall
    by_cases hne : j = i
    · subst hne
      exact hi call hcall (h.ok j call hcall)
    · exact hothers j call hne (h.ok j call hcall)
  appended := happended

/-- The end of the batch: the calls that are open are to be filled, the others have their end. -/
theorem settle (h : BatchOk b) (announced : ℕ → Bool) (idxs : List ℕ)
    (hopen : ∀ i call, b.calls[i]? = some call →
      (b.view i).Unanswered ∧ i ∈ idxs ∧ (b.view i).announced = announced i ∨
        (b.view i).announced = true ∧ (b.view i).Settled call) :
    BatchOk (b.settle announced idxs) where
  length := (failRemaining_length b.calls announced idxs _).trans h.length
  ok i call hcall := by
    have hcall : b.calls[i]? = some call := hcall
    obtain ⟨hi, -⟩ := List.getElem?_eq_some_iff.mp hcall
    have hview (slots : List (Option ToolResult) × List (ℕ × CallUpdate))
        (hslots : failRemaining b.calls announced idxs (b.results, b.wire) = slots) :
        (b.settle announced idxs).view i = ⟨.returned, (b.view i).runnable, (b.view i).task,
          (slotAt slots i).1.join, (slotAt slots i).2.map (·.2)⟩ := by
      rw [← hslots]
      rfl
    rw [hview _ rfl]
    rcases hopen i call hcall with ⟨⟨hresult, hterminals⟩, hmem, hannounced⟩ | ⟨hannounced, hend⟩
    · have hslot : (b.results, b.wire).1[i]? = some none := by
        rw [List.getElem?_eq_getElem (h.length.symm ▸ hi)]
        rw [Batch.view, List.getElem?_eq_getElem (h.length.symm ▸ hi)] at hresult
        exact congrArg some hresult
      rw [failRemaining_open hcall hslot hmem, List.map_append]
      cases hi' : announced i with
      | true =>
        rw [hi'] at hannounced
        refine ⟨fun _ ↦ ⟨emitFailed call "cancelled", syntheticToolResult call "cancelled", rfl, ?_,
          rfl, rfl⟩, fun hfalse ↦ ?_⟩
        · have hbefore : (b.updates i).filter CallUpdate.isTerminal = [] := hterminals
          show (b.updates i ++ [emitFailed call "cancelled"]).filter CallUpdate.isTerminal = _
          rw [List.filter_append, hbefore]
          rfl
        · have hbefore : (b.updates i).any CallUpdate.isPending = true := hannounced
          have hafter : (b.updates i ++ [emitFailed call "cancelled"]).any CallUpdate.isPending =
            false := hfalse
          rw [List.any_append, hbefore] at hafter
          cases hafter
      | false =>
        rw [hi'] at hannounced
        simp only [Bool.false_eq_true, if_false, List.map_nil, List.append_nil]
        exact ⟨fun htrue ↦ absurd (hannounced.symm.trans htrue) Bool.false_ne_true,
          fun _ ↦ hterminals⟩
    · have hslot : (b.results, b.wire).1[i]? ≠ some none := by
        intro hnone
        obtain ⟨update, result, hresult, -⟩ := hend
        rw [Batch.view] at hresult
        dsimp only at hresult hnone
        rw [hnone] at hresult
        cases hresult
      rw [failRemaining_filled hslot]
      exact ⟨fun _ ↦ hend, fun hfalse ↦ absurd (hannounced.symm.trans hfalse) (by simp)⟩
  appended _ := rfl

end BatchOk

/-- What a step of a task leaves: it sends nothing that ends the call, or it sends its outcome. -/
def TaskMoved (b : Batch) (i : ℕ) (call : ToolCall) (task : Task) (action : TaskAction)
    (b' : Batch) : Prop :=
  ∃ task' updates permits,
    b' = { b with
      tasks := Function.update b.tasks i (some task')
      permits := permits
      wire := b.wire ++ updates.map fun u ↦ (i, u) } ∧
    (task'.sent = task.sent ∧ (∀ u ∈ updates, u.isTerminal = false ∧ u.isPending = false) ∨
      action = .report ∧ task.sent = none ∧
        ∃ outcome, task'.sent = some outcome ∧ updates = [emitOutcome call outcome])

theorem taskMoved_silent (b : Batch) (i : ℕ) (call : ToolCall) {task task' : Task}
    (hsent : task'.sent = task.sent) (action : TaskAction) (permits : ℕ) :
    TaskMoved b i call task action
      { b with tasks := Function.update b.tasks i (some task'), permits := permits } :=
  ⟨task', [], permits, by rw [List.map_nil, List.append_nil], .inl ⟨hsent, by simp⟩⟩

theorem taskStep_moved {cfg : Config} {b b' : Batch} {i : ℕ} {call : ToolCall} {task : Task}
    {action : TaskAction} (h : b.taskStep cfg i call task action = some b') :
    TaskMoved b i call task action b' := by
  unfold Batch.taskStep at h
  split at h
  case h_1 | h_2 | h_4 =>
    split_ifs at h
    cases h
    exact taskMoved_silent b i call rfl _ _
  case h_3 =>
    cases h
    refine ⟨.calling, [emitInProgress call], b.permits, rfl, .inl ⟨rfl, ?_⟩⟩
    intro u hu
    rw [List.mem_singleton.mp hu]
    exact ⟨rfl, rfl⟩
  case h_6 outcome permit =>
    cases h
    exact ⟨_, [emitOutcome call outcome], b.permits, rfl, .inr ⟨rfl, rfl, outcome, rfl, rfl⟩⟩
  case h_5 | h_7 =>
    cases h
    exact taskMoved_silent b i call rfl _ _
  case h_8 | h_9 | h_11 => cases h
  case h_10 hreported hover =>
    cases h
    have hsent : (Task.ended none).sent = task.sent := by
      cases task with
      | reported outcome permit => exact (hreported outcome permit rfl).elim
      | ended outcome => exact (hover outcome rfl).elim
      | _ => rfl
    exact taskMoved_silent b i call hsent _ _

theorem silent_updates (sent : List CallUpdate) {updates : List CallUpdate}
    (h : ∀ u ∈ updates, u.isTerminal = false ∧ u.isPending = false) :
    (sent ++ updates).filter CallUpdate.isTerminal = sent.filter CallUpdate.isTerminal ∧
      (sent ++ updates).any CallUpdate.isPending = sent.any CallUpdate.isPending := by
  have hterminal : updates.filter CallUpdate.isTerminal = [] :=
    List.filter_eq_nil_iff.mpr fun u hu ↦ by simp [(h u hu).1]
  have hpending : updates.any CallUpdate.isPending = false :=
    List.any_eq_false.mpr fun u hu ↦ by simp [(h u hu).2]
  rw [List.filter_append, hterminal, List.append_nil, List.any_append, hpending, Bool.or_false]
  exact ⟨rfl, rfl⟩

namespace CallView.Ok

variable {v : CallView} {call : ToolCall} {i : ℕ} {task task' : Task} {updates : List CallUpdate}

theorem silent (h : v.Ok call i) (htask : v.task = some task) (hsent : task'.sent = task.sent)
    (hsilent : ∀ u ∈ updates, u.isTerminal = false ∧ u.isPending = false) :
    CallView.Ok { v with task := some task', updates := v.updates ++ updates } call i := by
  obtain ⟨hterminals, hannounced⟩ := silent_updates v.updates hsilent
  obtain ⟨phase, runnable, vtask, result, sent⟩ := v
  cases htask
  cases phase with
  | preflight idx => cases h.1
  | executing cancelled =>
    refine ⟨hannounced.trans h.1, ?_⟩
    cases runnable with
    | false => cases h.2.1
    | true =>
      have hok := h.2
      simp only [TaskOk, Unanswered, terminals, if_true] at hok ⊢
      rw [hsent, hterminals]
      exact hok
  | returned =>
    simp only [CallView.Ok, Settled, terminals, announced] at h ⊢
    rw [hterminals, hannounced]
    exact h

theorem report (h : v.Ok call i) (hrunning : v.phase ≠ .returned) (htask : v.task = some task)
    (hunsent : task.sent = none) {outcome : InvokeOutcome} (hsent : task'.sent = some outcome) :
    CallView.Ok { v with
      task := some task', updates := v.updates ++ [emitOutcome call outcome] } call i := by
  obtain ⟨phase, runnable, vtask, result, sent⟩ := v
  cases htask
  cases phase with
  | preflight idx => cases h.1
  | returned => exact absurd rfl hrunning
  | executing cancelled =>
    have hannounced : (sent ++ [emitOutcome call outcome]).any CallUpdate.isPending = true := by
      rw [List.any_append, Bool.or_eq_true]
      exact .inl h.1
    refine ⟨hannounced, ?_⟩
    cases runnable with
    | false => cases h.2.1
    | true =>
      have hok := h.2
      simp only [TaskOk, Unanswered, terminals, if_true] at hok ⊢
      rw [hunsent] at hok
      rw [hsent, List.filter_append, hok.2]
      refine ⟨hok.1, ?_⟩
      cases outcome with
      | done result => rfl
      | failed msg => rfl

theorem joined_none {cancelled : Bool} (h : v.Ok call i) (hphase : v.phase = .executing cancelled)
    (htask : v.task = some (.ended none)) : CallView.Ok { v with task := none } call i := by
  obtain ⟨phase, runnable, vtask, result, sent⟩ := v
  cases hphase
  cases htask
  cases runnable with
  | false => cases h.2.1
  | true => exact ⟨h.1, .inl h.2⟩

theorem joined_some {cancelled : Bool} {outcome : InvokeOutcome} (h : v.Ok call i)
    (hphase : v.phase = .executing cancelled) (htask : v.task = some (.ended (some outcome))) :
    v.result = none ∧ CallView.Ok { v with
      task := none, result := some (outcomeToResult call outcome) } call i := by
  obtain ⟨phase, runnable, vtask, result, sent⟩ := v
  cases hphase
  cases htask
  cases runnable with
  | false => cases h.2.1
  | true => exact ⟨h.2.1, h.1, .inr ⟨_, _, rfl, h.2.2, agrees_outcome call outcome⟩⟩

theorem launch {idx : ℕ} (h : v.Ok call i) (hphase : v.phase = .preflight idx) (hi : i < idx) :
    CallView.Ok { v with
      phase := .executing false, task := if v.runnable then some .waiting else none } call i := by
  obtain ⟨phase, runnable, vtask, result, sent⟩ := v
  cases hphase
  have hok := h.2
  rw [if_pos hi] at hok
  refine ⟨hok.1, ?_⟩
  cases runnable with
  | false => exact ⟨rfl, hok.2⟩
  | true => exact hok.2

/-- The preflight loop goes on past another call. -/
theorem next {idx : ℕ} (h : v.Ok call i) (hphase : v.phase = .preflight idx) (hne : i ≠ idx) :
    CallView.Ok { v with phase := .preflight (idx + 1) } call i := by
  have hlt : i < idx + 1 ↔ i < idx := by omega
  rw [CallView.Ok, hphase] at h
  refine ⟨h.1, ?_⟩
  simp only [hlt]
  exact h.2

end CallView.Ok

namespace BatchOk

variable {cfg : Config} {b b' : Batch}

theorem view_moved (b : Batch) (i j : ℕ) (task : Task) (permits : ℕ) (updates : List CallUpdate) :
    ({ b with
      tasks := Function.update b.tasks i (some task)
      permits := permits
      wire := b.wire ++ updates.map fun u ↦ (i, u) } : Batch).view j =
      if j = i then { b.view i with task := some task, updates := b.updates i ++ updates }
      else b.view j := by
  have hupdates : ({ b with
      tasks := Function.update b.tasks i (some task)
      permits := permits
      wire := b.wire ++ updates.map fun u ↦ (i, u) } : Batch).updates j =
        b.updates j ++ if j = i then updates else [] :=
    updates_of_wire rfl j
  split_ifs at hupdates ⊢ with hij
  · subst hij
    rw [Batch.view, hupdates]
    simp [Batch.view]
  · rw [Batch.view, hupdates]
    simp [Batch.view, hij]

theorem taskStep (h : BatchOk b) {i : ℕ} {call : ToolCall} {task : Task} {action : TaskAction}
    (hcall : b.calls[i]? = some call) (htask : b.tasks i = some task)
    (hclean : action = .report → b.phase ≠ .returned)
    (hmoved : TaskMoved b i call task action b') : BatchOk b' := by
  obtain ⟨task', updates, permits, rfl, hsent⟩ := hmoved
  refine h.set (i := i) rfl rfl h.appended (fun j call' hne hok ↦ ?_) fun call' hcall' hok ↦ ?_
  · rw [view_moved, if_neg hne]
    exact hok
  · cases hcall.symm.trans hcall'
    rw [view_moved, if_pos rfl]
    rcases hsent with ⟨hsent, hsilent⟩ | ⟨haction, hunsent, outcome, hsent, rfl⟩
    · exact hok.silent htask hsent hsilent
    · exact hok.report (hclean haction) htask hunsent hsent

theorem joinResult_length (calls : List ToolCall) (results : List (Option ToolResult))
    (cancelled : Bool) (i : ℕ) (outcome : ToolCall → InvokeOutcome) :
    (joinResult calls results cancelled i outcome).length = results.length := by
  rw [joinResult]
  split
  · split_ifs
    · rfl
    · exact List.length_set
  · rfl

theorem joinResult_ne (calls : List ToolCall) (results : List (Option ToolResult))
    (cancelled : Bool) {i j : ℕ} (hne : j ≠ i) (outcome : ToolCall → InvokeOutcome) :
    (joinResult calls results cancelled i outcome)[j]? = results[j]? := by
  rw [joinResult]
  split
  · split_ifs
    · rfl
    · exact List.getElem?_set_ne hne.symm
  · rfl

theorem view_setTask_ne (b : Batch) {i j : ℕ} (hne : j ≠ i) (task : Option Task) :
    (b.setTask i task).view j = b.view j := by
  rw [Batch.view, Batch.setTask]
  dsimp only
  rw [Function.update_of_ne hne]
  rfl

theorem join (h : BatchOk b) {i : ℕ} {cancelled : Bool} {outcome : Option InvokeOutcome}
    (hphase : b.phase = .executing cancelled) (htask : b.tasks i = some (.ended outcome)) :
    BatchOk (b.join cancelled i outcome) := by
  have hnotReturned : b.phase = .returned → False := by
    rw [hphase]
    exact fun hreturned ↦ by cases hreturned
  cases outcome with
  | none =>
    refine h.set (i := i) rfl rfl (fun hreturned ↦ (hnotReturned hreturned).elim)
      (fun j call hne hok ↦ ?_) fun call hcall hok ↦ ?_
    · show ((b.setTask i none).view j).Ok call j
      rw [view_setTask_ne b hne]
      exact hok
    · have hview : (b.join cancelled i none).view i = { b.view i with task := none } := by
        simp [Batch.view, Batch.join, Batch.setTask, Batch.updates]
        rfl
      rw [hview]
      exact hok.joined_none hphase htask
  | some outcome =>
    refine h.set (i := i) rfl (joinResult_length _ _ _ _ _)
      (fun hreturned ↦ (hnotReturned hreturned).elim) (fun j call hne hok ↦ ?_)
      fun call hcall hok ↦ ?_
    · have hview : (b.join cancelled i (some outcome)).view j = b.view j := by
        simp [Batch.view, Batch.join, Batch.setTask, Batch.updates, joinResult_ne _ _ _ hne,
          Function.update_of_ne hne]
        rfl
      rw [hview]
      exact hok
    · obtain ⟨hnone, hok⟩ := hok.joined_some hphase htask
      obtain ⟨hi, -⟩ := List.getElem?_eq_some_iff.mp hcall
      have hresult : b.results[i]?.join = none := hnone
      have hview : (b.join cancelled i (some outcome)).view i =
          { b.view i with task := none, result := some (outcomeToResult call outcome) } := by
        simp [Batch.view, Batch.join, Batch.setTask, Batch.updates, joinResult, hcall, hresult,
          List.getElem?_set_self (h.length.symm ▸ hi : i < b.results.length)]
      rw [hview]
      exact hok

theorem answered (h : BatchOk b) {idx : ℕ} {call : ToolCall} (hcall : b.calls[idx]? = some call)
    (hphase : b.phase = .preflight idx) (updates : List CallUpdate) {update : CallUpdate}
    (result : ToolResult) (hpending : updates.any CallUpdate.isPending = true)
    (hterminal : updates.filter CallUpdate.isTerminal = [update])
    (hagrees : Agrees call result update) :
    BatchOk { b with
      phase := .preflight (idx + 1)
      wire := b.wire ++ updates.map fun u ↦ (idx, u)
      results := b.results.set idx (some result) } := by
  obtain ⟨hi, -⟩ := List.getElem?_eq_some_iff.mp hcall
  refine h.set (i := idx) rfl List.length_set (fun hreturned ↦ by cases hreturned)
    (fun j call' hne hok ↦ ?_) fun call' hcall' hok ↦ ?_
  · have hok' := hok.next hphase hne
    convert hok' using 1
    simp [Batch.view, Batch.updates, List.filter_map, Function.comp_def, hne.symm,
      List.getElem?_set_ne]
  · cases hcall.symm.trans hcall'
    rw [CallView.Ok, show (b.view idx).phase = .preflight idx from hphase] at hok
    obtain ⟨htask, hok⟩ := hok
    rw [if_neg (Nat.lt_irrefl idx)] at hok
    obtain ⟨hrunnable, hupdates, -⟩ := hok
    have hview : ({ b with
          phase := .preflight (idx + 1)
          wire := b.wire ++ updates.map fun u ↦ (idx, u)
          results := b.results.set idx (some result) } : Batch).view idx =
        ⟨.preflight (idx + 1), false, none, some result, updates⟩ := by
      have hi' : idx < b.results.length := h.length.symm ▸ hi
      have hsent : b.updates idx = [] := hupdates
      have hnot : decide (idx ∈ b.runnable) = false := hrunnable
      have htask' : b.tasks idx = none := htask
      rw [Batch.view, updates_of_wire (b := b) rfl idx, hsent, if_pos rfl, List.nil_append]
      simp only [hnot, htask', List.getElem?_set_self hi']
      rfl
    rw [hview]
    refine ⟨rfl, ?_⟩
    rw [if_pos (Nat.lt_succ_self idx)]
    exact ⟨hpending, update, result, rfl, hterminal, hagrees⟩

theorem preflight (h : BatchOk b) {idx : ℕ} (hphase : b.phase = .preflight idx)
    (skill : List ToolResultContent × Bool) : BatchOk (b.preflight cfg skill idx) := by
  have hview (i : ℕ) (call : ToolCall) (hcall : b.calls[i]? = some call) :
      b.tasks i = none ∧
      if i < idx then (b.view i).announced = true ∧
        if (b.view i).runnable then (b.view i).Unanswered else (b.view i).Settled call
      else (b.view i).runnable = false ∧ (b.view i).updates = [] ∧ (b.view i).result = none := by
    have hok := h.ok i call hcall
    rw [CallView.Ok, show (b.view i).phase = .preflight idx from hphase] at hok
    exact hok
  rw [Batch.preflight]
  split
  · next hend =>
    refine ⟨h.length, fun i call hcall ↦ ?_, fun hreturned ↦ by cases hreturned⟩
    have hbefore : i < idx := (List.getElem?_eq_some_iff.mp hcall).1.trans_le
      (List.getElem?_eq_none_iff.mp hend)
    have hok := (h.ok i call hcall).launch hphase hbefore
    convert hok using 1
    simp [Batch.view, Batch.updates]
  · next call hcall =>
    split_ifs
    · apply h.settle
      intro i call hcall
      obtain ⟨-, hok⟩ := hview i call hcall
      have hmem : i ∈ List.range b.calls.length :=
        List.mem_range.mpr (List.getElem?_eq_some_iff.mp hcall).1
      split_ifs at hok with hbefore hrunnable
      · exact .inl ⟨hok.2, hmem, hok.1.trans (decide_eq_true hbefore).symm⟩
      · exact .inr hok
      · have hnone : (b.view i).updates = [] := hok.2.1
        refine .inl ⟨⟨hok.2.2, ?_⟩, hmem, ?_⟩
        · rw [CallView.terminals, hnone, List.filter_nil]
        · rw [CallView.announced, hnone, decide_eq_false hbefore, List.any_nil]
    · have hanswered := h.answered hcall hphase
        [emitPending call, emitInProgress call, emitCompleted call _]
        ⟨call.providerId, skill.1, skill.2⟩ rfl rfl ⟨rfl, rfl, rfl⟩
      simpa [Batch.send] using hanswered
    · have hanswered := h.answered hcall hphase
        [emitPending call, emitFailed call ("unknown tool: " ++ call.name)] _ rfl rfl ⟨rfl, rfl⟩
      simpa [Batch.send] using hanswered
    · refine h.set (i := idx) rfl rfl (fun hreturned ↦ by cases hreturned)
        (fun j call' hne hok ↦ ?_) fun call' hcall' hok ↦ ?_
      · have hok' := hok.next hphase hne
        convert hok' using 1
        simp [Batch.view, Batch.updates, Batch.send, hne.symm, hne]
      · obtain ⟨htask, hok⟩ := hview idx call hcall
        rw [if_neg (Nat.lt_irrefl idx)] at hok
        obtain ⟨-, hupdates, hresult⟩ := hok
        have hsent : b.updates idx = [] := hupdates
        have hview' : ({ b with
              phase := .preflight (idx + 1)
              wire := b.wire ++ [emitPending call].map fun u ↦ (idx, u)
              runnable := b.runnable ++ [idx] } : Batch).view idx =
            ⟨.preflight (idx + 1), true, none, none, [emitPending call]⟩ := by
          have hresult' : b.results[idx]?.join = none := hresult
          rw [Batch.view, updates_of_wire (b := b) rfl idx, hsent, if_pos rfl, List.nil_append]
          simp [htask, hresult']
        show CallView.Ok (Batch.view { b with
          phase := .preflight (idx + 1)
          wire := b.wire ++ [emitPending call].map fun u ↦ (idx, u)
          runnable := b.runnable ++ [idx] } idx) call' idx
        rw [hview']
        refine ⟨rfl, ?_⟩
        rw [if_pos (Nat.lt_succ_self idx)]
        exact ⟨rfl, rfl, rfl⟩

theorem allJoined (h : BatchOk b) {cancelled : Bool} (hphase : b.phase = .executing cancelled)
    (hdone : ∀ i ∈ b.runnable, ∀ task ∈ b.tasks i, task.sent = none) :
    BatchOk (b.settle (fun _ ↦ true) b.runnable) := by
  apply h.settle
  intro i call hcall
  have hok := h.ok i call hcall
  rw [CallView.Ok, show (b.view i).phase = .executing cancelled from hphase] at hok
  obtain ⟨hannounced, hok⟩ := hok
  split_ifs at hok with hrunnable
  · have hmem : i ∈ b.runnable := of_decide_eq_true hrunnable
    rw [CallView.TaskOk] at hok
    cases htask : b.tasks i with
    | none =>
      rw [show (b.view i).task = none from htask] at hok
      rcases hok with hopen | hend
      · exact .inl ⟨hopen, hmem, hannounced⟩
      · exact .inr ⟨hannounced, hend⟩
    | some task =>
      rw [show (b.view i).task = some task from htask] at hok
      dsimp only at hok
      rw [hdone i hmem task htask] at hok
      exact .inl ⟨hok, hmem, hannounced⟩
  · exact .inr ⟨hannounced, hok.2⟩

theorem step (h : BatchOk b) {a : BatchAction} (hclean : CleanStep b a)
    (hstep : b.step cfg a = some b') : BatchOk b' := by
  cases a with
  | cancel =>
    cases hstep
    exact ⟨h.length, h.ok, h.appended⟩
  | preflight skill =>
    rw [Batch.step] at hstep
    split at hstep
    · next idx hphase =>
      cases hstep
      exact h.preflight hphase skill
    · cases hstep
  | task i action =>
    rw [Batch.step] at hstep
    split at hstep
    · next task call htask hcall =>
      exact h.taskStep hcall htask (fun haction ↦ by subst haction; exact hclean)
        (taskStep_moved hstep)
    · cases hstep
  | cancelSeen =>
    rw [Batch.step] at hstep
    split at hstep
    · next hphase =>
      split_ifs at hstep
      cases hstep
      refine ⟨h.length, fun i call hcall ↦ ?_, fun hreturned ↦ by cases hreturned⟩
      have hok := h.ok i call hcall
      rw [CallView.Ok, show (b.view i).phase = .executing false from hphase] at hok
      exact hok
    · cases hstep
  | joined i =>
    rw [Batch.step] at hstep
    split at hstep
    · next cancelled outcome hphase htask =>
      cases hstep
      exact h.join hphase htask
    · cases hstep
  | allJoined =>
    rw [Batch.step] at hstep
    split at hstep
    · next cancelled hphase =>
      split_ifs at hstep with hall
      cases hstep
      apply h.allJoined hphase
      intro i hi task htask
      have hnone := List.all_eq_true.mp hall i hi
      rw [htask] at hnone
      cases hnone
    · cases hstep
  | drainTimedOut =>
    rw [Batch.step] at hstep
    split at hstep
    · next hphase =>
      split_ifs at hstep with hall
      cases hstep
      apply h.allJoined hphase
      intro i hi task htask
      have hrunning := List.all_eq_true.mp (Bool.and_eq_true_iff.mp hall).2 i hi
      cases task with
      | reported outcome permit => exact absurd htask (hclean i outcome permit)
      | ended outcome =>
        rw [htask] at hrunning
        cases hrunning
      | _ => rfl
    · cases hstep
  | aborted i =>
    rw [Batch.step] at hstep
    split at hstep
    · next hphase =>
      cases hstep
      refine ⟨h.length, fun j call hcall ↦ ?_, fun _ ↦ h.appended hphase⟩
      have hok := h.ok j call hcall
      rw [CallView.Ok, show (b.view j).phase = .returned from hphase] at hok
      rw [CallView.Ok, show ((b.setTask i none).view j).phase = .returned from hphase]
      exact hok
    · cases hstep

theorem appended_at (h : BatchOk b) (hreturned : b.phase = .returned) {i : ℕ} {call : ToolCall}
    {result : ToolResult} (hcall : b.calls[i]? = some call)
    (hresult : b.results[i]?.join = some result) :
    b.appended[i]? = some (.toolResult (settledResult call (some result))) := by
  have hslot : b.results[i]? = some (some result) := Option.join_eq_some_iff.mp hresult
  rw [h.appended hreturned, appendResults, List.nil_append, List.getElem?_map,
    List.getElem?_zipWith, hcall, hslot]
  rfl

theorem endsOnce (h : BatchOk b) : EndsOnce b := by
  intro i call hcall
  have hok := h.ok i call hcall
  have hended (hannounced : (b.view i).announced = true)
      (hend : (b.view i).Unanswered ∨ (b.view i).Settled call ∨
        ∃ outcome, (b.view i).terminals = [emitOutcome call outcome]) :
      (b.terminals i).length ≤ 1 ∧ (b.announced i = false → b.terminals i = []) := by
    refine ⟨?_, fun hfalse ↦ absurd (hannounced.symm.trans hfalse) (by simp)⟩
    rcases hend with ⟨-, hnone⟩ | ⟨update, result, -, hone, -⟩ | ⟨outcome, hone⟩
    · exact (congrArg List.length hnone).trans_le (Nat.zero_le 1)
    · exact (congrArg List.length hone).le
    · exact (congrArg List.length hone).le
  rw [CallView.Ok] at hok
  cases hphase : b.phase with
  | preflight idx =>
    rw [show (b.view i).phase = .preflight idx from hphase] at hok
    refine (and_assoc.mp ⟨?_, fun hreturned ↦ by cases hreturned⟩)
    obtain ⟨-, hok⟩ := hok
    split_ifs at hok
    · exact hended hok.1 (.inl hok.2)
    · exact hended hok.1 (.inr (.inl hok.2))
    · have hnone : b.terminals i = [] := by
        rw [Batch.terminals, show b.updates i = [] from hok.2.1, List.filter_nil]
      rw [hnone]
      exact ⟨Nat.zero_le 1, fun _ ↦ rfl⟩
  | executing cancelled =>
    rw [show (b.view i).phase = .executing cancelled from hphase] at hok
    refine (and_assoc.mp ⟨?_, fun hreturned ↦ by cases hreturned⟩)
    obtain ⟨hannounced, hok⟩ := hok
    split_ifs at hok
    · apply hended hannounced
      rw [CallView.TaskOk] at hok
      split at hok
      · exact hok.imp_right .inl
      · split at hok
        · exact .inl hok
        · next outcome hsent => exact .inr (.inr ⟨outcome, hok.2⟩)
    · exact hended hannounced (.inr (.inl hok.2))
  | returned =>
    rw [show (b.view i).phase = .returned from hphase] at hok
    obtain ⟨hend, hnone⟩ := hok
    refine ⟨?_, hnone, fun _ hannounced ↦ ?_⟩
    · cases hannounced : b.announced i with
      | false => exact (congrArg List.length (hnone hannounced)).trans_le (Nat.zero_le 1)
      | true => exact (hended hannounced (.inr (.inl (hend hannounced)))).1
    · obtain ⟨update, result, hresult, hone, hagrees⟩ := hend hannounced
      exact ⟨update, result, hone, hagrees, h.appended_at hphase hcall hresult⟩

end BatchOk

/-- In a run with no task caught between sending its outcome and being joined, every call ends
once. -/
theorem calls_end_once (cfg : Config) (maxParallelTools : ℕ) (calls : List ToolCall) (cancel : Bool)
    (actions : List BatchAction)
    (hclean : ∀ pre a, pre ++ [a] <+: actions → ∀ b,
      batchRun cfg maxParallelTools calls cancel pre = some b → CleanStep b a)
    (b : Batch) (hrun : batchRun cfg maxParallelTools calls cancel actions = some b) :
    EndsOnce b := by
  have hok : BatchOk b := foldlM_invariant_of_allowed (.start maxParallelTools calls cancel)
    (fun _ _ _ h hclean hstep ↦ h.step hclean hstep) hclean hrun
  exact hok.endsOnce

def shellConfig : Config where
  maxRounds := 0
  stopMaxRejections := 3
  maxHandoffs := 10
  maxHistoryBytes := 16 * 1024 * 1024
  maxContextTokens := 200000
  maxOutputTokens := 32768
  toolTimeoutSecs := 60
  tools := [("dev__shell", "shell")]

def shellCall : ToolCall := ⟨"call_1", "dev__shell", .obj []⟩

def cancelledBatch : List BatchAction :=
  [.preflight ([], false), .preflight ([], false), .cancel, .cancelSeen, .task 0 .refuse,
    .task 0 .report, .task 0 .finish, .joined 0, .allJoined]

theorem cancelledBatch_clean : ∀ pre a, pre ++ [a] <+: cancelledBatch → ∀ b,
    batchRun shellConfig 8 [shellCall] false pre = some b → CleanStep b a := by
  apply forall_step_of_lt
  intro n hn b hb
  have hn' : n < 9 := hn
  by_cases hreport : n = 5
  · subst hreport
    cases hb
    intro hreturned
    cases hreturned
  · interval_cases n
    all_goals trivial

theorem cancelledBatch_endsOnce : ∃ b,
    batchRun shellConfig 8 [shellCall] false cancelledBatch = some b ∧ EndsOnce b := by
  have hruns : (batchRun shellConfig 8 [shellCall] false cancelledBatch).isSome = true := by decide
  obtain ⟨b, hb⟩ := Option.isSome_iff_exists.mp hruns
  exact ⟨b, hb, calls_end_once shellConfig 8 [shellCall] false cancelledBatch cancelledBatch_clean
    b hb⟩

def timedOutBatch : List BatchAction :=
  [.preflight ([], false), .preflight ([], false), .task 0 .acquire, .task 0 .begin, .cancel,
    .cancelSeen, .task 0 (.ended (.returned (.ok ([.text "done"], false)))), .task 0 .report,
    .drainTimedOut]

theorem timedOut_ends_twice :
    ∃ b, batchRun shellConfig 8 [shellCall] false timedOutBatch = some b ∧ ¬EndsOnce b := by
  have htwice : (batchRun shellConfig 8 [shellCall] false timedOutBatch).map (fun b ↦
      ((b.terminals 0).length, b.calls.length)) = some (2, 1) := by decide
  obtain ⟨b, hb, hlengths⟩ := Option.map_eq_some_iff.mp htwice
  obtain ⟨hlength, hcalls⟩ := Prod.mk.inj hlengths
  refine ⟨b, hb, fun hends ↦ ?_⟩
  have hcall : b.calls[0]? = some b.calls[0] := List.getElem?_eq_getElem _
  have hone := (hends 0 _ hcall).1
  omega

end Buzz.Agent
