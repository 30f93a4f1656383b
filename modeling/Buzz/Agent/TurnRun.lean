import Buzz.Agent.Turn

namespace Buzz.Agent

open Buzz.Lib

def Answering (history : List HistoryItem) (calls : List ToolCall)
    (results : List (Option ToolResult)) : Prop :=
  ∃ before text, Paired before ∧ history = before ++ [.assistant text calls] ∧ Fits calls results

def Phase.Sound (history : List HistoryItem) : Phase → Prop
  | .preflight calls results _ _ | .executing calls results _ _ _ => Answering history calls results
  | _ => Paired history

structure Session.Inv (s : Session) : Prop where
  log : ∀ e ∈ s.log, Paired e.history
  sound : s.phase.Sound s.history

namespace Session.Inv

variable {s : Session} {cfg : Config}

theorem new : Session.new.Inv := ⟨nofun, .nil⟩

theorem log_concat (h : ∀ e ∈ s.log, Paired e.history) {event : Event}
    (hevent : Paired event.history) : ∀ e ∈ s.log ++ [event], Paired e.history := by
  intro e he
  rcases List.mem_append.mp he with hold | hnew
  · exact h e hold
  · rw [List.mem_singleton.mp hnew]
    exact hevent

theorem finish (hlog : ∀ e ∈ s.log, Paired e.history) (h : Paired s.history)
    (result : Except AgentError StopReason) : (s.finish result).Inv :=
  ⟨log_concat hlog h, h⟩

theorem request (hlog : ∀ e ∈ s.log, Paired e.history) (h : Paired s.history) : s.request.Inv :=
  ⟨log_concat hlog h, h⟩

theorem handoffSkipped (hlog : ∀ e ∈ s.log, Paired e.history) (h : Paired s.history) :
    (s.handoffSkipped cfg).Inv :=
  request hlog h.truncateHistory

theorem handlePrompt (hlog : ∀ e ∈ s.log, Paired e.history) (h : Paired s.history)
    (blocks : List ContentBlock) : (s.handlePrompt blocks).Inv := by
  rw [Session.handlePrompt]
  dsimp only
  split
  · apply finish
    · exact hlog
    · exact h
  · split_ifs
    · apply finish
      · exact hlog
      · exact h
    · exact ⟨hlog, h.concat_user _⟩

theorem steers_paired (steers : List (List ContentBlock)) :
    Paired (steers.filterMap steerTurn) := by
  induction steers with
  | nil => exact .nil
  | cons blocks steers ih =>
    rw [List.filterMap_cons]
    cases hturn : steerTurn blocks with
    | none => exact ih
    | some item =>
      rw [steerTurn] at hturn
      split at hturn
      · split_ifs at hturn
        rw [← Option.some.inj hturn]
        exact .user _ ih
      · nomatch hturn

theorem loopTop (hlog : ∀ e ∈ s.log, Paired e.history) (h : Paired s.history) :
    (s.loopTop cfg).Inv := by
  have hsteered : Paired s.drainSteers.history := h.append (steers_paired s.steers)
  rw [Session.loopTop]
  split_ifs
  · exact finish hlog h _
  · exact finish hlog h _
  · dsimp only
    split_ifs
    · exact ⟨log_concat hlog hsteered, hsteered⟩
    · exact handoffSkipped hlog hsteered

theorem handleSummary (hlog : ∀ e ∈ s.log, Paired e.history) (h : Paired s.history)
    (result : Except AgentError String) : (s.handleSummary cfg result).Inv := by
  cases result with
  | error e => exact handoffSkipped hlog h
  | ok summary =>
    rw [Session.handleSummary]
    split_ifs
    · exact handoffSkipped hlog h
    · exact ⟨hlog, .nil⟩

theorem handleCompacted (hlog : ∀ e ∈ s.log, Paired e.history) (summary : String)
    (currentPrompt : Option String) (outputs : List (String × String)) :
    (s.handleCompacted summary currentPrompt outputs).Inv := by
  cases currentPrompt with
  | none => exact request hlog (.user _ .nil)
  | some prompt => exact request hlog (.user _ (.user _ .nil))

theorem recordUsage_fields (response : LlmResponse) :
    (s.recordUsage response).history = s.history ∧ (s.recordUsage response).log = s.log := by
  rw [Session.recordUsage]
  cases response.inputTokens <;> cases response.outputTokens <;> exact ⟨rfl, rfl⟩

theorem handleResponse (hlog : ∀ e ∈ s.log, Paired e.history) (h : Paired s.history)
    (response : LlmResponse) : (s.handleResponse cfg response).Inv := by
  obtain ⟨hhistory, hlog'⟩ := recordUsage_fields (s := s) response
  rw [← hhistory] at h
  rw [← hlog'] at hlog
  rw [Session.handleResponse]
  dsimp only
  generalize s.recordUsage response = s at h hlog
  split_ifs
  · exact finish hlog h _
  · exact ⟨hlog, h.concat_answer response.text⟩
  · apply finish
    · exact hlog
    · exact h.concat_answer response.text
  · exact ⟨hlog, s.history, response.text, h, rfl, .replicate _⟩

theorem handleObjections (hlog : ∀ e ∈ s.log, Paired e.history) (h : Paired s.history)
    (objections : List (String × String)) : (s.handleObjections objections).Inv := by
  rw [Session.handleObjections]
  split_ifs
  · exact finish hlog h _
  · exact ⟨hlog, h.pushHookOutputs⟩

theorem fillCancelled_fits {calls : List ToolCall} {results : List (Option ToolResult)}
    (h : Fits calls results) (idxs : List ℕ) : Fits calls (fillCancelled calls results idxs) := by
  rw [fillCancelled]
  induction idxs generalizing results with
  | nil => exact h
  | cons i idxs ih =>
    rw [List.foldl_cons]
    apply ih
    split
    · next call _ hcall => exact h.set hcall rfl
    · exact h

theorem outcome_providerId (cancel : Bool) (call : ToolCall) (ending : ToolEnd) :
    (outcomeToResult call (invokeToolInner cfg cancel call ending)).providerId =
      call.providerId := by
  cases ending with
  | uncalled => rfl
  | returned result =>
    match result with
    | .ok (content, isError) => rfl
    | .error .cancelled => rfl
    | .error (.invalidParams s) | .error (.llm s) | .error (.llmAuth s)
    | .error (.llmModelNotFound s) | .error (.mcp s) => rfl
  | timedOut => cases cancel <;> rfl

theorem joinResult_fits {calls : List ToolCall} {results : List (Option ToolResult)}
    {outcome : ToolCall → InvokeOutcome} (h : Fits calls results) (cancelled : Bool) (i : ℕ)
    (hids : ∀ call, (outcomeToResult call (outcome call)).providerId = call.providerId) :
    Fits calls (joinResult calls results cancelled i outcome) := by
  rw [joinResult]
  split
  · next call hcall =>
    split_ifs
    · exact h
    · exact h.set hcall (hids call)
  · exact h

theorem settle {calls : List ToolCall} {results : List (Option ToolResult)}
    (hlog : ∀ e ∈ s.log, Paired e.history) (h : Answering s.history calls results) :
    (s.settle calls results).Inv := by
  obtain ⟨before, text, hbefore, hhistory, hfits⟩ := h
  have hpaired : Paired (appendResults s.history calls results) := by
    rw [hhistory]
    exact hbefore.appendResults hfits
  rw [Session.settle]
  dsimp only
  split_ifs
  · apply finish
    · exact hlog
    · exact hpaired
  · exact ⟨hlog, hpaired⟩

theorem preflightStep {calls : List ToolCall} {results : List (Option ToolResult)}
    (hlog : ∀ e ∈ s.log, Paired e.history) (h : Answering s.history calls results)
    (skill : List ToolResultContent × Bool) (runnable : List ℕ) (idx : ℕ) :
    (s.preflightStep cfg skill calls results runnable idx).Inv := by
  obtain ⟨before, text, hbefore, hhistory, hfits⟩ := h
  rw [Session.preflightStep]
  split
  · exact ⟨hlog, before, text, hbefore, hhistory, hfits⟩
  · next call hcall =>
    split_ifs
    · exact settle hlog ⟨before, text, hbefore, hhistory, fillCancelled_fits hfits _⟩
    · exact ⟨hlog, before, text, hbefore, hhistory, hfits.set hcall rfl⟩
    · exact ⟨hlog, before, text, hbefore, hhistory, hfits.set hcall rfl⟩
    · exact ⟨hlog, before, text, hbefore, hhistory, hfits⟩

end Session.Inv

theorem step_inv {cfg : Config} {s s' : Session} {a : Action} (h : s.Inv)
    (hstep : step cfg s a = some s') : s'.Inv := by
  obtain ⟨hlog, hsound⟩ := h
  unfold step at hstep
  split at hstep
  case h_1 blocks hphase =>
    rw [hphase] at hsound
    cases hstep
    exact .handlePrompt hlog hsound blocks
  case h_2 => nomatch hstep
  case h_3 | h_4 | h_5 =>
    cases hstep
    exact ⟨hlog, hsound⟩
  case h_6 hphase =>
    rw [hphase] at hsound
    cases hstep
    exact .loopTop hlog hsound
  case h_7 result hphase =>
    rw [hphase] at hsound
    cases hstep
    exact .handleSummary hlog hsound result
  case h_8 hphase | h_12 hphase =>
    rw [hphase] at hsound
    split_ifs at hstep
    cases hstep
    exact .finish hlog hsound _
  case h_9 summary currentPrompt outputs hphase =>
    cases hstep
    exact .handleCompacted hlog summary currentPrompt outputs
  case h_10 response hphase =>
    rw [hphase] at hsound
    cases hstep
    exact .handleResponse hlog hsound response
  case h_11 e hphase =>
    rw [hphase] at hsound
    cases hstep
    exact .finish hlog hsound _
  case h_13 outputs hphase =>
    rw [hphase] at hsound
    cases hstep
    exact .handleObjections hlog hsound outputs
  case h_14 calls results runnable idx skill hphase =>
    rw [hphase] at hsound
    cases hstep
    exact .preflightStep hlog hsound skill runnable idx
  case h_15 calls results runnable running cancelled i ending hphase =>
    rw [hphase] at hsound
    obtain ⟨before, text, hbefore, hhistory, hfits⟩ := hsound
    split_ifs at hstep
    cases hstep
    exact ⟨hlog, before, text, hbefore, hhistory, Session.Inv.joinResult_fits hfits cancelled i
      fun call ↦ Session.Inv.outcome_providerId s.cancel call ending⟩
  case h_16 hphase | h_17 hphase =>
    rw [hphase] at hsound
    split_ifs at hstep
    cases hstep
    exact ⟨hlog, hsound⟩
  case h_18 calls results runnable cancelled hphase | h_19 calls results runnable _ hphase =>
    rw [hphase] at hsound
    obtain ⟨before, text, hbefore, hhistory, hfits⟩ := hsound
    cases hstep
    exact .settle hlog
      ⟨before, text, hbefore, hhistory, Session.Inv.fillCancelled_fits hfits runnable⟩
  case h_20 => nomatch hstep

/-- Whatever happens in a session, the provider sees a valid conversation, and so does the end of
every turn. -/
theorem histories_paired (cfg : Config) (actions : List Action) (s : Session)
    (hrun : run cfg .new actions = some s) (e : Event) (he : e ∈ s.log) : Paired e.history := by
  have hinv : s.Inv := foldlM_invariant .new (fun _ _ _ h hstep ↦ step_inv h hstep) hrun
  exact hinv.log e he

def someConfig : Config where
  maxRounds := 0
  stopMaxRejections := 3
  maxHandoffs := 2
  maxHistoryBytes := 2 ^ 21
  maxContextTokens := 200000
  maxOutputTokens := 1000
  toolTimeoutSecs := 60
  tools := [("fs__read", "read"), ("fs___Stop", "_Stop")]

/-- One tool does not exist, the task of another panics, and the turn is cancelled meanwhile. -/
def someTurn : List Action :=
  [.prompt [.text "hi"], .round,
    .responded (.ok ⟨"", [⟨"c1", "fs__read", .null⟩, ⟨"c2", "missing", .null⟩], .toolUse, some 10,
      none⟩),
    .preflight ([], false), .preflight ([], false), .preflight ([], false), .cancel, .cancelSeen,
    .toolPanicked 0, .joined]

theorem someTurn_paired :
    ∃ s e, run someConfig .new someTurn = some s ∧ s.log[1]? = some e ∧ e.history.length = 4 ∧
      Paired e.history := by
  have hlog : (run someConfig .new someTurn).map
      (fun s ↦ (s.log[1]?).map fun e ↦ e.history.length) = some (some 4) := by decide +kernel
  obtain ⟨s, hs, hlast⟩ := Option.map_eq_some_iff.mp hlog
  obtain ⟨e, he, hlength⟩ := Option.map_eq_some_iff.mp hlast
  have hpaired := histories_paired someConfig someTurn s hs e (List.mem_of_getElem? he)
  exact ⟨s, e, hs, he, hlength, hpaired⟩

end Buzz.Agent
