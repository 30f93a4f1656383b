import Buzz.Db.Events
import Buzz.Workflow.EvalContext

namespace Buzz.Workflow.Scheduler

open Buzz.Lib Buzz.Lib.Decimal Buzz.Nostr

abbrev WorkflowKey := CommunityId × Uuid

/-- Nanoseconds in a second; the clock of a pod is read in nanoseconds since the epoch. -/
def second : ℤ := 10 ^ 9

def timestamp (now : ℤ) : ℤ := now / second

/-- The cron parser: an expression stands for the first due second after a time. -/
structure Cron where
  parse : String → Option (ℤ → Option ℤ)

section Instants

variable (U : Unicode) (C : Cron)

/-- How many words `split_whitespace` finds. -/
def wordCount : Bool → List Char → ℕ
  | _, [] => 0
  | inWord, c :: text =>
    if U.isWhitespace c then wordCount false text
    else (if inWord then 0 else 1) + wordCount true text

def normalizeCron (expr : String) : String :=
  match wordCount U false expr.toList with
  | 5 => "0 " ++ expr ++ " *"
  | 6 => expr ++ " *"
  | _ => expr

def cronFireInstant (expr : String) (now windowSecs : ℤ) : Option ℤ :=
  (C.parse (normalizeCron U expr)).bind fun next ↦
    (next (now - windowSecs * second)).filter fun t ↦ decide (t * second ≤ now)

def intervalFireInstant (dur : String) (now : ℤ) : Option ℤ :=
  match parseDurationSecs U dur with
  | .error _ => none
  | .ok intervalSecs =>
    if 0 < intervalSecs then
      let secs := Db.asI64 (UInt64.ofNat intervalSecs)
      Db.fromTimestamp (timestamp now / secs * secs)
    else none

def intervalShouldFire (dur : String) (lastFired : Option ℤ) (now : ℤ) : Bool :=
  match parseDurationSecs U dur with
  | .error _ => false
  | .ok intervalSecs => intervalSecs ≤ ((now - lastFired.getD now).tdiv second).natAbs

/-- The in-memory clocks of a pod. -/
abbrev LastFired := WorkflowKey → Option ℤ

/-- Whether to go on to the claim; the first time the clock is only started. -/
def intervalPrefilterShouldFire (lastFired : LastFired) (key : WorkflowKey) (dur : String)
    (last : Option ℤ) (now : ℤ) : Bool × LastFired :=
  if intervalShouldFire U dur last now then (true, lastFired)
  else if last.isNone then (false, Function.update lastFired key (some now))
  else (false, lastFired)

end Instants

inductive Schedule
  | cron (expr : String)
  | interval (dur : String)
deriving DecidableEq, Repr

def scheduleOf : TriggerDef → Option Schedule
  | .schedule (some expr) none => some (.cron expr)
  | .schedule none (some dur) => some (.interval dur)
  | _ => none

/-- A row of `workflows`. It is `listed` when it is active, enabled and scheduled in a community
that is not archived; a definition that does not parse is none. -/
structure WorkflowRecord where
  key : WorkflowKey
  channelId : Option Uuid
  definition : Option WorkflowDef
  listed : Bool

/-- A due instant of a workflow, the primary key of `scheduled_workflow_fires`. -/
structure FireKey where
  workflow : WorkflowKey
  scheduledFor : ℤ
deriving DecidableEq, Repr

structure Fire where
  key : FireKey
  claimedAt : ℤ
  workflowRunId : Option Uuid
deriving DecidableEq, Repr

structure Due where
  key : FireKey
  schedule : Schedule
  channelId : Uuid
deriving DecidableEq, Repr

/-- A run that was created for a due instant, with the time that the pod had read. -/
structure Firing where
  due : Due
  runId : Uuid
  now : ℤ
deriving DecidableEq, Repr

/-- How far a pod is, one phase between two statements: asleep, at the head of the loop over the
workflows, or before a read of the anchor, a claim, the insert of a run, or the attachment. -/
inductive Phase
  | asleep
  | looping
  | anchoring (key : WorkflowKey) (dur : String) (channelId : Uuid)
  | claiming (due : Due)
  | creating (due : Due)
  | attaching (due : Due) (runId : Uuid)
deriving DecidableEq

/-- A relay process: its clocks, the tick that it is in and the workflows that are left in it. -/
structure Pod where
  lastFired : LastFired
  now : ℤ
  active : List WorkflowKey
  rest : List WorkflowRecord
  phase : Phase

namespace Pod

variable (U : Unicode) (C : Cron) (pod : Pod)

def start : Pod := ⟨fun _ ↦ none, 0, [], [], .asleep⟩

def goTo (phase : Phase) : Pod := { pod with phase := phase }

def markFired (due : Due) : Pod :=
  match due.schedule with
  | .cron _ => pod
  | .interval _ =>
    { pod with lastFired := Function.update pod.lastFired due.key.workflow (some pod.now) }

def claimFor (key : WorkflowKey) (schedule : Schedule) (channelId : Uuid) : Option ℤ → Pod
  | none => pod.goTo .looping
  | some instant => pod.goTo (.claiming ⟨⟨key, instant⟩, schedule, channelId⟩)

def onAnchor (key : WorkflowKey) (dur : String) (channelId : Uuid) (last : Option ℤ) : Pod :=
  let (fire, lastFired) := intervalPrefilterShouldFire U pod.lastFired key dur last pod.now
  let pod := { pod with lastFired := lastFired }
  if fire then
    pod.claimFor key (.interval dur) channelId (intervalFireInstant U dur pod.now)
  else pod.goTo .looping

def onSchedule (key : WorkflowKey) (channelId : Uuid) : Option Schedule → Pod
  | none => pod
  | some (.cron expr) =>
    pod.claimFor key (.cron expr) channelId (cronFireInstant U C expr pod.now 60)
  | some (.interval dur) =>
    match pod.lastFired key with
    | some last => pod.onAnchor U key dur channelId (some last)
    | none => pod.goTo (.anchoring key dur channelId)

/-- The body of the loop up to its first statement, or the end of the tick, where the clocks of
workflows that are no longer listed are dropped. -/
def next : Pod :=
  match pod.rest with
  | [] =>
    { pod with
      lastFired := fun key ↦ if key ∈ pod.active then pod.lastFired key else none
      phase := .asleep }
  | record :: rest =>
    let pod := { pod with rest := rest }
    match record.definition, record.channelId with
    | some definition, some channelId =>
      if definition.enabled then pod.onSchedule U C record.key channelId
        (scheduleOf definition.trigger)
      else pod
    | _, _ => pod

end Pod

structure World where
  workflows : List WorkflowRecord
  fires : List Fire
  runs : List (CommunityId × Uuid × Uuid)
  pods : List Pod
  claimed : List FireKey
  removed : List FireKey
  firings : List Firing
  started : List Firing

inductive Reply
  | ok
  | failed
  | lost
deriving DecidableEq

/-- `work` runs the next statement of a pod and `edit` stands for all that writes workflows. -/
inductive Op
  | wake (p : ℕ) (now : ℤ) (failed : Bool)
  | work (p : ℕ) (reply : Reply) (dbNow : ℤ) (runId : Uuid)
  | crash (p : ℕ)
  | prune (olderThan : ℤ)
  | edit (workflows : List WorkflowRecord)

namespace World

variable (U : Unicode) (C : Cron) (w : World)

def start (n : ℕ) : World := ⟨[], [], [], List.replicate n .start, [], [], [], []⟩

def listMaxLimit : ℕ := 1000

def listAllEnabledWorkflows : List WorkflowRecord :=
  (w.workflows.filter WorkflowRecord.listed).take listMaxLimit

def hasWorkflow (key : WorkflowKey) : Bool := w.workflows.any fun r ↦ r.key = key

def hasFire (key : FireKey) : Bool := w.fires.any fun f ↦ f.key = key

def latestFire (key : WorkflowKey) : Option ℤ :=
  (((w.fires.filter fun f ↦ f.key.workflow = key).map fun f ↦ f.key.scheduledFor).max?).map
    (· * second)

def setPod (p : ℕ) (pod : Pod) : World := { w with pods := w.pods.set p pod }

def keepFires (stays : Fire → Bool) : World :=
  { w with
    fires := w.fires.filter stays
    removed := (w.fires.filter fun f ↦ !stays f).map Fire.key ++ w.removed }

def claimFire (key : FireKey) (dbNow : ℤ) : Bool × World :=
  if w.hasWorkflow key.workflow && !w.hasFire key then
    (true, { w with fires := ⟨key, dbNow, none⟩ :: w.fires, claimed := key :: w.claimed })
  else (false, w)

def createRun (due : Due) (runId : Uuid) (now : ℤ) : Bool × World :=
  let community := due.key.workflow.1
  if w.hasWorkflow due.key.workflow && w.runs.all (fun r ↦ r.1 ≠ community || r.2.1 ≠ runId) then
    (true, { w with
      runs := (community, runId, due.key.workflow.2) :: w.runs
      firings := ⟨due, runId, now⟩ :: w.firings })
  else (false, w)

def attachRun (key : FireKey) (runId : Uuid) : World :=
  if w.runs.any fun r ↦ r.1 = key.workflow.1 && r.2.1 = runId then
    { w with
      fires := w.fires.map fun f ↦
        if f.key = key ∧ f.workflowRunId = none then { f with workflowRunId := some runId } else f }
  else w

def work (p : ℕ) (reply : Reply) (dbNow : ℤ) (runId : Uuid) (pod : Pod) : World :=
  match pod.phase with
  | .asleep => w
  | .looping => w.setPod p (pod.next U C)
  | .anchoring key dur channelId =>
    w.setPod p (pod.onAnchor U key dur channelId
      (if reply = .ok then w.latestFire key else none))
  | .claiming due =>
    match reply with
    | .failed => w.setPod p (pod.goTo .looping)
    | .lost => (w.claimFire due.key dbNow).2.setPod p (pod.goTo .looping)
    | .ok =>
      match w.claimFire due.key dbNow with
      | (true, w) => w.setPod p (pod.goTo (.creating due))
      | (false, w) => w.setPod p ((pod.markFired due).goTo .looping)
  | .creating due =>
    match reply with
    | .failed => w.setPod p (pod.goTo .looping)
    | .lost => (w.createRun due runId pod.now).2.setPod p (pod.goTo .looping)
    | .ok =>
      match w.createRun due runId pod.now with
      | (true, w) => w.setPod p (pod.goTo (.attaching due runId))
      | (false, w) => w.setPod p (pod.goTo .looping)
  | .attaching due runId =>
    let w := if reply = .failed then w else w.attachRun due.key runId
    { w.setPod p ((pod.markFired due).goTo .looping) with
      started := ⟨due, runId, pod.now⟩ :: w.started }

def step : Op → World
  | .wake p now failed =>
    match w.pods[p]? with
    | some pod =>
      if pod.phase = .asleep && !failed then
        let rest := w.listAllEnabledWorkflows
        w.setPod p ⟨pod.lastFired, now, rest.map WorkflowRecord.key, rest, .looping⟩
      else w
    | none => w
  | .work p reply dbNow runId =>
    match w.pods[p]? with
    | some pod => w.work U C p reply dbNow runId pod
    | none => w
  | .crash p => w.setPod p .start
  | .prune olderThan => w.keepFires fun f ↦ decide (olderThan ≤ f.claimedAt)
  | .edit workflows =>
    let w := { w with workflows := workflows }
    { w.keepFires fun f ↦ w.hasWorkflow f.key.workflow with
      runs := w.runs.filter fun r ↦ w.hasWorkflow (r.1, r.2.2) }

def run (n : ℕ) (ops : List Op) : World := ops.foldl (fun w op ↦ w.step U C op) (start n)

end World

end Buzz.Workflow.Scheduler
