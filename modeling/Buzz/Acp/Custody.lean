import Buzz.Acp.Queue
import Buzz.Lib.Runs

namespace Buzz.Acp

open Buzz.Lib Buzz.Nostr

abbrev Token := Uuid × BatchEvent

def tokens (channelId : Uuid) (events : List BatchEvent) : List Token := events.map (channelId, ·)

def queuedTokens (channelId : Uuid) (events : List QueuedEvent) : List Token :=
  events.map fun qe ↦ (channelId, qe.toBatchEvent)

def FlushBatch.tokens (batch : FlushBatch) : List Token :=
  Acp.tokens batch.channelId batch.events ++ Acp.tokens batch.channelId batch.cancelledEvents

inductive Place
  | queued
  | withheld
  | cancelled
  | batchEvents
  | batchCancelledEvents
  | orphaned
  | completed
  | deadLettered
  | removed
  | dropped
deriving DecidableEq

def placed (place : Place) (held : List Token) : List (Place × Token) := held.map (place, ·)

/-- A batch that was flushed and not yet handed back; its flight may have expired. -/
structure Outstanding where
  batch : FlushBatch
  expired : Bool

def Outstanding.located (o : Outstanding) : List (Place × Token) :=
  placed (if o.expired then .orphaned else .batchEvents)
    (tokens o.batch.channelId o.batch.events) ++
  placed (if o.expired then .orphaned else .batchCancelledEvents)
    (tokens o.batch.channelId o.batch.cancelledEvents)

/-- The queue in use: its clock, the batches that turns hold, and what became of each event. -/
structure Custody where
  queue : EventQueue
  clock : Instant := 0
  outstanding : List Outstanding := []
  accepted : List Token := []
  completed : List Token := []
  deadLettered : List Token := []
  removed : List Token := []

/-- A call on the queue; a batch that is handed back is given by its place among the outstanding
ones. -/
inductive QueueOp
  | push (event : QueuedEvent)
  | flushNext (pick : ℕ)
  | requeue (i : ℕ) (nanos : ℕ)
  | requeuePreserveTimestamps (i : ℕ)
  | requeueAsCancelled (i : ℕ) (reason : CancelReason)
  | complete (i : ℕ)
  | markComplete (channelId : Uuid)
  | markNativeSteerPending (channelId : Uuid) (eventId : String)
  | releaseNativeSteer (channelId : Uuid) (eventId : String)
  | removeEvent (channelId : Uuid) (eventId : String)
  | hasFlushableWork
  | compactExpiredState
  | extendInFlightDeadline (channelId : Uuid) (maxTurnSecs : ℕ)
  | advance (nanos : ℕ)
deriving DecidableEq

namespace Custody

def orphan (s : Custody) : List Outstanding :=
  s.outstanding.map fun o ↦
    { o with expired := o.expired || (s.queue.expired s.clock).contains o.batch.channelId }

/-- What `remove_event` finds. -/
def found (s : Custody) (channelId : Uuid) (eventId : String) : List Token :=
  queuedTokens channelId (((s.queue.withheldNativeSteer.lookup channelId).getD []).filter
      (EventQueue.named eventId)) ++
    queuedTokens channelId ((s.queue.queueOf channelId).filter (EventQueue.named eventId))

def step (s : Custody) : QueueOp → Custody
  | .push event =>
    { s with
      queue := (s.queue.push event).1
      accepted :=
        if (s.queue.push event).2 then (event.channelId, event.toBatchEvent) :: s.accepted
        else s.accepted }
  | .flushNext pick =>
    { s with
      queue := (s.queue.flushNext s.clock pick).1
      outstanding :=
        ((s.queue.flushNext s.clock pick).2.map fun batch ↦ ⟨batch, false⟩).toList ++ s.orphan }
  | .requeue i nanos =>
    match s.outstanding[i]? with
    | none => s
    | some o =>
      { s with
        queue := (s.queue.requeue s.clock nanos o.batch).1
        outstanding := s.outstanding.eraseIdx i
        deadLettered := s.deadLettered ++
          ((s.queue.requeue s.clock nanos o.batch).2.map FlushBatch.tokens).getD [] }
  | .requeuePreserveTimestamps i =>
    match s.outstanding[i]? with
    | none => s
    | some o =>
      { s with
        queue := s.queue.requeuePreserveTimestamps o.batch
        outstanding := s.outstanding.eraseIdx i }
  | .requeueAsCancelled i reason =>
    match s.outstanding[i]? with
    | none => s
    | some o =>
      { s with
        queue := s.queue.requeueAsCancelled o.batch reason
        outstanding := s.outstanding.eraseIdx i }
  | .complete i =>
    match s.outstanding[i]? with
    | none => s
    | some o =>
      { s with
        outstanding := s.outstanding.eraseIdx i
        completed := s.completed ++ o.batch.tokens }
  | .markComplete channelId => { s with queue := s.queue.markComplete s.clock channelId }
  | .markNativeSteerPending channelId eventId =>
    { s with queue := (s.queue.markNativeSteerPending channelId eventId).1 }
  | .releaseNativeSteer channelId eventId =>
    { s with queue := s.queue.releaseNativeSteer channelId eventId }
  | .removeEvent channelId eventId =>
    { s with
      queue := s.queue.removeEvent channelId eventId
      removed := s.removed ++ s.found channelId eventId }
  | .hasFlushableWork =>
    { s with
      queue := (s.queue.hasFlushableWork s.clock).1
      outstanding := s.orphan }
  | .compactExpiredState => { s with queue := s.queue.compactExpiredState s.clock }
  | .extendInFlightDeadline channelId maxTurnSecs =>
    { s with queue := s.queue.extendInFlightDeadline s.clock channelId maxTurnSecs }
  | .advance nanos => { s with clock := s.clock + nanos }

def located (s : Custody) : List (Place × Token) :=
  placed .queued (Map.contents QueuedEvent.toBatchEvent s.queue.queues) ++
  placed .withheld (Map.contents QueuedEvent.toBatchEvent s.queue.withheldNativeSteer) ++
  placed .cancelled (Map.contents id s.queue.cancelledBatches) ++
  placed .dropped s.queue.overflow ++
  s.outstanding.flatMap Outstanding.located ++
  placed .completed s.completed ++
  placed .deadLettered s.deadLettered ++
  placed .removed s.removed

def Conserved (s : Custody) : Prop := (s.located.map Prod.snd).Perm s.accepted

def run (queue : EventQueue) (ops : List QueueOp) : Custody := ops.foldl step { queue }

end Custody

def message (id : EventId) : QueuedEvent :=
  { event := { id, pubkey := 5, createdAt := 10, kind := 9, tags := [], content := "hi", sig := 0 }
    promptTag := "mention", receivedAt := 0, channelId := 7 }

namespace EventQueue

def withheldOf (q : EventQueue) (channelId : Uuid) : List QueuedEvent :=
  (q.withheldNativeSteer.lookup channelId).getD []

def cancelledOf (q : EventQueue) (channelId : Uuid) : List BatchEvent :=
  (q.cancelledBatches.lookup channelId).getD []

def drainChannel (q : EventQueue) (channelId : Uuid) : EventQueue × List String :=
  ({ q with
      queues := q.queues.erase channelId
      retryAfter := q.retryAfter.erase channelId
      retryCounts := q.retryCounts.erase channelId
      cancelledBatches := q.cancelledBatches.erase channelId
      cancelReasons := q.cancelReasons.erase channelId
      withheldNativeSteer := q.withheldNativeSteer.erase channelId },
    (q.queueOf channelId).map fun qe ↦ hexEncode qe.event.id)

def heldIds (q : EventQueue) (channelId : Uuid) : List String :=
  ((q.queueOf channelId).map fun qe ↦ hexEncode qe.event.id) ++
  ((q.withheldOf channelId).map fun qe ↦ hexEncode qe.event.id) ++
  ((q.cancelledOf channelId).map fun be ↦ hexEncode be.event.id)

structure SameFor (q q' : EventQueue) (channelId : Uuid) : Prop where
  queues : q'.queues.lookup channelId = q.queues.lookup channelId
  inFlight : channelId ∈ q'.inFlightChannels ↔ channelId ∈ q.inFlightChannels
  deadline : q'.inFlightDeadlines.lookup channelId = q.inFlightDeadlines.lookup channelId
  retryAfter : q'.retryAfter.lookup channelId = q.retryAfter.lookup channelId
  retryCounts : q'.retryCounts.lookup channelId = q.retryCounts.lookup channelId
  cancelledBatches : q'.cancelledBatches.lookup channelId = q.cancelledBatches.lookup channelId
  cancelReasons : q'.cancelReasons.lookup channelId = q.cancelReasons.lookup channelId
  withheld : q'.withheldNativeSteer.lookup channelId = q.withheldNativeSteer.lookup channelId
  dedupMode : q'.dedupMode = q.dedupMode
  inFlightDeadline : q'.inFlightDeadline = q.inFlightDeadline

/-- The drain returns the id of every event that leaves the queue, and touches nothing else. -/
structure DrainAccounts (q : EventQueue) (channelId : Uuid) : Prop where
  ids : ((q.drainChannel channelId).2 ++ (q.drainChannel channelId).1.heldIds channelId).Perm
    (q.heldIds channelId)
  others : ∀ other, other ≠ channelId → q.SameFor (q.drainChannel channelId).1 other
  inFlight : (q.drainChannel channelId).1.inFlightChannels = q.inFlightChannels
  deadline : (q.drainChannel channelId).1.inFlightDeadlines = q.inFlightDeadlines

variable {q : EventQueue} {channelId : Uuid}

theorem heldIds_drainChannel (q : EventQueue) (channelId : Uuid) :
    (q.drainChannel channelId).1.heldIds channelId = [] := by
  simp [heldIds, drainChannel, queueOf, withheldOf, cancelledOf, AList.lookup_erase]

theorem sameFor_drainChannel {other : Uuid} (h : other ≠ channelId) :
    q.SameFor (q.drainChannel channelId).1 other where
  queues := AList.lookup_erase_ne h
  inFlight := Iff.rfl
  deadline := rfl
  retryAfter := AList.lookup_erase_ne h
  retryCounts := AList.lookup_erase_ne h
  cancelledBatches := AList.lookup_erase_ne h
  cancelReasons := AList.lookup_erase_ne h
  withheld := AList.lookup_erase_ne h
  dedupMode := rfl
  inFlightDeadline := rfl

theorem drainAccounts_iff (q : EventQueue) (channelId : Uuid) :
    q.DrainAccounts channelId ↔ q.withheldOf channelId = [] ∧ q.cancelledOf channelId = [] := by
  have hids : ((q.drainChannel channelId).2 ++
      (q.drainChannel channelId).1.heldIds channelId).length = (q.queueOf channelId).length := by
    rw [heldIds_drainChannel]
    simp [drainChannel]
  constructor
  · intro h
    have hlen := h.ids.length_eq
    rw [hids] at hlen
    simp only [heldIds, List.length_append, List.length_map] at hlen
    constructor
    · apply List.eq_nil_of_length_eq_zero
      omega
    · apply List.eq_nil_of_length_eq_zero
      omega
  · rintro ⟨hwithheld, hcancelled⟩
    refine ⟨?_, fun _ hne ↦ sameFor_drainChannel hne, rfl, rfl⟩
    rw [heldIds_drainChannel]
    simp [heldIds, drainChannel, hwithheld, hcancelled]

end EventQueue

inductive Call
  | op (op : QueueOp)
  | drainChannel (channelId : Uuid)
deriving DecidableEq

namespace Custody

def call (s : Custody) : Call → Custody
  | .op op => s.step op
  | .drainChannel channelId => { s with queue := (s.queue.drainChannel channelId).1 }

def afterCalls (mode : DedupMode) (maxTurnSecs : ℕ) (calls : List Call) : Custody :=
  calls.foldl call { queue := (EventQueue.new mode).withInFlightDeadline maxTurnSecs }

/-- In every reachable state the drain accounts for what it drops exactly when the channel has no
withheld and no cancelled event. -/
theorem drainChannel_accounts_iff (mode : DedupMode) (maxTurnSecs : ℕ) (calls : List Call)
    (channelId : Uuid) :
    (afterCalls mode maxTurnSecs calls).queue.DrainAccounts channelId ↔
      (afterCalls mode maxTurnSecs calls).queue.withheldOf channelId = [] ∧
        (afterCalls mode maxTurnSecs calls).queue.cancelledOf channelId = [] :=
  EventQueue.drainAccounts_iff _ channelId

/-- An event that waits for the answer to a steer, and one of a cancelled turn. -/
theorem drainChannel_forgets :
    ¬(afterCalls .queue 7200 [.op (.push (message 1)),
      .op (.markNativeSteerPending 7 (hexEncode 1))]).queue.DrainAccounts 7 ∧
    ¬(afterCalls .queue 7200 [.op (.push (message 1)), .op (.flushNext 0),
      .op (.requeueAsCancelled 0 .steer), .op (.markComplete 7)]).queue.DrainAccounts 7 := by
  rw [EventQueue.drainAccounts_iff, EventQueue.drainAccounts_iff]
  decide +kernel

end Custody

end Buzz.Acp
