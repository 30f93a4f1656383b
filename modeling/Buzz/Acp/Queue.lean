import Buzz.Nostr.Event
import Buzz.Lib.Collections
import Mathlib.Data.Finset.Basic
import Mathlib.Data.List.Sort

namespace Buzz.Acp

open Buzz.Lib Buzz.Nostr

/-- Nanoseconds of a monotone clock. -/
abbrev Instant := ℕ

def secs (n : ℕ) : ℕ := n * 1000000000

inductive DedupMode
  | drop
  | queue
deriving DecidableEq

def maxPendingPerChannel : ℕ := 500

def maxBatchEvents : ℕ := 50

def maxRetries : ℕ := 10

def baseRetryDelaySecs : ℕ := 5

def maxRetryDelaySecs : ℕ := 300

def inFlightDeadlineBufferSecs : ℕ := 100

def defaultInFlightDeadlineSecs : ℕ := 7300

structure BatchEvent where
  event : Event
  promptTag : String
  receivedAt : Instant
deriving DecidableEq

structure QueuedEvent extends BatchEvent where
  channelId : Uuid
deriving DecidableEq

inductive CancelReason
  | interrupt
  | steer
deriving DecidableEq

structure FlushBatch where
  channelId : Uuid
  events : List BatchEvent
  cancelledEvents : List BatchEvent
  cancelReason : Option CancelReason
deriving DecidableEq

/-- The queue, less the batch sizes that it only logs. `overflow` is what the depth cap has dropped,
which the code logs too. -/
structure EventQueue where
  queues : Map Uuid (List QueuedEvent) := ∅
  inFlightChannels : Finset Uuid := ∅
  inFlightDeadlines : Map Uuid Instant := ∅
  retryAfter : Map Uuid Instant := ∅
  retryCounts : Map Uuid ℕ := ∅
  dedupMode : DedupMode
  cancelledBatches : Map Uuid (List BatchEvent) := ∅
  cancelReasons : Map Uuid CancelReason := ∅
  withheldNativeSteer : Map Uuid (List QueuedEvent) := ∅
  inFlightDeadline : ℕ := secs defaultInFlightDeadlineSecs
  overflow : List (Uuid × BatchEvent) := []

namespace EventQueue

def new (dedupMode : DedupMode) : EventQueue := { dedupMode }

def withInFlightDeadline (q : EventQueue) (maxTurnDurationSecs : ℕ) : EventQueue :=
  { q with inFlightDeadline := secs (maxTurnDurationSecs + inFlightDeadlineBufferSecs) }

def extendInFlightDeadline (q : EventQueue) (now : Instant) (channelId : Uuid)
    (maxTurnSecs : ℕ) : EventQueue :=
  match q.inFlightDeadlines.lookup channelId with
  | none => q
  | some current =>
    let extended := now + secs (maxTurnSecs + inFlightDeadlineBufferSecs)
    if current < extended then
      { q with inFlightDeadlines := AList.insert channelId extended q.inFlightDeadlines }
    else q

def queueOf (q : EventQueue) (channelId : Uuid) : List QueuedEvent :=
  (q.queues.lookup channelId).getD []

def push (q : EventQueue) (event : QueuedEvent) : EventQueue × Bool :=
  if q.dedupMode = .drop ∧ event.channelId ∈ q.inFlightChannels then (q, false)
  else
    let queue := q.queueOf event.channelId
    let dropped := if maxPendingPerChannel ≤ queue.length then 1 else 0
    ({ q with
        queues := AList.insert event.channelId (queue.drop dropped ++ [event]) q.queues
        overflow := q.overflow ++
          (queue.take dropped).map fun qe ↦ (event.channelId, qe.toBatchEvent) }, true)

def pushFront (q : EventQueue) (channelId : Uuid) (events : List QueuedEvent) : EventQueue :=
  let queue := events ++ q.queueOf channelId
  { q with
    queues := AList.insert channelId (queue.take maxPendingPerChannel) q.queues
    overflow := q.overflow ++ ((queue.drop maxPendingPerChannel).reverse.map fun qe ↦
      (channelId, qe.toBatchEvent)) }

def setQueue (q : EventQueue) (channelId : Uuid) (queue : List QueuedEvent) : EventQueue :=
  { q with
    queues := if queue.isEmpty then q.queues.erase channelId
      else AList.insert channelId queue q.queues }

def setWithheld (q : EventQueue) (channelId : Uuid) (entries : List QueuedEvent) : EventQueue :=
  { q with
    withheldNativeSteer := if entries.isEmpty then q.withheldNativeSteer.erase channelId
      else AList.insert channelId entries q.withheldNativeSteer }

def recoverWithheldForExpiredChannel (q : EventQueue) (channelId : Uuid) : EventQueue :=
  match q.withheldNativeSteer.lookup channelId with
  | none => q
  | some entries =>
    { q with withheldNativeSteer := q.withheldNativeSteer.erase channelId }.pushFront channelId
      entries

def expired (q : EventQueue) (now : Instant) : List Uuid :=
  (q.inFlightDeadlines.entries.filter fun e ↦ e.2 ≤ now).map Sigma.fst

def expireChannel (q : EventQueue) (channelId : Uuid) : EventQueue :=
  { q with
    inFlightChannels := q.inFlightChannels.erase channelId
    inFlightDeadlines := q.inFlightDeadlines.erase channelId
  }.recoverWithheldForExpiredChannel channelId

def expire (q : EventQueue) (now : Instant) : EventQueue :=
  (q.expired now).foldl expireChannel q

/-- The channel is not held back by an earlier failure. -/
def unthrottled (q : EventQueue) (now : Instant) (channelId : Uuid) : Bool :=
  (q.retryAfter.lookup channelId).all fun t ↦ decide (t ≤ now)

def ready (q : EventQueue) (now : Instant) (channelId : Uuid) (queue : List QueuedEvent) : Bool :=
  !queue.isEmpty && channelId ∉ q.inFlightChannels && q.unthrottled now channelId

def headReceivedAt (queue : List QueuedEvent) : Instant :=
  (queue.head?.map fun qe ↦ qe.receivedAt).getD 0

/-- The ready channel with the oldest head event; among equally old ones the iteration order of the
hash map decides, which `pick` stands for. -/
def nextChannel (q : EventQueue) (now : Instant) (pick : ℕ) : Option Uuid :=
  let ready := q.queues.entries.filter fun e ↦ q.ready now e.1 e.2
  let oldest := ready.filter fun e ↦ ready.all fun e' ↦ headReceivedAt e.2 ≤ headReceivedAt e'.2
  oldest[pick % oldest.length]?.map Sigma.fst

def cancelledChannel (q : EventQueue) (pick : ℕ) : Option Uuid :=
  let ready := q.cancelledBatches.entries.filter fun e ↦ e.1 ∉ q.inFlightChannels
  ready[pick % ready.length]?.map Sigma.fst

def startFlight (q : EventQueue) (now : Instant) (channelId : Uuid) : EventQueue :=
  { q with
    inFlightChannels := insert channelId q.inFlightChannels
    inFlightDeadlines := AList.insert channelId (now + q.inFlightDeadline) q.inFlightDeadlines
    cancelledBatches := q.cancelledBatches.erase channelId
    cancelReasons := q.cancelReasons.erase channelId }

def sortByCreatedAt (events : List BatchEvent) : List BatchEvent :=
  events.insertionSort fun a b ↦ a.event.createdAt.toNat ≤ b.event.createdAt.toNat

def flushNext (q : EventQueue) (now : Instant) (pick : ℕ) : EventQueue × Option FlushBatch :=
  let q := q.expire now
  match q.nextChannel now pick with
  | some channelId =>
    let queue := q.queueOf channelId
    let events := sortByCreatedAt ((queue.take maxBatchEvents).map QueuedEvent.toBatchEvent)
    let cancelledEvents := (q.cancelledBatches.lookup channelId).getD []
    let cancelReason := if cancelledEvents.isEmpty then none else q.cancelReasons.lookup channelId
    ((q.setQueue channelId (queue.drop maxBatchEvents)).startFlight now channelId,
      some ⟨channelId, events, cancelledEvents, cancelReason⟩)
  | none =>
    match q.cancelledChannel pick with
    | none => (q, none)
    | some channelId =>
      (q.startFlight now channelId, some ⟨channelId, (q.cancelledBatches.lookup channelId).getD [],
        [], q.cancelReasons.lookup channelId⟩)

/-- An active throttle says that the channel was requeued, and keeps its attempts. -/
def markComplete (q : EventQueue) (now : Instant) (channelId : Uuid) : EventQueue :=
  let q := { q with
    inFlightChannels := q.inFlightChannels.erase channelId
    inFlightDeadlines := q.inFlightDeadlines.erase channelId }
  match q.retryAfter.lookup channelId with
  | some deadline =>
    if now < deadline then q
    else { q with
      retryAfter := q.retryAfter.erase channelId
      retryCounts := q.retryCounts.erase channelId }
  | none => { q with retryCounts := q.retryCounts.erase channelId }

def attempts (q : EventQueue) (channelId : Uuid) : ℕ := (q.retryCounts.lookup channelId).getD 0

/-- The delay before an attempt, with the jitter that the clock's subsecond `nanos` give, in exact
arithmetic. -/
def retryDelay (attempt nanos : ℕ) : ℕ :=
  let capped := min (baseRetryDelaySecs * 2 ^ min (attempt - 1) 6) maxRetryDelaySecs
  secs capped * (8 * (2 ^ 32 - 1) + 4 * nanos) / (10 * (2 ^ 32 - 1))

def requeued (batch : FlushBatch) : List QueuedEvent :=
  batch.events.map fun be ↦ ⟨be, batch.channelId⟩

def requeue (q : EventQueue) (now : Instant) (nanos : ℕ) (batch : FlushBatch) :
    EventQueue × Option FlushBatch :=
  let attempt := q.attempts batch.channelId + 1
  if maxRetries < attempt then
    ({ q with
        retryCounts := q.retryCounts.erase batch.channelId
        retryAfter := q.retryAfter.erase batch.channelId }, some batch)
  else
    let q := { q with retryCounts := AList.insert batch.channelId attempt q.retryCounts }.pushFront
      batch.channelId (requeued batch)
    ({ q with
        retryAfter :=
          AList.insert batch.channelId (now + retryDelay attempt nanos) q.retryAfter }, none)

def requeuePreserveTimestamps (q : EventQueue) (batch : FlushBatch) : EventQueue :=
  q.pushFront batch.channelId (requeued batch)

def requeueAsCancelled (q : EventQueue) (batch : FlushBatch) (reason : CancelReason) : EventQueue :=
  { q with
    cancelledBatches := AList.insert batch.channelId
      ((q.cancelledBatches.lookup batch.channelId).getD [] ++ batch.cancelledEvents ++ batch.events)
      q.cancelledBatches
    cancelReasons := AList.insert batch.channelId reason q.cancelReasons }

def hasFlushableWork (q : EventQueue) (now : Instant) : EventQueue × Bool :=
  let q := q.expire now
  (q, q.queues.entries.any (fun e ↦ q.ready now e.1 e.2) ||
    q.cancelledBatches.entries.any fun e ↦ e.1 ∉ q.inFlightChannels)

def named (eventId : String) (qe : QueuedEvent) : Bool := hexEncode qe.event.id = eventId

def markNativeSteerPending (q : EventQueue) (channelId : Uuid) (eventId : String) :
    EventQueue × Bool :=
  match (q.queueOf channelId).find? (named eventId) with
  | none => (q, false)
  | some qe =>
    ((q.setQueue channelId ((q.queueOf channelId).eraseP (named eventId))).setWithheld channelId
      ((q.withheldNativeSteer.lookup channelId).getD [] ++ [qe]), true)

def releaseNativeSteer (q : EventQueue) (channelId : Uuid) (eventId : String) : EventQueue :=
  let entries := (q.withheldNativeSteer.lookup channelId).getD []
  match entries.find? (named eventId) with
  | none => q
  | some qe =>
    (q.setWithheld channelId (entries.eraseP (named eventId))).pushFront channelId [qe]

def removeWithheld (q : EventQueue) (channelId : Uuid) (eventId : String) : EventQueue :=
  match q.withheldNativeSteer.lookup channelId with
  | none => q
  | some entries => q.setWithheld channelId (entries.filter fun qe ↦ !named eventId qe)

def removeQueued (q : EventQueue) (channelId : Uuid) (eventId : String) : EventQueue :=
  match q.queues.lookup channelId with
  | none => q
  | some queue => q.setQueue channelId (queue.filter fun qe ↦ !named eventId qe)

def removeEvent (q : EventQueue) (channelId : Uuid) (eventId : String) : EventQueue :=
  (q.removeWithheld channelId eventId).removeQueued channelId eventId

def idle (q : EventQueue) (channelId : Uuid) : Bool :=
  channelId ∉ q.retryAfter && (q.queueOf channelId).isEmpty && channelId ∉ q.inFlightChannels

def compactExpiredState (q : EventQueue) (now : Instant) : EventQueue :=
  let q := { q with
    retryAfter := Map.keepEntries (fun _ deadline ↦ decide (now < deadline)) q.retryAfter }
  { q with retryCounts := Map.keepEntries (fun channelId _ ↦ !q.idle channelId) q.retryCounts }

end EventQueue

end Buzz.Acp
