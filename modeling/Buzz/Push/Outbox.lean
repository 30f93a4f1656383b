import Buzz.Push.Leases
import Mathlib.Data.List.Sort
import Mathlib.Data.Prod.Lex

namespace Buzz.Push

open Buzz.Lib Buzz.Nostr Buzz.Db

abbrev ClaimColumns := Option (Uuid × Timestamptz)

/-- A claim can be taken over once its time is past. -/
def claimable (claim : ClaimColumns) (now : Timestamptz) : Bool :=
  claim.all fun c ↦ c.2 < now

/-- The columns of `push_wake_outbox` that no statement updates. -/
structure Wake where
  address : Address
  leaseGeneration : ℤ
  endpointHash : EndpointHash
  eventId : EventId
  wakeClass : WakeClass
  expiresAt : ℤ
  createdAt : Timestamptz
deriving DecidableEq, Repr

inductive WakeState
  | pending
  | sending (claim : Uuid × Timestamptz)
  | delivered
  | failed
deriving DecidableEq, Repr

structure WakeRow where
  wake : Wake
  state : WakeState
  attempts : ℕ
  nextAttemptAt : Timestamptz
deriving DecidableEq, Repr

abbrev Outbox := Map Uuid WakeRow

structure MatchJob where
  claim : ClaimColumns
  attempts : ℕ
  nextAttemptAt : Timestamptz
  createdAt : Timestamptz
deriving DecidableEq, Repr

abbrev MatchQueue := Map EventId MatchJob

structure WakeRequest where
  address : Address
  leaseGeneration : ℤ
  eventId : EventId
  wakeClass : WakeClass
  expiresAt : ℤ
deriving DecidableEq, Repr

inductive EnqueueWakeOutcome
  | enqueued (id : Uuid)
  | duplicate (id : Uuid)
  | inactiveLease
deriving DecidableEq, Repr

structure ClaimedWake where
  id : Uuid
  claimId : Uuid
  eventId : EventId
  channelId : Option Uuid
  address : Address
  leaseGeneration : ℤ
  endpointGrant : String
  wakeClass : WakeClass
  expiresAt : ℤ
  attempt : ℕ
deriving DecidableEq, Repr

inductive RevalidateWakeOutcome
  | deliver (wake : ClaimedWake)
  | suppressed
deriving DecidableEq, Repr

def maxMatchAttempts : ℕ := 8

/-- Rows in the order of `ORDER BY` on the values `f`, less the locked ones, at most `limit`. -/
def selectDue {κ ν β : Type} [DecidableEq κ] [LinearOrder β] (rows : List ((_ : κ) × ν))
    (f : κ → ν → β) (locked : List κ) (limit : ℕ) : List ((_ : κ) × ν) :=
  ((rows.filter fun e ↦ e.1 ∉ locked).insertionSort fun a b ↦ f a.1 a.2 ≤ f b.1 b.2).take limit

theorem mem_selectDue {κ ν β : Type} [DecidableEq κ] [LinearOrder β] {rows : List ((_ : κ) × ν)}
    {f : κ → ν → β} {locked : List κ} {limit : ℕ} {e : (_ : κ) × ν}
    (h : e ∈ selectDue rows f locked limit) : e ∈ rows :=
  (List.mem_filter.mp ((List.mem_insertionSort _).mp (List.mem_of_mem_take h))).1

namespace LeaseRow

def eligible (row : LeaseRow) (now : Timestamptz) : Option ActiveLease :=
  if row.endpointEnabled ∧ epoch now < row.version.expiresAt then row.active else none

end LeaseRow

structure Tables where
  events : EventsTable
  leases : Leases
  outbox : Outbox
  queue : MatchQueue

namespace Tables

def liveEvent (t : Tables) (id : EventId) : Option EventRow :=
  (Map.findRow (fun key row ↦ key.2 = id && !row.deleted) t.events).map Prod.snd

def joinedLease (t : Tables) (wake : Wake) (now : Timestamptz) : Option ActiveLease :=
  (t.leases.lookup wake.address).bind fun row ↦
    (row.eligible now).filter fun lease ↦
      row.version.generation = wake.leaseGeneration && lease.endpointHash = wake.endpointHash

def joined (t : Tables) (wake : Wake) (now : Timestamptz) : Option (ActiveLease × EventRow) :=
  if epoch now < wake.expiresAt then
    (t.joinedLease wake now).bind fun lease ↦
      (t.liveEvent wake.eventId).map fun event ↦ (lease, event)
  else none

def claimedWake (id claimId : Uuid) (row : WakeRow) (lease : ActiveLease) (event : EventRow) :
    ClaimedWake where
  id := id
  claimId := claimId
  eventId := row.wake.eventId
  channelId := event.channelId
  address := row.wake.address
  leaseGeneration := row.wake.leaseGeneration
  endpointGrant := lease.endpointGrant
  wakeClass := row.wake.wakeClass
  expiresAt := row.wake.expiresAt
  attempt := row.attempts

def wakeDue (t : Tables) (now : Timestamptz) (row : WakeRow) : Bool :=
  row.nextAttemptAt ≤ now && (t.joined row.wake now).isSome &&
    match row.state with
    | .pending => true
    | .sending claim => claimable (some claim) now
    | _ => false

def dueWakes (t : Tables) (now : Timestamptz) (locked : List Uuid) (limit : ℕ) :
    List ((_ : Uuid) × WakeRow) :=
  selectDue (t.outbox.entries.filter fun e ↦ t.wakeDue now e.2)
    (fun id row ↦ toLex (row.nextAttemptAt, toLex (row.wake.createdAt, id))) locked limit

/-- `locked` are the rows that other statements hold, which `SKIP LOCKED` leaves out. -/
def claimDueWakes (t : Tables) (limit : ℕ) (claimId : Uuid) (leaseUntil now : Timestamptz)
    (locked : List Uuid) : List ClaimedWake × Tables :=
  let due := t.dueWakes now locked limit
  let claim (row : WakeRow) : WakeRow :=
    { row with state := .sending (claimId, leaseUntil), attempts := row.attempts + 1 }
  let outbox := Map.mapValues (fun id row ↦ if id ∈ due.map Sigma.fst then claim row else row) t.outbox
  (due.filterMap fun e ↦ (t.joined e.2.wake now).map fun j ↦
      claimedWake e.1 claimId (claim e.2) j.1 j.2,
    { t with outbox := outbox })

def revalidateWakeForSend (t : Tables) (id claimId : Uuid) (now : Timestamptz) :
    RevalidateWakeOutcome :=
  match t.outbox.lookup id with
  | none => .suppressed
  | some row =>
    match row.state, t.joined row.wake now with
    | .sending claim, some (lease, event) =>
      if claim.1 = claimId ∧ now ≤ claim.2 then .deliver (claimedWake id claimId row lease event)
      else .suppressed
    | _, _ => .suppressed

def updateFenced (t : Tables) (id claimId : Uuid) (f : WakeRow → WakeRow) : Tables × Bool :=
  match t.outbox.lookup id with
  | none => (t, false)
  | some row =>
    match row.state with
    | .sending claim =>
      if claim.1 = claimId then ({ t with outbox := AList.insert id (f row) t.outbox }, true)
      else (t, false)
    | _ => (t, false)

def completeWake (t : Tables) (id claimId : Uuid) : Tables × Bool :=
  t.updateFenced id claimId fun row ↦ { row with state := .delivered }

def retryWake (t : Tables) (id claimId : Uuid) (nextAttemptAt : Timestamptz) : Tables × Bool :=
  t.updateFenced id claimId fun row ↦
    { row with state := .pending, nextAttemptAt := nextAttemptAt }

def failWake (t : Tables) (id claimId : Uuid) : Tables × Bool :=
  t.updateFenced id claimId fun row ↦ { row with state := .failed }

def pruneWakeOutbox (t : Tables) (before now : Timestamptz) : Tables :=
  { t with outbox := Map.keepEntries (fun _ row ↦
      !((row.wake.createdAt < before) &&
        (row.state = .delivered || row.state = .failed || row.wake.expiresAt ≤ epoch now) &&
        row.wake.eventId ∉ t.queue)) t.outbox }

def outboxHas (t : Tables) (endpointHash : EndpointHash) (eventId : EventId) : Option Uuid :=
  (Map.findRow (fun _ row ↦
    row.wake.endpointHash = endpointHash && row.wake.eventId = eventId) t.outbox).map Prod.fst

/-- One request of `enqueue_wakes`; `id` is the one drawn for a new row. The leases are locked from
their reading to the commit, and the unique key serializes the inserts. -/
def enqueueWake (t : Tables) (request : WakeRequest) (id : Uuid) (now : Timestamptz) :
    EnqueueWakeOutcome × Tables :=
  match (t.leases.lookup request.address).bind fun row ↦
      (row.eligible now).filter fun _ ↦ row.version.generation = request.leaseGeneration with
  | none => (.inactiveLease, t)
  | some lease =>
    match t.outboxHas lease.endpointHash request.eventId with
    | some other => (.duplicate other, t)
    | none =>
      let wake : Wake := ⟨request.address, request.leaseGeneration, lease.endpointHash,
        request.eventId, request.wakeClass, request.expiresAt, now⟩
      (.enqueued id, { t with outbox := AList.insert id ⟨wake, .pending, 0, now⟩ t.outbox })

def enqueueWakes (t : Tables) (now : Timestamptz) :
    List (WakeRequest × Uuid) → List EnqueueWakeOutcome × Tables
  | [] => ([], t)
  | (request, id) :: rest =>
    let first := t.enqueueWake request id now
    let others := enqueueWakes first.2 now rest
    (first.1 :: others.1, others.2)

/-- `INSERT INTO push_match_queue … ON CONFLICT DO NOTHING`, by the trigger or a backfill. -/
def enqueueMatch (t : Tables) (eventId : EventId) (now : Timestamptz) : Tables :=
  if eventId ∈ t.queue then t
  else { t with queue := AList.insert eventId ⟨none, 0, now, now⟩ t.queue }

def matchDue (now : Timestamptz) (job : MatchJob) : Bool :=
  job.attempts < maxMatchAttempts && job.nextAttemptAt ≤ now && claimable job.claim now

def dueMatches (t : Tables) (now : Timestamptz) (locked : List EventId) (limit : ℕ) :
    List ((_ : EventId) × MatchJob) :=
  selectDue (t.queue.entries.filter fun e ↦ matchDue now e.2)
    (fun _ job ↦ toLex (job.nextAttemptAt, job.createdAt)) locked limit

def claimDueMatchBatch (t : Tables) (limit : ℕ) (claimId : Uuid) (leaseUntil now : Timestamptz)
    (locked : List EventId) : List (EventId × ℕ) × Tables :=
  let due := t.dueMatches now locked limit
  let claim (job : MatchJob) : MatchJob :=
    { job with claim := some (claimId, leaseUntil), attempts := job.attempts + 1 }
  let queue := Map.mapValues (fun id job ↦ if id ∈ due.map Sigma.fst then claim job else job) t.queue
  (due.map fun e ↦ (e.1, e.2.attempts + 1), { t with queue := queue })

def fencedMatch (claimId : Uuid) (eventIds : List EventId) (id : EventId) (job : MatchJob) : Bool :=
  decide (id ∈ eventIds) && job.claim.any fun claim ↦ claim.1 = claimId

def completeMatchBatch (t : Tables) (claimId : Uuid) (eventIds : List EventId) : Tables :=
  { t with queue := Map.keepEntries (fun id job ↦ !fencedMatch claimId eventIds id job) t.queue }

def retryMatchBatch (t : Tables) (claimId : Uuid) (eventIds : List EventId) (next : Timestamptz) :
    Tables :=
  { t with queue := Map.mapValues (fun id job ↦ if fencedMatch claimId eventIds id job then
      { job with claim := none, nextAttemptAt := next } else job) t.queue }

def reapExhaustedMatches (t : Tables) (now : Timestamptz) : Tables :=
  { t with queue := Map.keepEntries (fun _ job ↦
      !(decide (maxMatchAttempts ≤ job.attempts) && claimable job.claim now)) t.queue }

end Tables

end Buzz.Push
