import Buzz.Lib.ClaimLedger
import Buzz.Push.Outbox

namespace Buzz.Push

open Buzz.Lib Buzz.Lib.Claims Buzz.Nostr Buzz.Db

/-- The tables with the clock, the ids drawn so far and the claims given out. -/
structure World where
  tables : Tables
  clock : Timestamptz
  drawn : List Uuid
  wakesIssued : List (Grant Uuid Uuid Timestamptz)
  wakesOut : List (Grant Uuid Uuid Timestamptz)
  matchesIssued : List (Grant EventId Uuid Timestamptz)
  matchesOut : List (Grant EventId Uuid Timestamptz)

/-- The statements and transactions of the wake pipeline, each with the `now()` that it runs with.
`writeEvents` stands for what the other commands do to the events. -/
inductive Op
  | tick (clock : Timestamptz)
  | enqueueWakes (requests : List (WakeRequest × Uuid)) (now : Timestamptz)
  | claimWakes (limit : ℕ) (claimId : Uuid) (leaseUntil now : Timestamptz) (locked : List Uuid)
  | completeWake (id claimId : Uuid)
  | retryWake (id claimId : Uuid) (next : Timestamptz)
  | failWake (id claimId : Uuid)
  | pruneWakes (before now : Timestamptz)
  | acceptLease (event : Event) (installationId : String) (version : LeaseVersion)
      (active : Option ActiveLease) (maxActiveLeases : ℤ) (now : Timestamptz)
  | disableEndpoint (address : Address) (generation : ℤ)
  | enqueueMatch (eventId : EventId) (now : Timestamptz)
  | claimMatches (limit : ℕ) (claimId : Uuid) (leaseUntil now : Timestamptz)
      (locked : List EventId)
  | completeMatches (claimId : Uuid) (eventIds : List EventId)
  | retryMatches (claimId : Uuid) (eventIds : List EventId) (next : Timestamptz)
  | reapMatches (now : Timestamptz)
  | writeEvents (events : EventsTable)

namespace Op

/-- A transaction's `now()` is the time of its begin. -/
def now : Op → Option Timestamptz
  | enqueueWakes _ now => some now
  | claimWakes _ _ _ now _ => some now
  | pruneWakes _ now => some now
  | acceptLease _ _ _ _ _ now => some now
  | enqueueMatch _ now => some now
  | claimMatches _ _ _ now _ => some now
  | reapMatches now => some now
  | _ => none

def draws : Op → List Uuid
  | enqueueWakes requests _ => requests.map Prod.snd
  | claimWakes _ claimId _ _ _ => [claimId]
  | claimMatches _ claimId _ _ _ => [claimId]
  | _ => []

end Op

def WakeRow.claim (row : WakeRow) : ClaimColumns :=
  match row.state with
  | .sending claim => some claim
  | _ => none

namespace World

def wakeLedger (w : World) : Ledger Uuid Uuid Timestamptz :=
  ⟨fun id ↦ (w.tables.outbox.lookup id).bind WakeRow.claim, w.wakesIssued, w.wakesOut⟩

def jobLedger (w : World) : Ledger EventId Uuid Timestamptz :=
  ⟨fun id ↦ (w.tables.queue.lookup id).bind MatchJob.claim, w.matchesIssued, w.matchesOut⟩

/-- The time of a statement is not ahead of the clock, and ids are drawn once. -/
def Allowed (w : World) (op : Op) : Prop :=
  (∀ now ∈ op.now, now ≤ w.clock) ∧ op.draws.Nodup ∧ ∀ id ∈ op.draws, id ∉ w.drawn

instance (w : World) (op : Op) : Decidable (w.Allowed op) :=
  haveI : Decidable (∀ id ∈ op.draws, id ∉ w.drawn) := List.decidableBAll _ _
  inferInstanceAs (Decidable (_ ∧ _))

def endWake (w : World) (tables : Tables) (id claimId : Uuid) : World :=
  { w with
    tables := tables
    wakesOut := w.wakesOut.filter fun g ↦ !(g.key = id && g.token = claimId) }

def endMatches (w : World) (tables : Tables) (claimId : Uuid) (eventIds : List EventId) : World :=
  { w with
    tables := tables
    matchesOut := w.matchesOut.filter fun g ↦ !(decide (g.key ∈ eventIds) && g.token = claimId) }

def claimWakes (w : World) (limit : ℕ) (claimId : Uuid) (leaseUntil now : Timestamptz)
    (locked : List Uuid) : World :=
  let claimed := w.wakeLedger.claim ((w.tables.dueWakes now locked limit).map Sigma.fst) claimId
    leaseUntil
  { w with
    tables := (w.tables.claimDueWakes limit claimId leaseUntil now locked).2
    wakesIssued := claimed.issued
    wakesOut := claimed.out }

def claimMatches (w : World) (limit : ℕ) (claimId : Uuid) (leaseUntil now : Timestamptz)
    (locked : List EventId) : World :=
  let claimed :=
    w.jobLedger.claim ((w.tables.dueMatches now locked limit).map Sigma.fst) claimId leaseUntil
  { w with
    tables := (w.tables.claimDueMatchBatch limit claimId leaseUntil now locked).2
    matchesIssued := claimed.issued
    matchesOut := claimed.out }

def run (w : World) : Op → World
  | .tick clock => { w with clock := max w.clock clock }
  | .enqueueWakes requests now => { w with tables := (w.tables.enqueueWakes now requests).2 }
  | .claimWakes limit claimId leaseUntil now locked =>
    w.claimWakes limit claimId leaseUntil now locked
  | .completeWake id claimId => w.endWake (w.tables.completeWake id claimId).1 id claimId
  | .retryWake id claimId next => w.endWake (w.tables.retryWake id claimId next).1 id claimId
  | .failWake id claimId => w.endWake (w.tables.failWake id claimId).1 id claimId
  | .pruneWakes before now =>
    let tables := w.tables.pruneWakeOutbox before now
    { w with
      tables := tables
      wakesOut := w.wakesOut.filter fun g ↦ decide (g.key ∈ tables.outbox) }
  | .acceptLease event installationId version active maxActiveLeases now =>
    let accepted := (LeaseTables.acceptLeaseEvent ⟨w.tables.events, w.tables.leases⟩ event
      installationId version active maxActiveLeases now).2
    { w with tables := { w.tables with events := accepted.events, leases := accepted.leases } }
  | .disableEndpoint address generation =>
    let leases := (w.tables.leases.disableEndpointGeneration address generation).1
    { w with tables := { w.tables with leases := leases } }
  | .enqueueMatch eventId now => { w with tables := w.tables.enqueueMatch eventId now }
  | .claimMatches limit claimId leaseUntil now locked =>
    w.claimMatches limit claimId leaseUntil now locked
  | .completeMatches claimId eventIds =>
    w.endMatches (w.tables.completeMatchBatch claimId eventIds) claimId eventIds
  | .retryMatches claimId eventIds next =>
    w.endMatches (w.tables.retryMatchBatch claimId eventIds next) claimId eventIds
  | .reapMatches now => { w with tables := w.tables.reapExhaustedMatches now }
  | .writeEvents events => { w with tables := { w.tables with events := events } }

def step (w : World) (op : Op) : World :=
  if w.Allowed op then { w.run op with drawn := op.draws ++ w.drawn } else w

/-- Before the first operation; events may be stored already. -/
def start (events : EventsTable) (clock : Timestamptz) : World :=
  ⟨⟨events, ∅, ∅, ∅⟩, clock, [], [], [], [], []⟩

end World

end Buzz.Push
