import Buzz.Db.Events
import Buzz.Lib.Attempt
import Buzz.Lib.Json

namespace Buzz.Push

open Buzz.Lib Buzz.Nostr Buzz.Db

def kindPushLease : Kind := 30350

abbrev Timestamptz := ℤ

/-- `EXTRACT(EPOCH FROM now())::bigint`, which rounds to the nearest second. -/
def epoch (now : Timestamptz) : ℤ := (now + 500000) / 1000000

theorem epoch_mono {now now' : Timestamptz} (h : now ≤ now') : epoch now ≤ epoch now' :=
  Int.ediv_le_ediv (by decide) (Int.add_le_add_right h _)

inductive WakeClass
  | silent
  | default
  | timeSensitive
  | urgent
deriving DecidableEq, Repr

abbrev EndpointHash := Fin (2 ^ 256)

structure LeaseVersion where
  sourceEventId : EventId
  sourceCreatedAt : ℤ
  generation : ℤ
  expiresAt : ℤ
deriving DecidableEq, Repr

structure ActiveLease where
  appProfile : String
  endpointHash : EndpointHash
  endpointGrant : String
  maxClass : WakeClass
  subscriptions : Json

/-- A row of `push_leases`. Its `CHECK` has the columns of `active` non-null just in case the lease is
active. -/
structure LeaseRow where
  version : LeaseVersion
  active : Option ActiveLease
  endpointEnabled : Bool

abbrev Address := PublicKey × String

abbrev Leases := Map Address LeaseRow

inductive AcceptLeaseOutcome
  | accepted
  | staleEvent
  | staleGeneration
  | endpointAlreadyLeased
  | leaseQuotaExceeded
  | sourceEventCollision
  | constraintViolation
deriving DecidableEq, Repr

inductive ReplaceLeaseOutcome
  | accepted
  | staleEvent
  | staleGeneration
deriving DecidableEq, Repr

/-- Why a transaction ends without effect. -/
inductive Refusal
  | outcome (o : AcceptLeaseOutcome) (h : o ≠ .accepted := by decide)
  | error (e : DbError)

namespace LeaseVersion

/-- NIP-01 order of addressable events: the later one wins, the lower id at the same second. -/
def WinsEvent (version current : LeaseVersion) : Prop :=
  current.sourceCreatedAt < version.sourceCreatedAt ∨
    (version.sourceCreatedAt = current.sourceCreatedAt ∧
      version.sourceEventId < current.sourceEventId)

instance (version current : LeaseVersion) : Decidable (version.WinsEvent current) :=
  inferInstanceAs (Decidable (_ ∨ _))

end LeaseVersion

namespace LeaseRow

def isActive (row : LeaseRow) : Bool := row.active.isSome

/-- The columns of the partial index `push_leases_endpoint_unique` on active leases. -/
def hasEndpoint (row : LeaseRow) (lease : ActiveLease) : Bool :=
  row.active.any fun a ↦ a.appProfile = lease.appProfile && a.endpointHash = lease.endpointHash

end LeaseRow

namespace Leases

def sourceAddress (leases : Leases) (id : EventId) : Option Address :=
  (Map.findRow (fun _ row ↦ row.version.sourceEventId = id) leases).map Prod.fst

def checkSource (leases : Leases) (address : Address) (version : LeaseVersion) :
    Except Refusal Unit :=
  match leases.sourceAddress version.sourceEventId with
  | none => .ok ()
  | some other =>
    if other = address then .error (.outcome .staleEvent)
    else .error (.outcome .sourceEventCollision)

def checkOrder (leases : Leases) (address : Address) (version : LeaseVersion) :
    Except Refusal Unit :=
  match leases.lookup address with
  | none => .ok ()
  | some row =>
    if ¬version.WinsEvent row.version then .error (.outcome .staleEvent)
    else if version.generation ≤ row.version.generation then .error (.outcome .staleGeneration)
    else .ok ()

/-- The cleanup of the author's expired leases clears `active` but not the columns that the `CHECK`
wants null then, so with an expired lease it fails. -/
def expireLeases (leases : Leases) (author : PublicKey) (now : Timestamptz) : Except Refusal Unit :=
  if leases.entries.any fun e ↦
      e.1.1 = author && e.2.isActive && e.2.version.expiresAt ≤ epoch now then
    .error (.error (.database "23514"))
  else .ok ()

def activeCount (leases : Leases) (author : PublicKey) (installationId : String) : ℕ :=
  Map.count (fun address row ↦
    address.1 = author && row.isActive && address.2 ≠ installationId) leases

def endpointTaken (leases : Leases) (address : Address) (lease : ActiveLease) : Bool :=
  Map.otherHas (Map.keepEntries (fun other _ ↦ other.1 = address.1) leases) address fun row ↦
    row.hasEndpoint lease

def checkActive (leases : Leases) (address : Address) (active : Option ActiveLease)
    (maxActiveLeases : ℤ) : Except Refusal Unit :=
  match active with
  | none => .ok ()
  | some lease =>
    if maxActiveLeases ≤ leases.activeCount address.1 address.2 then
      .error (.outcome .leaseQuotaExceeded)
    else if leases.endpointTaken address lease then .error (.outcome .endpointAlreadyLeased)
    else .ok ()

/-- The `CHECK`s on the columns of a proposed row, which come before its `ON CONFLICT`. -/
def Checked (address : Address) (version : LeaseVersion) : Prop :=
  0 < version.generation ∧ 0 < address.2.utf8ByteSize ∧ address.2.utf8ByteSize ≤ 64

instance (address : Address) (version : LeaseVersion) : Decidable (Checked address version) :=
  inferInstanceAs (Decidable (_ ∧ _))

def constraint (leases : Leases) (address : Address) (row : LeaseRow) :
    Except Refusal Unit :=
  if ¬Checked address row.version then .error (.outcome .constraintViolation)
  else if leases.otherHas address fun other ↦
      other.version.sourceEventId = row.version.sourceEventId then
    .error (.outcome .sourceEventCollision)
  else if row.active.any (leases.endpointTaken address) then
    .error (.outcome .endpointAlreadyLeased)
  else .ok ()

def upsert (leases : Leases) (address : Address) (version : LeaseVersion)
    (active : Option ActiveLease) : Except Refusal Leases := do
  leases.constraint address ⟨version, active, true⟩
  return AList.insert address ⟨version, active, true⟩ leases

def disableEndpointGeneration (leases : Leases) (address : Address) (generation : ℤ) :
    Leases × Bool :=
  match leases.lookup address with
  | none => (leases, false)
  | some row =>
    if row.version.generation = generation ∧ row.isActive ∧ row.endpointEnabled then
      (AList.insert address { row with endpointEnabled := false } leases, true)
    else (leases, false)

def replaceLease (leases : Leases) (address : Address) (version : LeaseVersion)
    (active : Option ActiveLease) : Except DbError ReplaceLeaseOutcome × Leases :=
  let write : Except DbError ReplaceLeaseOutcome × Leases :=
    match leases.upsert address version active with
    | .error _ => (.error (.database "23505"), leases)
    | .ok leases' => (.ok .accepted, leases')
  if ¬Checked address version then (.error (.database "23514"), leases)
  else
    match leases.lookup address with
    | none => write
    | some row =>
      if version.WinsEvent row.version ∧ row.version.generation < version.generation then write
      else if ¬version.WinsEvent row.version then (.ok .staleEvent, leases)
      else (.ok .staleGeneration, leases)

end Leases

structure LeaseTables where
  events : EventsTable
  leases : Leases

namespace LeaseTables

def isLeaseEvent (address : Address) (row : EventRow) : Bool :=
  row.event.kind = kindPushLease && row.event.pubkey = address.1 && row.dTag = some address.2 &&
    !row.deleted

def replaceEvent (events : EventsTable) (event : Event) (installationId : String)
    (createdAt : ℤ) : Except Refusal EventsTable := do
  let time ← okOr (fromTimestamp createdAt) (.error (.invalidTimestamp createdAt))
  let rest := events.softDelete fun _ row ↦ isLeaseEvent (event.pubkey, installationId) row
  if (time, event.id) ∈ rest then .error (.outcome .constraintViolation)
  else
    .ok (AList.insert (time, event.id) ⟨{ event with kind := kindPushLease }, none,
      some installationId, false⟩ rest)

/-- The transaction of `accept_lease_event`; whatever ends it early rolls it back. -/
def transaction (t : LeaseTables) (event : Event) (installationId : String)
    (version : LeaseVersion) (active : Option ActiveLease) (maxActiveLeases : ℤ)
    (now : Timestamptz) : Except Refusal LeaseTables := do
  let address : Address := (event.pubkey, installationId)
  t.leases.checkSource address version
  t.leases.checkOrder address version
  t.leases.expireLeases event.pubkey now
  t.leases.checkActive address active maxActiveLeases
  let events ← replaceEvent t.events event installationId version.sourceCreatedAt
  let leases ← t.leases.upsert address version active
  return ⟨events, leases⟩

def acceptLeaseEvent (t : LeaseTables) (event : Event) (installationId : String)
    (version : LeaseVersion) (active : Option ActiveLease) (maxActiveLeases : ℤ)
    (now : Timestamptz) : Except DbError AcceptLeaseOutcome × LeaseTables :=
  match t.transaction event installationId version active maxActiveLeases now with
  | .ok t' => (.ok .accepted, t')
  | .error (.outcome o _) => (.ok o, t)
  | .error (.error e) => (.error e, t)

end LeaseTables

def LeaseVersion.ofEvent (event : Event) (generation expiresAt : ℤ) : LeaseVersion :=
  ⟨event.id, asI64 event.createdAt, generation, expiresAt⟩

end Buzz.Push
