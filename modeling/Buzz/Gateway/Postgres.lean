import Buzz.Gateway.Authority
import Buzz.Lib.Attempt
import Buzz.Lib.Sha256

namespace Buzz.Gateway

open Buzz.Lib Buzz.Nostr

/-- A `TIMESTAMPTZ`, in microseconds of the Unix epoch. -/
abbrev DateTime := ℤ

structure ChallengeRow where
  challengeHash : List UInt8
  expiresAt : DateTime
deriving DecidableEq, Repr

structure InstallationRow where
  appAttestKeyId : List UInt8
  appAttestPublicKey : List UInt8
  assertionCounter : ℤ
  appProfile : String
  tokenCiphertext : List UInt8
  tokenFingerprint : List UInt8
  endpointEpoch : ℤ
  expiresAt : DateTime
  revokedAt : Option DateTime
deriving DecidableEq, Repr

def InstallationRow.Check (r : InstallationRow) : Prop :=
  1 ≤ r.appAttestKeyId.length ∧ r.appAttestKeyId.length ≤ 128 ∧
  33 ≤ r.appAttestPublicKey.length ∧ r.appAttestPublicKey.length ≤ 256 ∧
  0 ≤ r.assertionCounter ∧ r.assertionCounter ≤ 4294967295 ∧
  (r.appProfile = "buzz-ios-production" ∨ r.appProfile = "buzz-ios-sandbox") ∧
  1 ≤ r.tokenCiphertext.length ∧ r.tokenCiphertext.length ≤ 2048 ∧
  r.tokenFingerprint.length = 32 ∧ 0 < r.endpointEpoch

instance (r : InstallationRow) : Decidable r.Check := by
  unfold InstallationRow.Check
  infer_instance

/-- A row without the columns of its key, which are the installation and the relay. -/
structure DelegationRow where
  id : Uuid
  endpointEpoch : ℤ
  generation : ℤ
  notBefore : DateTime
  expiresAt : DateTime
  revokedAt : Option DateTime
deriving DecidableEq, Repr

def DelegationRow.Check (relayPubkey : List UInt8) (r : DelegationRow) : Prop :=
  relayPubkey.length = 32 ∧ 0 < r.endpointEpoch ∧ 0 < r.generation ∧ r.notBefore < r.expiresAt

instance (relayPubkey : List UInt8) (r : DelegationRow) : Decidable (r.Check relayPubkey) := by
  unfold DelegationRow.Check
  infer_instance

structure QuotaRow where
  windowStartedAt : DateTime
  admitted : ℤ
  updatedAt : DateTime
deriving DecidableEq, Repr

structure Tables where
  challenges : Map Uuid ChallengeRow
  installations : Map Uuid InstallationRow
  delegations : Map (Uuid × List UInt8) DelegationRow
  endpointQuotas : Map (List UInt8) QuotaRow
  deliveryAuthReplays : Map (List UInt8 × List UInt8) DateTime
  deliveryRequestReplays : Map (List UInt8 × Uuid) DateTime
deriving DecidableEq

/-- The seconds of the first and the last instant of `chrono`. -/
def minUtc : ℤ := -8334601228800

def maxUtc : ℤ := 8210266876799

/-- The first instant a `TIMESTAMPTZ` can hold, 24 November 4714 BC. -/
def minTimestamptz : ℤ := -210866803200

def seconds (n : ℤ) : ℤ := n * 1000000

def day : ℤ := seconds 86400

/-- The source's `at`. -/
def atTime (ts : ℤ) : Except AuthorityError DateTime :=
  if minUtc ≤ ts ∧ ts ≤ maxUtc then .ok (seconds ts) else .error .rejected

/-- The server refuses a parameter that no `TIMESTAMPTZ` can hold. -/
def bindTime (t : DateTime) : Except AuthorityError DateTime :=
  if seconds minTimestamptz ≤ t then .ok t else .error .unavailable

def bindAt (ts : ℤ) : Except AuthorityError DateTime := do bindTime (← atTime ts)

def ts (v : DateTime) : ℤ := v / 1000000

def profile (v : String) : Except AuthorityError AppProfile :=
  if v = "buzz-ios-production" then .ok .buzzIosProduction
  else if v = "buzz-ios-sandbox" then .ok .buzzIosSandbox
  else .error .unavailable

def bytes32 (v : List UInt8) : Except AuthorityError Bytes32 :=
  if h : v.length = 32 then .ok ⟨v, h⟩ else .error .unavailable

/-- `u32::try_from` on a `BIGINT`. -/
def counter32 (n : ℤ) : Except AuthorityError UInt32 :=
  if 0 ≤ n ∧ n < 2 ^ 32 then .ok (UInt32.ofNat n.toNat) else .error .unavailable

namespace Tables

def empty : Tables where
  challenges := ∅
  installations := ∅
  delegations := ∅
  endpointQuotas := ∅
  deliveryAuthReplays := ∅
  deliveryRequestReplays := ∅

/-- Here and below an error leaves the tables as they were: the transaction is dropped, which
rolls it back. -/
def putChallenge (s : Tables) (c : Challenge) : Except AuthorityError Tables := do
  let expiresAt ← bindAt c.expiresAt
  require (c.id ∉ s.challenges) .unavailable
  return { s with
    challenges := AList.insert c.id ⟨Sha256.digest c.value.val, expiresAt⟩ s.challenges }

def consumeChallenge (s : Tables) (id : Uuid) (value : Bytes32) (now : ℤ) :
    Except AuthorityError Tables := do
  let now ← bindAt now
  let r ← okOr (s.challenges.lookup id) .rejected
  require (r.challengeHash = Sha256.digest value.val ∧ now ≤ r.expiresAt) .rejected
  return { s with challenges := s.challenges.erase id }

def tokenTaken (s : Tables) (id : Uuid) (appProfile : String) (fingerprint : List UInt8) : Bool :=
  Map.otherHas s.installations id fun r ↦
    r.appProfile = appProfile && r.tokenFingerprint = fingerprint

def keyIdTaken (s : Tables) (id : Uuid) (keyId : List UInt8) : Bool :=
  Map.otherHas s.installations id fun r ↦ r.appAttestKeyId = keyId

def createInstallation (s : Tables) (n : NewInstallation) : Except AuthorityError Tables := do
  let expiresAt ← bindAt n.expiresAt
  let row : InstallationRow := {
    appAttestKeyId := n.appAttestKeyId
    appAttestPublicKey := n.appAttestPublicKey
    assertionCounter := n.assertionCounter.toNat
    appProfile := n.profile.asStr
    tokenCiphertext := n.tokenCiphertext
    tokenFingerprint := n.tokenFingerprint.val
    endpointEpoch := n.endpointEpoch
    expiresAt := expiresAt
    revokedAt := none }
  require row.Check .unavailable
  require (n.id ∉ s.installations ∧ s.keyIdTaken n.id row.appAttestKeyId = false ∧
    s.tokenTaken n.id row.appProfile row.tokenFingerprint = false) .rejected
  return { s with installations := AList.insert n.id row s.installations }

def installation (s : Tables) (id : Uuid) (now : ℤ) : Except AuthorityError Installation := do
  let now ← bindAt now
  let r ← okOr ((s.installations.lookup id).filter fun r ↦
    r.revokedAt.isNone && now ≤ r.expiresAt) .rejected
  let assertionCounter ← counter32 r.assertionCounter
  let profile ← profile r.appProfile
  let tokenFingerprint ← bytes32 r.tokenFingerprint
  return {
    id := id
    appAttestKeyId := r.appAttestKeyId
    appAttestPublicKey := r.appAttestPublicKey
    assertionCounter := assertionCounter
    profile := profile
    tokenCiphertext := r.tokenCiphertext
    tokenFingerprint := tokenFingerprint
    endpointEpoch := r.endpointEpoch
    expiresAt := ts r.expiresAt
    revoked := false }

def updateInstallation (s : Tables) (id : Uuid) (p : InstallationRow → Bool)
    (f : InstallationRow → InstallationRow) : Except AuthorityError Tables := do
  let r ← okOr ((s.installations.lookup id).filter p) .rejected
  require (f r).Check .unavailable
  require (s.tokenTaken id (f r).appProfile (f r).tokenFingerprint = false) .unavailable
  return { s with installations := AList.insert id (f r) s.installations }

def advanceAssertionCounter (s : Tables) (id : Uuid) (previous next : UInt32) :
    Except AuthorityError Tables := do
  require (¬next ≤ previous) .rejected
  s.updateInstallation id (fun r ↦ r.assertionCounter = previous.toNat && r.revokedAt.isNone)
    fun r ↦ { r with assertionCounter := next.toNat }

/-- `SELECT … FOR UPDATE` of the installation, and what the code checks of it. -/
def delegableInstallation (s : Tables) (d : Delegation) :
    Except AuthorityError InstallationRow := do
  let i ← okOr (s.installations.lookup d.installationId) .rejected
  let expiresAt ← atTime d.expiresAt
  require (i.revokedAt = none ∧ i.endpointEpoch = d.endpointEpoch ∧ expiresAt ≤ i.expiresAt)
    .rejected
  return i

/-- `INSERT … ON CONFLICT (installation_id, relay_pubkey) DO UPDATE … WHERE EXCLUDED.generation >
push_gateway_delegations.generation`. -/
def writeDelegation (s : Tables) (d : Delegation) : Except AuthorityError Tables := do
  let relay ← okOr (hexDecode d.relayPubkey) .rejected
  let notBefore ← bindAt d.notBefore
  let expiresAt ← bindAt d.expiresAt
  let row : DelegationRow := ⟨d.id, d.endpointEpoch, d.generation, notBefore, expiresAt, none⟩
  require (row.Check relay) .unavailable
  require ((s.delegations.lookup (d.installationId, relay)).all
    fun old ↦ old.generation < d.generation) .rejected
  require (Map.otherHas s.delegations (d.installationId, relay) (fun r ↦ r.id = d.id) = false)
    .unavailable
  return { s with delegations := AList.insert (d.installationId, relay) row s.delegations }

def upsertDelegation (s : Tables) (d : Delegation) : Except AuthorityError Tables := do
  let _ ← s.delegableInstallation d
  s.writeDelegation d

def rotateEndpoint (s : Tables) (id : Uuid) (expected new : ℤ) (ciphertext : List UInt8)
    (fingerprint : Bytes32) : Except AuthorityError Tables := do
  require (IsNextEpoch expected new) .rejected
  s.updateInstallation id (fun r ↦ r.endpointEpoch = expected && r.revokedAt.isNone) fun r ↦
    { r with
      endpointEpoch := new, tokenCiphertext := ciphertext, tokenFingerprint := fingerprint.val }

def revokeDelegation (s : Tables) (dbNow : DateTime) (id : Uuid) (relay : String)
    (generation : ℤ) : Except AuthorityError Tables := do
  let relay ← okOr (hexDecode relay) .rejected
  let r ← okOr ((s.delegations.lookup (id, relay)).filter fun r ↦ r.generation < generation)
    .rejected
  let row := { r with generation := generation, revokedAt := some dbNow }
  require (row.Check relay) .unavailable
  return { s with delegations := AList.insert (id, relay) row s.delegations }

def revokeInstallation (s : Tables) (dbNow : DateTime) (id : Uuid) (expected new : ℤ) :
    Except AuthorityError Tables := do
  require (IsNextEpoch expected new) .rejected
  s.updateInstallation id (fun r ↦ r.endpointEpoch = expected && r.revokedAt.isNone) fun r ↦
    { r with endpointEpoch := new, revokedAt := some dbNow }

/-- The subquery `SELECT installation_id FROM push_gateway_delegations WHERE id=$1`. -/
def installationOf (s : Tables) (did : Uuid) : Option Uuid :=
  (Map.findRow (fun _ r ↦ r.id = did) s.delegations).map fun e ↦ e.1.1

def admitsInstallation (a : Delivery) (i : InstallationRow) : Except AuthorityError Unit := do
  let now ← atTime a.now
  require (i.revokedAt = none ∧ i.endpointEpoch = a.epoch ∧ now ≤ i.expiresAt) .rejected

/-- `SELECT … FOR UPDATE` of the delegation that carries the grant. -/
def admittedDelegation (s : Tables) (a : Delivery) :
    Except AuthorityError ((Uuid × List UInt8) × DelegationRow) := do
  let relay ← okOr (hexDecode a.relay) .rejected
  let now ← bindAt a.now
  okOr (Map.findRow (fun key r ↦ r.id = a.delegationId && key.2 = relay &&
    r.endpointEpoch = a.epoch && r.generation = a.generation && r.revokedAt.isNone &&
    r.notBefore ≤ now && now ≤ r.expiresAt) s.delegations) .rejected

/-- The row that the upsert into `push_gateway_endpoint_quotas` leaves. -/
def quotaRow (stored : Option QuotaRow) (now dbNow : DateTime) (a : Delivery) :
    Except AuthorityError QuotaRow :=
  match stored with
  | none => .ok ⟨now, 1, dbNow⟩
  | some q =>
    if q.windowStartedAt ≤ now - seconds a.quotaWindowSeconds then .ok ⟨now, 1, dbNow⟩
    else if q.admitted < a.quotaMaxDeliveries then .ok ⟨q.windowStartedAt, q.admitted + 1, dbNow⟩
    else .error .rejected

def chargeQuota (s : Tables) (a : Delivery) (dbNow : DateTime) (fingerprint : List UInt8) :
    Except AuthorityError Tables := do
  let now ← bindAt a.now
  let row ← quotaRow (s.endpointQuotas.lookup fingerprint) now dbNow a
  return { s with endpointQuotas := AList.insert fingerprint row s.endpointQuotas }

def fence (s : Tables) (a : Delivery) : Except AuthorityError Tables := do
  let relay ← okOr (hexDecode a.relay) .rejected
  let event ← okOr (hexDecode a.eventId) .rejected
  let expiresAt ← bindAt a.requestExpiresAt
  require (relay.length = 32) .unavailable
  require ((relay, event) ∉ s.deliveryAuthReplays ∧ (relay, a.requestId) ∉ s.deliveryRequestReplays)
    .rejected
  return { s with
    deliveryAuthReplays := AList.insert (relay, event) expiresAt s.deliveryAuthReplays
    deliveryRequestReplays :=
      AList.insert (relay, a.requestId) expiresAt s.deliveryRequestReplays }

/-- What `authorize_delivery` does once it holds both rows, up to its commit. -/
def admitDelivery (s : Tables) (dbNow : DateTime) (a : Delivery) (i : InstallationRow)
    (key : Uuid × List UInt8) (d : DelegationRow) :
    Except AuthorityError (DeliveryPermit × Tables) := do
  let profile ← profile i.appProfile
  let authority : DeliveryAuthority := {
    delegationId := a.delegationId
    installationId := key.1
    relayPubkey := a.relay
    profile := profile
    tokenCiphertext := i.tokenCiphertext
    endpointEpoch := a.epoch
    generation := a.generation
    expiresAt := ts d.expiresAt }
  require (a.now ≤ a.requestExpiresAt ∧ a.requestExpiresAt ≤ authority.expiresAt) .rejected
  require (1 ≤ a.quotaWindowSeconds ∧ 1 ≤ a.quotaMaxDeliveries) .unavailable
  let s ← s.chargeQuota a dbNow i.tokenFingerprint
  let s ← s.fence a
  return (⟨authority, a.relay, a.requestId⟩, s)

/-- What `authorize_delivery` checks of its arguments before it starts a transaction. -/
def decodeDelivery (a : Delivery) : Except AuthorityError Unit := do
  let _ ← okOr (hexDecode a.relay) .rejected
  let event ← okOr (hexDecode a.eventId) .rejected
  require (event.length = 32) .rejected

def authorizeDelivery (s : Tables) (dbNow : DateTime) (a : Delivery) :
    Except AuthorityError (DeliveryPermit × Tables) := do
  decodeDelivery a
  let id ← okOr (s.installationOf a.delegationId) .rejected
  let i ← okOr (s.installations.lookup id) .rejected
  admitsInstallation a i
  let (key, d) ← s.admittedDelegation a
  s.admitDelivery dbNow a i key d

def finishDelivery (s : Tables) (permit : DeliveryPermit) (disposition : DeliveryDisposition) :
    Except AuthorityError Tables := do
  match disposition with
  | .terminal => return s
  | .retryable =>
    let relay ← okOr (hexDecode permit.relayPubkey) .unavailable
    return { s with
      deliveryRequestReplays := s.deliveryRequestReplays.erase (relay, permit.requestId) }

def reapableInstallation (now : DateTime) (r : InstallationRow) : Bool :=
  r.expiresAt < now || r.revokedAt.any (· < now - day)

def reapableDelegation (s : Tables) (now : DateTime) (key : Uuid × List UInt8)
    (r : DelegationRow) : Bool :=
  r.expiresAt < now || r.revokedAt.any (· < now - day) ||
    (s.installations.lookup key.1).any (reapableInstallation now)

def reapExpired (s : Tables) (now : ℤ) : Except AuthorityError Tables := do
  let now ← bindAt now
  return {
    challenges := Map.keepEntries (fun _ r ↦ !(r.expiresAt < now)) s.challenges
    installations := Map.keepEntries (fun _ r ↦ !reapableInstallation now r) s.installations
    delegations := Map.keepEntries (fun key r ↦ !s.reapableDelegation now key r) s.delegations
    endpointQuotas := Map.keepEntries (fun _ q ↦ !(q.updatedAt < now - day)) s.endpointQuotas
    deliveryAuthReplays := Map.keepEntries (fun _ e ↦ !(e < now)) s.deliveryAuthReplays
    deliveryRequestReplays := Map.keepEntries (fun _ e ↦ !(e < now)) s.deliveryRequestReplays }

def done (r : Except AuthorityError Tables) : Except AuthorityError (Answer × Tables) :=
  r.map fun s ↦ (.done, s)

/-- One call on `PostgresAuthorityStore` that nothing else overlaps. -/
def call (s : Tables) (dbNow : DateTime) : Call → Except AuthorityError (Answer × Tables)
  | .putChallenge c => done (s.putChallenge c)
  | .consumeChallenge id value now => done (s.consumeChallenge id value now)
  | .createInstallation n => done (s.createInstallation n)
  | .installation id now => (s.installation id now).map fun i ↦ (.installation i, s)
  | .advanceAssertionCounter id previous next =>
    done (s.advanceAssertionCounter id previous next)
  | .upsertDelegation d => done (s.upsertDelegation d)
  | .rotateEndpoint id expected new ciphertext fingerprint =>
    done (s.rotateEndpoint id expected new ciphertext fingerprint)
  | .revokeDelegation id relay generation =>
    done (s.revokeDelegation dbNow id relay generation)
  | .revokeInstallation id expected new =>
    done (s.revokeInstallation dbNow id expected new)
  | .authorizeDelivery a => (s.authorizeDelivery dbNow a).map fun r ↦ (.permit r.1, r.2)
  | .finishDelivery permit disposition => done (s.finishDelivery permit disposition)

end Tables

end Buzz.Gateway
