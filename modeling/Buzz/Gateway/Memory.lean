import Buzz.Gateway.Authority

namespace Buzz.Gateway

open Buzz.Lib Buzz.Nostr

structure MemoryState where
  challenges : Map Uuid Challenge
  installations : Map Uuid Installation
  tokenOwners : Map (AppProfile × Bytes32) Uuid
  delegations : Map (Uuid × String) Delegation
  delegationIds : Map Uuid (Uuid × String)
  deliveryAuthReplays : Map (String × String) ℤ
  deliveryRequestReplays : Map (String × Uuid) ℤ
  endpointQuotas : Map Bytes32 (ℤ × ℤ)
deriving DecidableEq

namespace MemoryState

def empty : MemoryState where
  challenges := ∅
  installations := ∅
  tokenOwners := ∅
  delegations := ∅
  delegationIds := ∅
  deliveryAuthReplays := ∅
  deliveryRequestReplays := ∅
  endpointQuotas := ∅

/-- `HashMap::insert` has replaced the challenge before the duplicate is reported. -/
def putChallenge (s : MemoryState) (c : Challenge) : Except AuthorityError Unit × MemoryState :=
  (if c.id ∈ s.challenges then .error .rejected else .ok (),
    { s with challenges := AList.insert c.id c s.challenges })

def consumeChallenge (s : MemoryState) (id : Uuid) (value : Bytes32) (now : ℤ) :
    Except AuthorityError Unit × MemoryState :=
  match s.challenges.lookup id with
  | none => (.error .rejected, s)
  | some challenge =>
    (if challenge.value ≠ value ∨ challenge.expiresAt < now then .error .rejected else .ok (),
      { s with challenges := s.challenges.erase id })

def createInstallation (s : MemoryState) (n : NewInstallation) :
    Except AuthorityError Unit × MemoryState :=
  let tokenKey := (n.profile, n.tokenFingerprint)
  if n.id ∈ s.installations ∨ tokenKey ∈ s.tokenOwners then (.error .rejected, s)
  else
    let i : Installation := {
      id := n.id
      appAttestKeyId := n.appAttestKeyId
      appAttestPublicKey := n.appAttestPublicKey
      assertionCounter := n.assertionCounter
      profile := n.profile
      tokenCiphertext := n.tokenCiphertext
      tokenFingerprint := n.tokenFingerprint
      endpointEpoch := n.endpointEpoch
      expiresAt := n.expiresAt
      revoked := false }
    (.ok (), { s with
      tokenOwners := AList.insert tokenKey n.id s.tokenOwners
      installations := AList.insert n.id i s.installations })

def installation (s : MemoryState) (id : Uuid) (now : ℤ) :
    Except AuthorityError Installation × MemoryState :=
  match (s.installations.lookup id).filter fun i ↦ !i.revoked && now ≤ i.expiresAt with
  | none => (.error .rejected, s)
  | some i => (.ok i, s)

def advanceAssertionCounter (s : MemoryState) (id : Uuid) (previous next : UInt32) :
    Except AuthorityError Unit × MemoryState :=
  if next ≤ previous then (.error .rejected, s)
  else match s.installations.lookup id with
  | none => (.error .rejected, s)
  | some i =>
    if i.revoked ∨ i.assertionCounter ≠ previous then (.error .rejected, s)
    else (.ok (), { s with
      installations := AList.insert id { i with assertionCounter := next } s.installations })

def upsertDelegation (s : MemoryState) (d : Delegation) :
    Except AuthorityError Unit × MemoryState :=
  match s.installations.lookup d.installationId with
  | none => (.error .rejected, s)
  | some i =>
    if i.revoked ∨ i.endpointEpoch ≠ d.endpointEpoch ∨ d.generation < 1 ∨
        d.expiresAt ≤ d.notBefore ∨ i.expiresAt < d.expiresAt then (.error .rejected, s)
    else
      let key := (d.installationId, d.relayPubkey)
      if (s.delegations.lookup key).any (fun old ↦ d.generation ≤ old.generation) ∨
          d.id ∈ s.delegationIds then (.error .rejected, s)
      else (.ok (), { s with
        delegationIds := AList.insert d.id key s.delegationIds
        delegations := AList.insert key d s.delegations })

def rotateEndpoint (s : MemoryState) (id : Uuid) (expected new : ℤ) (ciphertext : List UInt8)
    (fingerprint : Bytes32) : Except AuthorityError Unit × MemoryState :=
  if ¬IsNextEpoch expected new then (.error .rejected, s)
  else match s.installations.lookup id with
  | none => (.error .rejected, s)
  | some i =>
    if i.revoked ∨ i.endpointEpoch ≠ expected then (.error .rejected, s)
    else
      let tokenKey := (i.profile, fingerprint)
      if (s.tokenOwners.lookup tokenKey).any (· ≠ id) then (.error .rejected, s)
      else (.ok (), { s with
        tokenOwners :=
          AList.insert tokenKey id (s.tokenOwners.erase (i.profile, i.tokenFingerprint))
        installations := AList.insert id
          { i with
            endpointEpoch := new, tokenCiphertext := ciphertext, tokenFingerprint := fingerprint }
          s.installations })

def revokeDelegation (s : MemoryState) (id : Uuid) (relay : String) (generation : ℤ) :
    Except AuthorityError Unit × MemoryState :=
  match s.delegations.lookup (id, relay) with
  | none => (.error .rejected, s)
  | some old =>
    if generation ≤ old.generation then (.error .rejected, s)
    else (.ok (), { s with
      delegations := AList.insert (id, relay)
        { old with generation := generation, revoked := true } s.delegations })

def revokeInstallation (s : MemoryState) (id : Uuid) (expected new : ℤ) :
    Except AuthorityError Unit × MemoryState :=
  if ¬IsNextEpoch expected new then (.error .rejected, s)
  else match s.installations.lookup id with
  | none => (.error .rejected, s)
  | some i =>
    if i.revoked ∨ i.endpointEpoch ≠ expected then (.error .rejected, s)
    else (.ok (), { s with
      installations := AList.insert id { i with endpointEpoch := new, revoked := true }
        s.installations })

def delivers (a : Delivery) (d : Delegation) (i : Installation) : Bool :=
  !d.revoked && !i.revoked && d.id = a.delegationId && d.relayPubkey = a.relay &&
    d.endpointEpoch = a.epoch && d.generation = a.generation && i.endpointEpoch = a.epoch &&
    d.notBefore ≤ a.now && a.now ≤ d.expiresAt && a.now ≤ i.expiresAt &&
    a.now ≤ a.requestExpiresAt && a.requestExpiresAt ≤ d.expiresAt

def quotaEntry (quotas : Map Bytes32 (ℤ × ℤ)) (fingerprint : Bytes32) (a : Delivery) :
    Map Bytes32 (ℤ × ℤ) × (ℤ × ℤ) :=
  let quotas :=
    if fingerprint ∈ quotas then quotas else AList.insert fingerprint (a.now, 0) quotas
  let quota := (quotas.lookup fingerprint).getD (a.now, 0)
  if a.quotaWindowSeconds ≤ saturatingSub a.now quota.1 then
    (AList.insert fingerprint (a.now, 0) quotas, (a.now, 0))
  else (quotas, quota)

def authorizeDelivery (s : MemoryState) (a : Delivery) :
    Except AuthorityError DeliveryPermit × MemoryState :=
  match s.delegationIds.lookup a.delegationId with
  | none => (.error .rejected, s)
  | some key =>
  match s.delegations.lookup key with
  | none => (.error .rejected, s)
  | some d =>
  match s.installations.lookup d.installationId with
  | none => (.error .rejected, s)
  | some i =>
    if !delivers a d i then (.error .rejected, s)
    else
      let authority : DeliveryAuthority := {
        delegationId := a.delegationId
        installationId := i.id
        relayPubkey := a.relay
        profile := i.profile
        tokenCiphertext := i.tokenCiphertext
        endpointEpoch := a.epoch
        generation := a.generation
        expiresAt := d.expiresAt }
      if (a.relay, a.eventId) ∈ s.deliveryAuthReplays ∨
          (a.relay, a.requestId) ∈ s.deliveryRequestReplays then (.error .rejected, s)
      else
        let (quotas, quota) := quotaEntry s.endpointQuotas i.tokenFingerprint a
        if a.quotaMaxDeliveries ≤ quota.2 then
          (.error .rejected, { s with endpointQuotas := quotas })
        else
          (.ok ⟨authority, a.relay, a.requestId⟩, { s with
            endpointQuotas := AList.insert i.tokenFingerprint (quota.1, quota.2 + 1) quotas
            deliveryAuthReplays :=
              AList.insert (a.relay, a.eventId) a.requestExpiresAt s.deliveryAuthReplays
            deliveryRequestReplays :=
              AList.insert (a.relay, a.requestId) a.requestExpiresAt s.deliveryRequestReplays })

def finishDelivery (s : MemoryState) (permit : DeliveryPermit)
    (disposition : DeliveryDisposition) : Except AuthorityError Unit × MemoryState :=
  match disposition with
  | .terminal => (.ok (), s)
  | .retryable => (.ok (), { s with
      deliveryRequestReplays :=
        s.deliveryRequestReplays.erase (permit.relayPubkey, permit.requestId) })

def reapExpired (s : MemoryState) (now : ℤ) : Except AuthorityError Unit × MemoryState :=
  (.ok (), { s with
    challenges := Map.keepEntries (fun _ c ↦ now ≤ c.expiresAt) s.challenges
    deliveryAuthReplays := Map.keepEntries (fun _ e ↦ now ≤ e) s.deliveryAuthReplays
    deliveryRequestReplays := Map.keepEntries (fun _ e ↦ now ≤ e) s.deliveryRequestReplays
    endpointQuotas :=
      Map.keepEntries (fun _ q ↦ saturatingSub now q.1 < 86400) s.endpointQuotas })

def answering {α : Type} (f : α → Answer) (r : Except AuthorityError α × MemoryState) :
    Except AuthorityError Answer × MemoryState :=
  (r.1.map f, r.2)

/-- One call on `MemoryAuthorityStore`, whose lock makes it one transition. -/
def call (s : MemoryState) : Call → Except AuthorityError Answer × MemoryState
  | .putChallenge c => answering (fun _ ↦ .done) (s.putChallenge c)
  | .consumeChallenge id value now => answering (fun _ ↦ .done) (s.consumeChallenge id value now)
  | .createInstallation n => answering (fun _ ↦ .done) (s.createInstallation n)
  | .installation id now => answering .installation (s.installation id now)
  | .advanceAssertionCounter id previous next =>
    answering (fun _ ↦ .done) (s.advanceAssertionCounter id previous next)
  | .upsertDelegation d => answering (fun _ ↦ .done) (s.upsertDelegation d)
  | .rotateEndpoint id expected new ciphertext fingerprint =>
    answering (fun _ ↦ .done) (s.rotateEndpoint id expected new ciphertext fingerprint)
  | .revokeDelegation id relay generation =>
    answering (fun _ ↦ .done) (s.revokeDelegation id relay generation)
  | .revokeInstallation id expected new =>
    answering (fun _ ↦ .done) (s.revokeInstallation id expected new)
  | .authorizeDelivery a => answering .permit (s.authorizeDelivery a)
  | .finishDelivery permit disposition =>
    answering (fun _ ↦ .done) (s.finishDelivery permit disposition)

end MemoryState

end Buzz.Gateway
