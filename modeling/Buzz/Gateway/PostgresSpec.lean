import Buzz.Gateway.Postgres

namespace Buzz.Gateway

open Buzz.Lib Buzz.Nostr

theorem atTime_eq_ok {n : ℤ} {t : DateTime} :
    atTime n = .ok t ↔ (minUtc ≤ n ∧ n ≤ maxUtc) ∧ t = seconds n := by
  rw [atTime]
  split
  · next h => simp [h, eq_comm]
  · next h => simp [h]

theorem bindTime_eq_ok {t t' : DateTime} :
    bindTime t = .ok t' ↔ seconds minTimestamptz ≤ t ∧ t' = t := by
  rw [bindTime]
  split
  · next h => simp [h, eq_comm]
  · next h => simp [h]

/-- The times that both `chrono` and a `TIMESTAMPTZ` can hold. -/
def Storable (n : ℤ) : Prop := minTimestamptz ≤ n ∧ n ≤ maxUtc

instance (n : ℤ) : Decidable (Storable n) := inferInstanceAs (Decidable (_ ∧ _))

theorem bindAt_eq_ok {n : ℤ} {t : DateTime} : bindAt n = .ok t ↔ Storable n ∧ t = seconds n := by
  rw [bindAt, bind_eq_ok]
  simp only [atTime_eq_ok, bindTime_eq_ok, Storable, seconds, minUtc, minTimestamptz, maxUtc]
  constructor
  · rintro ⟨u, ⟨⟨hlo, hhi⟩, rfl⟩, hmin, rfl⟩
    exact ⟨⟨by omega, hhi⟩, rfl⟩
  · rintro ⟨⟨hlo, hhi⟩, rfl⟩
    exact ⟨_, ⟨⟨by omega, hhi⟩, rfl⟩, by omega, rfl⟩

@[simp] theorem ts_seconds (n : ℤ) : ts (seconds n) = n := by
  rw [ts, seconds]
  omega

theorem seconds_le {m n : ℤ} : seconds m ≤ seconds n ↔ m ≤ n := by
  simp only [seconds]
  omega

theorem seconds_sub (m n : ℤ) : seconds (m - n) = seconds m - seconds n := by
  simp only [seconds]
  omega

theorem seconds_lt {m n : ℤ} : seconds m < seconds n ↔ m < n := by
  simp only [seconds]
  omega

theorem saturatingSub_of_storable {a b : ℤ} (ha : Storable a) (hb : Storable b) :
    saturatingSub a b = a - b := by
  simp only [Storable, minTimestamptz, maxUtc] at ha hb
  simp only [saturatingSub, i64Min, i64Max]
  omega

namespace Tables

variable {s s' : Tables} {dbNow : DateTime}

/-- What `fence` found free and has taken. -/
structure Fenced (s : Tables) (a : Delivery) (s' : Tables) (relay event : List UInt8) : Prop where
  relay_eq : hexDecode a.relay = some relay
  event_eq : hexDecode a.eventId = some event
  storable : Storable a.requestExpiresAt
  auth_free : (relay, event) ∉ s.deliveryAuthReplays
  request_free : (relay, a.requestId) ∉ s.deliveryRequestReplays
  auth_taken : s'.deliveryAuthReplays =
    AList.insert (relay, event) (seconds a.requestExpiresAt) s.deliveryAuthReplays
  request_taken : s'.deliveryRequestReplays =
    AList.insert (relay, a.requestId) (seconds a.requestExpiresAt) s.deliveryRequestReplays

structure SameAuthority (s s' : Tables) : Prop where
  challenges : s'.challenges = s.challenges
  installations : s'.installations = s.installations
  delegations : s'.delegations = s.delegations

theorem fence_eq_ok {a : Delivery} :
    s.fence a = .ok s' ↔ ∃ relay event, hexDecode a.relay = some relay ∧
      hexDecode a.eventId = some event ∧ Storable a.requestExpiresAt ∧ relay.length = 32 ∧
      (relay, event) ∉ s.deliveryAuthReplays ∧ (relay, a.requestId) ∉ s.deliveryRequestReplays ∧
      s' = { s with
        deliveryAuthReplays :=
          AList.insert (relay, event) (seconds a.requestExpiresAt) s.deliveryAuthReplays
        deliveryRequestReplays :=
          AList.insert (relay, a.requestId) (seconds a.requestExpiresAt)
            s.deliveryRequestReplays } := by
  simp only [fence, bind_eq_ok, okOr_eq_ok, bindAt_eq_ok, require_eq_ok]
  constructor
  · rintro ⟨relay, hrelay, event, hevent, _, ⟨hst, rfl⟩, _, hlen, _, ⟨hauth, hrequest⟩, h⟩
    cases h
    exact ⟨relay, event, hrelay, hevent, hst, hlen, hauth, hrequest, rfl⟩
  · rintro ⟨relay, event, hrelay, hevent, hst, hlen, hauth, hrequest, rfl⟩
    exact ⟨relay, hrelay, event, hevent, _, ⟨hst, rfl⟩, ⟨⟩, hlen, ⟨⟩, ⟨hauth, hrequest⟩, rfl⟩

theorem fence_spec {a : Delivery} (h : s.fence a = .ok s') :
    (∃ relay event, s.Fenced a s' relay event) ∧ s.SameAuthority s' := by
  obtain ⟨relay, event, hrelay, hevent, hst, -, hauth, hrequest, rfl⟩ := fence_eq_ok.mp h
  exact ⟨⟨relay, event, hrelay, hevent, hst, hauth, hrequest, rfl, rfl⟩, ⟨rfl, rfl, rfl⟩⟩

theorem chargeQuota_eq_ok {a : Delivery} {fingerprint : List UInt8} :
    s.chargeQuota a dbNow fingerprint = .ok s' ↔ Storable a.now ∧ ∃ row,
      quotaRow (s.endpointQuotas.lookup fingerprint) (seconds a.now) dbNow a = .ok row ∧
        s' = { s with endpointQuotas := AList.insert fingerprint row s.endpointQuotas } := by
  simp only [chargeQuota, bind_eq_ok, bindAt_eq_ok]
  constructor
  · rintro ⟨_, ⟨hst, rfl⟩, row, hrow, h⟩
    cases h
    exact ⟨hst, row, hrow, rfl⟩
  · rintro ⟨hst, row, hrow, rfl⟩
    exact ⟨_, ⟨hst, rfl⟩, row, hrow, rfl⟩

structure Granted (a : Delivery) (i : InstallationRow) (key : Uuid × List UInt8)
    (d : DelegationRow) (p : DeliveryPermit) : Prop where
  relay_eq : p.relayPubkey = a.relay
  request_eq : p.requestId = a.requestId
  profile_eq : profile i.appProfile = .ok p.authority.profile
  authority_eq : p.authority =
    { delegationId := a.delegationId, installationId := key.1, relayPubkey := a.relay,
      profile := p.authority.profile, tokenCiphertext := i.tokenCiphertext,
      endpointEpoch := a.epoch, generation := a.generation, expiresAt := ts d.expiresAt }
  unexpired : a.now ≤ a.requestExpiresAt
  within : a.requestExpiresAt ≤ ts d.expiresAt

theorem admitDelivery_eq_ok {a : Delivery} {i : InstallationRow} {key : Uuid × List UInt8}
    {d : DelegationRow} {p : DeliveryPermit} :
    s.admitDelivery dbNow a i key d = .ok (p, s') ↔ Granted a i key d p ∧
      (1 ≤ a.quotaWindowSeconds ∧ 1 ≤ a.quotaMaxDeliveries) ∧
        ∃ s₁, s.chargeQuota a dbNow i.tokenFingerprint = .ok s₁ ∧ s₁.fence a = .ok s' := by
  simp only [admitDelivery, bind_eq_ok, require_eq_ok]
  constructor
  · rintro ⟨pr, hpr, _, ⟨hunexpired, hwithin⟩, _, hquota, s₁, hcharge, s₂, hfence, h⟩
    cases h
    exact ⟨⟨rfl, rfl, hpr, rfl, hunexpired, hwithin⟩, hquota, s₁, hcharge, hfence⟩
  · rintro ⟨hg, hquota, s₁, hcharge, hfence⟩
    refine ⟨_, hg.profile_eq, ⟨⟩, ⟨hg.unexpired, hg.within⟩, ⟨⟩, hquota, s₁, hcharge, s', hfence, ?_⟩
    rw [← hg.authority_eq, ← hg.relay_eq, ← hg.request_eq]
    rfl

theorem admitDelivery_spec {a : Delivery} {i : InstallationRow} {key : Uuid × List UInt8}
    {d : DelegationRow} {p : DeliveryPermit} (h : s.admitDelivery dbNow a i key d = .ok (p, s')) :
    (∃ relay event, s.Fenced a s' relay event) ∧ s.SameAuthority s' ∧ Granted a i key d p := by
  obtain ⟨hgranted, -, s₁, hcharge, hfence⟩ := admitDelivery_eq_ok.mp h
  obtain ⟨-, row, -, rfl⟩ := chargeQuota_eq_ok.mp hcharge
  obtain ⟨⟨relay, event, hf⟩, hsame⟩ := fence_spec hfence
  exact ⟨⟨relay, event, hf.relay_eq, hf.event_eq, hf.storable, hf.auth_free, hf.request_free,
    hf.auth_taken, hf.request_taken⟩, ⟨hsame.challenges, hsame.installations, hsame.delegations⟩,
    hgranted⟩

theorem admitsInstallation_spec {a : Delivery} {i : InstallationRow}
    (h : admitsInstallation a i = .ok ()) :
    i.revokedAt = none ∧ i.endpointEpoch = a.epoch ∧ seconds a.now ≤ i.expiresAt := by
  simp only [admitsInstallation, bind_eq_ok, atTime_eq_ok, require_eq_ok] at h
  obtain ⟨t, ⟨-, rfl⟩, h⟩ := h
  exact h

structure Carries (a : Delivery) (key : Uuid × List UInt8) (d : DelegationRow) : Prop where
  id_eq : d.id = a.delegationId
  relay_eq : hexDecode a.relay = some key.2
  epoch_eq : d.endpointEpoch = a.epoch
  generation_eq : d.generation = a.generation
  unrevoked : d.revokedAt = none
  started : d.notBefore ≤ seconds a.now
  unexpired : seconds a.now ≤ d.expiresAt

theorem admitsInstallation_eq_ok {a : Delivery} {i : InstallationRow} (hst : Storable a.now)
    (hrevoked : i.revokedAt = none) (hepoch : i.endpointEpoch = a.epoch)
    (hle : seconds a.now ≤ i.expiresAt) : admitsInstallation a i = .ok () := by
  have hmin := hst.1
  simp only [minTimestamptz] at hmin
  simp only [admitsInstallation, bind_eq_ok, atTime_eq_ok, require_eq_ok, minUtc]
  exact ⟨_, ⟨⟨by omega, hst.2⟩, rfl⟩, hrevoked, hepoch, hle⟩

theorem admittedDelegation_spec {a : Delivery} {key : Uuid × List UInt8} {d : DelegationRow}
    (h : s.admittedDelegation a = .ok (key, d)) :
    s.delegations.lookup key = some d ∧ Carries a key d := by
  simp only [admittedDelegation, bind_eq_ok, okOr_eq_ok, bindAt_eq_ok] at h
  obtain ⟨relay, hrelay, t, ⟨-, rfl⟩, hfind⟩ := h
  obtain ⟨hlookup, hp⟩ := Map.findRow_spec hfind
  simp only [Bool.and_eq_true, decide_eq_true_eq, Option.isNone_iff_eq_none] at hp
  obtain ⟨⟨⟨⟨⟨⟨hid, hkey⟩, hepoch⟩, hgen⟩, hrevoked⟩, hstart⟩, hend⟩ := hp
  exact ⟨hlookup, hid, hkey ▸ hrelay, hepoch, hgen, hrevoked, hstart, hend⟩

theorem installationOf_spec {did id : Uuid} (h : s.installationOf did = some id) :
    ∃ relay d, s.delegations.lookup (id, relay) = some d ∧ d.id = did := by
  rw [installationOf, Option.map_eq_some_iff] at h
  obtain ⟨⟨⟨id, relay⟩, d⟩, hfind, rfl⟩ := h
  obtain ⟨hlookup, hid⟩ := Map.findRow_spec hfind
  exact ⟨relay, d, hlookup, of_decide_eq_true hid⟩

theorem authorizeDelivery_eq_ok {a : Delivery} {p : DeliveryPermit} :
    s.authorizeDelivery dbNow a = .ok (p, s') ↔ decodeDelivery a = .ok () ∧
      ∃ id i key d, s.installationOf a.delegationId = some id ∧
        s.installations.lookup id = some i ∧ admitsInstallation a i = .ok () ∧
        s.admittedDelegation a = .ok (key, d) ∧ s.admitDelivery dbNow a i key d = .ok (p, s') := by
  simp only [authorizeDelivery, bind_eq_ok, okOr_eq_ok]
  constructor
  · rintro ⟨⟨⟩, hdecode, id, hid, i, hi, ⟨⟩, hadmits, ⟨key, d⟩, hd, hadmit⟩
    exact ⟨hdecode, id, i, key, d, hid, hi, hadmits, hd, hadmit⟩
  · rintro ⟨hdecode, id, i, key, d, hid, hi, hadmits, hd, hadmit⟩
    exact ⟨⟨⟩, hdecode, id, hid, i, hi, ⟨⟩, hadmits, ⟨key, d⟩, hd, hadmit⟩

theorem authorizeDelivery_spec {a : Delivery} {p : DeliveryPermit}
    (h : s.authorizeDelivery dbNow a = .ok (p, s')) :
    (∃ relay event, s.Fenced a s' relay event) ∧ s.SameAuthority s' ∧
      ∃ id i key d, s.installationOf a.delegationId = some id ∧
        s.installations.lookup id = some i ∧ admitsInstallation a i = .ok () ∧
        s.admittedDelegation a = .ok (key, d) ∧ Granted a i key d p := by
  obtain ⟨-, id, i, key, d, hid, hi, hadmits, hd, hadmit⟩ := authorizeDelivery_eq_ok.mp h
  obtain ⟨hfence, hsame, hgranted⟩ := admitDelivery_spec hadmit
  exact ⟨hfence, hsame, id, i, key, d, hid, hi, hadmits, hd, hgranted⟩

theorem finishDelivery_spec {permit : DeliveryPermit} {disposition : DeliveryDisposition}
    (h : s.finishDelivery permit disposition = .ok s') :
    disposition = .terminal ∧ s' = s ∨ disposition = .retryable ∧
      ∃ relay, hexDecode permit.relayPubkey = some relay ∧ s' = { s with
        deliveryRequestReplays := s.deliveryRequestReplays.erase (relay, permit.requestId) } := by
  cases disposition with
  | terminal =>
    cases h
    exact .inl ⟨rfl, rfl⟩
  | retryable =>
    simp only [finishDelivery, bind_eq_ok, okOr_eq_ok] at h
    obtain ⟨relay, hrelay, h⟩ := h
    cases h
    exact .inr ⟨rfl, relay, hrelay, rfl⟩

theorem updateInstallation_spec {id : Uuid} {p : InstallationRow → Bool}
    {f : InstallationRow → InstallationRow} :
    s.updateInstallation id p f = .ok s' ↔
      ∃ r, s.installations.lookup id = some r ∧ p r = true ∧ (f r).Check ∧
        s.tokenTaken id (f r).appProfile (f r).tokenFingerprint = false ∧
        s' = { s with installations := AList.insert id (f r) s.installations } := by
  simp only [updateInstallation, bind_eq_ok, okOr_eq_ok, require_eq_ok,
    Option.filter_eq_some_iff]
  constructor
  · rintro ⟨r, ⟨hr, hp⟩, -, hcheck, -, htaken, h⟩
    cases h
    exact ⟨r, hr, hp, hcheck, htaken, rfl⟩
  · rintro ⟨r, hr, hp, hcheck, htaken, rfl⟩
    exact ⟨r, ⟨hr, hp⟩, ⟨⟩, hcheck, ⟨⟩, htaken, rfl⟩

theorem putChallenge_spec {c : Challenge} :
    s.putChallenge c = .ok s' ↔ Storable c.expiresAt ∧ c.id ∉ s.challenges ∧
      s' = { s with challenges :=
        AList.insert c.id ⟨Sha256.digest c.value.val, seconds c.expiresAt⟩ s.challenges } := by
  simp only [putChallenge, bind_eq_ok, bindAt_eq_ok, require_eq_ok]
  constructor
  · rintro ⟨t, ⟨hst, rfl⟩, _, hfree, h⟩
    cases h
    exact ⟨hst, hfree, rfl⟩
  · rintro ⟨hst, hfree, rfl⟩
    exact ⟨_, ⟨hst, rfl⟩, ⟨⟩, hfree, rfl⟩

theorem consumeChallenge_spec {id : Uuid} {value : Bytes32} {now : ℤ} :
    s.consumeChallenge id value now = .ok s' ↔ Storable now ∧
      (∃ r, s.challenges.lookup id = some r ∧ r.challengeHash = Sha256.digest value.val ∧
        seconds now ≤ r.expiresAt) ∧ s' = { s with challenges := s.challenges.erase id } := by
  simp only [consumeChallenge, bind_eq_ok, bindAt_eq_ok, okOr_eq_ok, require_eq_ok]
  constructor
  · rintro ⟨t, ⟨hst, rfl⟩, r, hr, _, ⟨hhash, hle⟩, h⟩
    cases h
    exact ⟨hst, ⟨r, hr, hhash, hle⟩, rfl⟩
  · rintro ⟨hst, ⟨r, hr, hhash, hle⟩, rfl⟩
    exact ⟨_, ⟨hst, rfl⟩, r, hr, ⟨⟩, ⟨hhash, hle⟩, rfl⟩

def newRow (n : NewInstallation) : InstallationRow where
  appAttestKeyId := n.appAttestKeyId
  appAttestPublicKey := n.appAttestPublicKey
  assertionCounter := n.assertionCounter.toNat
  appProfile := n.profile.asStr
  tokenCiphertext := n.tokenCiphertext
  tokenFingerprint := n.tokenFingerprint.val
  endpointEpoch := n.endpointEpoch
  expiresAt := seconds n.expiresAt
  revokedAt := none

theorem createInstallation_spec {n : NewInstallation} :
    s.createInstallation n = .ok s' ↔ Storable n.expiresAt ∧ (newRow n).Check ∧
      n.id ∉ s.installations ∧ s.keyIdTaken n.id n.appAttestKeyId = false ∧
      s.tokenTaken n.id n.profile.asStr n.tokenFingerprint.val = false ∧
      s' = { s with installations := AList.insert n.id (newRow n) s.installations } := by
  simp only [createInstallation, bind_eq_ok, bindAt_eq_ok, require_eq_ok]
  constructor
  · rintro ⟨t, ⟨hst, rfl⟩, _, hcheck, _, ⟨hid, hkey, htoken⟩, h⟩
    cases h
    exact ⟨hst, hcheck, hid, hkey, htoken, rfl⟩
  · rintro ⟨hst, hcheck, hid, hkey, htoken, rfl⟩
    exact ⟨_, ⟨hst, rfl⟩, ⟨⟩, hcheck, ⟨⟩, ⟨hid, hkey, htoken⟩, rfl⟩

theorem installation_spec {id : Uuid} {now : ℤ} {i : Installation} :
    s.installation id now = .ok i ↔ Storable now ∧ ∃ r, s.installations.lookup id = some r ∧
      r.revokedAt = none ∧ seconds now ≤ r.expiresAt ∧
      counter32 r.assertionCounter = .ok i.assertionCounter ∧ profile r.appProfile = .ok i.profile ∧
      bytes32 r.tokenFingerprint = .ok i.tokenFingerprint ∧
      i = { i with
        id := id, appAttestKeyId := r.appAttestKeyId, appAttestPublicKey := r.appAttestPublicKey,
        tokenCiphertext := r.tokenCiphertext, endpointEpoch := r.endpointEpoch,
        expiresAt := ts r.expiresAt, revoked := false } := by
  simp only [installation, bind_eq_ok, bindAt_eq_ok, okOr_eq_ok, Option.filter_eq_some_iff,
    Bool.and_eq_true, Option.isNone_iff_eq_none, decide_eq_true_eq]
  constructor
  · rintro ⟨t, ⟨hst, rfl⟩, r, ⟨hr, hrevoked, hle⟩, c, hc, p, hp, f, hf, h⟩
    cases h
    exact ⟨hst, r, hr, hrevoked, hle, hc, hp, hf, rfl⟩
  · rintro ⟨hst, r, hr, hrevoked, hle, hc, hp, hf, hi⟩
    refine ⟨_, ⟨hst, rfl⟩, r, ⟨hr, hrevoked, hle⟩, _, hc, _, hp, _, hf, ?_⟩
    exact congrArg Except.ok hi.symm

theorem delegableInstallation_spec {d : Delegation} {i : InstallationRow} :
    s.delegableInstallation d = .ok i ↔ s.installations.lookup d.installationId = some i ∧
      (minUtc ≤ d.expiresAt ∧ d.expiresAt ≤ maxUtc) ∧ i.revokedAt = none ∧
      i.endpointEpoch = d.endpointEpoch ∧ seconds d.expiresAt ≤ i.expiresAt := by
  simp only [delegableInstallation, bind_eq_ok, atTime_eq_ok, okOr_eq_ok, require_eq_ok]
  constructor
  · rintro ⟨r, hr, t, ⟨hrange, rfl⟩, _, hchecks, h⟩
    cases h
    exact ⟨hr, hrange, hchecks⟩
  · rintro ⟨hr, hrange, hchecks⟩
    exact ⟨i, hr, _, ⟨hrange, rfl⟩, ⟨⟩, hchecks, rfl⟩

def delegationRow (d : Delegation) : DelegationRow :=
  ⟨d.id, d.endpointEpoch, d.generation, seconds d.notBefore, seconds d.expiresAt, none⟩

theorem writeDelegation_spec {d : Delegation} :
    s.writeDelegation d = .ok s' ↔ ∃ relay, hexDecode d.relayPubkey = some relay ∧
      Storable d.notBefore ∧ Storable d.expiresAt ∧ (delegationRow d).Check relay ∧
      (∀ old, s.delegations.lookup (d.installationId, relay) = some old →
        old.generation < d.generation) ∧
      (∀ key r, key ≠ (d.installationId, relay) → s.delegations.lookup key = some r → r.id ≠ d.id) ∧
      s' = { s with delegations :=
        AList.insert (d.installationId, relay) (delegationRow d) s.delegations } := by
  simp only [writeDelegation, bind_eq_ok, bindAt_eq_ok, okOr_eq_ok, require_eq_ok,
    Map.otherHas_eq_false, decide_eq_false_iff_not, Option.all_eq_true, decide_eq_true_eq]
  constructor
  · rintro ⟨relay, hrelay, _, ⟨hnb, rfl⟩, _, ⟨he, rfl⟩, _, hcheck, _, hold, _, hother, h⟩
    cases h
    exact ⟨relay, hrelay, hnb, he, hcheck, hold, hother, rfl⟩
  · rintro ⟨relay, hrelay, hnb, he, hcheck, hold, hother, rfl⟩
    exact ⟨relay, hrelay, _, ⟨hnb, rfl⟩, _, ⟨he, rfl⟩, ⟨⟩, hcheck, ⟨⟩, hold, ⟨⟩, hother, rfl⟩

theorem upsertDelegation_spec {d : Delegation} :
    s.upsertDelegation d = .ok s' ↔
      (∃ i, s.delegableInstallation d = .ok i) ∧ s.writeDelegation d = .ok s' := by
  simp only [upsertDelegation, bind_eq_ok, exists_and_right]

/-- The tombstone that `revoke_delegation` leaves. -/
def revokedRow (r : DelegationRow) (generation : ℤ) (dbNow : DateTime) : DelegationRow :=
  { r with generation := generation, revokedAt := some dbNow }

theorem revokeDelegation_spec {id : Uuid} {relay : String} {generation : ℤ} :
    s.revokeDelegation dbNow id relay generation = .ok s' ↔
      ∃ bytes r, hexDecode relay = some bytes ∧ s.delegations.lookup (id, bytes) = some r ∧
        r.generation < generation ∧ (revokedRow r generation dbNow).Check bytes ∧
        s' = { s with delegations :=
          AList.insert (id, bytes) (revokedRow r generation dbNow) s.delegations } := by
  simp only [revokeDelegation, bind_eq_ok, okOr_eq_ok, require_eq_ok, Option.filter_eq_some_iff,
    decide_eq_true_eq]
  constructor
  · rintro ⟨bytes, hbytes, r, ⟨hr, hlt⟩, _, hcheck, h⟩
    cases h
    exact ⟨bytes, r, hbytes, hr, hlt, hcheck, rfl⟩
  · rintro ⟨bytes, r, hbytes, hr, hlt, hcheck, rfl⟩
    exact ⟨bytes, hbytes, r, ⟨hr, hlt⟩, ⟨⟩, hcheck, rfl⟩

/-- A statement under a condition on the arguments. -/
theorem require_bind_eq_ok {p : Prop} [Decidable p] {x : Except AuthorityError Tables} :
    (require p AuthorityError.rejected >>= fun _ ↦ x) = .ok s' ↔ p ∧ x = .ok s' := by
  simp only [bind_eq_ok, require_eq_ok]
  exact ⟨fun ⟨_, hp, h⟩ ↦ ⟨hp, h⟩, fun ⟨hp, h⟩ ↦ ⟨⟨⟩, hp, h⟩⟩

theorem advanceAssertionCounter_spec {id : Uuid} {previous next : UInt32} :
    s.advanceAssertionCounter id previous next = .ok s' ↔ previous < next ∧
      s.updateInstallation id
        (fun r ↦ r.assertionCounter = previous.toNat && r.revokedAt.isNone)
        (fun r ↦ { r with assertionCounter := next.toNat }) = .ok s' := by
  rw [advanceAssertionCounter, require_bind_eq_ok, UInt32.not_le]

theorem rotateEndpoint_spec {id : Uuid} {expected new : ℤ} {ciphertext : List UInt8}
    {fingerprint : Bytes32} :
    s.rotateEndpoint id expected new ciphertext fingerprint = .ok s' ↔ IsNextEpoch expected new ∧
      s.updateInstallation id (fun r ↦ r.endpointEpoch = expected && r.revokedAt.isNone)
        (fun r ↦ { r with
          endpointEpoch := new, tokenCiphertext := ciphertext,
          tokenFingerprint := fingerprint.val }) = .ok s' := by
  rw [rotateEndpoint, require_bind_eq_ok]

theorem revokeInstallation_spec {id : Uuid} {expected new : ℤ} :
    s.revokeInstallation dbNow id expected new = .ok s' ↔ IsNextEpoch expected new ∧
      s.updateInstallation id (fun r ↦ r.endpointEpoch = expected && r.revokedAt.isNone)
        (fun r ↦ { r with endpointEpoch := new, revokedAt := some dbNow }) = .ok s' := by
  rw [revokeInstallation, require_bind_eq_ok]

def touchesFences : Call → Bool
  | .authorizeDelivery _ | .finishDelivery _ _ => true
  | _ => false

theorem done_eq_ok {x : Except AuthorityError Tables} {answer : Answer} :
    done x = .ok (answer, s') ↔ x = .ok s' ∧ answer = .done := by
  rw [done, map_eq_ok]
  constructor
  · rintro ⟨s, hx, heq⟩
    cases heq
    exact ⟨hx, rfl⟩
  · rintro ⟨hx, rfl⟩
    exact ⟨s', hx, rfl⟩

theorem call_fences {c : Call} {answer : Answer} (hc : touchesFences c = false)
    (h : s.call dbNow c = .ok (answer, s')) :
    s'.deliveryAuthReplays = s.deliveryAuthReplays ∧
      s'.deliveryRequestReplays = s.deliveryRequestReplays ∧
      s'.endpointQuotas = s.endpointQuotas := by
  cases c with
  | authorizeDelivery a => cases hc
  | finishDelivery permit disposition => cases hc
  | putChallenge c =>
    obtain ⟨-, -, rfl⟩ := putChallenge_spec.mp (done_eq_ok.mp h).1
    exact ⟨rfl, rfl, rfl⟩
  | consumeChallenge id value now =>
    obtain ⟨-, -, rfl⟩ := consumeChallenge_spec.mp (done_eq_ok.mp h).1
    exact ⟨rfl, rfl, rfl⟩
  | createInstallation n =>
    obtain ⟨-, -, -, -, -, rfl⟩ := createInstallation_spec.mp (done_eq_ok.mp h).1
    exact ⟨rfl, rfl, rfl⟩
  | installation id now =>
    simp only [call, map_eq_ok, Prod.mk.injEq] at h
    obtain ⟨i, -, -, rfl⟩ := h
    exact ⟨rfl, rfl, rfl⟩
  | advanceAssertionCounter id previous next =>
    obtain ⟨-, h⟩ := advanceAssertionCounter_spec.mp (done_eq_ok.mp h).1
    obtain ⟨r, -, -, -, -, rfl⟩ := updateInstallation_spec.mp h
    exact ⟨rfl, rfl, rfl⟩
  | upsertDelegation d =>
    obtain ⟨-, h⟩ := upsertDelegation_spec.mp (done_eq_ok.mp h).1
    obtain ⟨relay, -, -, -, -, -, -, rfl⟩ := writeDelegation_spec.mp h
    exact ⟨rfl, rfl, rfl⟩
  | rotateEndpoint id expected new ciphertext fingerprint =>
    obtain ⟨-, h⟩ := rotateEndpoint_spec.mp (done_eq_ok.mp h).1
    obtain ⟨r, -, -, -, -, rfl⟩ := updateInstallation_spec.mp h
    exact ⟨rfl, rfl, rfl⟩
  | revokeDelegation id relay generation =>
    obtain ⟨bytes, r, -, -, -, -, rfl⟩ := revokeDelegation_spec.mp (done_eq_ok.mp h).1
    exact ⟨rfl, rfl, rfl⟩
  | revokeInstallation id expected new =>
    obtain ⟨-, h⟩ := revokeInstallation_spec.mp (done_eq_ok.mp h).1
    obtain ⟨r, -, -, -, -, rfl⟩ := updateInstallation_spec.mp h
    exact ⟨rfl, rfl, rfl⟩

end Tables

end Buzz.Gateway
