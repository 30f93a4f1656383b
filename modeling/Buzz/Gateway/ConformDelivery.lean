import Buzz.Gateway.Conform

namespace Buzz.Gateway

open Buzz.Lib Buzz.Nostr

variable {m : MemoryState} {s : Tables}

namespace Agree

theorem delegation_unique (h : Agree m s) {key key' : Uuid × List UInt8} {r r' : DelegationRow}
    (hr : s.delegations.lookup key = some r) (hr' : s.delegations.lookup key' = some r')
    (hid : r.id = r'.id) : key = key' := by
  obtain ⟨relay, hrelay⟩ := h.delegationRelays key r hr
  obtain ⟨relay', hrelay'⟩ := h.delegationRelays key' r' hr'
  have hkey : IsDelegationKey (key.1, relay) key := ⟨rfl, hrelay⟩
  have hkey' : IsDelegationKey (key'.1, relay') key' := ⟨rfl, hrelay'⟩
  obtain ⟨d, hd, hrow⟩ := h.delegations.exists_left hkey hr
  obtain ⟨d', hd', hrow'⟩ := h.delegations.exists_left hkey' hr'
  obtain ⟨-, -, hlookup⟩ := h.delegationIds _ d hd
  obtain ⟨-, -, hlookup'⟩ := h.delegationIds _ d' hd'
  rw [← hrow.id, hid, hrow'.id, hlookup'] at hlookup
  have hpair : (key'.1, relay') = (key.1, relay) := Option.some.inj hlookup
  exact isDelegationKey_biUnique.2 hkey (hpair ▸ hkey')

theorem upsertDelegation (h : Agree m s) {d : Delegation} (hfresh : d.id ∉ m.delegationIds)
    (hrelay : validRelayPubkey d.relayPubkey = true) (hepoch : 1 ≤ d.endpointEpoch)
    (hgeneration : 1 ≤ d.generation) (hwindow : d.notBefore < d.expiresAt)
    (hrevoked : d.revoked = false) (hnotBefore : Storable d.notBefore)
    (hexpires : Storable d.expiresAt) (dbNow : DateTime) :
    Alike m (m.call (.upsertDelegation d)) (s.call dbNow (.upsertDelegation d)) := by
  obtain ⟨bytes, hbytes, hlen⟩ := DecodesTo.exists hrelay
  have hkey : IsDelegationKey (d.installationId, d.relayPubkey) (d.installationId, bytes) :=
    ⟨rfl, hbytes⟩
  rcases h.installations.lookup_cases (k := d.installationId) rfl with
    ⟨hm, hs⟩ | ⟨i, r, hm, hs, hrow⟩
  · apply Alike.reject
    · rw [MemoryState.upsertDelegation, hm]
    · intro s' hok
      obtain ⟨⟨i, hi⟩, -⟩ := Tables.upsertDelegation_spec.mp hok
      obtain ⟨hi, -⟩ := Tables.delegableInstallation_spec.mp hi
      rw [hs] at hi
      cases hi
  by_cases hguard : i.revoked = true ∨ i.endpointEpoch ≠ d.endpointEpoch ∨ d.generation < 1 ∨
      d.expiresAt ≤ d.notBefore ∨ i.expiresAt < d.expiresAt
  · apply Alike.reject
    · rw [MemoryState.upsertDelegation, hm]
      simp only [hguard, if_true]
    · intro s' hok
      obtain ⟨⟨r', hr'⟩, -⟩ := Tables.upsertDelegation_spec.mp hok
      obtain ⟨hr', -, hlive, hsame, hle⟩ := Tables.delegableInstallation_spec.mp hr'
      rw [hs] at hr'
      cases hr'
      rw [hrow.revoked] at hlive
      rw [hrow.epoch] at hsame
      rw [hrow.expires, seconds_le] at hle
      rcases hguard with hr | hne | hg | hw | he
      · rw [hlive] at hr
        cases hr
      · exact hne hsame
      · omega
      · omega
      · omega
  have hdelegable : s.delegableInstallation d = .ok r := by
    push Not at hguard
    obtain ⟨hlive, hsame, -, -, hle⟩ := hguard
    apply Tables.delegableInstallation_spec.mpr
    refine ⟨hs, ⟨?_, hexpires.2⟩, hrow.revoked.mpr (by simpa using hlive), ?_, ?_⟩
    · have := hexpires.1
      simp only [minTimestamptz, minUtc] at *
      omega
    · rw [hrow.epoch, hsame]
    · rw [hrow.expires]
      exact seconds_le.mpr hle
  by_cases hstale : (m.delegations.lookup (d.installationId, d.relayPubkey)).any
      (fun old ↦ d.generation ≤ old.generation) = true
  · apply Alike.reject
    · rw [MemoryState.upsertDelegation, hm]
      simp only [hguard, if_false, hstale, true_or, if_true]
    · intro s' hok
      obtain ⟨-, hok⟩ := Tables.upsertDelegation_spec.mp hok
      obtain ⟨bytes', hbytes', -, -, -, hold, -⟩ := Tables.writeDelegation_spec.mp hok
      obtain rfl : bytes = bytes' := Option.some.inj (hbytes.2.symm.trans hbytes')
      obtain ⟨old, hlookup, hle⟩ := (Option.any_eq_true ..).mp hstale
      obtain ⟨r', hr', hrow'⟩ := h.delegations.exists_right hkey hlookup
      have hlt := hold r' hr'
      rw [hrow'.generation] at hlt
      exact absurd (of_decide_eq_true hle) (not_le.mpr hlt)
  · have hcheck : ∀ relay : List UInt8, relay.length = 32 →
        (Tables.delegationRow d).Check relay := by
      intro relay hrelay
      refine ⟨hrelay, ?_, ?_, seconds_lt.mpr hwindow⟩
      · change 0 < d.endpointEpoch
        omega
      · change 0 < d.generation
        omega
    have hwrite : s.writeDelegation d = .ok { s with
        delegations :=
          AList.insert (d.installationId, bytes) (Tables.delegationRow d) s.delegations } := by
      apply Tables.writeDelegation_spec.mpr
      refine ⟨bytes, hbytes.2, hnotBefore, hexpires, hcheck bytes hlen, ?_, ?_, rfl⟩
      · intro old hold
        obtain ⟨d', hd', hrow'⟩ := h.delegations.exists_left hkey hold
        rw [hrow'.generation]
        by_contra hle
        exact hstale ((Option.any_eq_true ..).mpr ⟨d', hd', decide_eq_true (not_lt.mp hle)⟩)
      · intro key r' _ hr' hid
        obtain ⟨relay', hrelay'⟩ := h.delegationRelays key r' hr'
        obtain ⟨d', hd', hrow'⟩ :=
          h.delegations.exists_left (k := (key.1, relay')) ⟨rfl, hrelay'⟩ hr'
        obtain ⟨-, -, hlookup⟩ := h.delegationIds _ d' hd'
        rw [← hrow'.id, hid] at hlookup
        exact hfresh (AList.lookup_isSome.mp (hlookup ▸ rfl))
    refine Alike.accept _ (by
      rw [MemoryState.upsertDelegation, hm]
      simp only [hguard, if_false, hstale, hfresh]
      rfl) (Tables.upsertDelegation_spec.mpr ⟨⟨r, hdelegable⟩, hwrite⟩) ?_
    refine { h with
      delegations := h.delegations.insert isDelegationKey_biUnique hkey
        ⟨rfl, rfl, rfl, rfl, rfl, iff_of_true rfl hrevoked, hexpires, hcheck⟩
      delegationRelays := ?_
      delegationIds := ?_ }
    · intro key r' hr'
      rw [Map.lookup_insert_eq] at hr'
      split at hr'
      · next heq => exact ⟨d.relayPubkey, heq ▸ hbytes⟩
      · exact h.delegationRelays key r' hr'
    · intro key d' hd'
      rw [Map.lookup_insert_eq] at hd'
      rw [Map.lookup_insert_eq]
      split at hd'
      · next heq =>
        cases hd'
        rw [heq, if_pos rfl]
        exact ⟨rfl, rfl, rfl⟩
      · obtain ⟨h₁, h₂, h₃⟩ := h.delegationIds key d' hd'
        have hne : d'.id ≠ d.id :=
          fun heq ↦ hfresh (AList.lookup_isSome.mp (heq ▸ h₃ ▸ rfl))
        rw [if_neg hne]
        exact ⟨h₁, h₂, h₃⟩

theorem revokeDelegation (h : Agree m s) {id : Uuid} {relay : String} {generation : ℤ}
    (hrelay : validRelayPubkey relay = true) (dbNow : DateTime) :
    Alike m (m.call (.revokeDelegation id relay generation))
      (s.call dbNow (.revokeDelegation id relay generation)) := by
  obtain ⟨bytes, hbytes, hlen⟩ := DecodesTo.exists hrelay
  have hkey : IsDelegationKey (id, relay) (id, bytes) := ⟨rfl, hbytes⟩
  have hreject (hm : m.revokeDelegation id relay generation = (.error .rejected, m))
      (hs : ∀ r, s.delegations.lookup (id, bytes) = some r → ¬r.generation < generation) :
      Alike m (m.call (.revokeDelegation id relay generation))
        (s.call dbNow (.revokeDelegation id relay generation)) := by
    refine Alike.reject hm fun s' hok ↦ ?_
    obtain ⟨bytes', r, hbytes', hr, hlt, -⟩ := Tables.revokeDelegation_spec.mp hok
    obtain rfl : bytes = bytes' := Option.some.inj (hbytes.2.symm.trans hbytes')
    exact hs r hr hlt
  rcases h.delegations.lookup_cases hkey with ⟨hm, hs⟩ | ⟨d, r, hm, hs, hrow⟩
  · refine hreject (by rw [MemoryState.revokeDelegation, hm]) fun r hr ↦ ?_
    rw [hs] at hr
    cases hr
  by_cases hle : generation ≤ d.generation
  · refine hreject (by rw [MemoryState.revokeDelegation, hm]; simp only [hle, if_true]) ?_
    intro r' hr'
    rw [hs] at hr'
    cases hr'
    rw [hrow.generation]
    exact not_lt.mpr hle
  · have hcheck : ∀ relay : List UInt8, relay.length = 32 →
        (Tables.revokedRow r generation dbNow).Check relay := by
      intro relay hrelay
      obtain ⟨-, hepoch, hpos, hwindow⟩ := hrow.check relay hrelay
      refine ⟨hrelay, hepoch, ?_, hwindow⟩
      have hgen := hrow.generation
      change 0 < generation
      omega
    refine Alike.accept _ (by
      rw [MemoryState.revokeDelegation, hm]
      simp only [hle, if_false]
      rfl) (Tables.revokeDelegation_spec.mpr
        ⟨bytes, r, hbytes.2, hs, by rw [hrow.generation]; exact not_le.mp hle, hcheck bytes hlen,
          rfl⟩) ?_
    refine { h with
      delegations := h.delegations.insert isDelegationKey_biUnique hkey { hrow with
        generation := rfl, revoked := iff_of_false nofun nofun, check := hcheck }
      delegationRelays := ?_
      delegationIds := ?_ }
    · intro key r' hr'
      rw [Map.lookup_insert_eq] at hr'
      split at hr'
      · next heq => exact ⟨relay, heq ▸ hbytes⟩
      · exact h.delegationRelays key r' hr'
    · intro key d' hd'
      rw [Map.lookup_insert_eq] at hd'
      split at hd'
      · next heq =>
        cases hd'
        rw [heq]
        exact h.delegationIds _ d hm
      · exact h.delegationIds key d' hd'

theorem quotaEntry_lookup_of_ne {quotas : Map Bytes32 (ℤ × ℤ)} {k fingerprint : Bytes32}
    {a : Delivery} (hne : k ≠ fingerprint) :
    (MemoryState.quotaEntry quotas fingerprint a).1.lookup k = quotas.lookup k := by
  have hfirst : (if fingerprint ∈ quotas then quotas
      else AList.insert fingerprint (a.now, 0) quotas).lookup k = quotas.lookup k := by
    split
    · rfl
    · exact AList.lookup_insert_ne hne
  simp only [MemoryState.quotaEntry]
  generalize (if fingerprint ∈ quotas then quotas
    else AList.insert fingerprint (a.now, 0) quotas) = started at hfirst ⊢
  split
  · exact (AList.lookup_insert_ne hne).trans hfirst
  · exact hfirst

/-- Both counters look at the same window, and a full one is left as it is. -/
theorem quota_cases (h : Agree m s) (fingerprint : Bytes32) {a : Delivery} (hst : Storable a.now)
    (hmax : 1 ≤ a.quotaMaxDeliveries) (dbNow : DateTime) :
    let e := MemoryState.quotaEntry m.endpointQuotas fingerprint a
    let stored := s.endpointQuotas.lookup fingerprint.val
    (e.2.2 < a.quotaMaxDeliveries ∧ ∃ row,
      Tables.quotaRow stored (seconds a.now) dbNow a = .ok row ∧
        QuotaRow.Matches (e.2.1, e.2.2 + 1) row) ∨
      (a.quotaMaxDeliveries ≤ e.2.2 ∧ e.1 = m.endpointQuotas ∧
        Tables.quotaRow stored (seconds a.now) dbNow a = .error .rejected) := by
  intro e stored
  rcases h.endpointQuotas.lookup_cases (k := fingerprint) rfl with ⟨hm, hs⟩ | ⟨q, r, hm, hs, hrow⟩
  · have hmem : fingerprint ∉ m.endpointQuotas := AList.lookup_eq_none.mp hm
    have he : e.2 = (a.now, 0) := by
      simp only [e, MemoryState.quotaEntry, hmem, if_false, AList.lookup_insert, Option.getD_some]
      split <;> rfl
    left
    rw [he]
    refine ⟨by omega, ⟨seconds a.now, 1, dbNow⟩, ?_, rfl, rfl, hst⟩
    simp only [stored, hs, Tables.quotaRow]
  · have hmem : fingerprint ∈ m.endpointQuotas := AList.lookup_isSome.mp (hm ▸ rfl)
    have hsub : saturatingSub a.now q.1 = a.now - q.1 := saturatingSub_of_storable hst hrow.storable
    have hpassed : r.windowStartedAt ≤ seconds a.now - seconds a.quotaWindowSeconds ↔
        a.quotaWindowSeconds ≤ a.now - q.1 := by
      rw [hrow.started, ← seconds_sub, seconds_le]
      omega
    by_cases hreset : a.quotaWindowSeconds ≤ a.now - q.1
    · have he : e.2 = (a.now, 0) := by
        simp only [e, MemoryState.quotaEntry, hmem, if_true, hm, Option.getD_some, hsub, hreset]
      left
      rw [he]
      refine ⟨by omega, ⟨seconds a.now, 1, dbNow⟩, ?_, rfl, rfl, hst⟩
      simp only [stored, hs, Tables.quotaRow, hpassed.mpr hreset, if_true]
    · have he : e = (m.endpointQuotas, q) := by
        simp only [e, MemoryState.quotaEntry, hmem, if_true, hm, Option.getD_some, hsub, hreset,
          if_false]
      have hnot : ¬r.windowStartedAt ≤ seconds a.now - seconds a.quotaWindowSeconds :=
        fun hle ↦ hreset (hpassed.mp hle)
      rw [he]
      by_cases hroom : q.2 < a.quotaMaxDeliveries
      · left
        refine ⟨hroom, ⟨r.windowStartedAt, r.admitted + 1, dbNow⟩, ?_, hrow.started, ?_,
          hrow.storable⟩
        · simp only [stored, hs, Tables.quotaRow, hnot, if_false, hrow.admitted, hroom, if_true]
        · change r.admitted + 1 = q.2 + 1
          rw [hrow.admitted]
      · right
        refine ⟨not_lt.mp hroom, rfl, ?_⟩
        simp only [stored, hs, Tables.quotaRow, hnot, if_false, hrow.admitted, hroom]

/-- What the reference finds for a delivery that it admits. -/
structure Deliverable (m : MemoryState) (a : Delivery) (key : Uuid × String) (d : Delegation)
    (i : Installation) : Prop where
  id : m.delegationIds.lookup a.delegationId = some key
  delegation : m.delegations.lookup key = some d
  installation : m.installations.lookup d.installationId = some i
  delivers : MemoryState.delivers a d i = true
  auth : (a.relay, a.eventId) ∉ m.deliveryAuthReplays
  request : (a.relay, a.requestId) ∉ m.deliveryRequestReplays
  quota : (MemoryState.quotaEntry m.endpointQuotas i.tokenFingerprint a).2.2 < a.quotaMaxDeliveries

def permitOf (a : Delivery) (d : Delegation) (i : Installation) : DeliveryPermit where
  authority := {
    delegationId := a.delegationId
    installationId := i.id
    relayPubkey := a.relay
    profile := i.profile
    tokenCiphertext := i.tokenCiphertext
    endpointEpoch := a.epoch
    generation := a.generation
    expiresAt := d.expiresAt }
  relayPubkey := a.relay
  requestId := a.requestId

def delivered (m : MemoryState) (a : Delivery) (i : Installation) : MemoryState :=
  let e := MemoryState.quotaEntry m.endpointQuotas i.tokenFingerprint a
  { m with
    endpointQuotas := AList.insert i.tokenFingerprint (e.2.1, e.2.2 + 1) e.1
    deliveryAuthReplays :=
      AList.insert (a.relay, a.eventId) a.requestExpiresAt m.deliveryAuthReplays
    deliveryRequestReplays :=
      AList.insert (a.relay, a.requestId) a.requestExpiresAt m.deliveryRequestReplays }

theorem Deliverable.authorize {a : Delivery} {key : Uuid × String} {d : Delegation}
    {i : Installation} (h : Deliverable m a key d i) :
    m.authorizeDelivery a = (.ok (permitOf a d i), delivered m a i) := by
  rw [MemoryState.authorizeDelivery]
  simp only [h.id, h.delegation, h.installation, h.delivers, h.auth, h.request, or_self, if_false,
    Bool.not_true, Bool.false_eq_true, not_le.mpr h.quota]
  rfl

/-- A refusal leaves the reference as it was, given that a full quota is. -/
theorem authorize_of_not_deliverable {a : Delivery} (hnot : ∀ key d i, ¬Deliverable m a key d i)
    (hfull : ∀ fingerprint,
      a.quotaMaxDeliveries ≤ (MemoryState.quotaEntry m.endpointQuotas fingerprint a).2.2 →
        (MemoryState.quotaEntry m.endpointQuotas fingerprint a).1 = m.endpointQuotas) :
    m.authorizeDelivery a = (.error .rejected, m) := by
  rw [MemoryState.authorizeDelivery]
  cases hid : m.delegationIds.lookup a.delegationId with
  | none => rfl
  | some key =>
  cases hd : m.delegations.lookup key with
  | none => simp only [hd]
  | some d =>
  cases hi : m.installations.lookup d.installationId with
  | none => simp only [hd, hi]
  | some i =>
  simp only [hd, hi]
  by_cases hdelivers : MemoryState.delivers a d i = true
  swap
  · simp only [hdelivers, Bool.not_false, if_true]
  by_cases hreplay : (a.relay, a.eventId) ∈ m.deliveryAuthReplays ∨
      (a.relay, a.requestId) ∈ m.deliveryRequestReplays
  · simp only [hdelivers, Bool.not_true, Bool.false_eq_true, if_false, hreplay, if_true]
  push Not at hreplay
  rcases lt_or_ge (MemoryState.quotaEntry m.endpointQuotas i.tokenFingerprint a).2.2
    a.quotaMaxDeliveries with hroom | hover
  · exact (hnot key d i ⟨hid, hd, hi, hdelivers, hreplay.1, hreplay.2, hroom⟩).elim
  · simp only [hdelivers, Bool.not_true, Bool.false_eq_true, if_false, hreplay.1, hreplay.2, or_self,
      hover, if_true, hfull i.tokenFingerprint hover]

theorem full_quota_same (h : Agree m s) {a : Delivery} (hst : Storable a.now)
    (hmax : 1 ≤ a.quotaMaxDeliveries) (fingerprint : Bytes32)
    (hover : a.quotaMaxDeliveries ≤
      (MemoryState.quotaEntry m.endpointQuotas fingerprint a).2.2) :
    (MemoryState.quotaEntry m.endpointQuotas fingerprint a).1 = m.endpointQuotas := by
  rcases h.quota_cases fingerprint hst hmax 0 with ⟨hroom, -⟩ | ⟨-, hsame, -⟩
  · exact absurd hroom (not_lt.mpr hover)
  · exact hsame

theorem Deliverable.delivers_spec {a : Delivery} {key : Uuid × String} {d : Delegation}
    {i : Installation} (h : Deliverable m a key d i) :
    d.revoked = false ∧ i.revoked = false ∧ d.id = a.delegationId ∧ d.relayPubkey = a.relay ∧
      d.endpointEpoch = a.epoch ∧ d.generation = a.generation ∧ i.endpointEpoch = a.epoch ∧
      d.notBefore ≤ a.now ∧ a.now ≤ d.expiresAt ∧ a.now ≤ i.expiresAt ∧
      a.now ≤ a.requestExpiresAt ∧ a.requestExpiresAt ≤ d.expiresAt := by
  have hdelivers := h.delivers
  simp only [MemoryState.delivers, Bool.and_eq_true, Bool.not_eq_true', decide_eq_true_eq,
    and_assoc] at hdelivers
  exact hdelivers

/-- The rows that the grant leads to in PostgreSQL. -/
theorem rows_of_deliverable (h : Agree m s) {a : Delivery} {key : Uuid × String} {d : Delegation}
    {i : Installation} (hd : Deliverable m a key d i) (hst : Storable a.now)
    {bytes : List UInt8} (hbytes : DecodesTo a.relay bytes) :
    ∃ r rd, DelegationRow.Matches d rd ∧ InstallationRow.Matches i r ∧
      s.installationOf a.delegationId = some key.1 ∧ s.installations.lookup key.1 = some r ∧
      Tables.admitsInstallation a r = .ok () ∧
      s.admittedDelegation a = .ok ((key.1, bytes), rd) := by
  obtain ⟨hlive, hilive, hid, hrelay, hepoch, hgen, hiepoch, hstart, hend, hiend, -, -⟩ :=
    hd.delivers_spec
  obtain ⟨hinst, hkeyrelay, -⟩ := h.delegationIds key d hd.delegation
  have hkey : IsDelegationKey key (key.1, bytes) := ⟨rfl, hkeyrelay ▸ hrelay ▸ hbytes⟩
  obtain ⟨rd, hrd, hmd⟩ := h.delegations.exists_right hkey hd.delegation
  obtain ⟨r, hr, hmi⟩ := h.installations.exists_right rfl hd.installation
  rw [hinst] at hr
  have hrid : rd.id = a.delegationId := hmd.id.trans hid
  refine ⟨r, rd, hmd, hmi, ?_, hr, ?_, ?_⟩
  · rw [Tables.installationOf, Map.findRow_eq_some_of_unique hrd (decide_eq_true hrid)]
    · rfl
    · intro key' r' hr' hp
      exact h.delegation_unique hr' hrd ((of_decide_eq_true hp).trans hrid.symm)
  · apply Tables.admitsInstallation_eq_ok hst (hmi.revoked.mpr hilive) (hmi.epoch.trans hiepoch)
    rw [hmi.expires]
    exact seconds_le.mpr hiend
  · simp only [Tables.admittedDelegation, bind_eq_ok, okOr_eq_ok, bindAt_eq_ok]
    refine ⟨bytes, hbytes.2, _, ⟨hst, rfl⟩, ?_⟩
    apply Map.findRow_eq_some_of_unique hrd
    · simp only [Bool.and_eq_true, decide_eq_true_eq, Option.isNone_iff_eq_none, hrid, hmd.epoch,
        hepoch, hmd.generation, hgen, hmd.revoked.mpr hlive, hmd.notBefore, hmd.expires,
        seconds_le, hstart, hend, and_self]
    · intro key' r' hr' hp
      simp only [Bool.and_eq_true, decide_eq_true_eq, and_assoc] at hp
      exact h.delegation_unique hr' hrd (hp.1.trans hrid.symm)

/-- What PostgreSQL has admitted, the reference finds deliverable. -/
theorem deliverable_of_ok (h : Agree m s) {a : Delivery} {p : DeliveryPermit} {s' : Tables}
    {dbNow : DateTime} (hst : Storable a.now) (hrelay : validRelayPubkey a.relay = true)
    (hevent : validRelayPubkey a.eventId = true)
    (hok : s.authorizeDelivery dbNow a = .ok (p, s')) : ∃ key d i, Deliverable m a key d i := by
  obtain ⟨-, id, r, key, rd, hid, hr, hadmits, hd, hadmit⟩ :=
    Tables.authorizeDelivery_eq_ok.mp hok
  obtain ⟨hgranted, ⟨-, hmax⟩, s₁, hcharge, hfence⟩ := Tables.admitDelivery_eq_ok.mp hadmit
  obtain ⟨-, row, hrow, rfl⟩ := Tables.chargeQuota_eq_ok.mp hcharge
  obtain ⟨relay, event, hrb, heb, -, -, hauth, hrequest, -⟩ := Tables.fence_eq_ok.mp hfence
  obtain ⟨hlookup, hcarries⟩ := Tables.admittedDelegation_spec hd
  obtain ⟨hrevoked, hepoch, hexpires⟩ := Tables.admitsInstallation_spec hadmits
  obtain ⟨other, rd', hlookup', hid'⟩ := Tables.installationOf_spec hid
  obtain rfl : (id, other) = key :=
    h.delegation_unique hlookup' hlookup (hid'.trans hcarries.id_eq.symm)
  have hbytes : DecodesTo a.relay other := ⟨hrelay, hcarries.relay_eq⟩
  obtain rfl : other = relay := DecodesTo.biUnique.2 hbytes ⟨hrelay, hrb⟩
  have hkey : IsDelegationKey (id, a.relay) (id, other) := ⟨rfl, hbytes⟩
  obtain ⟨d, hmd, hdm⟩ := h.delegations.exists_left hkey hlookup
  obtain ⟨i, hmi, him⟩ := h.installations.exists_left rfl hr
  obtain ⟨hinst, hdrelay, hids⟩ := h.delegationIds _ d hmd
  have hexpiry := hgranted.within
  rw [hdm.expires, ts_seconds] at hexpiry
  have hstart := hcarries.started
  have hend := hcarries.unexpired
  rw [hdm.notBefore, seconds_le] at hstart
  rw [hdm.expires, seconds_le] at hend
  rw [him.expires, seconds_le] at hexpires
  refine ⟨(id, a.relay), d, i, ?_, hmd, hinst ▸ hmi, ?_, ?_, ?_, ?_⟩
  · rw [← hcarries.id_eq, hdm.id, hids]
  · simp only [MemoryState.delivers, Bool.and_eq_true, Bool.not_eq_true', decide_eq_true_eq]
    refine ⟨⟨⟨⟨⟨⟨⟨⟨⟨⟨⟨hdm.revoked.mp hcarries.unrevoked, him.revoked.mp hrevoked⟩, ?_⟩, hdrelay⟩, ?_⟩,
      ?_⟩, ?_⟩, hstart⟩, hend⟩, hexpires⟩, hgranted.unexpired⟩, hexpiry⟩
    · rw [← hdm.id, hcarries.id_eq]
    · rw [← hdm.epoch, hcarries.epoch_eq]
    · rw [← hdm.generation, hcarries.generation_eq]
    · rw [← him.epoch, hepoch]
  · intro hmem
    exact hauth ((h.deliveryAuthReplays.mem_iff (isAuthKey hbytes ⟨hevent, heb⟩)).mp hmem)
  · intro hmem
    exact hrequest ((h.deliveryRequestReplays.mem_iff (isRequestKey hbytes _)).mp hmem)
  · rcases h.quota_cases i.tokenFingerprint hst hmax dbNow with ⟨hroom, -⟩ | ⟨-, -, herr⟩
    · exact hroom
    · rw [him.fingerprint, herr] at hrow
      cases hrow

theorem granted_of_deliverable (h : Agree m s) {a : Delivery} {key : Uuid × String}
    {d : Delegation} {i : Installation} (hd : Deliverable m a key d i) {r : InstallationRow}
    {rd : DelegationRow} (hdm : DelegationRow.Matches d rd) (him : InstallationRow.Matches i r)
    (bytes : List UInt8) : Tables.Granted a r (key.1, bytes) rd (permitOf a d i) := by
  obtain ⟨hinst, -, -⟩ := h.delegationIds key d hd.delegation
  obtain ⟨-, -, -, -, -, -, -, -, -, -, hunexpired, hwithin⟩ := hd.delivers_spec
  refine ⟨rfl, rfl, ?_, ?_, hunexpired, ?_⟩
  · rw [him.profile, profile_asStr]
    rfl
  · rw [him.ciphertext, hdm.expires, ts_seconds, ← hinst, ← h.installationIds _ i hd.installation]
    rfl
  · rw [hdm.expires, ts_seconds]
    exact hwithin

def admitted (s : Tables) (a : Delivery) (fingerprint : List UInt8) (row : QuotaRow)
    (relay event : List UInt8) : Tables :=
  { s with
    endpointQuotas := AList.insert fingerprint row s.endpointQuotas
    deliveryAuthReplays :=
      AList.insert (relay, event) (seconds a.requestExpiresAt) s.deliveryAuthReplays
    deliveryRequestReplays :=
      AList.insert (relay, a.requestId) (seconds a.requestExpiresAt) s.deliveryRequestReplays }

theorem tables_authorize (h : Agree m s) {a : Delivery} {key : Uuid × String} {d : Delegation}
    {i : Installation} (hd : Deliverable m a key d i) (hst : Storable a.now)
    (hwindow : 1 ≤ a.quotaWindowSeconds) (hmax : 1 ≤ a.quotaMaxDeliveries) {dbNow : DateTime}
    {relay event : List UInt8} (hrelay : DecodesTo a.relay relay)
    (hevent : DecodesTo a.eventId event) (hrlen : relay.length = 32) (helen : event.length = 32)
    {row : QuotaRow} (hrow : Tables.quotaRow (s.endpointQuotas.lookup i.tokenFingerprint.val)
      (seconds a.now) dbNow a = .ok row) :
    s.authorizeDelivery dbNow a =
      .ok (permitOf a d i, admitted s a i.tokenFingerprint.val row relay event) := by
  obtain ⟨r, rd, hdm, him, hid, hr, hadmits, hadmitted⟩ := h.rows_of_deliverable hd hst hrelay
  have hgranted := h.granted_of_deliverable hd hdm him relay
  have hexpiry : Storable a.requestExpiresAt := by
    obtain ⟨-, -, -, -, -, -, -, -, -, -, hunexpired, hwithin⟩ := hd.delivers_spec
    exact ⟨hst.1.trans hunexpired, hwithin.trans hdm.storable.2⟩
  have hdecode : Tables.decodeDelivery a = .ok () := by
    simp only [Tables.decodeDelivery, bind_eq_ok, okOr_eq_ok, require_eq_ok]
    exact ⟨relay, hrelay.2, event, hevent.2, helen⟩
  have hauth : (relay, event) ∉ s.deliveryAuthReplays :=
    fun hmem ↦ hd.auth ((h.deliveryAuthReplays.mem_iff (isAuthKey hrelay hevent)).mpr hmem)
  have hrequest : (relay, a.requestId) ∉ s.deliveryRequestReplays :=
    fun hmem ↦ hd.request ((h.deliveryRequestReplays.mem_iff (isRequestKey hrelay _)).mpr hmem)
  apply Tables.authorizeDelivery_eq_ok.mpr
  refine ⟨hdecode, key.1, r, (key.1, relay), rd, hid, hr, hadmits, hadmitted, ?_⟩
  apply Tables.admitDelivery_eq_ok.mpr
  refine ⟨hgranted, ⟨hwindow, hmax⟩, _, Tables.chargeQuota_eq_ok.mpr
    ⟨hst, row, him.fingerprint ▸ hrow, rfl⟩, ?_⟩
  apply Tables.fence_eq_ok.mpr
  refine ⟨relay, event, hrelay.2, hevent.2, hexpiry, hrlen, hauth, hrequest, ?_⟩
  rw [him.fingerprint]
  rfl

theorem agree_delivered (h : Agree m s) {a : Delivery} {i : Installation} {relay event : List UInt8}
    (hrelay : DecodesTo a.relay relay) (hevent : DecodesTo a.eventId event) {row : QuotaRow}
    (hmatch : row.Matches ((MemoryState.quotaEntry m.endpointQuotas i.tokenFingerprint a).2.1,
      (MemoryState.quotaEntry m.endpointQuotas i.tokenFingerprint a).2.2 + 1)) :
    Agree (delivered m a i) (admitted s a i.tokenFingerprint.val row relay event) where
  challenges := h.challenges
  installations := h.installations
  installationIds := h.installationIds
  tokenOwners := h.tokenOwners
  delegations := h.delegations
  delegationRelays := h.delegationRelays
  delegationIds := h.delegationIds
  endpointQuotas := by
    have hinsert := h.endpointQuotas.insert IsBytes.biUnique (k := i.tokenFingerprint) rfl hmatch
    intro k k' hk
    have hk' := hinsert k k' hk
    rw [Map.lookup_insert_eq] at hk'
    change Option.Rel _ ((AList.insert _ _ (MemoryState.quotaEntry _ _ a).1).lookup k) _
    rw [Map.lookup_insert_eq]
    by_cases hfp : k = i.tokenFingerprint
    · rw [if_pos hfp] at hk' ⊢
      exact hk'
    · rw [if_neg hfp] at hk' ⊢
      rw [quotaEntry_lookup_of_ne hfp]
      exact hk'
  deliveryAuthReplays :=
    h.deliveryAuthReplays.insert isAuthKey_biUnique (isAuthKey hrelay hevent) rfl
  deliveryRequestReplays :=
    h.deliveryRequestReplays.insert isRequestKey_biUnique (isRequestKey hrelay _) rfl

theorem authorizeDelivery (h : Agree m s) {a : Delivery} (hst : Storable a.now)
    (hrelay : validRelayPubkey a.relay = true) (hevent : validRelayPubkey a.eventId = true)
    (hwindow : 1 ≤ a.quotaWindowSeconds) (hmax : 1 ≤ a.quotaMaxDeliveries) (dbNow : DateTime) :
    Alike m (m.call (.authorizeDelivery a)) (s.call dbNow (.authorizeDelivery a)) := by
  by_cases hex : ∃ key d i, Deliverable m a key d i
  · obtain ⟨key, d, i, hd⟩ := hex
    obtain ⟨relay, hr, hrlen⟩ := DecodesTo.exists hrelay
    obtain ⟨event, he, helen⟩ := DecodesTo.exists hevent
    rcases h.quota_cases i.tokenFingerprint hst hmax dbNow with
      ⟨-, row, hrow, hmatch⟩ | ⟨hfull, -⟩
    · have hs := h.tables_authorize hd hst hwindow hmax hr he hrlen helen hrow
      refine .inl ⟨.permit (permitOf a d i), delivered m a i, _, ?_, ?_,
        h.agree_delivered hr he hmatch⟩
      · rw [MemoryState.call, hd.authorize]
        rfl
      · rw [Tables.call, hs]
        rfl
    · exact absurd hd.quota (not_lt.mpr hfull)
  · push Not at hex
    have hm := authorize_of_not_deliverable hex (h.full_quota_same hst hmax)
    have hs : ∀ r, s.authorizeDelivery dbNow a ≠ .ok r := by
      intro r hok
      obtain ⟨key, d, i, hd⟩ := h.deliverable_of_ok hst hrelay hevent hok
      exact hex key d i hd
    obtain ⟨err', hs⟩ := error_of_not_ok hs
    exact .inr ⟨_, err', by rw [MemoryState.call, hm]; rfl, by rw [Tables.call, hs]; rfl⟩

theorem finishDelivery (h : Agree m s) {permit : DeliveryPermit} {disposition : DeliveryDisposition}
    (hrelay : validRelayPubkey permit.relayPubkey = true) (dbNow : DateTime) :
    Alike m (m.call (.finishDelivery permit disposition))
      (s.call dbNow (.finishDelivery permit disposition)) := by
  cases disposition with
  | terminal => exact Alike.accept m rfl rfl h
  | retryable =>
    obtain ⟨bytes, hbytes, -⟩ := DecodesTo.exists hrelay
    have hpg : s.finishDelivery permit .retryable = .ok { s with
        deliveryRequestReplays := s.deliveryRequestReplays.erase (bytes, permit.requestId) } := by
      simp only [Tables.finishDelivery, bind_eq_ok, okOr_eq_ok]
      exact ⟨bytes, hbytes.2, rfl⟩
    refine Alike.accept _ rfl hpg ?_
    exact { h with
      deliveryRequestReplays :=
        h.deliveryRequestReplays.erase isRequestKey_biUnique (isRequestKey hbytes _) }

end Agree

/-- What `chrono::Utc::now().timestamp()` returns. -/
def ClockReading (now : ℤ) : Prop := 0 ≤ now ∧ now ≤ maxUtc

instance (now : ℤ) : Decidable (ClockReading now) := inferInstanceAs (Decidable (_ ∧ _))

theorem ClockReading.storable {now : ℤ} (h : ClockReading now) : Storable now := by
  have hpos := h.1
  refine ⟨?_, h.2⟩
  simp only [minTimestamptz]
  omega

/-- The arguments that the HTTP handlers pass: fresh ids, checked hex, sealed tokens, verified
attestations and a configured quota. -/
def Passable (m : MemoryState) : Call → Prop
  | .putChallenge c => c.id ∉ m.challenges
  | .consumeChallenge _ _ now => ClockReading now
  | .createInstallation n =>
    n.id ∉ m.installations ∧ n.appAttestKeyId.length = 32 ∧ 33 ≤ n.appAttestPublicKey.length ∧
      n.appAttestPublicKey.length ≤ 256 ∧ n.assertionCounter = 0 ∧
      1 ≤ n.tokenCiphertext.length ∧ n.tokenCiphertext.length ≤ 2048 ∧ n.endpointEpoch = 1
  | .installation _ now => ClockReading now
  | .advanceAssertionCounter _ _ _ => True
  | .upsertDelegation d =>
    d.id ∉ m.delegationIds ∧ validRelayPubkey d.relayPubkey = true ∧ 1 ≤ d.endpointEpoch ∧
      1 ≤ d.generation ∧ d.notBefore < d.expiresAt ∧ d.revoked = false
  | .rotateEndpoint _ _ _ ciphertext _ => 1 ≤ ciphertext.length ∧ ciphertext.length ≤ 2048
  | .revokeDelegation _ relay generation => validRelayPubkey relay = true ∧ 1 ≤ generation
  | .revokeInstallation _ _ _ => True
  | .authorizeDelivery a =>
    ClockReading a.now ∧ validRelayPubkey a.relay = true ∧ validRelayPubkey a.eventId = true ∧
      1 ≤ a.quotaWindowSeconds ∧ 1 ≤ a.quotaMaxDeliveries
  | .finishDelivery permit _ => validRelayPubkey permit.relayPubkey = true

instance (m : MemoryState) (c : Call) : Decidable (Passable m c) := by
  unfold Passable
  split <;> infer_instance

def keyIdUsed (m : MemoryState) (keyId : List UInt8) : Bool :=
  m.installations.entries.any fun e ↦ e.2.appAttestKeyId = keyId

/-- The calls on which the stores do the same: a challenge that is stored is consumed with its value
and in time, an App Attest key id is enrolled once unless the token is taken as well, and the times
to be stored are times a `TIMESTAMPTZ` can hold. -/
def Conforms (m : MemoryState) : Call → Prop
  | .putChallenge c => Storable c.expiresAt
  | .consumeChallenge id value now =>
    ∀ c ∈ m.challenges.lookup id, c.value = value ∧ now ≤ c.expiresAt
  | .createInstallation n =>
    Storable n.expiresAt ∧
      (keyIdUsed m n.appAttestKeyId = true → (n.profile, n.tokenFingerprint) ∈ m.tokenOwners)
  | .upsertDelegation d => Storable d.notBefore ∧ Storable d.expiresAt
  | _ => True

instance (m : MemoryState) (c : Call) : Decidable (Conforms m c) := by
  unfold Conforms
  split <;> infer_instance

theorem newRow_check {m : MemoryState} {n : NewInstallation}
    (h : Passable m (.createInstallation n)) : (Tables.newRow n).Check := by
  obtain ⟨-, hkey, hpk, hpk', hcounter, hct, hct', hepoch⟩ := h
  refine ⟨?_, ?_, hpk, hpk', ?_, ?_, ?_, hct, hct', n.tokenFingerprint.property, ?_⟩
  · change 1 ≤ n.appAttestKeyId.length
    omega
  · change n.appAttestKeyId.length ≤ 128
    omega
  · simp [Tables.newRow]
  · simp [Tables.newRow, hcounter]
  · change n.profile.asStr = _ ∨ n.profile.asStr = _
    cases n.profile
    · exact .inl rfl
    · exact .inr rfl
  · change 0 < n.endpointEpoch
    omega

theorem Agree.call {m : MemoryState} {s : Tables} (h : Agree m s) {c : Call} (hp : Passable m c)
    (hc : Conforms m c) (dbNow : DateTime) : Alike m (m.call c) (s.call dbNow c) := by
  cases c with
  | putChallenge c => exact h.putChallenge hp hc dbNow
  | consumeChallenge id value now => exact h.consumeChallenge (ClockReading.storable hp) hc dbNow
  | createInstallation n =>
    refine h.createInstallation hp.1 hc.1 (newRow_check hp) ?_ dbNow
    intro id i hi hkey
    apply hc.2
    rw [keyIdUsed, List.any_eq_true]
    exact ⟨⟨id, i⟩, Map.mem_entries_iff.mpr hi, decide_eq_true hkey⟩
  | installation id now => exact h.installation (ClockReading.storable hp) dbNow
  | advanceAssertionCounter id previous next => exact h.advanceAssertionCounter dbNow
  | upsertDelegation d =>
    obtain ⟨hfresh, hrelay, hepoch, hgeneration, hwindow, hrevoked⟩ := hp
    exact h.upsertDelegation hfresh hrelay hepoch hgeneration hwindow hrevoked hc.1 hc.2 dbNow
  | rotateEndpoint id expected new ciphertext fingerprint => exact h.rotateEndpoint hp dbNow
  | revokeDelegation id relay generation => exact h.revokeDelegation hp.1 dbNow
  | revokeInstallation id expected new => exact h.revokeInstallation dbNow
  | authorizeDelivery a =>
    obtain ⟨hnow, hrelay, hevent, hwindow, hmax⟩ := hp
    exact h.authorizeDelivery hnow.storable hrelay hevent hwindow hmax dbNow
  | finishDelivery permit disposition => exact h.finishDelivery hp dbNow

structure Stores where
  memory : MemoryState
  tables : Tables

namespace Stores

def empty : Stores := ⟨MemoryState.empty, Tables.empty⟩

def call (w : Stores) (c : Call × DateTime) : Stores where
  memory := (w.memory.call c.1).2
  tables :=
    match w.tables.call c.2 c.1 with
    | .ok (_, tables) => tables
    | .error _ => w.tables

def conformingCall (w : Stores) (c : Call × DateTime) : Option Stores :=
  if Passable w.memory c.1 ∧ Conforms w.memory c.1 then some (w.call c) else none

theorem agree_of_run {calls : List (Call × DateTime)} {w : Stores}
    (h : calls.foldlM conformingCall empty = some w) : Agree w.memory w.tables := by
  induction calls using List.reverseRecOn generalizing w with
  | nil =>
    cases h
    exact Agree.empty
  | append_singleton calls c ih =>
    obtain ⟨w₀, hrun, hlast⟩ := foldlM_concat_eq_some.mp h
    rw [conformingCall, Option.ite_none_right_eq_some] at hlast
    obtain ⟨⟨hp, hc⟩, hlast⟩ := hlast
    cases hlast
    have hagree := ih hrun
    rcases hagree.call hp hc c.2 with ⟨answer, m', s', hm, hs, h'⟩ | ⟨err, err', hm, hs⟩
    · simp only [Stores.call, hm, hs]
      exact h'
    · simp only [Stores.call, hm, hs]
      exact hagree

/-- In every run of conforming calls from empty stores, each call is accepted by both with the same
result, or rejected by both, and then both are as they were. -/
theorem stores_conform {calls : List (Call × DateTime)} {w : Stores}
    (h : calls.foldlM conformingCall empty = some w) {c : Call} (hp : Passable w.memory c)
    (hc : Conforms w.memory c) (dbNow : DateTime) :
    (∃ answer m' s', w.memory.call c = (.ok answer, m') ∧
        w.tables.call dbNow c = .ok (answer, s')) ∨
      ∃ err err', w.memory.call c = (.error err, w.memory) ∧ w.tables.call dbNow c = .error err' := by
  rcases (agree_of_run h).call hp hc dbNow with ⟨answer, m', s', hm, hs, -⟩ | hreject
  · exact .inl ⟨answer, m', s', hm, hs⟩
  · exact .inr hreject

def challengeValue (b : UInt8) : Bytes32 := ⟨List.replicate 32 b, length_replicate32 b⟩

def wrongGuess : List (Call × DateTime) :=
  [(.putChallenge ⟨1, challengeValue 7, 1300⟩, 0), (.consumeChallenge 1 (challengeValue 8) 1001, 0)]

theorem wrong_guess_diverges :
    ((wrongGuess.foldl call empty).memory.call (.consumeChallenge 1 (challengeValue 7) 1002)).1 =
        .error .rejected ∧
      ∃ r ∈ ((wrongGuess.foldl call empty).tables.call 0
        (.consumeChallenge 1 (challengeValue 7) 1002)).toOption, r.1 = .done := by
  decide +kernel

def relayKey : String := "0000000000000000000000000000000000000000000000000000000000000000"

/-- An installation enrolls, has its token replaced and delegates to a relay. -/
def enrolled : List (Call × DateTime) :=
  [(.putChallenge ⟨1, challengeValue 7, 1300⟩, 0), (.consumeChallenge 1 (challengeValue 7) 1002, 0),
    (.createInstallation ⟨2, List.replicate 32 3, List.replicate 33 8, 0, .buzzIosProduction, [9],
      challengeValue 4, 1, 100000⟩, 0),
    (.rotateEndpoint 2 1 2 [10] (challengeValue 5), 0),
    (.upsertDelegation ⟨5, 2, relayKey, 2, 6, 1000, 2000, false⟩, 0)]

def firstDelivery : Call :=
  .authorizeDelivery ⟨5, relayKey, 2, 6, relayKey, 8, 1100, 60, 10, 1003⟩

def firstPermit : DeliveryPermit :=
  ⟨⟨5, 2, relayKey, .buzzIosProduction, [10], 2, 6, 2000⟩, relayKey, 8⟩

theorem stores_conform_delivery :
    ∃ w ∈ enrolled.foldlM conformingCall empty, ∃ m' s',
      w.memory.call firstDelivery = (.ok (.permit firstPermit), m') ∧
        w.tables.call 1003000000 firstDelivery = .ok (.permit firstPermit, s') := by
  have hrun : ∃ w ∈ enrolled.foldlM conformingCall empty,
      (Passable w.memory firstDelivery ∧ Conforms w.memory firstDelivery) ∧
        (w.memory.call firstDelivery).1.toOption = some (.permit firstPermit) := by
    decide +kernel
  obtain ⟨w, hw, ⟨hp, hc⟩, hanswer⟩ := hrun
  obtain ⟨answer, m', s', hm, hs⟩ | ⟨err, err', hm, hs⟩ := stores_conform hw hp hc 1003000000
  · rw [hm] at hanswer
    cases hanswer
    exact ⟨w, hw, m', s', hm, hs⟩
  · rw [hm] at hanswer
    cases hanswer

end Stores

end Buzz.Gateway
