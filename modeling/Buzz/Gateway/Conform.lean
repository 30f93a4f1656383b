import Buzz.Gateway.Memory
import Buzz.Gateway.PostgresSpec
import Buzz.Lib.Collections
import Buzz.Lib.Runs

namespace Buzz.Gateway

open Buzz.Lib Buzz.Nostr

theorem profile_asStr (p : AppProfile) : profile p.asStr = .ok p := by
  cases p <;> rfl

theorem asStr_injective : Function.Injective AppProfile.asStr := by
  intro p q h
  have hp := profile_asStr p
  rw [h, profile_asStr] at hp
  exact (Except.ok.inj hp).symm

theorem bytes32_val (v : Bytes32) : bytes32 v.val = .ok v := dif_pos v.property

theorem counter32_toNat (n : UInt32) : counter32 n.toNat = .ok n := by
  have hlt := n.toNat_lt
  rw [counter32, if_pos ⟨by omega, by exact_mod_cast hlt⟩, Int.toNat_natCast, UInt32.ofNat_toNat]

def DecodesTo (v : String) (bytes : List UInt8) : Prop :=
  validRelayPubkey v = true ∧ hexDecode v = some bytes

theorem DecodesTo.biUnique : Relator.BiUnique DecodesTo := by
  constructor
  · intro v w bytes hv hw
    exact hexDecode_injective hv.1 hw.1 hv.2 hw.2
  · intro v bytes bytes' h h'
    exact Option.some.inj (h.2.symm.trans h'.2)

theorem DecodesTo.exists {v : String} (h : validRelayPubkey v = true) :
    ∃ bytes, DecodesTo v bytes ∧ bytes.length = 32 := by
  obtain ⟨bytes, hbytes, hlen⟩ := hexDecode_of_validRelayPubkey h
  exact ⟨bytes, ⟨h, hbytes⟩, hlen⟩

def IsBytes (v : Bytes32) (bytes : List UInt8) : Prop := v.val = bytes

theorem IsBytes.biUnique : Relator.BiUnique IsBytes :=
  ⟨fun _ _ _ h h' ↦ Subtype.ext (Eq.trans h h'.symm), fun _ _ _ h h' ↦ Eq.trans (Eq.symm h) h'⟩

structure ChallengeRow.Matches (c : Challenge) (r : ChallengeRow) : Prop where
  hash : r.challengeHash = Sha256.digest c.value.val
  expires : r.expiresAt = seconds c.expiresAt

structure InstallationRow.Matches (i : Installation) (r : InstallationRow) : Prop where
  keyId : r.appAttestKeyId = i.appAttestKeyId
  publicKey : r.appAttestPublicKey = i.appAttestPublicKey
  counter : r.assertionCounter = i.assertionCounter.toNat
  profile : r.appProfile = i.profile.asStr
  ciphertext : r.tokenCiphertext = i.tokenCiphertext
  fingerprint : r.tokenFingerprint = i.tokenFingerprint.val
  epoch : r.endpointEpoch = i.endpointEpoch
  expires : r.expiresAt = seconds i.expiresAt
  revoked : r.revokedAt = none ↔ i.revoked = false
  check : r.Check

structure DelegationRow.Matches (d : Delegation) (r : DelegationRow) : Prop where
  id : r.id = d.id
  epoch : r.endpointEpoch = d.endpointEpoch
  generation : r.generation = d.generation
  notBefore : r.notBefore = seconds d.notBefore
  expires : r.expiresAt = seconds d.expiresAt
  revoked : r.revokedAt = none ↔ d.revoked = false
  storable : Storable d.expiresAt
  check : ∀ relay, relay.length = 32 → r.Check relay

structure QuotaRow.Matches (q : ℤ × ℤ) (r : QuotaRow) : Prop where
  started : r.windowStartedAt = seconds q.1
  admitted : r.admitted = q.2
  storable : Storable q.1

abbrev IsDelegationKey : Uuid × String → Uuid × List UInt8 → Prop := Keys Eq DecodesTo

theorem isDelegationKey_biUnique : Relator.BiUnique IsDelegationKey :=
  Keys.biUnique biUnique_eq DecodesTo.biUnique

abbrev IsAuthKey : String × String → List UInt8 × List UInt8 → Prop := Keys DecodesTo DecodesTo

theorem isAuthKey {p q : String} {relay event : List UInt8} (hrelay : DecodesTo p relay)
    (hevent : DecodesTo q event) : IsAuthKey (p, q) (relay, event) :=
  ⟨hrelay, hevent⟩

theorem isAuthKey_biUnique : Relator.BiUnique IsAuthKey :=
  Keys.biUnique DecodesTo.biUnique DecodesTo.biUnique

abbrev IsRequestKey : String × Uuid → List UInt8 × Uuid → Prop := Keys DecodesTo Eq

theorem isRequestKey {p : String} {relay : List UInt8} (hrelay : DecodesTo p relay)
    (requestId : Uuid) : IsRequestKey (p, requestId) (relay, requestId) :=
  ⟨hrelay, rfl⟩

theorem isRequestKey_biUnique : Relator.BiUnique IsRequestKey :=
  Keys.biUnique DecodesTo.biUnique biUnique_eq

/-- The two stores hold the same, each in its own representation. -/
structure Agree (m : MemoryState) (s : Tables) : Prop where
  challenges : MapRel Eq ChallengeRow.Matches m.challenges s.challenges
  installations : MapRel Eq InstallationRow.Matches m.installations s.installations
  installationIds : ∀ id i, m.installations.lookup id = some i → i.id = id
  tokenOwners : ∀ key id, m.tokenOwners.lookup key = some id ↔
    ∃ i, m.installations.lookup id = some i ∧ (i.profile, i.tokenFingerprint) = key
  delegations : MapRel IsDelegationKey DelegationRow.Matches m.delegations s.delegations
  delegationRelays : ∀ key r, s.delegations.lookup key = some r → ∃ relay, DecodesTo relay key.2
  delegationIds : ∀ key d, m.delegations.lookup key = some d →
    d.installationId = key.1 ∧ d.relayPubkey = key.2 ∧ m.delegationIds.lookup d.id = some key
  endpointQuotas : MapRel IsBytes QuotaRow.Matches m.endpointQuotas s.endpointQuotas
  deliveryAuthReplays : MapRel IsAuthKey (fun e t ↦ t = seconds e) m.deliveryAuthReplays
    s.deliveryAuthReplays
  deliveryRequestReplays : MapRel IsRequestKey (fun e t ↦ t = seconds e)
    m.deliveryRequestReplays s.deliveryRequestReplays

theorem Agree.empty : Agree MemoryState.empty Tables.empty where
  challenges := MapRel.empty
  installations := MapRel.empty
  installationIds := nofun
  tokenOwners := by simp [MemoryState.empty]
  delegations := MapRel.empty
  delegationRelays := nofun
  delegationIds := nofun
  endpointQuotas := MapRel.empty
  deliveryAuthReplays := MapRel.empty
  deliveryRequestReplays := MapRel.empty

/-- Either both stores accept a call with the same result and agree after it, or both reject it
and are as they were. -/
def Alike {α : Type} (m : MemoryState) (rm : Except AuthorityError α × MemoryState)
    (rs : Except AuthorityError (α × Tables)) : Prop :=
  (∃ a m' s', rm = (.ok a, m') ∧ rs = .ok (a, s') ∧ Agree m' s') ∨
    ∃ err err', rm = (.error err, m) ∧ rs = .error err'

theorem error_of_not_ok {α : Type} {x : Except AuthorityError α} (h : ∀ a, x ≠ .ok a) :
    ∃ err, x = .error err := by
  cases x with
  | error err => exact ⟨err, rfl⟩
  | ok a => exact (h a rfl).elim

section Mutations

variable {m : MemoryState} {s' : Tables} {rm : Except AuthorityError Unit × MemoryState}
  {rs : Except AuthorityError Tables}

theorem Alike.accept (m' : MemoryState) (hm : rm = (.ok (), m')) (hs : rs = .ok s') (h : Agree m' s') :
    Alike m (MemoryState.answering (fun _ ↦ Answer.done) rm) (Tables.done rs) :=
  .inl ⟨.done, m', s', by rw [hm]; rfl, by rw [hs]; rfl, h⟩

theorem Alike.reject (hm : rm = (.error .rejected, m)) (hs : ∀ s', rs ≠ .ok s') :
    Alike m (MemoryState.answering (fun _ ↦ Answer.done) rm) (Tables.done rs) := by
  obtain ⟨err', hs⟩ := error_of_not_ok hs
  exact .inr ⟨_, err', by rw [hm]; rfl, by rw [hs]; rfl⟩

end Mutations

variable {m : MemoryState} {s : Tables}

namespace Agree

theorem putChallenge (h : Agree m s) {c : Challenge} (hfresh : c.id ∉ m.challenges)
    (hst : Storable c.expiresAt) (dbNow : DateTime) :
    Alike m (m.call (.putChallenge c)) (s.call dbNow (.putChallenge c)) := by
  apply Alike.accept { m with challenges := AList.insert c.id c m.challenges }
  · rw [MemoryState.putChallenge, if_neg hfresh]
  · exact Tables.putChallenge_spec.mpr
      ⟨hst, fun hmem ↦ hfresh ((h.challenges.mem_iff rfl).mpr hmem), rfl⟩
  · exact { h with challenges := h.challenges.insert biUnique_eq rfl ⟨rfl, rfl⟩ }

theorem consumeChallenge (h : Agree m s) {id : Uuid} {value : Bytes32} {now : ℤ}
    (hst : Storable now)
    (hright : ∀ c ∈ m.challenges.lookup id, c.value = value ∧ now ≤ c.expiresAt)
    (dbNow : DateTime) :
    Alike m (m.call (.consumeChallenge id value now))
      (s.call dbNow (.consumeChallenge id value now)) := by
  rcases h.challenges.lookup_cases (k := id) rfl with ⟨hm, hs⟩ | ⟨c, r, hm, hs, hrow⟩
  · apply Alike.reject
    · rw [MemoryState.consumeChallenge, hm]
    · intro s' hok
      obtain ⟨-, ⟨r, hr, -⟩, -⟩ := Tables.consumeChallenge_spec.mp hok
      rw [hs] at hr
      cases hr
  · obtain ⟨hvalue, hle⟩ := hright c hm
    apply Alike.accept { m with challenges := m.challenges.erase id }
    · rw [MemoryState.consumeChallenge, hm]
      simp only [hvalue, ne_eq, not_true_eq_false, false_or, not_lt.mpr hle, if_false]
    · apply Tables.consumeChallenge_spec.mpr
      refine ⟨hst, ⟨r, hs, hvalue ▸ hrow.hash, ?_⟩, rfl⟩
      rw [hrow.expires]
      exact seconds_le.mpr hle
    · exact { h with challenges := h.challenges.erase biUnique_eq rfl }

theorem tokenTaken_iff (h : Agree m s) {id : Uuid} {p : AppProfile} {f : Bytes32} :
    s.tokenTaken id p.asStr f.val = true ↔
      ∃ owner, m.tokenOwners.lookup (p, f) = some owner ∧ owner ≠ id := by
  simp only [Tables.tokenTaken, Map.otherHas_eq_true, Bool.and_eq_true, decide_eq_true_eq]
  constructor
  · rintro ⟨owner, r, hne, hr, hp, hf⟩
    obtain ⟨i, hi, hrow⟩ := h.installations.exists_left rfl hr
    refine ⟨owner, (h.tokenOwners _ _).mpr ⟨i, hi, ?_⟩, hne⟩
    rw [hrow.profile] at hp
    rw [hrow.fingerprint] at hf
    rw [asStr_injective hp, Subtype.ext hf]
  · rintro ⟨owner, howner, hne⟩
    obtain ⟨i, hi, hkey⟩ := (h.tokenOwners _ _).mp howner
    obtain ⟨r, hr, hrow⟩ := h.installations.exists_right rfl hi
    obtain ⟨rfl, rfl⟩ := Prod.mk.inj hkey
    exact ⟨owner, r, hne, hr, hrow.profile, hrow.fingerprint⟩

theorem tokenTaken_eq_false_iff (h : Agree m s) {id : Uuid} {p : AppProfile} {f : Bytes32} :
    s.tokenTaken id p.asStr f.val = false ↔
      ∀ owner, m.tokenOwners.lookup (p, f) = some owner → owner = id := by
  rw [← Bool.not_eq_true, h.tokenTaken_iff]
  push Not
  rfl

theorem tokenOwners_update (h : Agree m s) {id : Uuid} {i i' : Installation}
    (hi : m.installations.lookup id = some i) (hprofile : i'.profile = i.profile)
    (hfingerprint : i'.tokenFingerprint = i.tokenFingerprint) (key : AppProfile × Bytes32)
    (owner : Uuid) : m.tokenOwners.lookup key = some owner ↔
      ∃ j, (AList.insert id i' m.installations).lookup owner = some j ∧
        (j.profile, j.tokenFingerprint) = key := by
  rw [h.tokenOwners, Map.lookup_insert_eq]
  by_cases howner : owner = id
  · subst howner
    simp only [hi, if_true, Option.some.injEq, exists_eq_left', hprofile, hfingerprint]
  · rw [if_neg howner]

theorem updateInstallation (h : Agree m s) {id : Uuid} {i i' : Installation} {r' : InstallationRow}
    (hi : m.installations.lookup id = some i)
    (hrow : InstallationRow.Matches i' r')
    (hid : i'.id = i.id) (hprofile : i'.profile = i.profile)
    (hfingerprint : i'.tokenFingerprint = i.tokenFingerprint) :
    Agree { m with installations := AList.insert id i' m.installations }
      { s with installations := AList.insert id r' s.installations } where
  challenges := h.challenges
  installations := h.installations.insert biUnique_eq rfl hrow
  installationIds := by
    intro id' j hj
    rw [Map.lookup_insert_eq] at hj
    split at hj
    · next heq =>
      cases hj
      rw [hid, heq]
      exact h.installationIds id i hi
    · exact h.installationIds id' j hj
  tokenOwners := fun key owner ↦ h.tokenOwners_update hi hprofile hfingerprint key owner
  delegations := h.delegations
  delegationRelays := h.delegationRelays
  delegationIds := h.delegationIds
  endpointQuotas := h.endpointQuotas
  deliveryAuthReplays := h.deliveryAuthReplays
  deliveryRequestReplays := h.deliveryRequestReplays

theorem createInstallation (h : Agree m s) {n : NewInstallation} (hfresh : n.id ∉ m.installations)
    (hst : Storable n.expiresAt) (hcheck : (Tables.newRow n).Check)
    (hkey : ∀ id i, m.installations.lookup id = some i → i.appAttestKeyId = n.appAttestKeyId →
      (n.profile, n.tokenFingerprint) ∈ m.tokenOwners) (dbNow : DateTime) :
    Alike m (m.call (.createInstallation n)) (s.call dbNow (.createInstallation n)) := by
  by_cases howned : (n.profile, n.tokenFingerprint) ∈ m.tokenOwners
  · apply Alike.reject
    · rw [MemoryState.createInstallation, if_pos (.inr howned)]
    · intro s' hok
      obtain ⟨-, -, -, -, htoken, -⟩ := Tables.createInstallation_spec.mp hok
      obtain ⟨owner, howner⟩ := Option.isSome_iff_exists.mp (AList.lookup_isSome.mpr howned)
      have hsame := h.tokenTaken_eq_false_iff.mp htoken owner howner
      obtain ⟨i, hi, -⟩ := (h.tokenOwners _ _).mp howner
      rw [hsame] at hi
      exact hfresh (AList.lookup_isSome.mp (hi ▸ rfl))
  · have hnone : m.tokenOwners.lookup (n.profile, n.tokenFingerprint) = none :=
      AList.lookup_eq_none.mpr howned
    have hid : n.id ∉ s.installations := fun hmem ↦ hfresh ((h.installations.mem_iff rfl).mpr hmem)
    refine Alike.accept _ (by
      rw [MemoryState.createInstallation, if_neg (not_or.mpr ⟨hfresh, howned⟩)])
      (Tables.createInstallation_spec.mpr ⟨hst, hcheck, hid, ?_, ?_, rfl⟩) ?_
    · rw [Tables.keyIdTaken, Map.otherHas_eq_false]
      intro id r _ hr
      obtain ⟨i, hi, hrow⟩ := h.installations.exists_left rfl hr
      apply decide_eq_false
      intro heq
      exact howned (hkey id i hi (hrow.keyId.symm.trans heq))
    · rw [h.tokenTaken_eq_false_iff]
      intro owner howner
      rw [hnone] at howner
      cases howner
    · refine { h with
        installations := h.installations.insert biUnique_eq rfl
          ⟨rfl, rfl, rfl, rfl, rfl, rfl, rfl, rfl, by simp [Tables.newRow], hcheck⟩
        installationIds := ?_
        tokenOwners := ?_ }
      · intro id i hi
        rw [Map.lookup_insert_eq] at hi
        split at hi
        · next heq =>
          cases hi
          exact heq.symm
        · exact h.installationIds id i hi
      · intro key owner
        rw [Map.lookup_insert_eq, Map.lookup_insert_eq]
        by_cases howner : owner = n.id
        · subst howner
          rw [if_pos rfl]
          constructor
          · intro hlookup
            split at hlookup
            · next heq => exact ⟨_, rfl, heq.symm⟩
            · obtain ⟨i, hi, -⟩ := (h.tokenOwners _ _).mp hlookup
              exact (hfresh (AList.lookup_isSome.mp (hi ▸ rfl))).elim
          · rintro ⟨i, hi, hkeys⟩
            cases hi
            rw [if_pos hkeys.symm]
        · rw [if_neg howner]
          constructor
          · intro hlookup
            split at hlookup
            · exact (howner (Option.some.inj hlookup).symm).elim
            · exact (h.tokenOwners _ _).mp hlookup
          · intro hexists
            have hlookup := (h.tokenOwners _ _).mpr hexists
            rw [if_neg]
            · exact hlookup
            · rintro rfl
              rw [hnone] at hlookup
              cases hlookup

theorem installation (h : Agree m s) {id : Uuid} {now : ℤ} (hst : Storable now)
    (dbNow : DateTime) :
    Alike m (m.call (.installation id now)) (s.call dbNow (.installation id now)) := by
  have hreject (hm : m.installation id now = (.error .rejected, m))
      (hs : ∀ i, s.installation id now ≠ .ok i) :
      Alike m (m.call (.installation id now)) (s.call dbNow (.installation id now)) := by
    obtain ⟨err', hs⟩ := error_of_not_ok hs
    exact .inr ⟨_, err', by rw [MemoryState.call, hm]; rfl, by rw [Tables.call, hs]; rfl⟩
  rcases h.installations.lookup_cases (k := id) rfl with ⟨hm, hs⟩ | ⟨i, r, hm, hs, hrow⟩
  · apply hreject
    · rw [MemoryState.installation, hm]
      rfl
    · intro i hok
      obtain ⟨-, r, hr, -⟩ := Tables.installation_spec.mp hok
      rw [hs] at hr
      cases hr
  · by_cases hlive : i.revoked = false ∧ now ≤ i.expiresAt
    · have hmem : m.installation id now = (.ok i, m) := by
        rw [MemoryState.installation, hm, Option.filter_some, if_pos]
        simpa using hlive
      have hpg : s.installation id now = .ok i := by
        apply Tables.installation_spec.mpr
        refine ⟨hst, r, hs, hrow.revoked.mpr hlive.1, ?_, ?_, ?_, ?_, ?_⟩
        · rw [hrow.expires]
          exact seconds_le.mpr hlive.2
        · rw [hrow.counter, counter32_toNat]
        · rw [hrow.profile, profile_asStr]
        · rw [hrow.fingerprint, bytes32_val]
        · rw [hrow.keyId, hrow.publicKey, hrow.ciphertext, hrow.epoch, hrow.expires, ts_seconds,
            ← h.installationIds id i hm, ← hlive.1]
      exact .inl ⟨.installation i, m, s, by rw [MemoryState.call, hmem]; rfl,
        by rw [Tables.call, hpg]; rfl, h⟩
    · apply hreject
      · rw [MemoryState.installation, hm, Option.filter_some, if_neg]
        simpa using hlive
      · intro j hok
        obtain ⟨-, r', hr, hrevoked, hle, -⟩ := Tables.installation_spec.mp hok
        rw [hs] at hr
        cases hr
        rw [hrow.expires] at hle
        exact hlive ⟨hrow.revoked.mp hrevoked, seconds_le.mp hle⟩

theorem owner_unique (h : Agree m s) {id owner : Uuid} {i : Installation}
    (hi : m.installations.lookup id = some i)
    (howner : m.tokenOwners.lookup (i.profile, i.tokenFingerprint) = some owner) : owner = id := by
  have hown := (h.tokenOwners (i.profile, i.tokenFingerprint) id).mpr ⟨i, hi, rfl⟩
  rw [hown] at howner
  exact (Option.some.inj howner).symm

theorem advanceAssertionCounter (h : Agree m s) {id : Uuid} {previous next : UInt32}
    (dbNow : DateTime) :
    Alike m (m.call (.advanceAssertionCounter id previous next))
      (s.call dbNow (.advanceAssertionCounter id previous next)) := by
  by_cases hle : next ≤ previous
  · apply Alike.reject
    · rw [MemoryState.advanceAssertionCounter, if_pos hle]
    · intro s' hok
      obtain ⟨hlt, -⟩ := Tables.advanceAssertionCounter_spec.mp hok
      exact UInt32.not_le.mpr hlt hle
  have hlt : previous < next := UInt32.not_le.mp hle
  rcases h.installations.lookup_cases (k := id) rfl with ⟨hm, hs⟩ | ⟨i, r, hm, hs, hrow⟩
  · apply Alike.reject
    · rw [MemoryState.advanceAssertionCounter, if_neg hle, hm]
    · intro s' hok
      obtain ⟨-, hok⟩ := Tables.advanceAssertionCounter_spec.mp hok
      obtain ⟨r, hr, -⟩ := Tables.updateInstallation_spec.mp hok
      rw [hs] at hr
      cases hr
  · have hcounter : r.assertionCounter = previous.toNat ↔ i.assertionCounter = previous := by
      rw [hrow.counter, Nat.cast_inj, UInt32.toNat_inj]
    by_cases hcur : i.revoked = false ∧ i.assertionCounter = previous
    · have hmem : m.advanceAssertionCounter id previous next = (.ok (), { m with
          installations :=
            AList.insert id { i with assertionCounter := next } m.installations }) := by
        rw [MemoryState.advanceAssertionCounter, if_neg hle, hm]
        simp only [hcur.1, hcur.2, Bool.false_eq_true, ne_eq, not_true_eq_false, or_self, if_false]
      have hcheck : { r with assertionCounter := next.toNat }.Check := by
        obtain ⟨h₁, h₂, h₃, h₄, -, -, h₅⟩ := hrow.check
        have hnext := next.toNat_lt
        exact ⟨h₁, h₂, h₃, h₄, by simp, by simp; omega, h₅⟩
      refine Alike.accept _ hmem (Tables.advanceAssertionCounter_spec.mpr
        ⟨hlt, Tables.updateInstallation_spec.mpr ⟨r, hs, ?_, hcheck, ?_, rfl⟩⟩) ?_
      · simp [hcounter.mpr hcur.2, hrow.revoked.mpr hcur.1]
      · change s.tokenTaken id r.appProfile r.tokenFingerprint = false
        rw [hrow.profile, hrow.fingerprint, h.tokenTaken_eq_false_iff]
        exact fun owner howner ↦ h.owner_unique hm howner
      · exact h.updateInstallation hm { hrow with counter := rfl, check := hcheck } rfl rfl rfl
    · apply Alike.reject
      · rw [MemoryState.advanceAssertionCounter, if_neg hle, hm]
        have hor : i.revoked = true ∨ i.assertionCounter ≠ previous := by
          by_contra hno
          push Not at hno
          exact hcur ⟨by simpa using hno.1, hno.2⟩
        simp only [hor, if_true]
      · intro s' hok
        obtain ⟨-, hok⟩ := Tables.advanceAssertionCounter_spec.mp hok
        obtain ⟨r', hr, hp, -⟩ := Tables.updateInstallation_spec.mp hok
        rw [hs] at hr
        cases hr
        simp only [Bool.and_eq_true, decide_eq_true_eq, Option.isNone_iff_eq_none] at hp
        exact hcur ⟨hrow.revoked.mp hp.2, hcounter.mp hp.1⟩

/-- The rows that an epoch-guarded update selects are the installations the reference changes. -/
theorem guard_iff {i : Installation} {r : InstallationRow} (hrow : InstallationRow.Matches i r)
    {expected : ℤ} : (decide (r.endpointEpoch = expected) && r.revokedAt.isNone) = true ↔
      ¬(i.revoked = true ∨ i.endpointEpoch ≠ expected) := by
  rw [Bool.and_eq_true, decide_eq_true_eq, Option.isNone_iff_eq_none, hrow.revoked, hrow.epoch]
  constructor
  · rintro ⟨hepoch, hrevoked⟩ (htrue | hne)
    · rw [hrevoked] at htrue
      cases htrue
    · exact hne hepoch
  · intro hnot
    push Not at hnot
    exact ⟨hnot.2, by simpa using hnot.1⟩

theorem guarded_of_ok (h : Agree m s) {id : Uuid} {i : Installation} {s' : Tables} {expected : ℤ}
    {f : InstallationRow → InstallationRow} (hi : m.installations.lookup id = some i)
    (hok : s.updateInstallation id
      (fun r ↦ r.endpointEpoch = expected && r.revokedAt.isNone) f = .ok s') :
    ¬(i.revoked = true ∨ i.endpointEpoch ≠ expected) ∧
      ∃ r, InstallationRow.Matches i r ∧
        s.tokenTaken id (f r).appProfile (f r).tokenFingerprint = false := by
  obtain ⟨r, hr, hp, -, htoken, -⟩ := Tables.updateInstallation_spec.mp hok
  obtain ⟨r', hr', hrow⟩ := h.installations.exists_right rfl hi
  rw [hr'] at hr
  cases hr
  exact ⟨(guard_iff hrow).mp hp, r, hrow, htoken⟩

theorem not_updated_of_none (h : Agree m s) {id : Uuid} {s' : Tables}
    {p : InstallationRow → Bool} {f : InstallationRow → InstallationRow}
    (hi : m.installations.lookup id = none) : s.updateInstallation id p f ≠ .ok s' := by
  intro hok
  obtain ⟨r, hr, -⟩ := Tables.updateInstallation_spec.mp hok
  obtain ⟨i, hi', -⟩ := h.installations.exists_left rfl hr
  rw [hi] at hi'
  cases hi'

theorem rotateEndpoint (h : Agree m s) {id : Uuid} {expected new : ℤ} {ciphertext : List UInt8}
    {fingerprint : Bytes32} (hlen : 1 ≤ ciphertext.length ∧ ciphertext.length ≤ 2048)
    (dbNow : DateTime) :
    Alike m (m.call (.rotateEndpoint id expected new ciphertext fingerprint))
      (s.call dbNow (.rotateEndpoint id expected new ciphertext fingerprint)) := by
  by_cases hnext : IsNextEpoch expected new
  swap
  · apply Alike.reject
    · rw [MemoryState.rotateEndpoint, if_pos hnext]
    · intro s' hok
      exact hnext (Tables.rotateEndpoint_spec.mp hok).1
  cases hi : m.installations.lookup id with
  | none =>
    apply Alike.reject
    · rw [MemoryState.rotateEndpoint, if_neg (not_not.mpr hnext), hi]
    · intro s' hok
      exact h.not_updated_of_none hi (Tables.rotateEndpoint_spec.mp hok).2
  | some i =>
  by_cases hguard : i.revoked = true ∨ i.endpointEpoch ≠ expected
  · apply Alike.reject
    · rw [MemoryState.rotateEndpoint, if_neg (not_not.mpr hnext), hi]
      simp only [hguard, if_true]
    · intro s' hok
      exact (h.guarded_of_ok hi (Tables.rotateEndpoint_spec.mp hok).2).1 hguard
  by_cases howner : (m.tokenOwners.lookup (i.profile, fingerprint)).any (· ≠ id) = true
  · apply Alike.reject
    · rw [MemoryState.rotateEndpoint, if_neg (not_not.mpr hnext), hi]
      simp only [hguard, if_false, howner, if_true]
    · intro s' hok
      obtain ⟨-, r, hrow, htoken⟩ := h.guarded_of_ok hi (Tables.rotateEndpoint_spec.mp hok).2
      change s.tokenTaken id r.appProfile fingerprint.val = false at htoken
      rw [hrow.profile, h.tokenTaken_eq_false_iff] at htoken
      obtain ⟨owner, hlookup, hne⟩ := Option.any_eq_true .. |>.mp howner
      exact (of_decide_eq_true hne) (htoken owner hlookup)
  · have hfree : ∀ owner, m.tokenOwners.lookup (i.profile, fingerprint) = some owner →
        owner = id := by
      intro owner hlookup
      by_contra hne
      exact howner ((Option.any_eq_true ..).mpr ⟨owner, hlookup, decide_eq_true hne⟩)
    obtain ⟨r, hr, hrow⟩ := h.installations.exists_right rfl hi
    have hold := (h.tokenOwners (i.profile, i.tokenFingerprint) id).mpr ⟨i, hi, rfl⟩
    have hcheck : { r with
        endpointEpoch := new, tokenCiphertext := ciphertext,
        tokenFingerprint := fingerprint.val }.Check := by
      obtain ⟨h₁, h₂, h₃, h₄, h₅, h₆, h₇, -, -, -, hepoch⟩ := hrow.check
      have hcur : r.endpointEpoch = expected := by
        rw [hrow.epoch]
        by_contra hne
        exact hguard (.inr hne)
      have hnew := (isNextEpoch_iff.mp hnext).1
      exact ⟨h₁, h₂, h₃, h₄, h₅, h₆, h₇, hlen.1, hlen.2, fingerprint.property, by
        change 0 < new
        omega⟩
    refine Alike.accept _ (by
      rw [MemoryState.rotateEndpoint, if_neg (not_not.mpr hnext), hi]
      simp only [hguard, if_false, howner]
      rfl) (Tables.rotateEndpoint_spec.mpr ⟨hnext, Tables.updateInstallation_spec.mpr
        ⟨r, hr, (guard_iff hrow).mpr hguard, hcheck, ?_, rfl⟩⟩) ?_
    · change s.tokenTaken id r.appProfile fingerprint.val = false
      rw [hrow.profile, h.tokenTaken_eq_false_iff]
      exact hfree
    · refine { h with
        installations := h.installations.insert biUnique_eq rfl { hrow with
          epoch := rfl, ciphertext := rfl, fingerprint := rfl, check := hcheck }
        installationIds := ?_
        tokenOwners := ?_ }
      · intro id' j hj
        rw [Map.lookup_insert_eq] at hj
        split at hj
        · next heq =>
          cases hj
          rw [heq]
          exact h.installationIds id i hi
        · exact h.installationIds id' j hj
      · intro key owner
        rw [Map.lookup_insert_eq, Map.lookup_insert_eq, Map.lookup_erase_eq]
        by_cases howned : owner = id
        · subst howned
          rw [if_pos rfl]
          simp only [Option.some.injEq, exists_eq_left']
          by_cases hkey : key = (i.profile, fingerprint)
          · rw [if_pos hkey, hkey]
            exact iff_of_true rfl rfl
          · rw [if_neg hkey]
            refine iff_of_false ?_ (fun heq ↦ hkey heq.symm)
            by_cases hkeyold : key = (i.profile, i.tokenFingerprint)
            · rw [if_pos hkeyold]
              nofun
            · rw [if_neg hkeyold, h.tokenOwners]
              rintro ⟨j, hj, heq⟩
              rw [hi] at hj
              cases hj
              exact hkeyold heq.symm
        · rw [if_neg howned]
          by_cases hkey : key = (i.profile, fingerprint)
          · rw [if_pos hkey, hkey]
            refine iff_of_false (fun heq ↦ howned (Option.some.inj heq).symm) ?_
            rw [← h.tokenOwners]
            exact fun hlookup ↦ howned (hfree owner hlookup)
          · rw [if_neg hkey]
            by_cases hkeyold : key = (i.profile, i.tokenFingerprint)
            · rw [if_pos hkeyold, hkeyold, ← h.tokenOwners, hold]
              exact iff_of_false nofun fun heq ↦ howned (Option.some.inj heq).symm
            · rw [if_neg hkeyold]
              exact h.tokenOwners key owner

theorem revokeInstallation (h : Agree m s) {id : Uuid} {expected new : ℤ} (dbNow : DateTime) :
    Alike m (m.call (.revokeInstallation id expected new))
      (s.call dbNow (.revokeInstallation id expected new)) := by
  by_cases hnext : IsNextEpoch expected new
  swap
  · apply Alike.reject
    · rw [MemoryState.revokeInstallation, if_pos hnext]
    · intro s' hok
      exact hnext (Tables.revokeInstallation_spec.mp hok).1
  cases hi : m.installations.lookup id with
  | none =>
    apply Alike.reject
    · rw [MemoryState.revokeInstallation, if_neg (not_not.mpr hnext), hi]
    · intro s' hok
      exact h.not_updated_of_none hi (Tables.revokeInstallation_spec.mp hok).2
  | some i =>
  by_cases hguard : i.revoked = true ∨ i.endpointEpoch ≠ expected
  · apply Alike.reject
    · rw [MemoryState.revokeInstallation, if_neg (not_not.mpr hnext), hi]
      simp only [hguard, if_true]
    · intro s' hok
      exact (h.guarded_of_ok hi (Tables.revokeInstallation_spec.mp hok).2).1 hguard
  · obtain ⟨r, hr, hrow⟩ := h.installations.exists_right rfl hi
    have hcheck : { r with endpointEpoch := new, revokedAt := some dbNow }.Check := by
      obtain ⟨h₁, h₂, h₃, h₄, h₅, h₆, h₇, h₈, h₉, h₁₀, hepoch⟩ := hrow.check
      have hcur : r.endpointEpoch = expected := by
        rw [hrow.epoch]
        by_contra hne
        exact hguard (.inr hne)
      have hnew := (isNextEpoch_iff.mp hnext).1
      exact ⟨h₁, h₂, h₃, h₄, h₅, h₆, h₇, h₈, h₉, h₁₀, by
        change 0 < new
        omega⟩
    refine Alike.accept _ (by
      rw [MemoryState.revokeInstallation, if_neg (not_not.mpr hnext), hi]
      simp only [hguard, if_false]
      rfl) (Tables.revokeInstallation_spec.mpr ⟨hnext, Tables.updateInstallation_spec.mpr
        ⟨r, hr, (guard_iff hrow).mpr hguard, hcheck, ?_, rfl⟩⟩) ?_
    · change s.tokenTaken id r.appProfile r.tokenFingerprint = false
      rw [hrow.profile, hrow.fingerprint, h.tokenTaken_eq_false_iff]
      exact fun owner howner ↦ h.owner_unique hi howner
    · exact h.updateInstallation hi { hrow with
        epoch := rfl, revoked := iff_of_false nofun nofun, check := hcheck } rfl rfl rfl

end Agree

end Buzz.Gateway
