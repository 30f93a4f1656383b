import Buzz.Gateway.Fencing

namespace Buzz.Gateway

open Buzz.Lib Buzz.Nostr

namespace Authority

variable {w w' : Authority}

theorem installationFree_iff {id : Uuid} : w.installationFree id = true ↔
    ∀ t p, w.txs.lookup t = some p → p.installationLock ≠ some id := by
  rw [installationFree, List.all_eq_true]
  constructor
  · intro h t p hp
    exact of_decide_eq_true (h ⟨t, p⟩ (Map.mem_entries_iff.mpr hp))
  · intro h e he
    exact decide_eq_true (h e.1 e.2 (Map.mem_entries_iff.mp he))

theorem delegationFree_iff {key : Uuid × List UInt8} : w.delegationFree key = true ↔
    ∀ t p, w.txs.lookup t = some p → p.delegationLock ≠ some key := by
  rw [delegationFree, List.all_eq_true]
  constructor
  · intro h t p hp
    exact of_decide_eq_true (h ⟨t, p⟩ (Map.mem_entries_iff.mpr hp))
  · intro h e he
    exact decide_eq_true (h e.1 e.2 (Map.mem_entries_iff.mp he))

theorem freshInstallation_create {n : NewInstallation}
    (h : w.freshInstallation (.createInstallation n) = true) (e : ℤ) : (n.id, e) ∉ w.installed := by
  intro hmem
  obtain ⟨c, hc⟩ := Option.isSome_iff_exists.mp (AList.lookup_isSome.mpr hmem)
  rw [freshInstallation, List.all_eq_true] at h
  exact of_decide_eq_true (h _ (Map.mem_entries_iff.mpr hc)) rfl

inductive Advance (id : Uuid) (installed : Map (Uuid × ℤ) (List UInt8)) (r r' : InstallationRow) :
    Map (Uuid × ℤ) (List UInt8) → Prop
  | count (hepoch : r'.endpointEpoch = r.endpointEpoch)
      (hciphertext : r'.tokenCiphertext = r.tokenCiphertext) (hlive : r'.revokedAt = none) :
      Advance id installed r r' installed
  | rotate (hepoch : r'.endpointEpoch = r.endpointEpoch + 1) (hlive : r'.revokedAt = none) :
      Advance id installed r r'
        (AList.insert (id, r.endpointEpoch + 1) r'.tokenCiphertext installed)
  | revoke (hepoch : r'.endpointEpoch = r.endpointEpoch + 1) (hrevoked : r'.revokedAt ≠ none) :
      Advance id installed r r' installed

inductive Change (w w' : Authority) : Prop
  | same (hi : w'.tables.installations = w.tables.installations)
      (hd : w'.tables.delegations = w.tables.delegations) (hissued : w'.issued = w.issued)
      (hinstalled : w'.installed = w.installed)
  | enroll (n : NewInstallation) (hfresh : ∀ e, (n.id, e) ∉ w.installed)
      (hi : w'.tables.installations = AList.insert n.id (Tables.newRow n) w.tables.installations)
      (hd : w'.tables.delegations = w.tables.delegations) (hissued : w'.issued = w.issued)
      (hinstalled :
        w'.installed = AList.insert (n.id, n.endpointEpoch) n.tokenCiphertext w.installed)
  | update (id : Uuid) (r r' : InstallationRow) (hr : w.tables.installations.lookup id = some r)
      (hlive : r.revokedAt = none) (hfree : w.installationFree id = true)
      (hadvance : Advance id w.installed r r' w'.installed)
      (hi : w'.tables.installations = AList.insert id r' w.tables.installations)
      (hd : w'.tables.delegations = w.tables.delegations) (hissued : w'.issued = w.issued)
  | delegate (d : Delegation) (relay : List UInt8) (hrelay : hexDecode d.relayPubkey = some relay)
      (hfresh : d.id ∉ w.issued) (hfree : w.delegationFree (d.installationId, relay) = true)
      (hcurrent : ∃ t i, w.txs.lookup t = some (.delegable d i))
      (hnewer : ∀ old, w.tables.delegations.lookup (d.installationId, relay) = some old →
        old.generation < d.generation)
      (hi : w'.tables.installations = w.tables.installations)
      (hd : w'.tables.delegations =
        AList.insert (d.installationId, relay) (Tables.delegationRow d) w.tables.delegations)
      (hissued : w'.issued =
        AList.insert d.id ((d.installationId, relay), d.endpointEpoch) w.issued)
      (hinstalled : w'.installed = w.installed)
  | revoke (key : Uuid × List UInt8) (r : DelegationRow) (generation : ℤ) (dbNow : DateTime)
      (hr : w.tables.delegations.lookup key = some r) (hnewer : r.generation < generation)
      (hfree : w.delegationFree key = true)
      (hi : w'.tables.installations = w.tables.installations)
      (hd : w'.tables.delegations =
        AList.insert key (Tables.revokedRow r generation dbNow) w.tables.delegations)
      (hissued : w'.issued = w.issued) (hinstalled : w'.installed = w.installed)
  | reap (hi : ∀ id r, w'.tables.installations.lookup id = some r →
        w.tables.installations.lookup id = some r)
      (hd : ∀ key r, w'.tables.delegations.lookup key = some r →
        w.tables.delegations.lookup key = some r)
      (hifree : ∀ id, id ∈ w.tables.installations → id ∉ w'.tables.installations →
        w.installationFree id = true)
      (hdfree : ∀ key, key ∈ w.tables.delegations → key ∉ w'.tables.delegations →
        w.delegationFree key = true)
      (hissued : w'.issued = w.issued) (hinstalled : w'.installed = w.installed)

theorem change_of_call {c : Call} {dbNow : DateTime} (hc : oneStatement c = true)
    (h : w.call c dbNow = some w') : Change w w' ∧ w'.txs = w.txs ∧ w'.permits = w.permits := by
  rw [Authority.call, Option.ite_none_right_eq_some] at h
  obtain ⟨⟨hifree, hdfree, hfresh⟩, h⟩ := h
  cases hok : w.tables.call dbNow c with
  | error err =>
    rw [hok] at h
    cases h
    exact ⟨.same rfl rfl rfl rfl, rfl, rfl⟩
  | ok res =>
    obtain ⟨answer, tables⟩ := res
    rw [hok] at h
    cases h
    refine ⟨?_, rfl, rfl⟩
    cases c with
    | authorizeDelivery a => cases hc
    | upsertDelegation d => cases hc
    | putChallenge c =>
      obtain ⟨-, -, rfl⟩ := Tables.putChallenge_spec.mp (Tables.done_eq_ok.mp hok).1
      exact .same rfl rfl rfl rfl
    | consumeChallenge id value now =>
      obtain ⟨-, -, rfl⟩ := Tables.consumeChallenge_spec.mp (Tables.done_eq_ok.mp hok).1
      exact .same rfl rfl rfl rfl
    | createInstallation n =>
      obtain ⟨-, -, -, -, -, rfl⟩ := Tables.createInstallation_spec.mp (Tables.done_eq_ok.mp hok).1
      exact .enroll n (freshInstallation_create hfresh) rfl rfl rfl rfl
    | installation id now =>
      simp only [Tables.call, map_eq_ok, Prod.mk.injEq] at hok
      obtain ⟨i, -, -, rfl⟩ := hok
      exact .same rfl rfl rfl rfl
    | advanceAssertionCounter id previous next =>
      obtain ⟨-, hok⟩ := Tables.advanceAssertionCounter_spec.mp (Tables.done_eq_ok.mp hok).1
      obtain ⟨r, hr, hp, -, -, rfl⟩ := Tables.updateInstallation_spec.mp hok
      rw [Bool.and_eq_true, Option.isNone_iff_eq_none] at hp
      exact .update id r { r with assertionCounter := next.toNat } hr hp.2 hifree
        (.count rfl rfl hp.2) rfl rfl rfl
    | rotateEndpoint id expected new ciphertext fingerprint =>
      obtain ⟨hnext, hok⟩ := Tables.rotateEndpoint_spec.mp (Tables.done_eq_ok.mp hok).1
      obtain ⟨r, hr, hp, -, -, rfl⟩ := Tables.updateInstallation_spec.mp hok
      rw [Bool.and_eq_true, decide_eq_true_eq, Option.isNone_iff_eq_none] at hp
      obtain ⟨rfl, -⟩ := isNextEpoch_iff.mp hnext
      obtain ⟨rfl, hlive⟩ := hp
      exact .update id r
        { r with
          endpointEpoch := r.endpointEpoch + 1, tokenCiphertext := ciphertext,
          tokenFingerprint := fingerprint.val }
        hr hlive hifree (.rotate rfl hlive) rfl rfl rfl
    | revokeDelegation id relay generation =>
      obtain ⟨bytes, r, hbytes, hr, hlt, -, rfl⟩ :=
        Tables.revokeDelegation_spec.mp (Tables.done_eq_ok.mp hok).1
      have hfree : w.delegationFree (id, bytes) = true := by
        simpa [updatedDelegation, hbytes] using hdfree
      exact .revoke (id, bytes) r generation dbNow hr hlt hfree rfl rfl rfl rfl
    | revokeInstallation id expected new =>
      obtain ⟨hnext, hok⟩ := Tables.revokeInstallation_spec.mp (Tables.done_eq_ok.mp hok).1
      obtain ⟨r, hr, hp, -, -, rfl⟩ := Tables.updateInstallation_spec.mp hok
      rw [Bool.and_eq_true, decide_eq_true_eq, Option.isNone_iff_eq_none] at hp
      obtain ⟨rfl, -⟩ := isNextEpoch_iff.mp hnext
      obtain ⟨rfl, hlive⟩ := hp
      exact .update id r { r with endpointEpoch := r.endpointEpoch + 1, revokedAt := some dbNow }
        hr hlive hifree (.revoke rfl fun h ↦ (by cases h)) rfl rfl rfl
    | finishDelivery permit disposition =>
      obtain ⟨-, rfl⟩ | ⟨-, relay, -, rfl⟩ :=
        Tables.finishDelivery_spec (Tables.done_eq_ok.mp hok).1
      · exact .same rfl rfl rfl rfl
      · exact .same rfl rfl rfl rfl

theorem change_of_reap {now : ℤ} (h : w.reap now = some w') :
    Change w w' ∧ w'.txs = w.txs ∧ w'.permits = w.permits := by
  rw [Authority.reap] at h
  cases hok : w.tables.reapExpired now with
  | error err =>
    rw [hok] at h
    cases h
    exact ⟨.same rfl rfl rfl rfl, rfl, rfl⟩
  | ok tables =>
    simp only [hok, Option.ite_none_right_eq_some, Option.some.injEq] at h
    obtain ⟨⟨hifree, hdfree⟩, rfl⟩ := h
    simp only [Tables.reapExpired, bind_eq_ok, bindAt_eq_ok] at hok
    obtain ⟨-, ⟨-, rfl⟩, hok⟩ := hok
    cases hok
    refine ⟨.reap ?_ ?_ ?_ ?_ rfl rfl, rfl, rfl⟩
    · intro id r hr
      rw [Map.lookup_keepEntries, Option.filter_eq_some_iff] at hr
      exact hr.1
    · intro key r hr
      rw [Map.lookup_keepEntries, Option.filter_eq_some_iff] at hr
      exact hr.1
    · intro id hid hgone
      obtain ⟨r, hr⟩ := Option.isSome_iff_exists.mp (AList.lookup_isSome.mpr hid)
      exact hifree ⟨id, r⟩ (Map.mem_entries_iff.mpr hr) hgone
    · intro key hkey hgone
      obtain ⟨r, hr⟩ := Option.isSome_iff_exists.mp (AList.lookup_isSome.mpr hkey)
      exact hdfree ⟨key, r⟩ (Map.mem_entries_iff.mpr hr) hgone

/-- What an open transaction has found and holds. -/
def Sound (w : Authority) : Phase → Prop
  | .resolved a _ id => ∃ relay e, w.issued.lookup a.delegationId = some ((id, relay), e)
  | .lockedInstallation a _ id i =>
    (∃ relay e, w.issued.lookup a.delegationId = some ((id, relay), e)) ∧
      w.tables.installations.lookup id = some i ∧ Tables.admitsInstallation a i = .ok ()
  | .lockedDelegation a _ id i key d =>
    id = key.1 ∧ w.tables.installations.lookup id = some i ∧
      Tables.admitsInstallation a i = .ok () ∧ w.tables.delegations.lookup key = some d ∧
      Tables.Carries a key d
  | .delegable d i =>
    w.tables.installations.lookup d.installationId = some i ∧ i.endpointEpoch = d.endpointEpoch
  | _ => True

structure Inv (w : Authority) : Prop where
  sound : ∀ t p, w.txs.lookup t = some p → w.Sound p
  rows : ∀ key r, w.tables.delegations.lookup key = some r →
    w.issued.lookup r.id = some (key, r.endpointEpoch)
  issuedEpoch : ∀ did key e, w.issued.lookup did = some (key, e) →
    (∃ e', (key.1, e') ∈ w.installed) ∧
      ∀ i, w.tables.installations.lookup key.1 = some i → e ≤ i.endpointEpoch
  known : ∀ id i, w.tables.installations.lookup id = some i → ∃ e, (id, e) ∈ w.installed
  current : ∀ id i, w.tables.installations.lookup id = some i → i.revokedAt = none →
    w.installed.lookup (id, i.endpointEpoch) = some i.tokenCiphertext
  installedEpoch : ∀ id e, (id, e) ∈ w.installed → ∀ i,
    w.tables.installations.lookup id = some i → e ≤ i.endpointEpoch

theorem Inv.empty : Inv empty where
  sound := by simp [Authority.empty]
  rows := by simp [Authority.empty, Tables.empty]
  issuedEpoch := by simp [Authority.empty]
  known := by simp [Authority.empty, Tables.empty]
  current := by simp [Authority.empty, Tables.empty]
  installedEpoch := by simp [Authority.empty]

theorem issued_mono (h : Change w w') {did : Uuid} {g : (Uuid × List UInt8) × ℤ}
    (hg : w.issued.lookup did = some g) : w'.issued.lookup did = some g := by
  cases h with
  | same _ _ hissued _ => rw [hissued, hg]
  | enroll n _ _ _ hissued _ => rw [hissued, hg]
  | update id r r' _ _ _ _ _ _ hissued => rw [hissued, hg]
  | revoke key r generation dbNow _ _ _ _ _ hissued _ => rw [hissued, hg]
  | reap _ _ _ _ hissued _ => rw [hissued, hg]
  | delegate d relay _ hfresh _ _ _ _ _ hissued _ =>
    have hne : did ≠ d.id := by
      rintro rfl
      exact hfresh (AList.lookup_isSome.mp (hg ▸ rfl))
    rw [hissued, AList.lookup_insert_ne hne, hg]

theorem installation_kept (h : Change w w') {id : Uuid} {i : InstallationRow}
    (hi : w.tables.installations.lookup id = some i) (hknown : ∃ e, (id, e) ∈ w.installed)
    (hlocked : w.installationFree id = false) : w'.tables.installations.lookup id = some i := by
  cases h with
  | same hsame _ _ _ => rw [hsame, hi]
  | enroll n hfresh hinsert _ _ _ =>
    have hne : id ≠ n.id := by
      rintro rfl
      obtain ⟨e, he⟩ := hknown
      exact hfresh e he
    rw [hinsert, AList.lookup_insert_ne hne, hi]
  | update id' r r' _ _ hfree _ hinsert _ _ =>
    have hne : id ≠ id' := by
      rintro rfl
      rw [hlocked] at hfree
      cases hfree
    rw [hinsert, AList.lookup_insert_ne hne, hi]
  | delegate d relay _ _ _ _ _ hsame _ _ _ => rw [hsame, hi]
  | revoke key r generation dbNow _ _ _ hsame _ _ _ => rw [hsame, hi]
  | reap hsub _ hifree _ _ _ =>
    by_cases hmem : id ∈ w'.tables.installations
    · obtain ⟨i', hi'⟩ := Option.isSome_iff_exists.mp (AList.lookup_isSome.mpr hmem)
      rw [hi', ← hsub id i' hi', hi]
    · have hfree := hifree id (AList.lookup_isSome.mp (hi ▸ rfl)) hmem
      rw [hlocked] at hfree
      cases hfree

theorem delegation_kept (h : Change w w') {key : Uuid × List UInt8} {d : DelegationRow}
    (hd : w.tables.delegations.lookup key = some d) (hlocked : w.delegationFree key = false) :
    w'.tables.delegations.lookup key = some d := by
  cases h with
  | same _ hsame _ _ => rw [hsame, hd]
  | enroll n _ _ hsame _ _ => rw [hsame, hd]
  | update id r r' _ _ _ _ _ hsame _ => rw [hsame, hd]
  | delegate d' relay _ _ hfree _ _ _ hinsert _ _ =>
    have hne : key ≠ (d'.installationId, relay) := by
      rintro rfl
      rw [hlocked] at hfree
      cases hfree
    rw [hinsert, AList.lookup_insert_ne hne, hd]
  | revoke key' r generation dbNow _ _ hfree _ hinsert _ _ =>
    have hne : key ≠ key' := by
      rintro rfl
      rw [hlocked] at hfree
      cases hfree
    rw [hinsert, AList.lookup_insert_ne hne, hd]
  | reap _ hsub _ hdfree _ _ =>
    by_cases hmem : key ∈ w'.tables.delegations
    · obtain ⟨d', hd'⟩ := Option.isSome_iff_exists.mp (AList.lookup_isSome.mpr hmem)
      rw [hd', ← hsub key d' hd', hd]
    · have hfree := hdfree key (AList.lookup_isSome.mp (hd ▸ rfl)) hmem
      rw [hlocked] at hfree
      cases hfree

theorem installationFree_eq_false {t : ℕ} {p : Phase} {id : Uuid} (ht : w.txs.lookup t = some p)
    (hp : p.installationLock = some id) : w.installationFree id = false := by
  rw [← Bool.not_eq_true, installationFree_iff]
  exact fun hfree ↦ hfree t p ht hp

theorem delegationFree_eq_false {t : ℕ} {p : Phase} {key : Uuid × List UInt8}
    (ht : w.txs.lookup t = some p) (hp : p.delegationLock = some key) :
    w.delegationFree key = false := by
  rw [← Bool.not_eq_true, delegationFree_iff]
  exact fun hfree ↦ hfree t p ht hp

/-- What the other transactions hold, a step leaves to them. -/
theorem Inv.sound_kept (h : Inv w) (hchange : Change w w') {t : ℕ} {p : Phase}
    (ht : w.txs.lookup t = some p) : w'.Sound p := by
  have hp := h.sound t p ht
  cases p with
  | authorizing a dbNow => trivial
  | upserting d => trivial
  | resolved a dbNow id =>
    obtain ⟨relay, e, hissued⟩ := hp
    exact ⟨relay, e, issued_mono hchange hissued⟩
  | lockedInstallation a dbNow id i =>
    obtain ⟨⟨relay, e, hissued⟩, hi, hadmits⟩ := hp
    exact ⟨⟨relay, e, issued_mono hchange hissued⟩,
      installation_kept hchange hi (h.known id i hi) (installationFree_eq_false ht rfl), hadmits⟩
  | lockedDelegation a dbNow id i key d =>
    obtain ⟨hid, hi, hadmits, hd, hcarries⟩ := hp
    exact ⟨hid, installation_kept hchange hi (h.known id i hi) (installationFree_eq_false ht rfl),
      hadmits, delegation_kept hchange hd (delegationFree_eq_false ht rfl), hcarries⟩
  | delegable d i =>
    obtain ⟨hi, hepoch⟩ := hp
    exact ⟨installation_kept hchange hi (h.known _ i hi) (installationFree_eq_false ht rfl), hepoch⟩

theorem installed_mono {id : Uuid} {r r' : InstallationRow}
    {installed installed' : Map (Uuid × ℤ) (List UInt8)} (h : Advance id installed r r' installed')
    {k : Uuid × ℤ} (hk : k ∈ installed) : k ∈ installed' := by
  cases h with
  | count => exact hk
  | rotate => exact AList.mem_insert _ |>.mpr (.inr hk)
  | revoke => exact hk

/-- The epoch of an installation never goes back, and no installation comes back. -/
theorem epoch_mono (hchange : Change w w') {id : Uuid} {e : ℤ} (hknown : ∃ e', (id, e') ∈ w.installed)
    (hle : ∀ i, w.tables.installations.lookup id = some i → e ≤ i.endpointEpoch) :
    (∃ e', (id, e') ∈ w'.installed) ∧
      ∀ i, w'.tables.installations.lookup id = some i → e ≤ i.endpointEpoch := by
  obtain ⟨e', he'⟩ := hknown
  cases hchange with
  | same hi _ _ hinstalled => exact ⟨⟨e', hinstalled ▸ he'⟩, hi ▸ hle⟩
  | delegate d relay _ _ _ _ _ hi _ _ hinstalled => exact ⟨⟨e', hinstalled ▸ he'⟩, hi ▸ hle⟩
  | revoke key r generation dbNow _ _ _ hi _ _ hinstalled =>
    exact ⟨⟨e', hinstalled ▸ he'⟩, hi ▸ hle⟩
  | reap hsub _ _ _ _ hinstalled =>
    exact ⟨⟨e', hinstalled ▸ he'⟩, fun i hi ↦ hle i (hsub id i hi)⟩
  | enroll n hfresh hi _ _ hinstalled =>
    have hne : id ≠ n.id := by
      rintro rfl
      exact hfresh e' he'
    refine ⟨⟨e', ?_⟩, fun i hlookup ↦ hle i ?_⟩
    · rw [hinstalled, AList.mem_insert]
      exact .inr he'
    · rwa [hi, AList.lookup_insert_ne hne] at hlookup
  | update id' r r' hr _ _ hadvance hi _ _ =>
    constructor
    · exact ⟨e', installed_mono hadvance he'⟩
    · intro i hlookup
      rw [hi, Map.lookup_insert_eq] at hlookup
      split at hlookup
      · next heq =>
        subst heq
        cases hlookup
        have hold := hle r hr
        generalize w'.installed = installed' at hadvance
        cases hadvance with
        | count hepoch => omega
        | rotate hepoch => omega
        | revoke hepoch => omega
      · exact hle i hlookup

theorem Inv.change (h : Inv w) (hchange : Change w w')
    (hsound : ∀ t p, w'.txs.lookup t = some p → w'.Sound p) : Inv w' where
  sound := hsound
  rows := by
    intro key r hr
    cases hchange with
    | same _ hd hissued _ => exact hissued ▸ h.rows key r (hd ▸ hr)
    | enroll n _ _ hd hissued _ => exact hissued ▸ h.rows key r (hd ▸ hr)
    | update id r₁ r₂ _ _ _ _ _ hd hissued => exact hissued ▸ h.rows key r (hd ▸ hr)
    | reap _ hsub _ _ hissued _ => exact hissued ▸ h.rows key r (hsub key r hr)
    | revoke key' r' generation dbNow hr' _ _ _ hd hissued _ =>
      rw [hd, Map.lookup_insert_eq] at hr
      rw [hissued]
      split at hr
      · next heq =>
        cases hr
        rw [heq]
        exact h.rows key' r' hr'
      · exact h.rows key r hr
    | delegate d relay _ hfresh _ _ _ _ hd hissued _ =>
      rw [hd, Map.lookup_insert_eq] at hr
      rw [hissued, Map.lookup_insert_eq]
      split at hr
      · next heq =>
        cases hr
        rw [heq]
        exact if_pos rfl
      · have hrow := h.rows key r hr
        have hne : r.id ≠ d.id := by
          intro heq
          exact hfresh (AList.lookup_isSome.mp (heq ▸ hrow ▸ rfl))
        rw [if_neg hne]
        exact hrow
  issuedEpoch := by
    intro did key e hissued
    by_cases hold : w.issued.lookup did = some (key, e)
    · obtain ⟨hknown, hle⟩ := h.issuedEpoch did key e hold
      exact epoch_mono hchange hknown hle
    · cases hchange with
      | same _ _ heq _ => exact (hold (heq ▸ hissued)).elim
      | enroll n _ _ _ heq _ => exact (hold (heq ▸ hissued)).elim
      | update id r r' _ _ _ _ _ _ heq => exact (hold (heq ▸ hissued)).elim
      | revoke key r generation dbNow _ _ _ _ _ heq _ => exact (hold (heq ▸ hissued)).elim
      | reap _ _ _ _ heq _ => exact (hold (heq ▸ hissued)).elim
      | delegate d relay _ _ _ hcurrent _ hi _ heq hinstalled =>
        rw [heq, Map.lookup_insert_eq] at hissued
        split at hissued
        · cases hissued
          obtain ⟨t, i, ht⟩ := hcurrent
          obtain ⟨hlookup, hepoch⟩ := h.sound t _ ht
          rw [hinstalled, hi]
          refine ⟨h.known _ i hlookup, fun i' hi' ↦ ?_⟩
          rw [hlookup] at hi'
          cases hi'
          exact hepoch.ge
        · exact (hold hissued).elim
  known := by
    intro id i hlookup
    cases hchange with
    | same hi _ _ hinstalled => exact hinstalled ▸ h.known id i (hi ▸ hlookup)
    | delegate d relay _ _ _ _ _ hi _ _ hinstalled =>
      exact hinstalled ▸ h.known id i (hi ▸ hlookup)
    | revoke key r generation dbNow _ _ _ hi _ _ hinstalled =>
      exact hinstalled ▸ h.known id i (hi ▸ hlookup)
    | reap hsub _ _ _ _ hinstalled => exact hinstalled ▸ h.known id i (hsub id i hlookup)
    | enroll n _ hi _ _ hinstalled =>
      rw [hi, Map.lookup_insert_eq] at hlookup
      simp only [hinstalled, AList.mem_insert]
      split at hlookup
      · next heq => exact ⟨n.endpointEpoch, .inl (heq ▸ rfl)⟩
      · obtain ⟨e, he⟩ := h.known id i hlookup
        exact ⟨e, .inr he⟩
    | update id' r r' hr hlive hfree hadvance hi hd hissued =>
      have hold : ∃ e, (id, e) ∈ w.installed := by
        rw [hi, Map.lookup_insert_eq] at hlookup
        split at hlookup
        · next heq => exact heq ▸ h.known id' r hr
        · exact h.known id i hlookup
      obtain ⟨e, he⟩ := hold
      exact ⟨e, installed_mono hadvance he⟩
  current := by
    intro id i hlookup hlive
    cases hchange with
    | same hi _ _ hinstalled => exact hinstalled ▸ h.current id i (hi ▸ hlookup) hlive
    | delegate d relay _ _ _ _ _ hi _ _ hinstalled =>
      exact hinstalled ▸ h.current id i (hi ▸ hlookup) hlive
    | revoke key r generation dbNow _ _ _ hi _ _ hinstalled =>
      exact hinstalled ▸ h.current id i (hi ▸ hlookup) hlive
    | reap hsub _ _ _ _ hinstalled => exact hinstalled ▸ h.current id i (hsub id i hlookup) hlive
    | enroll n hfresh hi _ _ hinstalled =>
      rw [hi, Map.lookup_insert_eq] at hlookup
      rw [hinstalled, Map.lookup_insert_eq]
      split at hlookup
      · next heq =>
        cases hlookup
        rw [heq]
        exact if_pos rfl
      · next hne =>
        rw [if_neg fun heq ↦ hne (congrArg Prod.fst heq)]
        exact h.current id i hlookup hlive
    | update id' r r' hr hrlive _ hadvance hi _ _ =>
      rw [hi, Map.lookup_insert_eq] at hlookup
      split at hlookup
      · next heq =>
        subst heq
        cases hlookup
        have hcur := h.current id r hr hrlive
        generalize w'.installed = installed' at hadvance ⊢
        cases hadvance with
        | count hepoch hciphertext => rw [hepoch, hciphertext, hcur]
        | rotate hepoch => rw [hepoch, AList.lookup_insert]
        | revoke _ hrevoked => exact (hrevoked hlive).elim
      · next hne =>
        have hcur := h.current id i hlookup hlive
        generalize w'.installed = installed' at hadvance ⊢
        cases hadvance with
        | count => exact hcur
        | rotate => rwa [AList.lookup_insert_ne fun heq ↦ hne (congrArg Prod.fst heq)]
        | revoke => exact hcur
  installedEpoch := by
    intro id e hmem
    by_cases hold : (id, e) ∈ w.installed
    · exact (epoch_mono hchange ⟨e, hold⟩ (h.installedEpoch id e hold)).2
    · cases hchange with
      | same _ _ _ hinstalled => exact (hold (hinstalled ▸ hmem)).elim
      | delegate d relay _ _ _ _ _ _ _ _ hinstalled => exact (hold (hinstalled ▸ hmem)).elim
      | revoke key r generation dbNow _ _ _ _ _ _ hinstalled =>
        exact (hold (hinstalled ▸ hmem)).elim
      | reap _ _ _ _ _ hinstalled => exact (hold (hinstalled ▸ hmem)).elim
      | enroll n _ hi _ _ hinstalled =>
        rw [hinstalled, AList.mem_insert] at hmem
        rcases hmem with heq | hmem
        · obtain ⟨rfl, rfl⟩ := Prod.mk.inj heq
          intro i hlookup
          rw [hi, AList.lookup_insert] at hlookup
          cases hlookup
          exact le_rfl
        · exact (hold hmem).elim
      | update id' r r' hr _ _ hadvance hi _ _ =>
        generalize w'.installed = installed' at hadvance hmem
        cases hadvance with
        | count => exact (hold hmem).elim
        | revoke => exact (hold hmem).elim
        | rotate hepoch =>
          rw [AList.mem_insert] at hmem
          rcases hmem with heq | hmem
          · obtain ⟨rfl, rfl⟩ := Prod.mk.inj heq
            intro i hlookup
            rw [hi, AList.lookup_insert] at hlookup
            cases hlookup
            exact hepoch.ge
          · exact (hold hmem).elim

end Authority

end Buzz.Gateway
