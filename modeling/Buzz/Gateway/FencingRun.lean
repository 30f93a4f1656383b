import Buzz.Gateway.FencingInv

namespace Buzz.Gateway

open Buzz.Lib Buzz.Nostr

namespace Authority

variable {w w' : Authority}

/-- The kinds of step: a transaction moves on or ends, commits, or a statement runs on its own. -/
inductive StepCase (w w' : Authority) : Prop
  | enter (t : ℕ) (p : Phase) (hp : w.Sound p) (heq : w' = w.enter t p)
  | leave (t : ℕ) (heq : w' = w.leave t)
  | stay (heq : w' = w)
  | grant (t : ℕ) (a : Delivery) (dbNow : DateTime) (id : Uuid) (i : InstallationRow)
      (key : Uuid × List UInt8) (d : DelegationRow) (permit : DeliveryPermit) (tables : Tables)
      (ht : w.txs.lookup t = some (.lockedDelegation a dbNow id i key d))
      (hok : w.tables.admitDelivery dbNow a i key d = .ok (permit, tables))
      (heq : w' = { w.leave t with tables := tables, permits := w.permits ++ [(a, permit)] })
  | write (t : ℕ) (hchange : Change w w') (htxs : w'.txs = w.txs.erase t)
      (hpermits : w'.permits = w.permits)
  | statement (hchange : Change w w') (htxs : w'.txs = w.txs) (hpermits : w'.permits = w.permits)

theorem resolve_cases (h : Inv w) {t : ℕ} {p : Phase} (hstep : w.resolve t p = some w') :
    StepCase w w' := by
  cases p with
  | authorizing a dbNow =>
    rw [Authority.resolve] at hstep
    cases hid : w.tables.installationOf a.delegationId with
    | none =>
      rw [hid] at hstep
      cases hstep
      exact .leave t rfl
    | some id =>
      rw [hid] at hstep
      cases hstep
      obtain ⟨relay, d, hd, hdid⟩ := Tables.installationOf_spec hid
      exact .enter t (.resolved a dbNow id) ⟨relay, d.endpointEpoch, hdid ▸ h.rows _ d hd⟩ rfl
  | _ => cases hstep

theorem lockInstallation_cases (h : Inv w) {t : ℕ} {p : Phase} (ht : w.txs.lookup t = some p)
    (hstep : w.lockInstallation t p = some w') : StepCase w w' := by
  cases p with
  | resolved a dbNow id =>
    rw [Authority.lockInstallation, Option.ite_none_right_eq_some] at hstep
    obtain ⟨-, hstep⟩ := hstep
    cases hi : w.tables.installations.lookup id with
    | none =>
      rw [hi] at hstep
      cases hstep
      exact .leave t rfl
    | some i =>
      simp only [hi, okOr] at hstep
      cases hadmits : Tables.admitsInstallation a i with
      | error err =>
        rw [hadmits] at hstep
        cases hstep
        exact .leave t rfl
      | ok u =>
        rw [hadmits] at hstep
        cases hstep
        exact .enter t (.lockedInstallation a dbNow id i) ⟨h.sound t _ ht, hi, hadmits⟩ rfl
  | upserting d =>
    rw [Authority.lockInstallation, Option.ite_none_right_eq_some] at hstep
    obtain ⟨-, hstep⟩ := hstep
    cases hi : w.tables.delegableInstallation d with
    | error err =>
      rw [hi] at hstep
      cases hstep
      exact .leave t rfl
    | ok i =>
      rw [hi] at hstep
      cases hstep
      obtain ⟨hlookup, -, -, hepoch, -⟩ := Tables.delegableInstallation_spec.mp hi
      exact .enter t (.delegable d i) ⟨hlookup, hepoch⟩ rfl
  | _ => cases hstep

theorem lockDelegation_cases (h : Inv w) {t : ℕ} {p : Phase} (ht : w.txs.lookup t = some p)
    (hstep : w.lockDelegation t p = some w') : StepCase w w' := by
  cases p with
  | lockedInstallation a dbNow id i =>
    rw [Authority.lockDelegation] at hstep
    cases hd : w.tables.admittedDelegation a with
    | error err =>
      rw [hd] at hstep
      cases hstep
      exact .leave t rfl
    | ok res =>
      obtain ⟨key, d⟩ := res
      simp only [hd, Option.ite_none_right_eq_some, Option.some.injEq] at hstep
      obtain ⟨-, rfl⟩ := hstep
      obtain ⟨⟨relay, e, hissued⟩, hi, hadmits⟩ := h.sound t _ ht
      obtain ⟨hlookup, hcarries⟩ := Tables.admittedDelegation_spec hd
      have hrow := h.rows key d hlookup
      rw [hcarries.id_eq, hissued] at hrow
      have hid : id = key.1 := congrArg (fun g ↦ g.1.1) (Option.some.inj hrow)
      exact .enter t (.lockedDelegation a dbNow id i key d) ⟨hid, hi, hadmits, hlookup, hcarries⟩ rfl
  | _ => cases hstep

theorem commit_cases {t : ℕ} {p : Phase} (ht : w.txs.lookup t = some p)
    (hstep : w.commit t p = some w') : StepCase w w' := by
  cases p with
  | lockedDelegation a dbNow id i key d =>
    rw [Authority.commit] at hstep
    cases hok : w.tables.admitDelivery dbNow a i key d with
    | error err =>
      rw [hok] at hstep
      cases hstep
      exact .leave t rfl
    | ok res =>
      obtain ⟨permit, tables⟩ := res
      rw [hok] at hstep
      exact .grant t a dbNow id i key d permit tables ht hok (Option.some.inj hstep).symm
  | delegable d i =>
    rw [Authority.commit] at hstep
    cases hrelay : hexDecode d.relayPubkey with
    | none =>
      rw [hrelay] at hstep
      cases hstep
      exact .leave t rfl
    | some relay =>
      simp only [hrelay, Option.ite_none_right_eq_some] at hstep
      obtain ⟨⟨hfree, hfresh⟩, hstep⟩ := hstep
      cases hok : w.tables.writeDelegation d with
      | error err =>
        rw [hok] at hstep
        cases hstep
        exact .leave t rfl
      | ok tables =>
        rw [hok] at hstep
        cases hstep
        obtain ⟨relay', hrelay', -, -, -, hnewer, -, rfl⟩ := Tables.writeDelegation_spec.mp hok
        obtain rfl : relay = relay' := Option.some.inj (hrelay.symm.trans hrelay')
        exact .write t (.delegate d relay hrelay hfresh hfree ⟨t, i, ht⟩ hnewer rfl rfl rfl rfl)
          rfl rfl
  | _ => cases hstep

theorem step_cases (h : Inv w) {op : Op} (hstep : w.step op = some w') : StepCase w w' := by
  cases op with
  | authorize t a dbNow =>
    rw [Authority.step, Option.ite_none_left_eq_some] at hstep
    obtain ⟨-, hstep⟩ := hstep
    cases hdecode : Tables.decodeDelivery a with
    | error err =>
      rw [hdecode] at hstep
      exact .stay (Option.some.inj hstep).symm
    | ok u =>
      rw [hdecode] at hstep
      exact .enter t (.authorizing a dbNow) trivial (Option.some.inj hstep).symm
  | upsert t d =>
    rw [Authority.step, Option.ite_none_left_eq_some] at hstep
    exact .enter t (.upserting d) trivial (Option.some.inj hstep.2).symm
  | resolve t =>
    obtain ⟨p, -, hstep⟩ := Option.bind_eq_some_iff.mp hstep
    exact resolve_cases h hstep
  | lockInstallation t =>
    obtain ⟨p, ht, hstep⟩ := Option.bind_eq_some_iff.mp hstep
    exact lockInstallation_cases h ht hstep
  | lockDelegation t =>
    obtain ⟨p, ht, hstep⟩ := Option.bind_eq_some_iff.mp hstep
    exact lockDelegation_cases h ht hstep
  | commit t =>
    obtain ⟨p, ht, hstep⟩ := Option.bind_eq_some_iff.mp hstep
    exact commit_cases ht hstep
  | abort t =>
    rw [Authority.step, Option.ite_none_right_eq_some] at hstep
    exact .leave t (Option.some.inj hstep.2).symm
  | call c dbNow =>
    rw [Authority.step, Option.ite_none_right_eq_some] at hstep
    obtain ⟨hchange, htxs, hpermits⟩ := change_of_call hstep.1 hstep.2
    exact .statement hchange htxs hpermits
  | reap now =>
    obtain ⟨hchange, htxs, hpermits⟩ := change_of_reap hstep
    exact .statement hchange htxs hpermits

theorem StepCase.change (h : StepCase w w') : Change w w' := by
  cases h with
  | enter t p _ heq => exact heq ▸ .same rfl rfl rfl rfl
  | leave t heq => exact heq ▸ .same rfl rfl rfl rfl
  | stay heq => exact heq ▸ .same rfl rfl rfl rfl
  | grant t a dbNow id i key d permit tables _ hok heq =>
    obtain ⟨-, hsame, -⟩ := Tables.admitDelivery_spec hok
    exact heq ▸ .same hsame.installations hsame.delegations rfl rfl
  | write t hchange _ _ => exact hchange
  | statement hchange _ _ => exact hchange

theorem Inv.step (h : Inv w) {op : Op} (hstep : w.step op = some w') : Inv w' := by
  have hcase := step_cases h hstep
  have hchange := hcase.change
  apply h.change hchange
  have herase (t : ℕ) (htxs : w'.txs = w.txs.erase t) :
      ∀ t' p, w'.txs.lookup t' = some p → w'.Sound p := by
    intro t' p hp
    rw [htxs, Map.lookup_erase_eq, Option.ite_none_left_eq_some] at hp
    exact h.sound_kept hchange hp.2
  cases hcase with
  | enter t p hp heq =>
    subst heq
    intro t' p' hp'
    rw [Authority.enter, Map.lookup_insert_eq] at hp'
    split at hp'
    · cases hp'
      cases p <;> exact hp
    · exact h.sound_kept hchange hp'
  | leave t heq => exact herase t (heq ▸ rfl)
  | stay heq => exact heq ▸ h.sound
  | grant t a dbNow id i key d permit tables _ _ heq => exact herase t (heq ▸ rfl)
  | write t _ htxs _ => exact herase t htxs
  | statement _ htxs _ => exact fun t' p hp ↦ h.sound_kept hchange (htxs ▸ hp)

theorem inv_of_run (h : Inv w) {ops : List Op} (hrun : ops.foldlM step w = some w') : Inv w' := by
  induction ops generalizing w with
  | nil =>
    cases hrun
    exact h
  | cons op ops ih =>
    rw [List.foldlM_cons] at hrun
    obtain ⟨w₁, hstep, hrest⟩ := Option.bind_eq_some_iff.mp hrun
    exact ih (h.step hstep) hrest

structure Admits (w : Authority) (a : Delivery) (p : DeliveryPermit) (key : Uuid × List UInt8)
    (i : InstallationRow) (d : DelegationRow) : Prop where
  installation : w.tables.installations.lookup key.1 = some i
  unrevoked : i.revokedAt = none
  epoch : i.endpointEpoch = a.epoch
  unexpired : seconds a.now ≤ i.expiresAt
  delegation : w.tables.delegations.lookup key = some d
  carries : Tables.Carries a key d
  granted : Tables.Granted a i key d p
  ciphertext : w.installed.lookup (key.1, a.epoch) = some p.authority.tokenCiphertext

theorem admits_of_permit (h : Inv w) {op : Op} (hstep : w.step op = some w') {a : Delivery}
    {p : DeliveryPermit} (hp : w'.permits = w.permits ++ [(a, p)]) :
    ∃ key i d, Admits w a p key i d := by
  have hlonger : w'.permits ≠ w.permits := by
    rw [hp]
    simp
  cases step_cases h hstep with
  | enter t q _ heq => exact (hlonger (heq ▸ rfl)).elim
  | leave t heq => exact (hlonger (heq ▸ rfl)).elim
  | stay heq => exact (hlonger (heq ▸ rfl)).elim
  | write t _ _ hpermits => exact (hlonger hpermits).elim
  | statement _ _ hpermits => exact (hlonger hpermits).elim
  | grant t a' dbNow id i key d permit tables ht hok heq =>
    rw [heq] at hp
    obtain ⟨rfl, rfl⟩ := Prod.mk.inj (List.singleton_inj.mp (List.append_cancel_left hp))
    obtain ⟨rfl, hi, hadmits, hd, hcarries⟩ := h.sound t _ ht
    obtain ⟨hlive, hepoch, hexpires⟩ := Tables.admitsInstallation_spec hadmits
    obtain ⟨-, -, hgranted⟩ := Tables.admitDelivery_spec hok
    refine ⟨key, i, d, hi, hlive, hepoch, hexpires, hd, hcarries, hgranted, ?_⟩
    rw [hgranted.authority_eq, ← hepoch]
    exact h.current key.1 i hi hlive

/-- The grant was issued, and every row that still carries it is a tombstone. -/
structure Retired (w : Authority) (did : Uuid) : Prop where
  issued : did ∈ w.issued
  revoked : ∀ key r, w.tables.delegations.lookup key = some r → r.id = did → r.revokedAt ≠ none

theorem Retired.change {did : Uuid} (h : w.Retired did) (hchange : Change w w') :
    w'.Retired did := by
  obtain ⟨g, hg⟩ := Option.isSome_iff_exists.mp (AList.lookup_isSome.mpr h.issued)
  have hissued : did ∈ w'.issued := AList.lookup_isSome.mp (issued_mono hchange hg ▸ rfl)
  refine ⟨hissued, fun key r hr hid ↦ ?_⟩
  cases hchange with
  | same _ hd _ _ => exact h.revoked key r (hd ▸ hr) hid
  | enroll n _ _ hd _ _ => exact h.revoked key r (hd ▸ hr) hid
  | update id r₁ r₂ _ _ _ _ _ hd _ => exact h.revoked key r (hd ▸ hr) hid
  | reap _ hsub _ _ _ _ => exact h.revoked key r (hsub key r hr) hid
  | revoke key' r' generation dbNow _ _ _ _ hd _ _ =>
    rw [hd, Map.lookup_insert_eq] at hr
    split at hr
    · cases hr
      nofun
    · exact h.revoked key r hr hid
  | delegate d relay _ hfresh _ _ _ _ hd _ _ =>
    rw [hd, Map.lookup_insert_eq] at hr
    split at hr
    · cases hr
      have hid' : d.id = did := hid
      exact (hfresh (hid' ▸ h.issued)).elim
    · exact h.revoked key r hr hid

structure EpochFrom (w : Authority) (id : Uuid) (e : ℤ) : Prop where
  known : ∃ e', (id, e') ∈ w.installed
  le : ∀ i, w.tables.installations.lookup id = some i → e ≤ i.endpointEpoch

theorem EpochFrom.change {id : Uuid} {e : ℤ} (h : w.EpochFrom id e) (hchange : Change w w') :
    w'.EpochFrom id e := by
  obtain ⟨hknown, hle⟩ := epoch_mono hchange h.known h.le
  exact ⟨hknown, hle⟩

def GenerationFrom (w : Authority) (key : Uuid × List UInt8) (generation : ℤ) : Prop :=
  ∀ r, w.tables.delegations.lookup key = some r → generation ≤ r.generation

/-- While the row of a delegation is there, its generation does not go back. -/
theorem GenerationFrom.change {key : Uuid × List UInt8} {generation : ℤ}
    (h : w.GenerationFrom key generation) (hchange : Change w w')
    (hpresent : key ∈ w.tables.delegations) : w'.GenerationFrom key generation := by
  intro r hr
  cases hchange with
  | same _ hd _ _ => exact h r (hd ▸ hr)
  | enroll n _ _ hd _ _ => exact h r (hd ▸ hr)
  | update id r₁ r₂ _ _ _ _ _ hd _ => exact h r (hd ▸ hr)
  | reap _ hsub _ _ _ _ => exact h r (hsub key r hr)
  | revoke key' r' generation' dbNow hr' hnewer _ _ hd _ _ =>
    rw [hd, Map.lookup_insert_eq] at hr
    split at hr
    · next heq =>
      subst heq
      cases hr
      exact (h r' hr').trans hnewer.le
    · exact h r hr
  | delegate d relay _ _ _ _ hnewer _ hd _ _ =>
    rw [hd, Map.lookup_insert_eq] at hr
    split at hr
    · next heq =>
      cases hr
      obtain ⟨old, hold⟩ := Option.isSome_iff_exists.mp (AList.lookup_isSome.mpr hpresent)
      exact (h old hold).trans (hnewer old (heq ▸ hold)).le
    · exact h r hr

theorem kept_of_run {P : Authority → Prop} (hP : ∀ w w', Change w w' → P w → P w') (h : Inv w)
    {ops : List Op} (hrun : ops.foldlM step w = some w') (hw : P w) : P w' := by
  induction ops generalizing w with
  | nil =>
    cases hrun
    exact hw
  | cons op ops ih =>
    rw [List.foldlM_cons] at hrun
    obtain ⟨w₁, hstep, hrest⟩ := Option.bind_eq_some_iff.mp hrun
    exact ih (h.step hstep) hrest (hP w w₁ (step_cases h hstep).change hw)

theorem generationFrom_of_run {key : Uuid × List UInt8} {generation : ℤ} (h : Inv w) {ops : List Op}
    (hrun : ops.foldlM step w = some w')
    (hpresent : ∀ pre w₁, pre <+: ops → pre.foldlM step w = some w₁ →
      key ∈ w₁.tables.delegations)
    (hw : w.GenerationFrom key generation) : w'.GenerationFrom key generation := by
  induction ops generalizing w with
  | nil =>
    cases hrun
    exact hw
  | cons op ops ih =>
    rw [List.foldlM_cons] at hrun
    obtain ⟨w₁, hstep, hrest⟩ := Option.bind_eq_some_iff.mp hrun
    apply ih (h.step hstep) hrest
    · intro pre w₂ hpre hpre'
      apply hpresent (op :: pre) w₂ (List.cons_prefix_cons.mpr ⟨rfl, hpre⟩)
      rw [List.foldlM_cons, hstep]
      exact hpre'
    · exact hw.change (step_cases h hstep).change (hpresent [] w List.nil_prefix rfl)

def MovesEpoch (w : Authority) (id : Uuid) (new : ℤ) : Op → Prop
  | .call c dbNow =>
    (∃ r, w.tables.call dbNow c = .ok r) ∧
      ((∃ expected ciphertext fingerprint,
          c = .rotateEndpoint id expected new ciphertext fingerprint) ∨
        ∃ expected, c = .revokeInstallation id expected new)
  | _ => False

def MovesGeneration (w : Authority) (key : Uuid × List UInt8) (generation : ℤ) : Op → Prop
  | .call c dbNow =>
    (∃ r, w.tables.call dbNow c = .ok r) ∧
      ∃ relay, hexDecode relay = some key.2 ∧ c = .revokeDelegation key.1 relay generation
  | .commit t =>
    ∃ d i s, w.txs.lookup t = some (.delegable d i) ∧ w.tables.writeDelegation d = .ok s ∧
      d.installationId = key.1 ∧ hexDecode d.relayPubkey = some key.2 ∧ d.generation = generation
  | _ => False

theorem epochFrom_of_moves (h : Inv w) {op : Op} (hstep : w.step op = some w') {id : Uuid} {new : ℤ}
    (hmoves : w.MovesEpoch id new op) :
    w'.EpochFrom id new ∧ ∀ did relay e, w.issued.lookup did = some ((id, relay), e) → e < new := by
  cases op with
  | call c dbNow =>
    obtain ⟨⟨⟨answer, tables⟩, hok⟩, hc⟩ := hmoves
    have hrow : ∃ r r', w.tables.installations.lookup id = some r ∧ r.endpointEpoch + 1 = new ∧
        r'.endpointEpoch = new ∧ tables.installations = AList.insert id r' w.tables.installations := by
      rcases hc with ⟨expected, ciphertext, fingerprint, rfl⟩ | ⟨expected, rfl⟩
      · obtain ⟨hnext, hok⟩ := Tables.rotateEndpoint_spec.mp (Tables.done_eq_ok.mp hok).1
        obtain ⟨r, hr, hp, -, -, rfl⟩ := Tables.updateInstallation_spec.mp hok
        rw [Bool.and_eq_true, decide_eq_true_eq] at hp
        exact ⟨r, _, hr, hp.1 ▸ (isNextEpoch_iff.mp hnext).1.symm, rfl, rfl⟩
      · obtain ⟨hnext, hok⟩ := Tables.revokeInstallation_spec.mp (Tables.done_eq_ok.mp hok).1
        obtain ⟨r, hr, hp, -, -, rfl⟩ := Tables.updateInstallation_spec.mp hok
        rw [Bool.and_eq_true, decide_eq_true_eq] at hp
        exact ⟨r, _, hr, hp.1 ▸ (isNextEpoch_iff.mp hnext).1.symm, rfl, rfl⟩
    obtain ⟨r, r', hr, hnew, hnew', hinsert⟩ := hrow
    have htables : w'.tables = tables := by
      rw [Authority.step, Option.ite_none_right_eq_some, Authority.call,
        Option.ite_none_right_eq_some, hok] at hstep
      rw [← Option.some.inj hstep.2.2]
    constructor
    · obtain ⟨hknown, -⟩ := epoch_mono (step_cases h hstep).change (e := r.endpointEpoch)
        (h.known id r hr) (fun i hi ↦ by rw [hr] at hi; cases hi; exact le_rfl)
      refine ⟨hknown, fun i hi ↦ ?_⟩
      rw [htables, hinsert, AList.lookup_insert] at hi
      cases hi
      exact hnew'.ge
    · intro did relay e hissued
      have hle := (h.issuedEpoch did _ e hissued).2 r hr
      omega
  | _ => exact hmoves.elim

theorem retired_of_moves (h : Inv w) {op : Op} (hstep : w.step op = some w')
    {key : Uuid × List UInt8} {generation : ℤ} (hmoves : w.MovesGeneration key generation op) :
    w'.GenerationFrom key generation ∧
      ∀ did e, w.issued.lookup did = some (key, e) → w'.Retired did := by
  have hinv' := h.step hstep
  have hrow : ∃ r, w'.tables.delegations.lookup key = some r ∧ r.generation = generation ∧
      (r.revokedAt ≠ none ∨ r.id ∉ w.issued) := by
    cases op with
    | call c dbNow =>
      obtain ⟨⟨⟨answer, tables⟩, hok⟩, relay, hrelay, rfl⟩ := hmoves
      have htables : w'.tables = tables := by
        rw [Authority.step, Option.ite_none_right_eq_some, Authority.call,
          Option.ite_none_right_eq_some, hok] at hstep
        rw [← Option.some.inj hstep.2.2]
      obtain ⟨bytes, r, hbytes, -, -, -, rfl⟩ :=
        Tables.revokeDelegation_spec.mp (Tables.done_eq_ok.mp hok).1
      obtain rfl : key.2 = bytes := Option.some.inj (hrelay.symm.trans hbytes)
      refine ⟨Tables.revokedRow r generation dbNow, ?_, rfl, .inl fun h ↦ (by cases h)⟩
      rw [htables]
      exact AList.lookup_insert _
    | commit t =>
      obtain ⟨d, i, s, ht, hok, hinst, hrelay, rfl⟩ := hmoves
      rw [Authority.step, ht, Option.bind_some, Authority.commit, hrelay] at hstep
      simp only [Option.ite_none_right_eq_some, hok, Option.some.injEq] at hstep
      obtain ⟨⟨-, hfresh⟩, rfl⟩ := hstep
      obtain ⟨relay, hrelay', -, -, -, -, -, rfl⟩ := Tables.writeDelegation_spec.mp hok
      obtain rfl : key.2 = relay := Option.some.inj (hrelay.symm.trans hrelay')
      refine ⟨Tables.delegationRow d, ?_, rfl, .inr hfresh⟩
      change (AList.insert (d.installationId, key.2) _ _).lookup key = _
      rw [hinst]
      exact AList.lookup_insert _
    | _ => exact hmoves.elim
  obtain ⟨r, hr, hgen, hdead⟩ := hrow
  constructor
  · intro r' hr'
    rw [hr] at hr'
    cases hr'
    exact hgen.ge
  · intro did e hissued
    have hissued' := issued_mono (step_cases h hstep).change hissued
    refine ⟨AList.lookup_isSome.mp (hissued' ▸ rfl), fun key' r' hr' hid ↦ ?_⟩
    have hkey := hinv'.rows key' r' hr'
    rw [hid, hissued'] at hkey
    obtain ⟨rfl, -⟩ := Prod.mk.inj (Option.some.inj hkey)
    rw [hr] at hr'
    cases hr'
    rcases hdead with hrevoked | hfresh
    · exact hrevoked
    · exact (hfresh (hid ▸ AList.lookup_isSome.mp (hissued ▸ rfl))).elim

/-- A permit is granted only on what stands at its commit. After a step has moved an installation to
a new epoch, no delegation id issued for it before and no earlier epoch of it is admitted. After one
has moved a delegation to a new generation, no delegation id issued for it before is admitted, and
no earlier generation as long as its row has not been reaped. -/
theorem stale_grants_fenced {ops : List Op} (hrun : ops.foldlM step empty = some w) :
    (∀ op w' a p, w.step op = some w' → w'.permits = w.permits ++ [(a, p)] →
      ∃ key i d, Admits w a p key i d) ∧
    ∀ op w₁ later w₂ op' w₃ a p, w.step op = some w₁ → later.foldlM step w₁ = some w₂ →
      w₂.step op' = some w₃ → w₃.permits = w₂.permits ++ [(a, p)] →
      (∀ id new, w.MovesEpoch id new op →
        (p.authority.installationId = id → new ≤ a.epoch) ∧
          ∀ relay e, w.issued.lookup a.delegationId ≠ some ((id, relay), e)) ∧
      ∀ key generation, w.MovesGeneration key generation op →
        (∀ e, w.issued.lookup a.delegationId ≠ some (key, e)) ∧
          ((∀ pre w', pre <+: later → pre.foldlM step w₁ = some w' →
              key ∈ w'.tables.delegations) →
            p.authority.installationId = key.1 → hexDecode a.relay = some key.2 →
              generation ≤ a.generation) := by
  have hinv := inv_of_run Inv.empty hrun
  refine ⟨fun op w' a p hstep hp ↦ admits_of_permit hinv hstep hp, ?_⟩
  intro op w₁ later w₂ op' w₃ a p hstep hlater hstep' hp
  have hinv₁ := hinv.step hstep
  have hinv₂ := inv_of_run hinv₁ hlater
  obtain ⟨key, i, d, hadmits⟩ := admits_of_permit hinv₂ hstep' hp
  have hinst : p.authority.installationId = key.1 := by rw [hadmits.granted.authority_eq]
  have hrow := hinv₂.rows key d hadmits.delegation
  rw [hadmits.carries.id_eq] at hrow
  have hissued {g : (Uuid × List UInt8) × ℤ} (hg : w.issued.lookup a.delegationId = some g) :
      g = (key, d.endpointEpoch) := by
    have hg₁ := issued_mono (step_cases hinv hstep).change hg
    have hg₂ := kept_of_run (P := fun v ↦ v.issued.lookup a.delegationId = some g)
      (fun _ _ hchange hv ↦ issued_mono hchange hv) hinv₁ hlater hg₁
    exact Option.some.inj (hg₂.symm.trans hrow)
  constructor
  · intro id new hmoves
    obtain ⟨hfrom, hbefore⟩ := epochFrom_of_moves hinv hstep hmoves
    have hfrom₂ := kept_of_run (P := fun v ↦ v.EpochFrom id new)
      (fun _ _ hchange hv ↦ hv.change hchange) hinv₁ hlater hfrom
    have hnew (hid : key.1 = id) : new ≤ a.epoch := by
      rw [← hadmits.epoch]
      exact hfrom₂.le i (hid ▸ hadmits.installation)
    refine ⟨fun hid ↦ hnew (hinst.symm.trans hid), fun relay e hg ↦ ?_⟩
    have hlt := hbefore _ relay e hg
    obtain ⟨rfl, rfl⟩ := Prod.mk.inj (hissued hg)
    have hle := hnew rfl
    rw [hadmits.carries.epoch_eq] at hlt
    omega
  · intro key' generation hmoves
    obtain ⟨hfrom, hretired⟩ := retired_of_moves hinv hstep hmoves
    constructor
    · intro e hg
      have hdead := kept_of_run (P := fun v ↦ v.Retired a.delegationId)
        (fun _ _ hchange hv ↦ hv.change hchange) hinv₁ hlater (hretired _ e hg)
      exact hdead.revoked key d hadmits.delegation hadmits.carries.id_eq hadmits.carries.unrevoked
    · intro hpresent hid hrelay
      have hkey : key = key' := by
        apply Prod.ext (hinst.symm.trans hid)
        exact Option.some.inj (hadmits.carries.relay_eq.symm.trans hrelay)
      subst hkey
      have hle := generationFrom_of_run hinv₁ hlater hpresent hfrom d hadmits.delegation
      rwa [hadmits.carries.generation_eq] at hle

def relayDigits : String := String.ofList (List.replicate 64 '1')

def enrollment : Op :=
  .call (.createInstallation
    { id := 1, appAttestKeyId := List.replicate 32 5, appAttestPublicKey := List.replicate 65 4,
      assertionCounter := 0, profile := .buzzIosProduction, tokenCiphertext := [7],
      tokenFingerprint := ⟨List.replicate 32 9, List.length_replicate⟩, endpointEpoch := 1,
      expiresAt := 900000 }) 0

def delegation (did : Uuid) : List Op :=
  [.upsert 0
    { id := did, installationId := 1, relayPubkey := relayDigits, endpointEpoch := 1,
      generation := 5, notBefore := 900, expiresAt := 800000, revoked := false },
    .lockInstallation 0, .commit 0]

def revocation : Op := .call (.revokeDelegation 1 relayDigits 6) (seconds 1000)

def admission (did : Uuid) (now : ℤ) : List Op :=
  [.authorize 0
    { delegationId := did, relay := relayDigits, epoch := 1, generation := 5,
      eventId := relayDigits, requestId := 8, requestExpiresAt := now + 100,
      quotaWindowSeconds := 10, quotaMaxDeliveries := 10, now := now } 0,
    .resolve 0, .lockInstallation 0, .lockDelegation 0, .commit 0]

/-- Once the tombstone of generation 6 is reaped, generation 5 is delegated and admitted again. -/
theorem reaped_generation_admitted :
    (∃ w ∈ (enrollment :: delegation 2).foldlM step empty,
      (w.tables.delegations.lookup (1, List.replicate 32 17)).map DelegationRow.generation = some 5 ∧
        (w.tables.call (seconds 1000) (.revokeDelegation 1 relayDigits 6)).toOption.isSome) ∧
      ∃ w ∈ (enrollment :: delegation 2 ++ revocation :: .reap 100000 :: delegation 3 ++
          admission 3 100000).foldlM step empty,
        ∃ x ∈ w.permits.head?, x.1.epoch = 1 ∧ x.1.generation = 5 ∧ x.1.relay = relayDigits ∧
          x.2.authority.installationId = 1 := by
  decide +kernel

theorem stale_grants_fenced_revoked :
    ∃ w ∈ (enrollment :: delegation 2).foldlM step empty, ∃ w₁ ∈ w.step revocation,
      w.MovesGeneration (1, List.replicate 32 17) 6 revocation ∧
        ∀ (later : List Op) (w₂ : Authority) (op : Op) (w₃ : Authority) (a : Delivery)
          (p : DeliveryPermit), later.foldlM step w₁ = some w₂ → w₂.step op = some w₃ →
            w₃.permits = w₂.permits ++ [(a, p)] → a.delegationId ≠ 2 := by
  have hrun : ∃ w ∈ (enrollment :: delegation 2).foldlM step empty, ∃ w₁ ∈ w.step revocation,
      (∃ r ∈ (w.tables.call (seconds 1000) (.revokeDelegation 1 relayDigits 6)).toOption,
        r.1 = .done) ∧
      hexDecode relayDigits = some (List.replicate 32 17) ∧
        w.issued.lookup 2 = some ((1, List.replicate 32 17), 1) := by decide +kernel
  obtain ⟨w, hw, w₁, hw₁, ⟨r, hr, -⟩, hrelay, hissued⟩ := hrun
  have hmoves : w.MovesGeneration (1, List.replicate 32 17) 6 revocation := by
    refine ⟨⟨r, ?_⟩, relayDigits, hrelay, rfl⟩
    cases hok : w.tables.call (seconds 1000) (.revokeDelegation 1 relayDigits 6) with
    | error err =>
      rw [hok] at hr
      cases hr
    | ok r' =>
      rw [hok] at hr
      exact congrArg Except.ok (Option.some.inj hr)
  refine ⟨w, hw, w₁, hw₁, hmoves, ?_⟩
  intro later w₂ op w₃ a p hlater hstep hp hid
  have hfenced := ((stale_grants_fenced hw).2 revocation w₁ later w₂ op w₃ a p hw₁ hlater hstep hp).2
  exact (hfenced _ 6 hmoves).1 1 (hid ▸ hissued)

end Authority

end Buzz.Gateway
