import Buzz.Gateway.Handlers

namespace Buzz.Gateway

open Buzz.Lib Buzz.Nostr

namespace Server

def held (g : Server) (t : ℕ) : Option Uuid := (g.handlers.lookup t).bind Handler.consumed

def Moved (a : Accepted) (challenge id : Uuid) (epoch : ℤ) : Prop :=
  a = .rotated challenge id epoch ∨ a = .installationRevoked challenge id epoch

def Generated (a : Accepted) (challenge id : Uuid) (relay : List UInt8) (generation : ℤ) : Prop :=
  a = .delegated challenge id relay generation ∨ a = .delegationRevoked challenge id relay generation

inductive Effect (g : Server) (op : GatewayOp) (g' : Server) : Prop
  | idle (htables : g'.tables = g.tables) (hlog : g'.log = g.log)
      (hheld : ∀ t c, g'.held t = some c → g.held t = some c)
  | put (id : Uuid) (row : ChallengeRow) (hfresh : id ∉ g.drawn) (hdrawn : id ∈ g'.drawn)
      (htables : g'.tables =
        { g.tables with challenges := AList.insert id row g.tables.challenges })
      (hlog : g'.log = g.log) (hheld : ∀ t, g'.held t = g.held t)
  | consumed (t : ℕ) (id : Uuid) (hmem : id ∈ g.tables.challenges)
      (htables : g'.tables = { g.tables with challenges := g.tables.challenges.erase id })
      (hlog : g'.log = g.log) (hself : g'.held t = some id)
      (hheld : ∀ t', t' ≠ t → g'.held t' = g.held t')
  | created (t : ℕ) (challenge id : Uuid) (row : InstallationRow) (hepoch : row.endpointEpoch = 1)
      (hfresh : id ∉ g.drawn) (hdrawn : id ∈ g'.drawn)
      (htables : g'.tables =
        { g.tables with installations := AList.insert id row g.tables.installations })
      (hlog : g'.log = .created challenge id :: g.log) (hbefore : g.held t = some challenge)
      (hself : g'.held t = none) (hheld : ∀ t', t' ≠ t → g'.held t' = g.held t')
  | advanced (id : Uuid) (next : UInt32) (row : InstallationRow)
      (hrow : g.tables.installations.lookup id = some row)
      (hlt : row.assertionCounter < next.toNat)
      (htables : g'.tables = { g.tables with
        installations :=
          AList.insert id { row with assertionCounter := next.toNat } g.tables.installations })
      (hlog : g'.log = .counter id next :: g.log) (hheld : ∀ t, g'.held t = g.held t)
  | moved (t : ℕ) (a : Accepted) (challenge id : Uuid) (row row' : InstallationRow)
      (hrow : g.tables.installations.lookup id = some row)
      (hepoch : row'.endpointEpoch = row.endpointEpoch + 1)
      (hcounter : row'.assertionCounter = row.assertionCounter)
      (ha : Moved a challenge id row'.endpointEpoch)
      (htables : g'.tables =
        { g.tables with installations := AList.insert id row' g.tables.installations })
      (hlog : g'.log = a :: g.log) (hbefore : g.held t = some challenge)
      (hself : g'.held t = none) (hheld : ∀ t', t' ≠ t → g'.held t' = g.held t')
  | generated (t : ℕ) (a : Accepted) (challenge id : Uuid) (relay : List UInt8)
      (row : DelegationRow)
      (hold : ∀ old, g.tables.delegations.lookup (id, relay) = some old →
        old.generation < row.generation)
      (hid : id ∈ g.tables.installations ∨ (id, relay) ∈ g.tables.delegations)
      (ha : Generated a challenge id relay row.generation)
      (htables : g'.tables =
        { g.tables with delegations := AList.insert (id, relay) row g.tables.delegations })
      (hlog : g'.log = a :: g.log) (hbefore : g.held t = some challenge)
      (hself : g'.held t = none) (hheld : ∀ t', t' ≠ t → g'.held t' = g.held t')
  | reaped (now : ℤ) (hop : op = .reap now) (hreap : g.tables.reapExpired now = .ok g'.tables)
    (hlog : g'.log = g.log)
      (hheld : ∀ t, g'.held t = g.held t)

variable {g : Server} {op : GatewayOp} {t t' : ℕ} {h : Handler}

theorem held_enter : (g.enter t h).held t' = if t' = t then h.consumed else g.held t' := by
  rw [held, enter, Map.lookup_insert_eq]
  split <;> rfl

theorem held_leave : (g.leave t).held t' = if t' = t then none else g.held t' := by
  rw [held, leave, Map.lookup_erase_eq]
  split <;> rfl

theorem effect_leave (g : Server) (t : ℕ) (drawn : List Uuid) :
    Effect g op { g.leave t with drawn := drawn } := by
  refine .idle rfl rfl fun t' c hc ↦ ?_
  change (g.leave t).held t' = some c at hc
  rw [held_leave] at hc
  split at hc
  · cases hc
  · exact hc

/-- The mutation that a handler runs last. -/
theorem effect_mutate {r : SignedRequest} {fresh : Uuid} {dbNow : DateTime} {tables : Tables}
    {a : Accepted} (hlookup : g.handlers.lookup t = some (.mutating r))
    (h : mutate g.tables r fresh dbNow = .ok (tables, a)) :
    Effect g op { leave { g with tables := tables, log := a :: g.log } t with
      drawn := fresh :: g.drawn } := by
  have hbefore : g.held t = some r.challengeId := by
    rw [held, hlookup]
    rfl
  have hself : (g.leave t).held t = none := by rw [held_leave, if_pos rfl]
  have hheld (t' : ℕ) (hne : t' ≠ t) : (g.leave t).held t' = g.held t' := by
    rw [held_leave, if_neg hne]
  unfold mutate at h
  split at h
  · simp only [bind_eq_ok, okOr_eq_ok] at h
    obtain ⟨relay, hrelay, s, hupsert, hpure⟩ := h
    cases Except.ok.inj hpure
    obtain ⟨⟨i, hi⟩, hwrite⟩ := Tables.upsertDelegation_spec.mp hupsert
    obtain ⟨relay', hrelay', -, -, -, hold, -, rfl⟩ := Tables.writeDelegation_spec.mp hwrite
    cases hrelay.symm.trans hrelay'
    have hinstalled := (Tables.delegableInstallation_spec.mp hi).1
    exact .generated t _ r.challengeId r.installationId relay _ hold
      (.inl (AList.lookup_isSome.mp (by rw [hinstalled]; rfl))) (.inl rfl) rfl rfl hbefore hself hheld
  · next expected new ciphertext fingerprint _ =>
    simp only [bind_eq_ok] at h
    obtain ⟨s, hrotate, hpure⟩ := h
    cases Except.ok.inj hpure
    obtain ⟨hnext, hupdate⟩ := Tables.rotateEndpoint_spec.mp hrotate
    obtain ⟨row, hrow, hp, -, -, rfl⟩ := Tables.updateInstallation_spec.mp hupdate
    have hepoch := of_decide_eq_true ((Bool.and_eq_true _ _).mp hp).1
    have hnew : new = row.endpointEpoch + 1 := hepoch ▸ (isNextEpoch_iff.mp hnext).1
    exact .moved t _ r.challengeId r.installationId row
      { row with
        endpointEpoch := new, tokenCiphertext := ciphertext, tokenFingerprint := fingerprint.val }
      hrow hnew rfl (.inl rfl) rfl rfl hbefore hself hheld
  · simp only [bind_eq_ok, okOr_eq_ok] at h
    obtain ⟨relay, hrelay, s, hrevoke, hpure⟩ := h
    cases Except.ok.inj hpure
    obtain ⟨relay', row, hrelay', hrow, hlt, -, rfl⟩ := Tables.revokeDelegation_spec.mp hrevoke
    cases hrelay.symm.trans hrelay'
    refine .generated t _ r.challengeId r.installationId relay _ (fun old hold ↦ ?_)
      (.inr (AList.lookup_isSome.mp (by rw [hrow]; rfl))) (.inr rfl) rfl rfl hbefore hself hheld
    cases hrow.symm.trans hold
    exact hlt
  · next expected new _ =>
    simp only [bind_eq_ok] at h
    obtain ⟨s, hrevoke, hpure⟩ := h
    cases Except.ok.inj hpure
    obtain ⟨hnext, hupdate⟩ := Tables.revokeInstallation_spec.mp hrevoke
    obtain ⟨row, hrow, hp, -, -, rfl⟩ := Tables.updateInstallation_spec.mp hupdate
    have hepoch := of_decide_eq_true ((Bool.and_eq_true _ _).mp hp).1
    have hnew : new = row.endpointEpoch + 1 := hepoch ▸ (isNextEpoch_iff.mp hnext).1
    exact .moved t _ r.challengeId r.installationId row
      { row with endpointEpoch := new, revokedAt := some dbNow }
      hrow hnew rfl (.inr rfl) rfl rfl hbefore hself hheld

theorem effect_consume {id : Uuid} {value : Bytes32} {now : ℤ} {tables : Tables}
    {drawn : List Uuid} (h : g.tables.consumeChallenge id value now = .ok tables)
    {next : Handler} (hnext : next.consumed = some id) :
    Effect g op { enter { g with tables := tables } t next with drawn := drawn } := by
  obtain ⟨-, ⟨row, hrow, -⟩, rfl⟩ := Tables.consumeChallenge_spec.mp h
  refine .consumed t id (AList.lookup_isSome.mp (by rw [hrow]; rfl)) rfl rfl ?_ fun t' hne ↦ ?_
  · change (g.enter t next).held t = _
    rw [held_enter, if_pos rfl, hnext]
  · change (g.enter t next).held t' = _
    rw [held_enter, if_neg hne]

theorem effect_proceed {verified : UInt32} {fresh : Uuid} {dbNow : DateTime}
    (hlookup : g.handlers.lookup t = some h) (hfresh : fresh ∉ g.drawn) :
    Effect g op { g.proceed t verified fresh dbNow h with drawn := fresh :: g.drawn } := by
  have hheld : g.held t = h.consumed := by
    rw [held, hlookup]
    rfl
  cases h with
  | enrolling challengeId challenge now enrollment =>
    rw [proceed]
    split
    · exact effect_leave g t _
    · next tables hconsume => exact effect_consume hconsume rfl
  | creating challengeId enrollment =>
    rw [proceed]
    split
    · exact effect_leave g t _
    · next tables hcreate =>
      obtain ⟨-, -, -, -, -, rfl⟩ := Tables.createInstallation_spec.mp hcreate
      refine .created t challengeId fresh _ rfl hfresh List.mem_cons_self rfl rfl hheld ?_
        fun t' hne ↦ ?_
      · change (g.leave t).held t = _
        rw [held_leave, if_pos rfl]
      · change (g.leave t).held t' = _
        rw [held_leave, if_neg hne]
  | reading r =>
    rw [proceed]
    split
    · exact effect_leave g t _
    · refine .idle rfl rfl fun t' c hc ↦ ?_
      change (g.enter t _).held t' = some c at hc
      rw [held_enter] at hc
      split at hc
      · cases hc
      · exact hc
  | consuming r previous next =>
    rw [proceed]
    split
    · exact effect_leave g t _
    · next tables hconsume => exact effect_consume hconsume rfl
  | advancing r previous next =>
    rw [proceed]
    split
    · exact effect_leave g t _
    · next tables hadvance =>
      obtain ⟨hlt, hupdate⟩ := Tables.advanceAssertionCounter_spec.mp hadvance
      obtain ⟨row, hrow, hp, -, -, rfl⟩ := Tables.updateInstallation_spec.mp hupdate
      have hprevious := of_decide_eq_true ((Bool.and_eq_true _ _).mp hp).1
      refine .advanced r.installationId next row hrow ?_ rfl rfl fun t' ↦ ?_
      · rw [hprevious]
        exact_mod_cast UInt32.lt_iff_toNat_lt.mp hlt
      · change (g.enter t (.mutating r)).held t' = _
        rw [held_enter]
        split
        · next heq => rw [heq, hheld]; rfl
        · rfl
  | mutating r =>
    rw [proceed]
    split
    · exact effect_leave g t _
    · next tables a hmutate => exact effect_mutate hlookup hmutate

theorem effect_step (g : Server) (op : GatewayOp) : Effect g op (g.step op) := by
  have hself : Effect g op g := .idle rfl rfl fun _ _ hc ↦ hc
  have henter {t : ℕ} {h : Handler} (hconsumed : h.consumed = none) :
      Effect g op (g.enter t h) := by
    refine .idle rfl rfl fun t' c hc ↦ ?_
    rw [held_enter] at hc
    split at hc
    · rw [hconsumed] at hc
      cases hc
    · exact hc
  cases op with
  | challenge c =>
    rw [step]
    split
    · exact hself
    · next hfresh =>
      split
      · exact hself
      · next tables hput =>
        obtain ⟨-, -, rfl⟩ := Tables.putChallenge_spec.mp hput
        exact .put c.id _ hfresh List.mem_cons_self rfl rfl fun _ ↦ rfl
  | enroll t challengeId challenge now enrollment =>
    rw [step]
    split
    · exact hself
    · exact henter rfl
  | request t r maxGrantLifetime =>
    rw [step]
    split
    · exact hself
    · exact henter rfl
  | proceed t verified fresh dbNow =>
    rw [step]
    split
    · exact hself
    · next h hlookup =>
      split
      · exact hself
      · next hfresh => exact effect_proceed hlookup hfresh
  | abort t => exact effect_leave g t _
  | reap now =>
    rw [step]
    split
    · exact hself
    · next tables hreap => exact .reaped now rfl hreap rfl fun _ ↦ rfl

theorem drawn_step {id : Uuid} {op : GatewayOp} (h : id ∈ g.drawn) : id ∈ (g.step op).drawn := by
  cases op with
  | challenge c =>
    rw [step]
    split
    · exact h
    · split
      · exact h
      · exact List.mem_cons_of_mem _ h
  | enroll => rw [step]; split <;> exact h
  | request => rw [step]; split <;> exact h
  | proceed t verified fresh dbNow =>
    rw [step]
    split
    · exact h
    · split
      · exact h
      · exact List.mem_cons_of_mem _ h
  | abort => exact h
  | reap => rw [step]; split <;> exact h

end Server

end Buzz.Gateway
