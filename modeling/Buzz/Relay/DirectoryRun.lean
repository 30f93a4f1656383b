import Buzz.Relay.Directory

namespace Buzz.Relay.Tunnel

open Buzz.Lib Buzz.Lib.Decimal Buzz.Nostr

/-- Calls of any node on the shared Redis, the movements of its clock, and its removals of
expired keys. -/
inductive Op
  | acquire (leaseTtl : ℕ) (communityId : CommunityId) (sessionId : SessionId)
      (ownerRuntimeId : RuntimeId) (profile : Profile)
  | renew (leaseTtl : ℕ) (lease : SessionLease)
  | release (lease : SessionLease)
  | validate (communityId : CommunityId) (fenced : FencedHeader)
  | setClock (now : ℕ)
  | evict (key : String)

def Op.apply (r : Redis) : Op → Redis
  | .acquire leaseTtl c s owner profile => (Tunnel.acquire leaseTtl r c s owner profile).1
  | .renew leaseTtl lease => (Tunnel.renew leaseTtl r lease).1
  | .release lease => (Tunnel.release r lease).1
  | .validate _ _ => r
  | .setClock now => { r with now }
  | .evict key => r.evict key

def Op.acquired (r : Redis) : Op → Option SessionLease
  | .acquire leaseTtl c s owner profile =>
    match (Tunnel.acquire leaseTtl r c s owner profile).2 with
    | .ok (.acquired lease) => some lease
    | _ => none
  | _ => none

def runDirectory (now : ℕ) (ops : List Op) : Redis := ops.foldl Op.apply (Redis.empty now)

def SessionLease.key (lease : SessionLease) : CommunityId × SessionId :=
  (lease.communityId, lease.sessionId)

def SessionLease.grant (lease : SessionLease) : Holder × ℕ :=
  ((lease.ownerRuntimeId, lease.profile), lease.generation.toNat)

def Holds (r : Redis) (lease : SessionLease) : Prop :=
  lookup r lease.communityId lease.sessionId = .ok (some lease)

instance (r : Redis) (lease : SessionLease) : Decidable (Holds r lease) :=
  inferInstanceAs (Decidable (_ = _))

section Scripts

variable (r : Redis) (keys : SessionKeys)

theorem acquireScript_cases (owner profile : String) (ttlMs : ℕ) :
    (∃ current, r.get keys.lease = some current ∧ acquireScript r keys owner profile ttlMs =
      (r, .ok ("exists", current, (r.get keys.generation).getD ""))) ∨
    (∃ text, acquireScript r keys owner profile ttlMs = (r, .error text)) ∨
    ∃ n r', r.incr keys.generation = .ok (n, r') ∧
      (acquireScript r keys owner profile ttlMs = (r', .error Redis.notAnInteger) ∨
        ∃ ttl, acquireScript r keys owner profile ttlMs =
          (r'.setPx keys.lease (leaseValue owner n.toNat profile) ttl,
            .ok ("acquired", leaseValue owner n.toNat profile, luaToString n.toNat))) := by
  unfold acquireScript
  split
  · next current hget => exact .inl ⟨current, hget, rfl⟩
  · split
    · next text hincr => exact .inr (.inl ⟨text, rfl⟩)
    · next n r' hincr =>
      refine .inr (.inr ⟨n, r', hincr, ?_⟩)
      dsimp only
      split
      · exact .inl rfl
      · next ttl _ => exact .inr ⟨ttl, rfl⟩

/-- A renewal that does not match the stored value changes nothing. -/
theorem renewScript_cases (owner generation : String) (ttlMs : ℕ) :
    ((renewScript r keys owner generation ttlMs).1 = r ∧
      ∀ value known, (renewScript r keys owner generation ttlMs).2 ≠
        .ok ("renewed", value, known)) ∨
    ∃ current profile ttl, r.get keys.lease = some current ∧
      matchLease current = some (owner, generation, profile) ∧
      (renewScript r keys owner generation ttlMs).1 = r.pexpire keys.lease ttl := by
  unfold renewScript
  split
  · exact .inl ⟨rfl, fun value known h ↦ absurd (Except.ok.inj h) (by simp)⟩
  · next current hget =>
    split
    · next currentOwner currentGeneration profile hmatch =>
      split
      · next heq =>
        obtain ⟨rfl, rfl⟩ := heq
        split
        · exact .inl ⟨rfl, fun value known h ↦ (by cases h)⟩
        · next ttl _ => exact .inr ⟨current, profile, ttl, hget, hmatch, rfl⟩
      · exact .inl ⟨rfl, fun value known h ↦ absurd (Except.ok.inj h) (by simp)⟩
    · exact .inl ⟨rfl, fun value known h ↦ absurd (Except.ok.inj h) (by simp)⟩

theorem releaseScript_cases (owner generation : String) :
    ((releaseScript r keys owner generation).1 = r ∧
      ∀ value known, (releaseScript r keys owner generation).2 ≠
        .ok ("released", value, known)) ∨
    ∃ current profile, r.get keys.lease = some current ∧
      matchLease current = some (owner, generation, profile) ∧
      (releaseScript r keys owner generation).1 = r.del keys.lease := by
  unfold releaseScript
  split
  · exact .inl ⟨rfl, fun value known h ↦ absurd (Except.ok.inj h) (by simp)⟩
  · next current hget =>
    split
    · next currentOwner currentGeneration profile hmatch =>
      split
      · next heq =>
        obtain ⟨rfl, rfl⟩ := heq
        exact .inr ⟨current, profile, hget, hmatch, rfl⟩
      · exact .inl ⟨rfl, fun value known h ↦ absurd (Except.ok.inj h) (by simp)⟩
    · exact .inl ⟨rfl, fun value known h ↦ absurd (Except.ok.inj h) (by simp)⟩

end Scripts

section Lookup

variable {r : Redis} {fences : CommunityId × SessionId → Fence Holder}

theorem lookup_value (c : CommunityId) (s : SessionId) {f : Fence Holder} {g : Holder × ℕ}
    (hg : f.grants.head? = some g) (hget : r.get (SessionKeys.new c s).lease = some (Holder.value g)) :
    lookup r c s = if g.2 < 10 ^ 14 then .ok (some ⟨c, s, g.1.1, UInt64.ofNat g.2, g.1.2⟩)
      else .error (.malformedLease c s (Holder.value g)) := by
  have hpos := (f.bounded g (List.mem_of_head? hg)).1
  rw [lookup, hget]
  simp only [Holder.value, parseLease_leaseValue c s g.1.1 hpos g.1.2]
  split <;> rfl

theorem Holds.head (h : Tracks r fences) {lease : SessionLease} (hlease : Holds r lease) :
    (fences lease.key).grants.head? = some lease.grant := by
  rw [Holds] at hlease
  cases hget : r.get (SessionKeys.new lease.communityId lease.sessionId).lease with
  | none =>
    rw [lookup, hget] at hlease
    cases hlease
  | some value =>
    obtain ⟨g, hg, rfl⟩ := (h lease.key).get_lease hget
    rw [lookup_value _ _ hg hget] at hlease
    split at hlease
    · next hlt =>
      have heq := Option.some.inj (Except.ok.inj hlease)
      have hgrant : lease.grant = g := by
        rw [← heq, SessionLease.grant, UInt64.toNat_ofNat_of_lt' (lt_trans hlt (by decide))]
      rw [hgrant]
      exact hg
    · cases hlease

theorem holds_of_match (h : Tracks r fences) {lease : SessionLease} {current profile : String}
    (hget : r.get (SessionKeys.new lease.communityId lease.sessionId).lease = some current)
    (hmatch : matchLease current =
      some (hexEncode lease.ownerRuntimeId, toString lease.generation.toNat, profile)) :
    ∃ p, Holds r { lease with profile := p } := by
  obtain ⟨g, hg, rfl⟩ := (h lease.key).get_lease hget
  rw [Holder.value, matchLease_leaseValue] at hmatch
  obtain ⟨howner, hrest⟩ := Prod.mk.inj (Option.some.inj hmatch)
  obtain ⟨hgeneration, hprofile⟩ := Prod.mk.inj hrest
  obtain ⟨hnat, hlt⟩ := eq_of_luaToString_eq hgeneration
  refine ⟨g.1.2, ?_⟩
  rw [Holds, lookup_value _ _ hg hget, if_pos hlt, hexEncode_injective howner, hnat,
    UInt64.ofNat_toNat]

end Lookup

section Steps

variable {r : Redis} {fences : CommunityId × SessionId → Fence Holder}

theorem Refines.skip {c : CommunityId} {s : SessionId} {f : Fence Holder}
    (h : Refines r (.new c s) f) :
    Refines (r.setEntry (SessionKeys.new c s).generation
      (some ⟨toString (f.counter + 1), none⟩)) (.new c s) f.skip := by
  refine ⟨?_, fun e he ↦ ?_⟩
  · rw [Redis.entries_setEntry_self]
    exact (if_neg (Nat.succ_ne_zero _)).symm
  · rw [Redis.entries_setEntry_ne (lease_key_ne_generation_key c c s s)] at he
    exact h.lease_eq e he

theorem Refines.grant {c : CommunityId} {s : SessionId} {f : Fence Holder}
    (h : Refines r (.new c s) f) (owner : Holder) (ttl : ℕ) :
    Refines ((r.setEntry (SessionKeys.new c s).generation
      (some ⟨toString (f.counter + 1), none⟩)).setPx (SessionKeys.new c s).lease
      (Holder.value (owner, f.counter + 1)) ttl) (.new c s) (f.grant owner) := by
  refine ⟨?_, fun e he ↦ ⟨(owner, f.counter + 1), rfl, ?_⟩⟩
  · rw [Redis.setPx, Redis.entries_setEntry_ne (lease_key_ne_generation_key c c s s).symm]
    exact h.skip.counter_eq
  · rw [Redis.setPx, Redis.entries_setEntry_self] at he
    exact (congrArg Redis.Entry.value (Option.some.inj he)).symm

theorem get_setPx_self (key value : String) (ttl : ℕ) :
    (r.setPx key value ttl).get key = some value := by
  refine Redis.get_eq_some_iff.mpr ⟨some (r.now + ttl), ?_, ?_⟩
  · rw [Redis.setPx, Redis.entries_setEntry_self]
  · simp [Redis.Entry.expired, Redis.setPx]

theorem lookup_setPx (c : CommunityId) (s : SessionId) {f : Fence Holder} {g : Holder × ℕ}
    (hg : f.grants.head? = some g) (hlt : g.2 < 10 ^ 14) (ttl : ℕ) :
    lookup (r.setPx (SessionKeys.new c s).lease (Holder.value g) ttl) c s =
      .ok (some ⟨c, s, g.1.1, UInt64.ofNat g.2, g.1.2⟩) := by
  rw [lookup_value c s hg (get_setPx_self _ _ _), if_pos hlt]

theorem acquire_spec (h : Tracks r fences) (leaseTtl : ℕ) (c : CommunityId) (s : SessionId)
    (owner : RuntimeId) (profile : Profile) :
    ∃ f, Tracks (acquire leaseTtl r c s owner profile).1 (Function.update fences (c, s) f) ∧
      (fences (c, s)).Extends f ∧
      ∀ lease, (acquire leaseTtl r c s owner profile).2 = .ok (.acquired lease) →
        lease.key = (c, s) ∧ lease.grant = ((owner, profile), (fences (c, s)).counter + 1) ∧
          f = (fences (c, s)).grant (owner, profile) ∧
          Holds (acquire leaseTtl r c s owner profile).1 lease := by
  have hk := h (c, s)
  have hself : Tracks r (Function.update fences (c, s) (fences (c, s))) := by
    rwa [Function.update_eq_self]
  unfold acquire
  cases ttlMs leaseTtl with
  | error e => exact ⟨fences (c, s), hself, Fence.Extends.refl _, fun lease hl ↦ nomatch hl⟩
  | ok ttl =>
    rcases acquireScript_cases r (.new c s) (hexEncode owner) profile.asWireStr ttl with
      ⟨current, hget, hscript⟩ | ⟨text, hscript⟩ | ⟨n, r', hincr, hscript | ⟨ttl', hscript⟩⟩
    · refine ⟨fences (c, s), ?_, Fence.Extends.refl _, fun lease hl ↦ ?_⟩
      · simpa only [hscript] using hself
      · simp only [hscript] at hl
        cases hparse : parseLease c s current with
        | error e => rw [hparse] at hl; cases hl
        | ok lease' => rw [hparse] at hl; cases hl
    · refine ⟨fences (c, s), ?_, Fence.Extends.refl _, fun lease hl ↦ ?_⟩
      · simpa only [hscript] using hself
      · simp only [hscript] at hl
        cases hl
    · obtain ⟨rfl, rfl⟩ := hk.incr hincr
      refine ⟨(fences (c, s)).skip, ?_, Fence.extends_skip _, fun lease hl ↦ ?_⟩
      · simp only [hscript]
        apply h.update hk.skip
        intro key _ hkey
        exact Redis.entries_setEntry_ne hkey
      · simp only [hscript] at hl
        cases hl
    · obtain ⟨rfl, rfl⟩ := hk.incr hincr
      have hnat : ((fences (c, s)).counter + 1 : ℤ).toNat = (fences (c, s)).counter + 1 := by omega
      rw [hnat] at hscript
      refine ⟨(fences (c, s)).grant (owner, profile), ?_, Fence.extends_grant _ _,
        fun lease hl ↦ ?_⟩
      · simp only [hscript]
        apply h.update (hk.grant (owner, profile) ttl')
        intro key hlease hkey
        rw [Redis.setPx, Redis.entries_setEntry_ne hlease, Redis.entries_setEntry_ne hkey]
      · simp only [hscript, parseLease_leaseValue c s owner (Nat.succ_pos _) profile] at hl ⊢
        by_cases hlt : (fences (c, s)).counter + 1 < 10 ^ 14
        · simp only [if_pos hlt] at hl
          cases hl
          refine ⟨rfl, ?_, trivial, ?_⟩
          · rw [SessionLease.grant, UInt64.toNat_ofNat_of_lt' (lt_trans hlt (by decide))]
          · exact lookup_setPx (f := (fences (c, s)).grant (owner, profile)) c s
              (g := ((owner, profile), (fences (c, s)).counter + 1)) rfl hlt ttl'
        · simp only [if_neg hlt] at hl
          cases hl

theorem Tracks.pexpire (h : Tracks r fences) (c : CommunityId) (s : SessionId) (ttl : ℕ) :
    Tracks (r.pexpire (SessionKeys.new c s).lease ttl) fences := by
  apply h.mono
  · intro c' s'
    rcases Redis.entries_pexpire r (SessionKeys.new c s).lease ttl
      (SessionKeys.new c' s').generation with heq | ⟨hkey, _⟩
    · exact heq
    · exact absurd hkey.symm (lease_key_ne_generation_key _ _ _ _)
  · intro c' s' e he
    rcases Redis.entries_pexpire r (SessionKeys.new c s).lease ttl
      (SessionKeys.new c' s').lease with heq | ⟨_, e', deadline, he', heq⟩
    · exact ⟨e, heq ▸ he, rfl⟩
    · rw [heq] at he
      cases he
      exact ⟨e', he', rfl⟩

theorem Tracks.del (h : Tracks r fences) (c : CommunityId) (s : SessionId) :
    Tracks (r.del (SessionKeys.new c s).lease) fences := by
  apply h.mono
  · intro c' s'
    exact Redis.entries_setEntry_ne (lease_key_ne_generation_key _ _ _ _).symm
  · intro c' s' e he
    by_cases hkey : (SessionKeys.new c' s').lease = (SessionKeys.new c s).lease
    · rw [Redis.del, hkey, Redis.entries_setEntry_self] at he
      cases he
    · rw [Redis.del, Redis.entries_setEntry_ne hkey] at he
      exact ⟨e, he, rfl⟩

theorem Tracks.evict (h : Tracks r fences) (key : String) : Tracks (r.evict key) fences := by
  apply h.mono
  · intro c s
    rcases Redis.entries_evict r key (SessionKeys.new c s).generation with heq | ⟨_, e, he, hexp⟩
    · exact heq
    · have hcounter := (h (c, s)).counter_eq
      rw [he] at hcounter
      split at hcounter
      · cases hcounter
      · cases hcounter
        cases hexp
  · intro c s e he
    rcases Redis.entries_evict r key (SessionKeys.new c s).lease with heq | ⟨hnone, _⟩
    · exact ⟨e, heq ▸ he, rfl⟩
    · rw [hnone] at he
      cases he

theorem renew_cases (leaseTtl : ℕ) (r : Redis) (lease : SessionLease) :
    ((renew leaseTtl r lease).1 = r ∧ ∀ l, (renew leaseTtl r lease).2 ≠ .ok (.renewed l)) ∨
    ∃ current profile ttl,
      r.get (SessionKeys.new lease.communityId lease.sessionId).lease = some current ∧
      matchLease current =
        some (hexEncode lease.ownerRuntimeId, toString lease.generation.toNat, profile) ∧
      (renew leaseTtl r lease).1 =
        r.pexpire (SessionKeys.new lease.communityId lease.sessionId).lease ttl := by
  unfold renew
  cases ttlMs leaseTtl with
  | error e => exact .inl ⟨rfl, fun l hl ↦ nomatch hl⟩
  | ok ttl =>
    rcases renewScript_cases r (.new lease.communityId lease.sessionId)
      (hexEncode lease.ownerRuntimeId) (toString lease.generation.toNat) ttl with
      ⟨hstate, hreply⟩ | ⟨current, profile, ttl', hget, hmatch, hstate⟩
    · refine .inl ⟨hstate, fun l hl ↦ ?_⟩
      dsimp only at hl
      split at hl
      · cases hl
      · next status value known hscript =>
        cases hparse : parseOptionalLease lease.communityId lease.sessionId value with
        | error e => rw [hparse] at hl; cases hl
        | ok current =>
          have hstatus : status ≠ "renewed" := fun heq ↦ hreply value known (heq ▸ hscript)
          simp only [hparse, bind, Except.bind, if_neg hstatus] at hl
          split at hl
          · cases hknown : parseOptionalGeneration lease.communityId lease.sessionId known with
            | error e => rw [hknown] at hl; cases hl
            | ok known => rw [hknown] at hl; cases hl
          · cases hl
    · exact .inr ⟨current, profile, ttl', hget, hmatch, hstate⟩

theorem release_cases (r : Redis) (lease : SessionLease) :
    ((release r lease).1 = r ∧ ∀ l, (release r lease).2 ≠ .ok (.released l)) ∨
    ∃ current profile,
      r.get (SessionKeys.new lease.communityId lease.sessionId).lease = some current ∧
      matchLease current =
        some (hexEncode lease.ownerRuntimeId, toString lease.generation.toNat, profile) ∧
      (release r lease).1 =
        r.del (SessionKeys.new lease.communityId lease.sessionId).lease := by
  unfold release
  rcases releaseScript_cases r (.new lease.communityId lease.sessionId)
    (hexEncode lease.ownerRuntimeId) (toString lease.generation.toNat) with
    ⟨hstate, hreply⟩ | ⟨current, profile, hget, hmatch, hstate⟩
  · refine .inl ⟨hstate, fun l hl ↦ ?_⟩
    dsimp only at hl
    split at hl
    · cases hl
    · next status value known hscript =>
      cases hparse : parseOptionalLease lease.communityId lease.sessionId value with
      | error e => rw [hparse] at hl; cases hl
      | ok current =>
        have hstatus : status ≠ "released" := fun heq ↦ hreply value known (heq ▸ hscript)
        simp only [hparse, bind, Except.bind, if_neg hstatus] at hl
        split at hl
        · cases hknown : parseOptionalGeneration lease.communityId lease.sessionId known with
          | error e => rw [hknown] at hl; cases hl
          | ok known => rw [hknown] at hl; cases hl
        · cases hl
  · exact .inr ⟨current, profile, hget, hmatch, hstate⟩

end Steps

section Run

variable {r : Redis} {fences : CommunityId × SessionId → Fence Holder}

theorem step_tracks (h : Tracks r fences) (op : Op) :
    ∃ fences', Tracks (op.apply r) fences' ∧ (∀ k, (fences k).Extends (fences' k)) ∧
      ∀ lease, op.acquired r = some lease →
        lease.grant.2 = (fences lease.key).counter + 1 ∧
          lease.grant ∈ (fences' lease.key).grants ∧ Holds (op.apply r) lease := by
  have hkeep {r' : Redis} (hr' : Tracks r' fences) (hnone : ∀ lease, op.acquired r ≠ some lease) :
      ∃ fences', Tracks r' fences' ∧ (∀ k, (fences k).Extends (fences' k)) ∧
        ∀ lease, op.acquired r = some lease →
          lease.grant.2 = (fences lease.key).counter + 1 ∧
            lease.grant ∈ (fences' lease.key).grants ∧ Holds r' lease :=
    ⟨fences, hr', fun k ↦ Fence.Extends.refl _, fun lease hl ↦ absurd hl (hnone lease)⟩
  cases op with
  | acquire leaseTtl c s owner profile =>
    obtain ⟨f, htracks, hext, hacq⟩ := acquire_spec h leaseTtl c s owner profile
    refine ⟨Function.update fences (c, s) f, htracks, fun k ↦ ?_, fun lease hl ↦ ?_⟩
    · by_cases hk : k = (c, s)
      · rw [hk, Function.update_self]
        exact hext
      · rw [Function.update_of_ne hk]
        exact Fence.Extends.refl _
    · have hres : (acquire leaseTtl r c s owner profile).2 = .ok (.acquired lease) := by
        simp only [Op.acquired] at hl
        split at hl
        · next hres =>
          rw [← Option.some.inj hl]
          exact hres
        · cases hl
      obtain ⟨hkey, hgrant, hf, hholds⟩ := hacq lease hres
      rw [hkey, hgrant, Function.update_self, hf]
      exact ⟨rfl, List.mem_cons_self, hholds⟩
  | renew leaseTtl lease =>
    apply hkeep _ nofun
    rcases renew_cases leaseTtl r lease with ⟨hstate, _⟩ | ⟨_, _, ttl, _, _, hstate⟩
    · rw [Op.apply, hstate]
      exact h
    · rw [Op.apply, hstate]
      exact h.pexpire _ _ ttl
  | release lease =>
    apply hkeep _ nofun
    rcases release_cases r lease with ⟨hstate, _⟩ | ⟨_, _, _, _, hstate⟩
    · rw [Op.apply, hstate]
      exact h
    · rw [Op.apply, hstate]
      exact h.del _ _
  | validate c fenced => exact hkeep h nofun
  | setClock now => exact hkeep (fun k ↦ ⟨(h k).counter_eq, (h k).lease_eq⟩) nofun
  | evict key => exact hkeep (h.evict key) nofun

theorem run_tracks (h : Tracks r fences) (ops : List Op) :
    ∃ fences', Tracks (ops.foldl Op.apply r) fences' ∧ ∀ k, (fences k).Extends (fences' k) := by
  induction ops generalizing r fences with
  | nil => exact ⟨fences, h, fun k ↦ Fence.Extends.refl _⟩
  | cons op ops ih =>
    obtain ⟨fences₁, h₁, hext₁, _⟩ := step_tracks h op
    obtain ⟨fences₂, h₂, hext₂⟩ := ih h₁
    exact ⟨fences₂, h₂, fun k ↦ (hext₁ k).trans (hext₂ k)⟩

theorem reachable_tracks (now : ℕ) (ops : List Op) :
    ∃ fences, Tracks (runDirectory now ops) fences := by
  obtain ⟨fences, h, _⟩ := run_tracks (Tracks.empty now) ops
  exact ⟨fences, h⟩

/-- A lease handed out in the middle of a run is among the grants of its end. -/
theorem acquired_mem_grants {now : ℕ} {pre : List Op} {op : Op} {lease : SessionLease}
    (hacq : op.acquired (runDirectory now pre) = some lease) (mid : List Op) :
    ∃ fences, Tracks (runDirectory now (pre ++ op :: mid)) fences ∧
      lease.grant ∈ (fences lease.key).grants := by
  obtain ⟨fences₀, h₀⟩ := reachable_tracks now pre
  obtain ⟨fences₁, h₁, _, hstep⟩ := step_tracks h₀ op
  obtain ⟨fences₂, h₂, hext⟩ := run_tracks h₁ mid
  refine ⟨fences₂, ?_, (hext lease.key).mem (hstep lease hacq).2.1⟩
  rw [runDirectory, List.foldl_append, List.foldl_cons]
  exact h₂

theorem validate_ok (c : CommunityId) (fenced : FencedHeader)
    (hvalid : validateFencedHeader r c fenced = .ok ()) :
    ∃ lease, Holds r lease ∧ lease.communityId = c ∧ lease.fencedHeader = fenced := by
  unfold validateFencedHeader validateScript at hvalid
  dsimp only at hvalid
  split at hvalid
  · cases hvalid
  · split at hvalid
    · cases hvalid
    · next current hparse =>
      split at hvalid
      · cases hvalid
      · cases hget : r.get (SessionKeys.new c fenced.sessionId).lease with
        | none =>
          rw [hget] at hparse
          cases hparse
          cases hvalid
        | some value =>
          rw [hget, Option.getD_some] at hparse
          cases current with
          | none => cases hvalid
          | some lease =>
            dsimp only at hvalid
            split at hvalid
            · cases hvalid
            · next hgeneration =>
              split at hvalid
              · cases hvalid
              · next howner =>
                rw [not_not] at hgeneration howner
                unfold parseOptionalLease at hparse
                split at hparse
                · cases hparse
                · cases hlease : parseLease c fenced.sessionId value with
                  | error e => rw [hlease] at hparse; cases hparse
                  | ok lease' =>
                    rw [hlease] at hparse
                    cases hparse
                    obtain ⟨hc, hs⟩ := parseLease_scope hlease
                    refine ⟨lease, ?_, hc, ?_⟩
                    · rw [Holds, lookup, hc, hs, hget]
                      simp only [hlease, Except.map]
                    · rw [SessionLease.fencedHeader, hs, ← hgeneration, ← howner]

end Run

section Fencing

variable {r : Redis} {fences : CommunityId × SessionId → Fence Holder}

theorem get_of_holds {lease : SessionLease} (hlease : Holds r lease) :
    ∃ value, r.get (SessionKeys.new lease.communityId lease.sessionId).lease = some value ∧
      parseLease lease.communityId lease.sessionId value = .ok lease := by
  rw [Holds, lookup] at hlease
  split at hlease
  · cases hlease
  · next value hget =>
    refine ⟨value, hget, ?_⟩
    cases hparse : parseLease lease.communityId lease.sessionId value with
    | error e => rw [hparse] at hlease; cases hlease
    | ok lease' =>
      rw [hparse] at hlease
      exact congrArg _ (Option.some.inj (Except.ok.inj hlease))

/-- The live lease passes its own fence while it is the newest generation. -/
theorem validate_of_holds (h : Tracks r fences) {lease : SessionLease} (hlease : Holds r lease)
    (hcounter : (fences lease.key).counter = lease.generation.toNat) :
    validateFencedHeader r lease.communityId lease.fencedHeader = .ok () := by
  have hhead := hlease.head h
  have hpos : 0 < lease.generation.toNat :=
    ((fences lease.key).bounded _ (List.mem_of_head? hhead)).1
  have hne : lease.generation ≠ 0 := by
    intro hzero
    rw [hzero] at hpos
    exact absurd hpos (lt_irrefl _)
  obtain ⟨value, hget, hparse⟩ := get_of_holds hlease
  obtain ⟨g, _, hvalue⟩ := (h lease.key).get_lease hget
  have hempty : value ≠ "" := hvalue ▸ leaseValue_ne_empty g.1.1 g.2 g.1.2
  have hknown : parseOptionalGeneration lease.communityId lease.sessionId
      (toString lease.generation.toNat) = .ok (some lease.generation) := by
    have hu64 : parseU64 (toString lease.generation.toNat) = some lease.generation := by
      rw [parseU64_toString, if_pos lease.generation.toNat_lt, UInt64.ofNat_toNat]
    have htext : toString lease.generation.toNat ≠ "" := by
      intro heq
      rw [heq] at hu64
      cases hu64
    simp only [parseOptionalGeneration, if_neg htext, hu64, if_neg hne]
  have hgeneration : r.get (SessionKeys.new lease.communityId lease.sessionId).generation =
      some (toString lease.generation.toNat) := by
    have hget := (h lease.key).get_generation
    rw [hcounter, if_neg (by omega)] at hget
    exact hget
  have hirrefl (g : UInt64) : ¬g < g := by
    rw [UInt64.lt_iff_toNat_lt]
    omega
  have hmax (g : UInt64) : maxGeneration g g = g := if_neg (hirrefl g)
  unfold validateFencedHeader validateScript
  simp only [SessionLease.fencedHeader, hget, hgeneration, Option.getD_some, hknown,
    parseOptionalLease, if_neg hempty, hparse, Except.map, Option.map_some, hmax, hirrefl,
    and_false, if_false, ne_eq, not_true_eq_false]

theorem acquire_exists {leaseTtl : ℕ} {c : CommunityId} {s : SessionId} {owner : RuntimeId}
    {profile : Profile} {lease : SessionLease}
    (hres : (acquire leaseTtl r c s owner profile).2 = .ok (.exists lease)) :
    (acquire leaseTtl r c s owner profile).1 = r ∧ lease.key = (c, s) ∧ Holds r lease := by
  unfold acquire at hres ⊢
  cases httl : ttlMs leaseTtl with
  | error e =>
    rw [httl] at hres
    cases hres
  | ok ttl =>
    rw [httl] at hres
    rcases acquireScript_cases r (.new c s) (hexEncode owner) profile.asWireStr ttl with
      ⟨current, hget, hscript⟩ | ⟨text, hscript⟩ | ⟨n, r', hincr, hscript | ⟨ttl', hscript⟩⟩
    · simp only [hscript, bind, Except.bind] at hres ⊢
      cases hparse : parseLease c s current with
      | error e => rw [hparse] at hres; cases hres
      | ok lease' =>
        rw [hparse] at hres
        cases hres
        obtain ⟨hc, hs⟩ := parseLease_scope hparse
        refine ⟨trivial, Prod.ext hc hs, ?_⟩
        rw [Holds, lookup, hc, hs, hget]
        simp only [hparse, Except.map]
    · simp only [hscript] at hres
      cases hres
    · simp only [hscript] at hres
      cases hres
    · simp only [hscript, bind, Except.bind] at hres
      split at hres
      · cases hres
      · cases hres

structure Fenced (now : ℕ) : Prop where
  generations_increase : ∀ (pre mid : List Op) (op₁ op₂ : Op) (lease₁ lease₂ : SessionLease),
    op₁.acquired (runDirectory now pre) = some lease₁ →
    op₂.acquired (runDirectory now (pre ++ op₁ :: mid)) = some lease₂ →
    lease₁.key = lease₂.key → lease₁.generation < lease₂.generation
  acquired_holds : ∀ (pre : List Op) (op : Op) (lease : SessionLease),
    op.acquired (runDirectory now pre) = some lease → Holds (runDirectory now (pre ++ [op])) lease
  one_owner : ∀ (pre mid : List Op) (lease₁ lease₂ : SessionLease),
    Holds (runDirectory now pre) lease₁ → Holds (runDirectory now (pre ++ mid)) lease₂ →
    lease₁.key = lease₂.key → lease₁.generation = lease₂.generation → lease₁ = lease₂
  lost_renew : ∀ (ops : List Op) (leaseTtl : ℕ) (lease : SessionLease),
    (∀ profile, ¬Holds (runDirectory now ops) { lease with profile }) →
    (renew leaseTtl (runDirectory now ops) lease).1 = runDirectory now ops ∧
      ∀ l, (renew leaseTtl (runDirectory now ops) lease).2 ≠ .ok (.renewed l)
  lost_release : ∀ (ops : List Op) (lease : SessionLease),
    (∀ profile, ¬Holds (runDirectory now ops) { lease with profile }) →
    (release (runDirectory now ops) lease).1 = runDirectory now ops ∧
      ∀ l, (release (runDirectory now ops) lease).2 ≠ .ok (.released l)
  superseded : ∀ (pre mid : List Op) (op : Op) (newer older : SessionLease) (leaseTtl : ℕ),
    op.acquired (runDirectory now pre) = some newer → older.key = newer.key →
    older.generation < newer.generation →
    (renew leaseTtl (runDirectory now (pre ++ op :: mid)) older).1 =
        runDirectory now (pre ++ op :: mid) ∧
      (release (runDirectory now (pre ++ op :: mid)) older).1 =
        runDirectory now (pre ++ op :: mid)
  accepted_is_live : ∀ (ops : List Op) (c : CommunityId) (fenced : FencedHeader),
    validateFencedHeader (runDirectory now ops) c fenced = .ok () →
    ∃ lease, Holds (runDirectory now ops) lease ∧ lease.communityId = c ∧
      lease.fencedHeader = fenced
  owner_accepted : ∀ (pre : List Op) (op : Op) (lease : SessionLease),
    op.acquired (runDirectory now pre) = some lease →
    validateFencedHeader (runDirectory now (pre ++ [op])) lease.communityId
      lease.fencedHeader = .ok ()
  older_rejected : ∀ (pre mid : List Op) (op : Op) (newer : SessionLease) (fenced : FencedHeader),
    op.acquired (runDirectory now pre) = some newer → fenced.sessionId = newer.sessionId →
    fenced.generation < newer.generation →
    validateFencedHeader (runDirectory now (pre ++ op :: mid)) newer.communityId fenced ≠ .ok ()
  join_owned : ∀ (ops : List Op) (leaseTtl : ℕ) (localRuntimeId : RuntimeId)
    (openSessionStream : RuntimeId → StreamHello → Except MeshError Unit) (c : CommunityId)
    (s : SessionId) (lease : SessionLease),
    (join leaseTtl localRuntimeId openSessionStream (runDirectory now ops) c s).2 =
      .ok (.owned lease) →
    lease.ownerRuntimeId = localRuntimeId ∧ lease.key = (c, s) ∧
      Holds (join leaseTtl localRuntimeId openSessionStream (runDirectory now ops) c s).1 lease

theorem generation_lt_of_grant {lease₁ lease₂ : SessionLease}
    (h : lease₁.grant.2 < lease₂.grant.2) : lease₁.generation < lease₂.generation :=
  UInt64.lt_iff_toNat_lt.mpr h

theorem not_holds_of_older {newer older : SessionLease} (h : Tracks r fences)
    (hgrant : newer.grant ∈ (fences newer.key).grants) (hkey : older.key = newer.key)
    (hlt : older.generation < newer.generation) : ¬Holds r older := by
  intro hholds
  have hhead := hholds.head h
  rw [hkey] at hhead
  have hle := Fence.le_head hhead hgrant
  have := UInt64.lt_iff_toNat_lt.mp hlt
  simp only [SessionLease.grant] at hle
  omega

theorem renew_lost (h : Tracks r fences) (leaseTtl : ℕ) {lease : SessionLease}
    (hlost : ∀ profile, ¬Holds r { lease with profile }) :
    (renew leaseTtl r lease).1 = r ∧ ∀ l, (renew leaseTtl r lease).2 ≠ .ok (.renewed l) := by
  rcases renew_cases leaseTtl r lease with hkept | ⟨current, profile, ttl, hget, hmatch, _⟩
  · exact hkept
  · obtain ⟨p, hholds⟩ := holds_of_match h hget hmatch
    exact absurd hholds (hlost p)

theorem release_lost (h : Tracks r fences) {lease : SessionLease}
    (hlost : ∀ profile, ¬Holds r { lease with profile }) :
    (release r lease).1 = r ∧ ∀ l, (release r lease).2 ≠ .ok (.released l) := by
  rcases release_cases r lease with hkept | ⟨current, profile, hget, hmatch, _⟩
  · exact hkept
  · obtain ⟨p, hholds⟩ := holds_of_match h hget hmatch
    exact absurd hholds (hlost p)

theorem runDirectory_append (now : ℕ) (pre post : List Op) :
    runDirectory now (pre ++ post) = post.foldl Op.apply (runDirectory now pre) :=
  List.foldl_append

theorem acquired_spec {op : Op} {lease : SessionLease} (h : Tracks r fences)
    (hacq : op.acquired r = some lease) :
    ∃ fences', Tracks (op.apply r) fences' ∧
      (fences' lease.key).counter = lease.generation.toNat ∧ Holds (op.apply r) lease := by
  cases op with
  | acquire leaseTtl c s owner profile =>
    have hres : (acquire leaseTtl r c s owner profile).2 = .ok (.acquired lease) := by
      simp only [Op.acquired] at hacq
      split at hacq
      · next hres =>
        rw [← Option.some.inj hacq]
        exact hres
      · cases hacq
    obtain ⟨f, htracks, _, hspec⟩ := acquire_spec h leaseTtl c s owner profile
    obtain ⟨hkey, hgrant, hf, hholds⟩ := hspec lease hres
    refine ⟨_, htracks, ?_, hholds⟩
    rw [hkey, Function.update_self, hf]
    exact (congrArg Prod.snd hgrant).symm
  | renew _ _ => cases hacq
  | release _ => cases hacq
  | validate _ _ => cases hacq
  | setClock _ => cases hacq
  | evict _ => cases hacq

theorem directory_fenced (now : ℕ) : Fenced now where
  generations_increase := by
    intro pre mid op₁ op₂ lease₁ lease₂ h₁ h₂ hkey
    obtain ⟨fences, hfences, hmem⟩ := acquired_mem_grants h₁ mid
    obtain ⟨_, _, _, hstep⟩ := step_tracks hfences op₂
    have hlt := (Fence.Extends.refl (fences lease₁.key)).lt_grant hmem
    apply generation_lt_of_grant
    rw [(hstep lease₂ h₂).1, ← hkey]
    exact hlt
  acquired_holds := by
    intro pre op lease hacq
    obtain ⟨fences, hfences⟩ := reachable_tracks now pre
    obtain ⟨_, _, _, hholds⟩ := acquired_spec hfences hacq
    rw [runDirectory_append]
    exact hholds
  one_owner := by
    intro pre mid lease₁ lease₂ h₁ h₂ hkey hgeneration
    obtain ⟨fences₁, hfences₁⟩ := reachable_tracks now pre
    obtain ⟨fences₂, hfences₂, hext⟩ := run_tracks hfences₁ mid
    rw [runDirectory_append] at h₂
    have hmem₁ := (hext lease₁.key).mem (List.mem_of_head? (h₁.head hfences₁))
    have hmem₂ := List.mem_of_head? (h₂.head hfences₂)
    rw [← hkey] at hmem₂
    have hgrant := Fence.owner_unique hmem₁ hmem₂ (congrArg UInt64.toNat hgeneration)
    obtain ⟨howner, hprofile⟩ := Prod.mk.inj (Prod.mk.inj hgrant).1
    obtain ⟨hc, hs⟩ := Prod.mk.inj hkey
    cases lease₁
    cases lease₂
    simp only [SessionLease.mk.injEq]
    exact ⟨hc, hs, howner, hgeneration, hprofile⟩
  lost_renew := by
    intro ops leaseTtl lease hlost
    obtain ⟨fences, hfences⟩ := reachable_tracks now ops
    exact renew_lost hfences leaseTtl hlost
  lost_release := by
    intro ops lease hlost
    obtain ⟨fences, hfences⟩ := reachable_tracks now ops
    exact release_lost hfences hlost
  superseded := by
    intro pre mid op newer older leaseTtl hacq hkey hlt
    obtain ⟨fences, hfences, hmem⟩ := acquired_mem_grants hacq mid
    have hlost (profile : Profile) :
        ¬Holds (runDirectory now (pre ++ op :: mid)) { older with profile } :=
      not_holds_of_older hfences hmem hkey hlt
    exact ⟨(renew_lost hfences leaseTtl hlost).1, (release_lost hfences hlost).1⟩
  accepted_is_live := fun ops c fenced hvalid ↦ validate_ok c fenced hvalid
  owner_accepted := by
    intro pre op lease hacq
    obtain ⟨fences, hfences⟩ := reachable_tracks now pre
    obtain ⟨fences', hfences', hcounter, hholds⟩ := acquired_spec hfences hacq
    rw [runDirectory_append]
    exact validate_of_holds hfences' hholds hcounter
  older_rejected := by
    intro pre mid op newer fenced hacq hsession hlt hvalid
    obtain ⟨fences, hfences, hmem⟩ := acquired_mem_grants hacq mid
    obtain ⟨lease, hholds, hc, rfl⟩ := validate_ok newer.communityId fenced hvalid
    exact not_holds_of_older hfences hmem (Prod.ext hc hsession) hlt hholds
  join_owned := by
    intro ops leaseTtl localRuntimeId openSessionStream c s lease hjoin
    obtain ⟨fences, hfences⟩ := reachable_tracks now ops
    unfold join at hjoin ⊢
    dsimp only at hjoin ⊢
    split at hjoin
    · cases hjoin
    · next lease' hres =>
      obtain rfl := ReliableJoin.owned.inj (Except.ok.inj hjoin)
      obtain ⟨_, _, _, hspec⟩ :=
        acquire_spec hfences leaseTtl c s localRuntimeId .reliableStream
      obtain ⟨hkey, hgrant, _, hholds⟩ := hspec _ hres
      exact ⟨congrArg (fun g ↦ g.1.1) hgrant, hkey, hholds⟩
    · next lease' hres =>
      obtain ⟨hstate, hkey, hholds⟩ := acquire_exists hres
      split at hjoin
      · cases hjoin
      · split at hjoin
        · next howner =>
          obtain rfl := ReliableJoin.owned.inj (Except.ok.inj hjoin)
          exact ⟨howner, hkey, hstate.symm ▸ hholds⟩
        · split at hjoin
          · cases hjoin
          · cases hjoin

example : Op.acquired (runDirectory 0 [.acquire 30 1 2 3 .reliableStream, .setClock 31])
    (.acquire 30 1 2 4 .reliableStream) = some ⟨1, 2, 4, 2, .reliableStream⟩ := by decide +kernel

end Fencing

end Buzz.Relay.Tunnel
