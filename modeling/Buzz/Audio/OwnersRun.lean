import Buzz.Audio.Owners

namespace Buzz.Audio.OwnerPod

open Buzz.Lib Buzz.Nostr Buzz.Relay.Tunnel

section Directory

variable {r : Redis} {fences : CommunityId × SessionId → Fence Holder} {lease : SessionLease}

/-- The stored value of a live lease is the one its holder sends. -/
theorem match_of_holds (h : Tracks r fences) (hlease : Holds r lease) :
    ∃ value, r.get (SessionKeys.new lease.communityId lease.sessionId).lease = some value ∧
      matchLease value = some (hexEncode lease.ownerRuntimeId, toString lease.generation.toNat,
        lease.profile.asWireStr) := by
  have hhead := hlease.head h
  obtain ⟨value, hget, -⟩ := get_of_holds hlease
  obtain ⟨g, hg, rfl⟩ := (h lease.key).get_lease hget
  obtain rfl := Option.some.inj (hhead.symm.trans hg)
  refine ⟨_, hget, ?_⟩
  have hlt : lease.grant.2 < 10 ^ 14 := by
    rw [Holds, lookup_value _ _ hg hget] at hlease
    by_contra hge
    rw [if_neg hge] at hlease
    cases hlease
  rw [Holder.value, matchLease_leaseValue, Decimal.luaToString_of_lt hlt]
  rfl

/-- A lease is not live once it was released. -/
theorem not_holds_release (h : Tracks r fences) (lease : SessionLease) :
    ¬Holds (release r lease).1 lease := by
  intro hafter
  by_cases hbefore : Holds r lease
  · obtain ⟨value, hget, hmatch⟩ := match_of_holds h hbefore
    have hdel : (release r lease).1 =
        r.del (SessionKeys.new lease.communityId lease.sessionId).lease := by
      rw [release, releaseScript, hget]
      dsimp only
      rw [hmatch]
      dsimp only
      rw [if_pos ⟨rfl, rfl⟩]
    obtain ⟨value', hget', -⟩ := get_of_holds hafter
    rw [hdel, Redis.get_eq_none_of_absent] at hget'
    · cases hget'
    · exact Redis.entries_setEntry_self
  · rcases release_cases r lease with ⟨hsame, -⟩ | ⟨value, profile, hget, hmatch, hdel⟩
    · rw [hsame] at hafter
      exact hbefore hafter
    · obtain ⟨value', hget', -⟩ := get_of_holds hafter
      rw [hdel, Redis.get_eq_none_of_absent] at hget'
      · cases hget'
      · exact Redis.entries_setEntry_self

theorem tracked_call {α : Type} (net : Net) {result : Redis × Except DirectoryError α}
    (h : ∃ fences, Tracks r fences) (hresult : ∃ fences, Tracks result.1 fences) :
    ∃ fences, Tracks (call net r result).1 fences := by
  cases net with
  | answered => exact hresult
  | unsent => exact h
  | unanswered => exact hresult

theorem tracked_apply (h : ∃ fences, Tracks r fences) (op : Relay.Tunnel.Op) :
    ∃ fences, Tracks (op.apply r) fences := by
  obtain ⟨fences, h⟩ := h
  obtain ⟨fences', h', -⟩ := step_tracks h op
  exact ⟨fences', h'⟩

end Directory

/-- The lease and the entry of an `attach_signals` past its lookup. -/
def Phase.own : Phase → Option (SessionLease × HuddleOwnerEntry)
  | .inserting lease e | .rechecking lease e | .retracting lease e => some (lease, e)
  | _ => none

structure Made (s : Pod) (sessionId : SessionId) (lease : SessionLease) (e : HuddleOwnerEntry) :
    Prop where
  epoch : (sessionId, e) ∈ s.epochs
  generation : e.generation = lease.generation
  renewer : ∃ r ∈ s.renewers, r.lease = lease ∧ r.cancel = e.cancel

structure Inv (s : Pod) : Prop where
  tracked : ∃ fences, Tracks s.redis fences
  fresh : ∀ p ∈ s.epochs, p.2.lost < s.nextToken
  unique : ∀ p ∈ s.epochs, ∀ q ∈ s.epochs, p.2.lost = q.2.lost → p = q
  registered : ∀ sessionId e, s.entries.lookup sessionId = some e → (sessionId, e) ∈ s.epochs
  made : ∀ j ∈ s.joins, ∀ lease e, j.phase.own = some (lease, e) → Made s j.sessionId lease e
  ended : ∀ r ∈ s.renewers, r.task = .ended → r.lease ∈ s.released

structure Grows (s s' : Pod) : Prop where
  epochs : ∀ p ∈ s.epochs, p ∈ s'.epochs
  renewers : ∀ r ∈ s.renewers, ∃ r' ∈ s'.renewers, r'.lease = r.lease ∧ r'.cancel = r.cancel

variable {s s' : Pod} {sessionId : SessionId} {lease : SessionLease} {e : HuddleOwnerEntry}
  {communityId : CommunityId} {leaseTtl : ℕ} {localRuntimeId : RuntimeId} {net : Net}

theorem Grows.refl (s : Pod) : Grows s s := ⟨fun _ ↦ id, fun r hr ↦ ⟨r, hr, rfl, rfl⟩⟩

theorem Grows.of_eq {t : Pod} (hepochs : t.epochs = s.epochs)
    (hrenewers : t.renewers = s.renewers) : Grows s t where
  epochs _ hp := hepochs ▸ hp
  renewers r hr := ⟨r, hrenewers ▸ hr, rfl, rfl⟩

theorem Grows.trans {t : Pod} (h : Grows s s') (h' : Grows s' t) : Grows s t where
  epochs p hp := h'.epochs p (h.epochs p hp)
  renewers r hr := by
    obtain ⟨r₁, hr₁, hlease₁, hcancel₁⟩ := h.renewers r hr
    obtain ⟨r₂, hr₂, hlease₂, hcancel₂⟩ := h'.renewers r₁ hr₁
    exact ⟨r₂, hr₂, hlease₂.trans hlease₁, hcancel₂.trans hcancel₁⟩

theorem Made.grow (h : Made s sessionId lease e) (hgrow : Grows s s') :
    Made s' sessionId lease e where
  epoch := hgrow.epochs _ h.epoch
  generation := h.generation
  renewer := by
    obtain ⟨r, hr, hlease, hcancel⟩ := h.renewer
    obtain ⟨r', hr', hlease', hcancel'⟩ := hgrow.renewers r hr
    exact ⟨r', hr', hlease'.trans hlease, hcancel'.trans hcancel⟩

theorem Inv.start (now : ℕ) : Inv (Pod.start now) where
  tracked := ⟨_, Tracks.empty now⟩
  fresh := nofun
  unique := nofun
  registered _ _ h := nomatch h
  made := nofun
  ended := nofun

/-- A step that makes no entry keeps the invariant if it keeps these parts of it. -/
theorem Inv.same_epochs (h : Inv s) (hgrow : Grows s s') (hjoins : s'.joins = s.joins)
    (htracked : ∃ fences, Tracks s'.redis fences) (hepochs : s'.epochs = s.epochs)
    (hnext : s.nextToken ≤ s'.nextToken)
    (hregistered : ∀ sessionId e, s'.entries.lookup sessionId = some e →
      (sessionId, e) ∈ s.epochs)
    (hended : ∀ r ∈ s'.renewers, r.task = .ended → r.lease ∈ s'.released) : Inv s' where
  tracked := htracked
  fresh p hp := (h.fresh p (hepochs ▸ hp)).trans_le hnext
  unique p hp q hq := h.unique p (hepochs ▸ hp) q (hepochs ▸ hq)
  registered sessionId e he := hepochs ▸ hregistered sessionId e he
  made j hj lease e hown := (h.made j (hjoins ▸ hj) lease e hown).grow hgrow
  ended := hended

theorem Inv.setRedis (h : Inv s) {r : Redis} (hr : ∃ fences, Tracks r fences) :
    Inv { s with redis := r } :=
  h.same_epochs (.of_eq rfl rfl) rfl hr rfl le_rfl h.registered h.ended

theorem Grows.addRenewer {t : Pod} {r : Renewer} (hepochs : ∀ p ∈ s.epochs, p ∈ t.epochs)
    (hrenewers : t.renewers = s.renewers ++ [r]) :
    Grows s t where
  epochs := hepochs
  renewers r' hr' := ⟨r', hrenewers ▸ List.mem_append_left _ hr', rfl, rfl⟩

theorem ended_append {r : Renewer} (hr : r.task = .waiting) (h : Inv s) :
    ∀ r' ∈ s.renewers ++ [r], r'.task = .ended → r'.lease ∈ s.released := by
  intro r' hr' hended
  rcases List.mem_append.mp hr' with hold | hnew
  · exact h.ended r' hold hended
  · obtain rfl := List.mem_singleton.mp hnew
    rw [hr] at hended
    nomatch hended

theorem Inv.setJoins (h : Inv s) {joins : List Join}
    (hmade : ∀ j ∈ joins, ∀ lease e, j.phase.own = some (lease, e) → Made s j.sessionId lease e) :
    Inv { s with joins } where
  tracked := h.tracked
  fresh := h.fresh
  unique := h.unique
  registered := h.registered
  made j hj lease e hown := (hmade j hj lease e hown).grow (.of_eq rfl rfl)
  ended := h.ended

theorem grows_throwAway : Grows s (s.throwAway lease) := .addRenewer (fun _ ↦ id) rfl

theorem Inv.throwAway (h : Inv s) : Inv (s.throwAway lease) :=
  h.same_epochs grows_throwAway rfl h.tracked rfl (Nat.le_succ _) h.registered (ended_append rfl h)

theorem grows_refuse : Grows s (s.refuse lease) := .addRenewer (fun _ ↦ id) rfl

theorem Inv.refuse (h : Inv s) : Inv (s.refuse lease) :=
  h.same_epochs grows_refuse rfl h.tracked rfl (Nat.le_add_right _ 2) h.registered
    (ended_append rfl h)

theorem grows_spawn : Grows s (s.spawn sessionId lease) :=
  .addRenewer (fun _ hp ↦ List.mem_append_left _ hp) rfl

theorem made_spawn : Made (s.spawn sessionId lease) sessionId lease (s.newEntry lease) where
  epoch := List.mem_append_right _ (List.mem_singleton_self _)
  generation := rfl
  renewer := ⟨_, List.mem_append_right _ (List.mem_singleton_self _), rfl, rfl⟩

theorem Inv.spawn (h : Inv s) : Inv (s.spawn sessionId lease) where
  tracked := h.tracked
  fresh p hp := by
    rcases List.mem_append.mp hp with hold | hnew
    · exact (h.fresh p hold).trans (Nat.lt_succ_self _)
    · obtain rfl := List.mem_singleton.mp hnew
      exact Nat.lt_succ_self _
  unique p hp q hq hlost := by
    rcases List.mem_append.mp hp with hp | hp <;> rcases List.mem_append.mp hq with hq | hq
    · exact h.unique p hp q hq hlost
    · obtain rfl := List.mem_singleton.mp hq
      exact absurd hlost (h.fresh p hp).ne
    · obtain rfl := List.mem_singleton.mp hp
      exact absurd hlost.symm (h.fresh q hq).ne
    · rw [List.mem_singleton.mp hp, List.mem_singleton.mp hq]
  registered sessionId' e he := List.mem_append_left _ (h.registered sessionId' e he)
  made j hj lease' e hown := (h.made j hj lease' e hown).grow grows_spawn
  ended := ended_append rfl h

theorem Inv.insert (h : Inv s) (hmade : Made s sessionId lease e) :
    Inv { s with entries := s.entries.insert sessionId e } := by
  refine h.same_epochs (.of_eq rfl rfl) rfl h.tracked rfl le_rfl
    (fun sessionId' e' he' ↦ ?_) h.ended
  rw [Map.lookup_insert_eq] at he'
  split_ifs at he' with heq
  · rw [heq, ← Option.some.inj he']
    exact hmade.epoch
  · exact h.registered sessionId' e' he'

theorem registered_erase (h : Inv s) (sessionId : SessionId) :
    ∀ sessionId' e, (s.entries.erase sessionId).lookup sessionId' = some e →
      (sessionId', e) ∈ s.epochs := by
  intro sessionId' e he
  rw [Map.lookup_erase_eq] at he
  split_ifs at he
  exact h.registered sessionId' e he

theorem grows_release {generation : UInt64} : Grows s (s.release sessionId generation) := by
  rw [Pod.release]
  split
  · exact .of_eq rfl rfl
  · exact Grows.refl s

theorem Inv.release (h : Inv s) {generation : UInt64} : Inv (s.release sessionId generation) := by
  have hgrow : Grows s (s.release sessionId generation) := grows_release
  rw [Pod.release] at hgrow ⊢
  split at hgrow
  · exact h.same_epochs hgrow rfl h.tracked rfl le_rfl (registered_erase h sessionId) h.ended
  · exact h

theorem grows_drain {generation : UInt64} : Grows s (s.drain sessionId generation) := by
  rw [Pod.drain]
  split
  · exact .of_eq rfl rfl
  · exact Grows.refl s

theorem Inv.drain (h : Inv s) {generation : UInt64} : Inv (s.drain sessionId generation) := by
  have hgrow : Grows s (s.drain sessionId generation) := grows_drain
  rw [Pod.drain] at hgrow ⊢
  split at hgrow
  · exact h.same_epochs hgrow rfl h.tracked rfl le_rfl (registered_erase h sessionId) h.ended
  · exact h

theorem Inv.fireAll (h : Inv s) : Inv (s.fireAll e) :=
  h.same_epochs (.of_eq rfl rfl) rfl h.tracked rfl le_rfl h.registered
    h.ended

theorem own_route {attempt : ℕ} : (route localRuntimeId attempt lease).own = none := by
  rw [route]
  split_ifs <;> rfl

/-- What a step of a join leaves behind. -/
structure Sound (s s' : Pod) (sessionId : SessionId) (phase : Phase) : Prop where
  inv : Inv s'
  grows : Grows s s'
  made : ∀ lease e, phase.own = some (lease, e) → Made s' sessionId lease e

theorem Sound.of_own (hinv : Inv s') (hgrow : Grows s s') {phase : Phase}
    (hown : phase.own = none) : Sound s s' sessionId phase :=
  ⟨hinv, hgrow, fun lease e h ↦ by rw [hown] at h; nomatch h⟩

theorem Sound.keep (hinv : Inv s') (hgrow : Grows s s') {phase : Phase}
    (hown : phase.own = some (lease, e)) (hmade : Made s' sessionId lease e) :
    Sound s s' sessionId phase := by
  refine ⟨hinv, hgrow, fun lease' e' h ↦ ?_⟩
  obtain ⟨rfl, rfl⟩ := Prod.mk.inj (Option.some.inj (hown.symm.trans h))
  exact hmade

theorem Sound.redis (hinv : Inv s) {r : Redis} (hr : ∃ fences, Tracks r fences) {phase : Phase}
    (hown : phase.own = none) : Sound s { s with redis := r } sessionId phase := by
  have hgrow : Grows s { s with redis := r } := .of_eq rfl rfl
  exact .of_own (hinv.setRedis hr) hgrow hown

theorem joinStep_sound {phase phase' : Phase} (hinv : Inv s)
    (hmade : ∀ lease e, phase.own = some (lease, e) → Made s sessionId lease e)
    (hstep : joinStep leaseTtl localRuntimeId s net communityId sessionId phase =
      some (s', phase')) : Sound s s' sessionId phase' := by
  cases phase with
  | lookup attempt =>
    cases hstep
    refine .redis hinv (tracked_call net hinv.tracked hinv.tracked) ?_
    split
    · rfl
    · rfl
    · exact own_route
  | acquiring attempt =>
    cases hstep
    refine .redis hinv (tracked_call net hinv.tracked (tracked_apply hinv.tracked
      (.acquire leaseTtl communityId sessionId localRuntimeId .huddleControl))) ?_
    split
    · rfl
    · rfl
    · exact own_route
  | validating o =>
    cases hstep
    exact .of_own hinv (.refl s) rfl
  | checking attempt generation =>
    cases hstep
    refine .of_own hinv (.refl s) ?_
    split_ifs <;> rfl
  | returned result =>
    match result with
    | .ok ⟨_, some lease⟩ =>
      cases hstep
      exact .of_own hinv (.refl s) rfl
    | .ok ⟨_, none⟩ => nomatch hstep
    | .error _ => nomatch hstep
  | attaching lease =>
    rw [joinStep] at hstep
    split_ifs at hstep
    · cases hstep
      exact .of_own hinv.refuse grows_refuse rfl
    · cases hstep
      exact .of_own hinv (.refl s) rfl
  | searching lease =>
    rw [joinStep] at hstep
    split at hstep
    · cases hstep
      exact .of_own hinv.throwAway grows_throwAway rfl
    · cases hstep
      exact .keep hinv.spawn grows_spawn rfl made_spawn
  | inserting lease e =>
    cases hstep
    have hown := hmade lease e rfl
    have hgrow : Grows s { s with entries := s.entries.insert sessionId e } :=
      .of_eq rfl rfl
    exact .keep (hinv.insert hown) hgrow rfl (hown.grow hgrow)
  | rechecking lease e =>
    cases hstep
    split_ifs
    · exact .keep hinv (.refl s) rfl (hmade lease e rfl)
    · exact .of_own hinv (.refl s) rfl
  | retracting lease e =>
    cases hstep
    exact .of_own hinv.drain.fireAll (grows_drain.trans (.of_eq rfl rfl)) rfl
  | attached lease signals kept => nomatch hstep

theorem Grows.setTask {i : ℕ} {r : Renewer} {task : Task} (hr : s.renewers[i]? = some r) :
    Grows s (setTask s i r task) where
  epochs _ := id
  renewers r' hr' := by
    obtain ⟨k, hk⟩ := List.mem_iff_getElem?.mp hr'
    by_cases hki : i = k
    · subst hki
      obtain rfl := Option.some.inj (hr.symm.trans hk)
      obtain ⟨hlt, -⟩ := List.getElem?_eq_some_iff.mp hr
      exact ⟨_, List.mem_iff_getElem?.mpr ⟨i, List.getElem?_set_self hlt⟩, rfl, rfl⟩
    · exact ⟨r', List.mem_iff_getElem?.mpr ⟨k, (List.getElem?_set_ne hki).trans hk⟩, rfl, rfl⟩

theorem mem_setTask {i : ℕ} {r r' : Renewer} {task : Task}
    (hr' : r' ∈ (setTask s i r task).renewers) : r' = { r with task } ∨ r' ∈ s.renewers :=
  (List.mem_or_eq_of_mem_set hr').symm

/-- A renewer that moves on keeps the invariant, if it gives its lease back before it ends. -/
theorem Inv.setTask {t : Pod} (h : Inv s) {i : ℕ} {r : Renewer} (task : Task)
    (hr : s.renewers[i]? = some r) (hjoins : t.joins = s.joins) (hepochs : t.epochs = s.epochs)
    (hentries : t.entries = s.entries) (hnext : t.nextToken = s.nextToken)
    (hrenewers : t.renewers = (OwnerPod.setTask s i r task).renewers)
    (htracked : ∃ fences, Tracks t.redis fences) (hreleased : ∀ l ∈ s.released, l ∈ t.released)
    (hended : task = .ended → r.lease ∈ t.released) : Inv t := by
  have hgrow : Grows s t := (Grows.setTask hr).trans (.of_eq hepochs hrenewers)
  refine h.same_epochs hgrow hjoins htracked hepochs hnext.ge ?_ ?_
  · rw [hentries]
    exact h.registered
  · intro r' hr' htask
    rw [hrenewers] at hr'
    rcases mem_setTask hr' with rfl | hold
    · exact hended htask
    · exact hreleased _ (h.ended r' hold htask)

theorem renewStep_cases {i : ℕ} {r : Renewer} (hstep : renewStep leaseTtl s i net r = some s') :
    s' = { s with redis := (call net s.redis (renew leaseTtl s.redis r.lease)).1 } ∨
      s' = { setTask s i r (.leaving false) with
        redis := (call net s.redis (renew leaseTtl s.redis r.lease)).1,
        firedLost := r.lost :: s.firedLost } := by
  rw [renewStep] at hstep
  split at hstep
  · dsimp only at hstep
    split at hstep
    · exact .inl (Option.some.inj hstep).symm
    · exact .inr (Option.some.inj hstep).symm
  · nomatch hstep

theorem releaseStep_cases {i : ℕ} {r : Renewer} (hstep : releaseStep s i net r = some s') :
    ∃ lost, (∀ token ∈ lost, token ∈ s.firedLost ∨ token = r.lost) ∧
      s' = { setTask s i r .ended with
        redis := (call net s.redis (release s.redis r.lease)).1,
        released := s.released ++ [r.lease], firedLost := lost } := by
  have hfires : ∀ token ∈ r.lost :: s.firedLost, token ∈ s.firedLost ∨ token = r.lost :=
    fun token htoken ↦ (List.mem_cons.mp htoken).symm
  rw [releaseStep] at hstep
  split at hstep
  · dsimp only at hstep
    split at hstep
    · exact ⟨_, fun _ ↦ .inl, (Option.some.inj hstep).symm⟩
    · exact ⟨_, hfires, (Option.some.inj hstep).symm⟩
    · split_ifs at hstep
      · exact ⟨_, fun _ ↦ .inl, (Option.some.inj hstep).symm⟩
      · exact ⟨_, hfires, (Option.some.inj hstep).symm⟩
  · nomatch hstep

theorem renewStep_inv {i : ℕ} {r : Renewer} (h : Inv s) (hr : s.renewers[i]? = some r)
    (hstep : renewStep leaseTtl s i net r = some s') : Inv s' := by
  have htracked := tracked_call net h.tracked (tracked_apply h.tracked (.renew leaseTtl r.lease))
  rcases renewStep_cases hstep with rfl | rfl
  · exact h.setRedis htracked
  · exact h.setTask (.leaving false) hr rfl rfl rfl rfl rfl htracked (fun _ ↦ id) nofun

theorem releaseStep_inv {i : ℕ} {r : Renewer} (h : Inv s) (hr : s.renewers[i]? = some r)
    (hstep : releaseStep s i net r = some s') : Inv s' := by
  have htracked := tracked_call net h.tracked (tracked_apply h.tracked (.release r.lease))
  obtain ⟨lost, -, rfl⟩ := releaseStep_cases hstep
  exact h.setTask .ended hr rfl rfl rfl rfl rfl htracked (fun _ ↦ List.mem_append_left _)
    fun _ ↦ List.mem_append_right _ (List.mem_singleton_self _)

theorem run_cases {i : ℕ} (hstep : step leaseTtl localRuntimeId s (.run i net) = some s') :
    ∃ j t phase, s.joins[i]? = some j ∧
      joinStep leaseTtl localRuntimeId s net j.communityId j.sessionId j.phase = some (t, phase) ∧
      s' = { t with joins := t.joins.set i { j with phase } } := by
  simp only [step, Option.bind_eq_bind, Option.bind_eq_some_iff] at hstep
  obtain ⟨j, hj, ⟨t, phase⟩, hjoin, hs'⟩ := hstep
  exact ⟨j, t, phase, hj, hjoin, (Option.some.inj hs').symm⟩

theorem step_inv {a : Action} (h : Inv s) (hstep : step leaseTtl localRuntimeId s a = some s') :
    Inv s' := by
  cases a with
  | env op =>
    cases hstep
    exact h.setRedis (tracked_apply h.tracked op)
  | join c sessionId =>
    cases hstep
    refine h.setJoins fun j hj lease e hown ↦ ?_
    rcases List.mem_append.mp hj with hold | hnew
    · exact h.made j hold lease e hown
    · obtain rfl := List.mem_singleton.mp hnew
      nomatch hown
  | run i net =>
    obtain ⟨j, t, phase, hj, hjoin, rfl⟩ := run_cases hstep
    have hsound := joinStep_sound h (h.made j (List.mem_of_getElem? hj)) hjoin
    refine hsound.inv.setJoins fun j' hj' lease e hown ↦ ?_
    rcases List.mem_or_eq_of_mem_set hj' with hold | rfl
    · exact hsound.inv.made j' hold lease e hown
    · exact hsound.made lease e hown
  | renew i net =>
    obtain ⟨r, hr, hrenew⟩ := Option.bind_eq_some_iff.mp hstep
    exact renewStep_inv h hr hrenew
  | cancelled i =>
    obtain ⟨r, hr, hcancel⟩ := Option.bind_eq_some_iff.mp hstep
    split_ifs at hcancel
    cases hcancel
    exact h.setTask (.leaving true) hr rfl rfl rfl rfl rfl h.tracked (fun _ ↦ id) nofun
  | releaseLease i net =>
    obtain ⟨r, hr, hrelease⟩ := Option.bind_eq_some_iff.mp hstep
    exact releaseStep_inv h hr hrelease
  | release sessionId generation =>
    cases hstep
    exact h.release
  | drain sessionId generation =>
    cases hstep
    exact h.drain
  | drainAll =>
    cases hstep
    exact h.same_epochs (.of_eq rfl rfl) rfl h.tracked rfl le_rfl h.registered h.ended

def Enters (s s' : Pod) (i : ℕ) (j : Join) : Prop := s'.joins[i]? = some j ∧ s.joins[i]? ≠ some j

def Watches (s : Pod) (sessionId : SessionId) (lease : SessionLease)
    (signals : HuddleOwnerSignals) : Prop :=
  (∃ e, (sessionId, e) ∈ s.epochs ∧ e.generation = lease.generation ∧ e.lost = signals.lost ∧
      e.draining = signals.draining) ∨
    signals.lost ∈ s.firedLost ∨ signals.draining ∈ s.firedDraining

/-- The lease was given back, or its renewer has nothing left to do but give it back. -/
def Releases (leaseTtl : ℕ) (localRuntimeId : RuntimeId) (s : Pod) (i : ℕ) (r : Renewer) : Prop :=
  r.lease ∈ s.released ∨
    ∃ actions s', (∀ a ∈ actions, a = .cancelled i ∨ a = .releaseLease i .answered) ∧
      run leaseTtl localRuntimeId s actions = some s' ∧ r.lease ∈ s'.released ∧
      ¬Holds s'.redis r.lease

structure Watched (leaseTtl : ℕ) (localRuntimeId : RuntimeId) (s : Pod) (a : Action) (s' : Pod) :
    Prop where
  owner_ready : ∀ i j generation, Enters s s' i j →
    j.phase = .returned (.ok ⟨.localOwner generation, none⟩) →
    ∃ e, s'.entries.lookup j.sessionId = some e ∧ e.generation = generation ∧
      e.lost ∉ s'.firedLost
  attached : ∀ i j lease signals kept, Enters s s' i j →
    j.phase = .attached lease signals kept → Watches s' j.sessionId lease signals
  given_up : ∀ i j lease signals, Enters s s' i j → j.phase = .attached lease signals false →
    ∃ r ∈ s'.renewers, r.lease = lease ∧ r.cancel ∈ s'.firedCancel
  given_back : ∀ (i : ℕ) (r : Renewer), s'.renewers[i]? = some r → r.cancel ∈ s'.firedCancel →
    Releases leaseTtl localRuntimeId s' i r
  fenced : ∀ sessionId generation,
    a = .release sessionId generation ∨ a = .drain sessionId generation →
    ∀ sessionId' e, s.entries.lookup sessionId' = some e →
      sessionId' ≠ sessionId ∨ e.generation ≠ generation → s'.entries.lookup sessionId' = some e

theorem releases_of_leaving (leaseTtl : ℕ) (localRuntimeId : RuntimeId) {i : ℕ} {r : Renewer}
    {cc : Bool} (h : Inv s) (hr : s.renewers[i]? = some r) (htask : r.task = .leaving cc) :
    ∃ s', step leaseTtl localRuntimeId s (.releaseLease i .answered) = some s' ∧
      r.lease ∈ s'.released ∧ ¬Holds s'.redis r.lease := by
  obtain ⟨fences, htracks⟩ := h.tracked
  have hmem : r.lease ∈ s.released ++ [r.lease] :=
    List.mem_append_right _ (List.mem_singleton_self _)
  have hdone := not_holds_release htracks r.lease
  simp only [step, hr, Option.bind_eq_bind, Option.bind_some, releaseStep, htask, call]
  split
  · exact ⟨_, rfl, hmem, hdone⟩
  · exact ⟨_, rfl, hmem, hdone⟩
  · split_ifs
    · exact ⟨_, rfl, hmem, hdone⟩
    · exact ⟨_, rfl, hmem, hdone⟩

theorem releases_of_cancelled {i : ℕ} {r : Renewer} (h : Inv s) (hr : s.renewers[i]? = some r)
    (hcancel : r.cancel ∈ s.firedCancel) : Releases leaseTtl localRuntimeId s i r := by
  cases htask : r.task with
  | waiting =>
    have hfirst : step leaseTtl localRuntimeId s (.cancelled i) =
        some (setTask s i r (.leaving true)) := by
      simp only [step, hr, Option.bind_eq_bind, Option.bind_some]
      rw [if_pos ⟨htask, hcancel⟩]
    have hlt := (List.getElem?_eq_some_iff.mp hr).choose
    obtain ⟨s', hs', hreleased, hnot⟩ := releases_of_leaving leaseTtl localRuntimeId
      (r := { r with task := .leaving true }) (step_inv h hfirst) (List.getElem?_set_self hlt) rfl
    refine .inr ⟨[.cancelled i, .releaseLease i .answered], s', by simp, ?_, hreleased, hnot⟩
    simp [run, hfirst, hs']
  | leaving cc =>
    obtain ⟨s', hs', hreleased, hnot⟩ := releases_of_leaving leaseTtl localRuntimeId h hr
      htask
    refine .inr ⟨[.releaseLease i .answered], s', by simp, ?_, hreleased, hnot⟩
    simp [run, hs']
  | ended => exact .inl (h.ended r (List.mem_of_getElem? hr) htask)

theorem joins_drain {generation : UInt64} : (s.drain sessionId generation).joins = s.joins := by
  rw [Pod.drain]
  split <;> rfl

theorem joins_release {generation : UInt64} : (s.release sessionId generation).joins = s.joins := by
  rw [Pod.release]
  split <;> rfl

theorem joins_joinStep {phase phase' : Phase}
    (hstep : joinStep leaseTtl localRuntimeId s net communityId sessionId phase =
      some (s', phase')) : s'.joins = s.joins := by
  cases phase with
  | attaching lease =>
    rw [joinStep] at hstep
    split_ifs at hstep <;> cases hstep <;> rfl
  | searching lease =>
    rw [joinStep] at hstep
    split at hstep <;> cases hstep <;> rfl
  | retracting lease e =>
    cases hstep
    exact joins_drain
  | returned result =>
    match result with
    | .ok ⟨_, some lease⟩ =>
      cases hstep
      rfl
    | .ok ⟨_, none⟩ => nomatch hstep
    | .error _ => nomatch hstep
  | attached lease signals kept => nomatch hstep
  | _ =>
    cases hstep
    rfl

theorem joins_renewStep {i : ℕ} {r : Renewer} (hstep : renewStep leaseTtl s i net r = some s') :
    s'.joins = s.joins := by
  rcases renewStep_cases hstep with rfl | rfl <;> rfl

theorem joins_releaseStep {i : ℕ} {r : Renewer} (hstep : releaseStep s i net r = some s') :
    s'.joins = s.joins := by
  obtain ⟨lost, -, rfl⟩ := releaseStep_cases hstep
  rfl

theorem not_enters {i : ℕ} {j : Join} (hjoins : s'.joins = s.joins) : ¬Enters s s' i j := by
  rintro ⟨hafter, hbefore⟩
  exact hbefore (hjoins ▸ hafter)

/-- Only a join that starts or runs comes to another place. -/
theorem enters_cases {a : Action} {i : ℕ} {j : Join}
    (hstep : step leaseTtl localRuntimeId s a = some s') (henters : Enters s s' i j) :
    j.phase = .lookup 0 ∨ ∃ net j₀ t, a = .run i net ∧ s.joins[i]? = some j₀ ∧
      joinStep leaseTtl localRuntimeId s net j₀.communityId j₀.sessionId j₀.phase =
        some (t, j.phase) ∧ j₀.sessionId = j.sessionId ∧ j₀.communityId = j.communityId ∧
      s' = { t with joins := s.joins.set i j } := by
  cases a with
  | join c sessionId =>
    cases hstep
    obtain ⟨hafter, hbefore⟩ := henters
    dsimp only at hafter
    rw [List.getElem?_append] at hafter
    split_ifs at hafter
    · exact absurd hafter hbefore
    · obtain rfl := List.mem_singleton.mp (List.mem_of_getElem? hafter)
      exact .inl rfl
  | run k net =>
    obtain ⟨j₀, t, phase, hj₀, hjoin, rfl⟩ := run_cases hstep
    obtain ⟨hafter, hbefore⟩ := henters
    have hlt := (List.getElem?_eq_some_iff.mp hj₀).choose
    rw [joins_joinStep hjoin] at hafter ⊢
    by_cases hk : k = i
    · subst hk
      rw [List.getElem?_set_self hlt] at hafter
      obtain rfl := Option.some.inj hafter
      exact .inr ⟨net, j₀, t, rfl, hj₀, hjoin, rfl, rfl, rfl⟩
    · rw [List.getElem?_set_ne hk] at hafter
      exact absurd hafter hbefore
  | env op =>
    cases hstep
    exact absurd henters (not_enters rfl)
  | renew i net =>
    obtain ⟨r, -, hrenew⟩ := Option.bind_eq_some_iff.mp hstep
    exact absurd henters (not_enters (joins_renewStep hrenew))
  | cancelled i =>
    obtain ⟨r, -, hcancel⟩ := Option.bind_eq_some_iff.mp hstep
    split_ifs at hcancel
    cases hcancel
    exact absurd henters (not_enters rfl)
  | releaseLease i net =>
    obtain ⟨r, -, hrelease⟩ := Option.bind_eq_some_iff.mp hstep
    exact absurd henters (not_enters (joins_releaseStep hrelease))
  | release sessionId generation =>
    cases hstep
    exact absurd henters (not_enters joins_release)
  | drain sessionId generation =>
    cases hstep
    exact absurd henters (not_enters joins_drain)
  | drainAll =>
    cases hstep
    exact absurd henters (not_enters rfl)

theorem route_ne_returned {attempt : ℕ} {result : Except JoinError ResolvedJoin} :
    route localRuntimeId attempt lease ≠ .returned result := by
  rw [route]
  split_ifs <;> nofun

theorem route_ne_attached {attempt : ℕ} {lease' : SessionLease} {signals : HuddleOwnerSignals}
    {kept : Bool} : route localRuntimeId attempt lease ≠ .attached lease' signals kept := by
  rw [route]
  split_ifs <;> nofun

/-- Ownership is reused where the registry has an entry. -/
theorem returned_reuse {phase : Phase} {generation : UInt64}
    (hstep : joinStep leaseTtl localRuntimeId s net communityId sessionId phase =
      some (s', .returned (.ok ⟨.localOwner generation, none⟩))) :
    s' = s ∧ (∃ attempt, phase = .checking attempt generation) ∧
      ∃ e, s.entries.lookup sessionId = some e := by
  cases phase with
  | lookup attempt =>
    obtain ⟨-, hphase⟩ := Prod.mk.inj (Option.some.inj hstep)
    split at hphase
    · nomatch hphase
    · nomatch hphase
    · exact absurd hphase route_ne_returned
  | acquiring attempt =>
    obtain ⟨-, hphase⟩ := Prod.mk.inj (Option.some.inj hstep)
    split at hphase
    · nomatch hphase
    · nomatch hphase
    · exact absurd hphase route_ne_returned
  | validating o =>
    obtain ⟨-, hphase⟩ := Prod.mk.inj (Option.some.inj hstep)
    have hresult := Phase.returned.inj hphase
    split at hresult
    · split at hresult <;> nomatch hresult
    · nomatch hresult
  | checking attempt generation' =>
    obtain ⟨rfl, hphase⟩ := Prod.mk.inj (Option.some.inj hstep)
    split_ifs at hphase with hentry
    · obtain ⟨e, he⟩ := Option.isSome_iff_exists.mp hentry
      cases hphase
      exact ⟨rfl, ⟨attempt, rfl⟩, e, he⟩
    · nomatch hphase
  | returned result =>
    match result with
    | .ok ⟨_, some lease⟩ => nomatch hstep
    | .ok ⟨_, none⟩ => nomatch hstep
    | .error _ => nomatch hstep
  | attaching lease =>
    rw [joinStep] at hstep
    split_ifs at hstep <;> nomatch hstep
  | searching lease =>
    rw [joinStep] at hstep
    split at hstep <;> nomatch hstep
  | rechecking lease e =>
    obtain ⟨-, hphase⟩ := Prod.mk.inj (Option.some.inj hstep)
    split_ifs at hphase
  | _ => nomatch hstep

theorem attached_cases {phase : Phase} {signals : HuddleOwnerSignals} {kept : Bool}
    (hstep : joinStep leaseTtl localRuntimeId s net communityId sessionId phase =
      some (s', .attached lease signals kept)) :
    (s' = s.refuse lease ∧ signals = ⟨s.nextToken + 1, s.nextToken⟩) ∨
    (∃ e, phase = .searching lease ∧ s.entries.lookup sessionId = some e ∧
      s' = s.throwAway lease ∧ signals = ⟨e.lost, e.draining⟩) ∨
    (∃ e, phase.own = some (lease, e) ∧ s' = s ∧ signals = ⟨e.lost, e.draining⟩ ∧ kept = true) ∨
    ∃ e, phase.own = some (lease, e) ∧
      s' = (s.drain sessionId e.generation).fireAll e ∧ signals = ⟨e.lost, e.draining⟩ := by
  cases phase with
  | lookup attempt =>
    obtain ⟨-, hphase⟩ := Prod.mk.inj (Option.some.inj hstep)
    split at hphase
    · nomatch hphase
    · nomatch hphase
    · exact absurd hphase route_ne_attached
  | acquiring attempt =>
    obtain ⟨-, hphase⟩ := Prod.mk.inj (Option.some.inj hstep)
    split at hphase
    · nomatch hphase
    · nomatch hphase
    · exact absurd hphase route_ne_attached
  | checking attempt generation =>
    obtain ⟨-, hphase⟩ := Prod.mk.inj (Option.some.inj hstep)
    split_ifs at hphase
  | returned result =>
    match result with
    | .ok ⟨_, some lease⟩ => nomatch hstep
    | .ok ⟨_, none⟩ => nomatch hstep
    | .error _ => nomatch hstep
  | attaching lease =>
    rw [joinStep] at hstep
    split_ifs at hstep <;> cases hstep
    exact .inl ⟨rfl, rfl⟩
  | searching lease =>
    rw [joinStep] at hstep
    split at hstep
    · next e he =>
      cases hstep
      exact .inr (.inl ⟨e, rfl, he, rfl, rfl⟩)
    · nomatch hstep
  | rechecking lease e =>
    obtain ⟨rfl, hphase⟩ := Prod.mk.inj (Option.some.inj hstep)
    split_ifs at hphase
    cases hphase
    exact .inr (.inr (.inl ⟨e, rfl, rfl, rfl, rfl⟩))
  | retracting lease e =>
    cases hstep
    exact .inr (.inr (.inr ⟨e, rfl, rfl, rfl⟩))
  | _ => nomatch hstep

theorem Made.watches (h : Made s sessionId lease e) :
    Watches s sessionId lease ⟨e.lost, e.draining⟩ :=
  .inl ⟨e, h.epoch, h.generation, rfl, rfl⟩

theorem lookup_erase_of_other {generation : UInt64} {sessionId' : SessionId}
    {e₀ : HuddleOwnerEntry} (hsome : s.ofGeneration sessionId generation = some e₀)
    (he : s.entries.lookup sessionId' = some e)
    (hother : sessionId' ≠ sessionId ∨ e.generation ≠ generation) :
    (s.entries.erase sessionId).lookup sessionId' = some e := by
  obtain ⟨he₀, hgeneration⟩ := Option.filter_eq_some_iff.mp hsome
  rw [Map.lookup_erase_eq, if_neg]
  · exact he
  · rintro rfl
    obtain rfl := Option.some.inj (he₀.symm.trans he)
    exact hother.elim (fun hne ↦ hne rfl) fun hne ↦ hne (of_decide_eq_true hgeneration)

theorem fenced_release {generation : UInt64} {sessionId' : SessionId}
    (he : s.entries.lookup sessionId' = some e)
    (hother : sessionId' ≠ sessionId ∨ e.generation ≠ generation) :
    (s.release sessionId generation).entries.lookup sessionId' = some e := by
  rw [Pod.release]
  split
  · next e₀ hsome => exact lookup_erase_of_other hsome he hother
  · exact he

theorem fenced_drain {generation : UInt64} {sessionId' : SessionId}
    (he : s.entries.lookup sessionId' = some e)
    (hother : sessionId' ≠ sessionId ∨ e.generation ≠ generation) :
    (s.drain sessionId generation).entries.lookup sessionId' = some e := by
  rw [Pod.drain]
  split
  · next e₀ hsome => exact lookup_erase_of_other hsome he hother
  · exact he

/-- The generation the directory gave a join that has yet to look in the registry. -/
def Phase.awaits : Phase → Option UInt64
  | .checking _ generation => some generation
  | .returned (.ok ⟨_, some lease⟩) | .attaching lease | .searching lease => some lease.generation
  | _ => none

/-- The lease that a join acquired, until it looks in the registry. -/
def Phase.fresh : Phase → Option SessionLease
  | .returned (.ok ⟨_, some lease⟩) | .attaching lease | .searching lease => some lease
  | _ => none

/-- No lease expires, is lost or is taken over while its entry is registered: it is the live one,
and its renewer is at work. -/
def LeasesKept (s : Pod) : Prop :=
  ∀ sessionId e, s.entries.lookup sessionId = some e → ∀ r ∈ s.renewers, r.cancel = e.cancel →
    r.task = .waiting ∧ Holds s.redis r.lease

def Phase.installs : Phase → Option SessionLease
  | .inserting lease _ => some lease
  | _ => none

/-- No epoch is installed while a join that the directory gave another one is on its way to the
registry. -/
def InstalledApart (s : Pod) : Action → Prop
  | .run i _ => ∀ j ∈ s.joins[i]?, ∀ lease ∈ j.phase.installs, ∀ j' ∈ s.joins,
      j'.sessionId = j.sessionId →
        j'.phase.awaits = none ∨ j'.phase.awaits = some lease.generation
  | _ => True

def OneCommunity (s : Pod) : Prop :=
  ∀ j ∈ s.joins, ∀ j' ∈ s.joins, j.sessionId = j'.sessionId → j.communityId = j'.communityId

structure Undisturbed (s : Pod) (a : Action) (s' : Pod) : Prop where
  leases : LeasesKept s'
  apart : InstalledApart s a
  community : OneCommunity s'

instance (s : Pod) : Decidable (LeasesKept s) :=
  decidable_of_iff (∀ p ∈ s.entries.entries, ∀ r ∈ s.renewers, r.cancel = p.2.cancel →
      r.task = .waiting ∧ Holds s.redis r.lease)
    ⟨fun h sessionId e he ↦ h ⟨sessionId, e⟩ (Map.mem_entries_iff.mpr he),
      fun h p hp ↦ h p.1 p.2 (Map.mem_entries_iff.mp hp)⟩

instance (s : Pod) (a : Action) : Decidable (InstalledApart s a) :=
  match a with
  | .run .. => inferInstanceAs (Decidable (∀ j ∈ _, _))
  | .env _ | .join .. | .renew .. | .cancelled _ | .releaseLease .. | .release .. | .drain ..
  | .drainAll => inferInstanceAs (Decidable True)

instance (s : Pod) : Decidable (OneCommunity s) := inferInstanceAs (Decidable (∀ j ∈ _, _))

instance (s : Pod) (a : Action) (s' : Pod) : Decidable (Undisturbed s a s') :=
  decidable_of_iff (LeasesKept s' ∧ InstalledApart s a ∧ OneCommunity s')
    ⟨fun h ↦ ⟨h.1, h.2.1, h.2.2⟩, fun h ↦ ⟨h.leases, h.apart, h.community⟩⟩

/-- Each entry made has a renewer of its own, and a lost signal fires only when that one stops. -/
structure Books (s : Pod) : Prop where
  tokens : ∀ r ∈ s.renewers, r.lost = r.cancel
  fired : ∀ t ∈ s.firedLost, ∃ r ∈ s.renewers, r.cancel = t ∧ r.task ≠ .waiting
  epochs : ∀ p ∈ s.epochs, p.2.lost = p.2.cancel ∧ ∃ r ∈ s.renewers, r.cancel = p.2.cancel ∧
    r.lease.sessionId = p.1 ∧ r.lease.generation = p.2.generation ∧
      ∃ j ∈ s.joins, j.sessionId = p.1 ∧ j.communityId = r.lease.communityId

structure Orderly (s : Pod) : Prop where
  inv : Inv s
  books : Books s
  leases : LeasesKept s
  community : OneCommunity s
  keyed : ∀ j ∈ s.joins, ∀ lease, j.phase.fresh = some lease →
    lease.key = (j.communityId, j.sessionId)
  pending : ∀ j ∈ s.joins, ∀ generation, j.phase.awaits = some generation →
    ∀ e, s.entries.lookup j.sessionId = some e → e.generation = generation

def Joined (s s' : Pod) : Prop :=
  ∀ j ∈ s.joins, ∃ j' ∈ s'.joins, j'.sessionId = j.sessionId ∧ j'.communityId = j.communityId

theorem Joined.of_eq (h : s'.joins = s.joins) : Joined s s' := fun j hj ↦ ⟨j, h ▸ hj, rfl, rfl⟩

theorem Books.epoch_mono {t : Pod} (h : Books s) (hjoined : Joined s t)
    (hrenewers : ∀ r ∈ s.renewers, ∃ r' ∈ t.renewers, r'.cancel = r.cancel ∧ r'.lease = r.lease)
    {p : SessionId × HuddleOwnerEntry} (hp : p ∈ s.epochs) :
    p.2.lost = p.2.cancel ∧ ∃ r ∈ t.renewers, r.cancel = p.2.cancel ∧ r.lease.sessionId = p.1 ∧
      r.lease.generation = p.2.generation ∧
        ∃ j ∈ t.joins, j.sessionId = p.1 ∧ j.communityId = r.lease.communityId := by
  obtain ⟨hlost, r, hr, hcancel, hsession, hgeneration, j, hj, hjs, hjc⟩ := h.epochs p hp
  obtain ⟨r', hr', hcancel', hlease⟩ := hrenewers r hr
  obtain ⟨j', hj', hjs', hjc'⟩ := hjoined j hj
  exact ⟨hlost, r', hr', hcancel'.trans hcancel, hlease ▸ hsession, hlease ▸ hgeneration, j', hj',
    hjs'.trans hjs, hlease ▸ hjc'.trans hjc⟩

theorem Books.same {t : Pod} (h : Books s) (hjoined : Joined s t)
    (hrenewers : t.renewers = s.renewers) (hepochs : t.epochs = s.epochs)
    (hfired : t.firedLost = s.firedLost) : Books t where
  tokens := hrenewers ▸ h.tokens
  fired := by
    rw [hrenewers, hfired]
    exact h.fired
  epochs p hp := h.epoch_mono hjoined (fun r hr ↦ ⟨r, hrenewers ▸ hr, rfl, rfl⟩) (hepochs ▸ hp)

theorem Books.addRenewer {t : Pod} (h : Books s) (sessionId : SessionId) (hjoined : Joined s t)
    (hrenewers : t.renewers = s.renewers ++ [⟨lease, s.nextToken, s.nextToken, .waiting⟩])
    (hfired : t.firedLost = s.firedLost)
    (hepochs : ∀ p ∈ t.epochs, p ∈ s.epochs ∨ p = (sessionId, s.newEntry lease) ∧
      lease.sessionId = sessionId ∧
        ∃ j ∈ t.joins, j.sessionId = sessionId ∧ j.communityId = lease.communityId) : Books t where
  tokens r hr := by
    rw [hrenewers] at hr
    rcases List.mem_append.mp hr with hold | hnew
    · exact h.tokens r hold
    · obtain rfl := List.mem_singleton.mp hnew
      rfl
  fired token htoken := by
    obtain ⟨r, hr, hcancel, htask⟩ := h.fired token (hfired ▸ htoken)
    exact ⟨r, hrenewers ▸ List.mem_append_left _ hr, hcancel, htask⟩
  epochs p hp := by
    rcases hepochs p hp with hold | ⟨rfl, hsession, hjoin⟩
    · refine h.epoch_mono hjoined (fun r hr ↦ ⟨r, ?_, rfl, rfl⟩) hold
      exact hrenewers ▸ List.mem_append_left _ hr
    · exact ⟨rfl, ⟨lease, s.nextToken, s.nextToken, .waiting⟩,
        hrenewers ▸ List.mem_append_right _ (List.mem_singleton_self _), rfl, hsession, rfl, hjoin⟩

theorem mem_setTask_of_mem {i : ℕ} {r r' : Renewer} {task : Task} (hr : s.renewers[i]? = some r)
    (hr' : r' ∈ s.renewers) :
    r' = r ∨ r' ∈ (setTask s i r task).renewers := by
  obtain ⟨k, hk⟩ := List.mem_iff_getElem?.mp hr'
  by_cases hki : i = k
  · subst hki
    exact .inl (Option.some.inj (hk.symm.trans hr))
  · exact .inr (List.mem_iff_getElem?.mpr ⟨k, (List.getElem?_set_ne hki).trans hk⟩)

theorem Books.setTask {t : Pod} (h : Books s) {i : ℕ} {r : Renewer} (task : Task)
    (hr : s.renewers[i]? = some r) (htask : task ≠ .waiting) (hjoined : Joined s t)
    (hrenewers : t.renewers = (setTask s i r task).renewers) (hepochs : t.epochs = s.epochs)
    (hfired : ∀ token ∈ t.firedLost, token ∈ s.firedLost ∨ token = r.lost) : Books t := by
  have hself : { r with task } ∈ t.renewers := by
    have hlt := (List.getElem?_eq_some_iff.mp hr).choose
    rw [hrenewers]
    exact List.mem_iff_getElem?.mpr ⟨i, List.getElem?_set_self hlt⟩
  have hmem {r' : Renewer} (hr' : r' ∈ s.renewers) : r' = r ∨ r' ∈ t.renewers := by
    rw [hrenewers]
    exact mem_setTask_of_mem hr hr'
  have htokens := h.tokens r (List.mem_of_getElem? hr)
  constructor
  case tokens =>
    intro r' hr'
    rw [hrenewers] at hr'
    rcases mem_setTask hr' with rfl | hold
    · exact htokens
    · exact h.tokens r' hold
  case fired =>
    intro token htoken
    rcases hfired token htoken with hold | rfl
    · obtain ⟨r', hr', hcancel, hstopped⟩ := h.fired token hold
      rcases hmem hr' with rfl | hkept
      · exact ⟨_, hself, hcancel, htask⟩
      · exact ⟨r', hkept, hcancel, hstopped⟩
    · exact ⟨_, hself, htokens.symm, htask⟩
  case epochs =>
    intro p hp
    refine h.epoch_mono hjoined (fun r' hr' ↦ ?_) (hepochs ▸ hp)
    rcases hmem hr' with rfl | hkept
    · exact ⟨_, hself, rfl, rfl⟩
    · exact ⟨r', hkept, rfl, rfl⟩

theorem Joined.set {joins : List Join} {i : ℕ} {j : Join} (phase : Phase)
    (hj : s.joins[i]? = some j) (hset : joins = s.joins.set i { j with phase }) :
    Joined s { s with joins } := by
  intro j' hj'
  obtain ⟨k, hk⟩ := List.mem_iff_getElem?.mp hj'
  have hlt := (List.getElem?_eq_some_iff.mp hj).choose
  subst hset
  by_cases hki : i = k
  · subst hki
    obtain rfl := Option.some.inj (hk.symm.trans hj)
    exact ⟨{ j' with phase }, List.mem_iff_getElem?.mpr ⟨i, List.getElem?_set_self hlt⟩, rfl, rfl⟩
  · exact ⟨j', List.mem_iff_getElem?.mpr ⟨k, (List.getElem?_set_ne hki).trans hk⟩, rfl, rfl⟩

section JoinStep

variable {phase phase' : Phase}

theorem lookup_of_erase {sessionId' : SessionId}
    (he : (s.entries.erase sessionId).lookup sessionId' = some e) :
    s.entries.lookup sessionId' = some e := by
  rw [Map.lookup_erase_eq] at he
  split_ifs at he
  exact he

theorem entries_of_drain {generation : UInt64} {sessionId' : SessionId}
    (he : (s.drain sessionId generation).entries.lookup sessionId' = some e) :
    s.entries.lookup sessionId' = some e := by
  rw [Pod.drain] at he
  split at he
  · exact lookup_of_erase he
  · exact he

theorem entries_of_release {generation : UInt64} {sessionId' : SessionId}
    (he : (s.release sessionId generation).entries.lookup sessionId' = some e) :
    s.entries.lookup sessionId' = some e := by
  rw [Pod.release] at he
  split at he
  · exact lookup_of_erase he
  · exact he

theorem joinStep_entries {sessionId' : SessionId}
    (hstep : joinStep leaseTtl localRuntimeId s net communityId sessionId phase =
      some (s', phase')) (he : s'.entries.lookup sessionId' = some e) :
    s.entries.lookup sessionId' = some e ∨
      sessionId' = sessionId ∧ ∃ lease, phase = .inserting lease e := by
  cases phase with
  | returned result =>
    match result with
    | .ok ⟨_, some lease⟩ =>
      cases hstep
      exact .inl he
    | .ok ⟨_, none⟩ => nomatch hstep
    | .error _ => nomatch hstep
  | attaching lease =>
    rw [joinStep] at hstep
    split_ifs at hstep <;> cases hstep <;> exact .inl he
  | searching lease =>
    rw [joinStep] at hstep
    split at hstep <;> cases hstep <;> exact .inl he
  | inserting lease e' =>
    cases hstep
    rw [Map.lookup_insert_eq] at he
    split_ifs at he with heq
    · obtain rfl := Option.some.inj he
      exact .inr ⟨heq, lease, rfl⟩
    · exact .inl he
  | retracting lease e' =>
    cases hstep
    exact .inl (entries_of_drain he)
  | attached lease signals kept => nomatch hstep
  | _ =>
    cases hstep
    exact .inl he

theorem call_eq_ok {α : Type} {r : Redis} {result : Redis × Except DirectoryError α} {a : α}
    (h : (call net r result).2 = .ok a) : result.2 = .ok a := by
  cases net with
  | answered =>
    change result.2.mapError _ = _ at h
    cases hresult : result.2 with
    | error error =>
      rw [hresult] at h
      nomatch h
    | ok a' =>
      rw [hresult] at h
      exact congrArg _ (Except.ok.inj h)
  | unsent => nomatch h
  | unanswered => nomatch h

theorem holds_of_lookup {r : Redis}
    (h : Buzz.Relay.Tunnel.lookup r communityId sessionId = .ok (some lease)) :
    lease.key = (communityId, sessionId) ∧ Holds r lease := by
  have hkey : lease.communityId = communityId ∧ lease.sessionId = sessionId := by
    rw [Buzz.Relay.Tunnel.lookup] at h
    split at h
    · cases h
    · next value hget =>
      cases hparse : parseLease communityId sessionId value with
      | error error =>
        rw [hparse] at h
        cases h
      | ok lease' =>
        rw [hparse] at h
        obtain rfl := Option.some.inj (Except.ok.inj h)
        exact parseLease_scope hparse
  refine ⟨Prod.ext hkey.1 hkey.2, ?_⟩
  rw [Holds, hkey.1, hkey.2]
  exact h

theorem Holds.unique {r : Redis} {lease lease' : SessionLease} (h : Holds r lease)
    (h' : Holds r lease') (hkey : lease.key = lease'.key) : lease = lease' := by
  obtain ⟨hc, hs⟩ := Prod.mk.inj hkey
  rw [Holds, hc, hs] at h
  exact Option.some.inj (Except.ok.inj (h.symm.trans h'))

/-- A lease is acquired only where none is held. -/
theorem not_holds_of_acquired {r : Redis} {owner : RuntimeId} {profile : Profile}
    (h : (acquire leaseTtl r communityId sessionId owner profile).2 = .ok (.acquired lease)) :
    ∀ lease', lease'.key = (communityId, sessionId) → ¬Holds r lease' := by
  rintro lease' hkey hholds
  obtain ⟨hc, hs⟩ := Prod.mk.inj hkey
  obtain ⟨value, hget, hparse⟩ := get_of_holds hholds
  rw [hc, hs] at hget hparse
  rw [acquire] at h
  split at h
  · nomatch h
  · rw [acquireScript, hget] at h
    simp [hparse, bind, Except.bind] at h

theorem awaits_of_fresh (h : phase.fresh = some lease) :
    phase.awaits = some lease.generation := by
  cases phase with
  | returned result =>
    match result with
    | .ok ⟨_, some lease'⟩ => exact congrArg _ (congrArg _ (Option.some.inj h))
    | .ok ⟨_, none⟩ => nomatch h
    | .error _ => nomatch h
  | attaching lease' => exact congrArg _ (congrArg _ (Option.some.inj h))
  | searching lease' => exact congrArg _ (congrArg _ (Option.some.inj h))
  | _ => nomatch h

/-- Where the lease or the generation that a join is left with comes from. -/
structure Given (s : Pod) (communityId : CommunityId) (sessionId : SessionId)
    (phase phase' : Phase) : Prop where
  fresh : ∀ lease, phase'.fresh = some lease →
    phase.fresh = some lease ∨ lease.key = (communityId, sessionId)
  awaits : ∀ generation, phase'.awaits = some generation →
    phase.awaits = some generation ∨
      (∃ lease, lease.key = (communityId, sessionId) ∧ Holds s.redis lease ∧
        lease.generation = generation) ∨
      ∀ lease, lease.key = (communityId, sessionId) → ¬Holds s.redis lease

theorem Given.of_none (h : phase'.awaits = none) : Given s communityId sessionId phase phase' where
  fresh lease hfresh := by
    rw [awaits_of_fresh hfresh] at h
    nomatch h
  awaits generation hawaits := by
    rw [hawaits] at h
    nomatch h

theorem Given.of_holds {attempt : ℕ} (hkey : lease.key = (communityId, sessionId))
    (hholds : Holds s.redis lease) :
    Given s communityId sessionId phase (route localRuntimeId attempt lease) := by
  rw [route]
  split_ifs
  · refine ⟨nofun, fun generation hawaits ↦ .inr (.inl ⟨lease, hkey, hholds, ?_⟩)⟩
    exact Option.some.inj hawaits
  · exact .of_none rfl

theorem joinStep_given (hinv : Inv s)
    (hstep : joinStep leaseTtl localRuntimeId s net communityId sessionId phase =
      some (s', phase')) : Given s communityId sessionId phase phase' := by
  cases phase with
  | lookup attempt =>
    obtain ⟨-, rfl⟩ := Prod.mk.inj (Option.some.inj hstep)
    split
    case h_1 => exact .of_none rfl
    case h_2 => exact .of_none rfl
    case h_3 lease hresult =>
      obtain ⟨hkey, hholds⟩ := holds_of_lookup (call_eq_ok hresult)
      exact .of_holds hkey hholds
  | acquiring attempt =>
    obtain ⟨-, rfl⟩ := Prod.mk.inj (Option.some.inj hstep)
    split
    case h_1 => exact .of_none rfl
    case h_2 lease hresult =>
      obtain ⟨fences, htracks⟩ := hinv.tracked
      obtain ⟨f, -, -, hspec⟩ := acquire_spec htracks leaseTtl communityId sessionId localRuntimeId
        .huddleControl
      refine ⟨fun lease' hfresh ↦ .inr ?_, fun _ _ ↦ .inr (.inr ?_)⟩
      · obtain rfl := Option.some.inj hfresh
        exact (hspec lease (call_eq_ok hresult)).1
      · exact not_holds_of_acquired (call_eq_ok hresult)
    case h_3 lease hresult =>
      obtain ⟨-, hkey, hholds⟩ := acquire_exists (call_eq_ok hresult)
      exact .of_holds hkey hholds
  | validating o =>
    obtain ⟨-, rfl⟩ := Prod.mk.inj (Option.some.inj hstep)
    cases net with
    | answered =>
      dsimp only
      split <;> exact .of_none rfl
    | unsent => exact .of_none rfl
    | unanswered => exact .of_none rfl
  | checking attempt generation =>
    cases hstep
    split_ifs <;> exact .of_none rfl
  | returned result =>
    match result with
    | .ok ⟨_, some lease⟩ =>
      cases hstep
      exact ⟨fun _ ↦ .inl, fun _ ↦ .inl⟩
    | .ok ⟨_, none⟩ => nomatch hstep
    | .error _ => nomatch hstep
  | attaching lease =>
    rw [joinStep] at hstep
    split_ifs at hstep
    · cases hstep
      exact .of_none rfl
    · cases hstep
      exact ⟨fun _ ↦ .inl, fun _ ↦ .inl⟩
  | searching lease =>
    rw [joinStep] at hstep
    split at hstep <;> cases hstep <;> exact .of_none rfl
  | inserting lease e =>
    cases hstep
    exact .of_none rfl
  | rechecking lease e =>
    cases hstep
    split_ifs <;> exact .of_none rfl
  | retracting lease e =>
    cases hstep
    exact .of_none rfl
  | attached lease signals kept => nomatch hstep

theorem Books.drain {generation : UInt64} (h : Books s) : Books (s.drain sessionId generation) := by
  rw [Pod.drain]
  split
  · exact h.same (.of_eq rfl) rfl rfl rfl
  · exact h

theorem Books.release {generation : UInt64} (h : Books s) :
    Books (s.release sessionId generation) := by
  rw [Pod.release]
  split
  · exact h.same (.of_eq rfl) rfl rfl rfl
  · exact h

theorem joinStep_books (h : Books s) {j : Join} (hj : j ∈ s.joins)
    (hkeyed : ∀ lease, j.phase.fresh = some lease → lease.key = (j.communityId, j.sessionId))
    (hstep : joinStep leaseTtl localRuntimeId s net j.communityId j.sessionId j.phase =
      some (s', phase')) : Books s' := by
  have hjoined : Joined s s' := .of_eq (joins_joinStep hstep)
  cases hphase : j.phase with
  | returned result =>
    rw [hphase] at hstep
    match result with
    | .ok ⟨_, some lease⟩ =>
      cases hstep
      exact h
    | .ok ⟨_, none⟩ => nomatch hstep
    | .error _ => nomatch hstep
  | attaching lease =>
    rw [hphase, joinStep] at hstep
    split_ifs at hstep
    · cases hstep
      exact h.addRenewer j.sessionId hjoined rfl rfl fun _ ↦ .inl
    · cases hstep
      exact h
  | searching lease =>
    have hkey := Prod.mk.inj (hkeyed lease (by rw [hphase]; rfl))
    rw [hphase, joinStep] at hstep
    split at hstep
    · cases hstep
      exact h.addRenewer j.sessionId hjoined rfl rfl fun _ ↦ .inl
    · cases hstep
      refine h.addRenewer j.sessionId hjoined rfl rfl fun p hp ↦ ?_
      rcases List.mem_append.mp hp with hold | hnew
      · exact .inl hold
      · exact .inr ⟨List.mem_singleton.mp hnew, hkey.2, j, hj, rfl, hkey.1.symm⟩
  | retracting lease e =>
    rw [hphase] at hstep
    cases hstep
    exact h.drain.same (.of_eq rfl) rfl rfl rfl
  | attached lease signals kept =>
    rw [hphase] at hstep
    nomatch hstep
  | _ =>
    rw [hphase] at hstep
    cases hstep
    exact h.same hjoined rfl rfl rfl

end JoinStep

theorem renewStep_books {i : ℕ} {r : Renewer} (h : Books s) (hr : s.renewers[i]? = some r)
    (hstep : renewStep leaseTtl s i net r = some s') : Books s' := by
  rcases renewStep_cases hstep with rfl | rfl
  · exact h.same (.of_eq rfl) rfl rfl rfl
  · refine h.setTask (.leaving false) hr nofun (.of_eq rfl) rfl rfl ?_
    exact fun token htoken ↦ (List.mem_cons.mp htoken).symm

theorem releaseStep_books {i : ℕ} {r : Renewer} (h : Books s) (hr : s.renewers[i]? = some r)
    (hstep : releaseStep s i net r = some s') : Books s' := by
  obtain ⟨lost, hlost, rfl⟩ := releaseStep_cases hstep
  exact h.setTask .ended hr nofun (.of_eq rfl) rfl rfl hlost

theorem step_books {a : Action} (h : Orderly s)
    (hstep : step leaseTtl localRuntimeId s a = some s') : Books s' := by
  cases a with
  | env op =>
    cases hstep
    exact h.books.same (.of_eq rfl) rfl rfl rfl
  | join c sessionId =>
    cases hstep
    refine h.books.same (fun j hj ↦ ⟨j, ?_, rfl, rfl⟩) rfl rfl rfl
    exact List.mem_append_left _ hj
  | run i net =>
    obtain ⟨j, t, phase, hj, hjoin, rfl⟩ := run_cases hstep
    have hmem := List.mem_of_getElem? hj
    have hbooks := joinStep_books h.books hmem (h.keyed j hmem) hjoin
    refine hbooks.same (Joined.set phase ?_ rfl) rfl rfl rfl
    rw [joins_joinStep hjoin]
    exact hj
  | renew i net =>
    obtain ⟨r, hr, hrenew⟩ := Option.bind_eq_some_iff.mp hstep
    exact renewStep_books h.books hr hrenew
  | cancelled i =>
    obtain ⟨r, hr, hcancel⟩ := Option.bind_eq_some_iff.mp hstep
    split_ifs at hcancel
    cases hcancel
    exact h.books.setTask (.leaving true) hr nofun (.of_eq rfl) rfl rfl fun _ ↦ .inl
  | releaseLease i net =>
    obtain ⟨r, hr, hrelease⟩ := Option.bind_eq_some_iff.mp hstep
    exact releaseStep_books h.books hr hrelease
  | release sessionId generation =>
    cases hstep
    exact h.books.release
  | drain sessionId generation =>
    cases hstep
    exact h.books.drain
  | drainAll =>
    cases hstep
    exact h.books.same (.of_eq rfl) rfl rfl rfl

/-- The lease of the entry that a join finds. -/
theorem Orderly.registered (h : Orderly s) {j : Join} (hj : j ∈ s.joins)
    (he : s.entries.lookup j.sessionId = some e) :
    e.lost ∉ s.firedLost ∧ ∃ lease, lease.key = (j.communityId, j.sessionId) ∧
      Holds s.redis lease ∧ lease.generation = e.generation := by
  obtain ⟨hlost, r, hr, hcancel, hsession, hgeneration, j', hj', hjs, hjc⟩ :=
    h.books.epochs _ (h.inv.registered _ e he)
  constructor
  · intro hfired
    obtain ⟨r', hr', hcancel', hstopped⟩ := h.books.fired _ hfired
    exact hstopped (h.leases _ e he r' hr' (hcancel'.trans hlost)).1
  · have hcommunity := h.community j' hj' j hj hjs
    exact ⟨r.lease, Prod.ext (hjc.symm.trans hcommunity) hsession, (h.leases _ e he r hr hcancel).2,
      hgeneration⟩

theorem entries_of_step {a : Action} {sessionId' : SessionId}
    (hstep : step leaseTtl localRuntimeId s a = some s')
    (he : s'.entries.lookup sessionId' = some e) :
    s.entries.lookup sessionId' = some e ∨ ∃ i net j lease, a = .run i net ∧
      s.joins[i]? = some j ∧ j.phase = .inserting lease e ∧ j.sessionId = sessionId' := by
  cases a with
  | run i net =>
    obtain ⟨j, t, phase, hj, hjoin, rfl⟩ := run_cases hstep
    rcases joinStep_entries hjoin he with hold | ⟨hsession, lease, hphase⟩
    · exact .inl hold
    · exact .inr ⟨i, net, j, lease, rfl, hj, hphase, hsession.symm⟩
  | renew i net =>
    obtain ⟨r, -, hrenew⟩ := Option.bind_eq_some_iff.mp hstep
    rcases renewStep_cases hrenew with rfl | rfl <;> exact .inl he
  | cancelled i =>
    obtain ⟨r, -, hcancel⟩ := Option.bind_eq_some_iff.mp hstep
    split_ifs at hcancel
    cases hcancel
    exact .inl he
  | releaseLease i net =>
    obtain ⟨r, -, hrelease⟩ := Option.bind_eq_some_iff.mp hstep
    obtain ⟨lost, -, rfl⟩ := releaseStep_cases hrelease
    exact .inl he
  | release sessionId generation =>
    cases hstep
    exact .inl (entries_of_release he)
  | drain sessionId generation =>
    cases hstep
    exact .inl (entries_of_drain he)
  | _ =>
    cases hstep
    exact .inl he

theorem joins_of_step {a : Action} {j : Join} (hstep : step leaseTtl localRuntimeId s a = some s')
    (hj : j ∈ s'.joins) :
    j ∈ s.joins ∨ j.phase = .lookup 0 ∨ ∃ i net j₀ t, a = .run i net ∧ s.joins[i]? = some j₀ ∧
      joinStep leaseTtl localRuntimeId s net j₀.communityId j₀.sessionId j₀.phase =
        some (t, j.phase) ∧ j₀.sessionId = j.sessionId ∧ j₀.communityId = j.communityId := by
  obtain ⟨i, hi⟩ := List.mem_iff_getElem?.mp hj
  by_cases hsame : s.joins[i]? = some j
  · exact .inl (List.mem_of_getElem? hsame)
  · rcases enters_cases hstep ⟨hi, hsame⟩ with hstart | ⟨net, j₀, t, ha, hj₀, hjoin, hs, hc, -⟩
    · exact .inr (.inl hstart)
    · exact .inr (.inr ⟨i, net, j₀, t, ha, hj₀, hjoin, hs, hc⟩)

/-- The epoch of the entry that a join is about to meet is the one it was given. -/
theorem pending_of_step {a : Action} (h : Orderly s)
    (hstep : step leaseTtl localRuntimeId s a = some s') (hapart : InstalledApart s a) {j : Join}
    (hj : j ∈ s'.joins) {generation : UInt64} (hawaits : j.phase.awaits = some generation)
    (he : s'.entries.lookup j.sessionId = some e) : e.generation = generation := by
  have hentry := entries_of_step hstep he
  rcases joins_of_step hstep hj with
    hold | hstart | ⟨i, net, j₀, t, rfl, hj₀, hjoin, hsession, hcommunity⟩
  · rcases hentry with hregistered | ⟨i, net, j', lease, rfl, hj', hphase, hsession⟩
    · exact h.pending j hold generation hawaits e hregistered
    · have hinstalls : j'.phase.installs = some lease := by rw [hphase]; rfl
      have hmade := h.inv.made j' (List.mem_of_getElem? hj') lease e (by rw [hphase]; rfl)
      rcases hapart j' hj' lease hinstalls j hold hsession.symm with hnone | hsame
      · rw [hnone] at hawaits
        nomatch hawaits
      · rw [hsame] at hawaits
        exact hmade.generation.trans (Option.some.inj hawaits)
  · rw [hstart] at hawaits
    nomatch hawaits
  · have hmem := List.mem_of_getElem? hj₀
    rcases hentry with hregistered | ⟨i', net', j', lease, heq, hj', hphase, -⟩
    · rw [← hsession] at hregistered
      rcases (joinStep_given h.inv hjoin).awaits generation hawaits with
        hsame | ⟨lease, hkey, hholds, hgeneration⟩ | hnone
      · exact h.pending j₀ hmem generation hsame e hregistered
      · obtain ⟨-, lease', hkey', hholds', hgeneration'⟩ := h.registered hmem hregistered
        obtain rfl := Holds.unique hholds hholds' (hkey.trans hkey'.symm)
        exact hgeneration'.symm.trans hgeneration
      · obtain ⟨-, lease', hkey', hholds', -⟩ := h.registered hmem hregistered
        exact absurd hholds' (hnone lease' hkey')
    · cases heq
      obtain rfl := Option.some.inj (hj₀.symm.trans hj')
      rw [hphase] at hjoin
      obtain ⟨-, hafter⟩ := Prod.mk.inj (Option.some.inj hjoin)
      rw [← hafter] at hawaits
      nomatch hawaits

theorem step_orderly {a : Action} (h : Orderly s)
    (hstep : step leaseTtl localRuntimeId s a = some s') (hcalm : Undisturbed s a s') :
    Orderly s' where
  inv := step_inv h.inv hstep
  books := step_books h hstep
  leases := hcalm.leases
  community := hcalm.community
  keyed := by
    intro j hj lease hfresh
    rcases joins_of_step hstep hj with hold | hstart | ⟨i, net, j₀, t, rfl, hj₀, hjoin, hs, hc⟩
    · exact h.keyed j hold lease hfresh
    · rw [hstart] at hfresh
      nomatch hfresh
    · rw [← hs, ← hc]
      rcases (joinStep_given h.inv hjoin).fresh lease hfresh with hsame | hkey
      · exact h.keyed j₀ (List.mem_of_getElem? hj₀) lease hsame
      · exact hkey
  pending _ hj _ hawaits _ he := pending_of_step h hstep hcalm.apart hj hawaits he

theorem Orderly.start (now : ℕ) : Orderly (Pod.start now) where
  inv := .start now
  books := ⟨nofun, nofun, nofun⟩
  leases _ _ h := nomatch h
  community := nofun
  keyed := nofun
  pending := nofun

theorem watched_of_orderly {a : Action} (h : Orderly s)
    (hstep : step leaseTtl localRuntimeId s a = some s') :
    Watched leaseTtl localRuntimeId s a s' := by
  have hinv := step_inv h.inv hstep
  constructor
  · intro i j generation henters hphase
    rcases enters_cases hstep henters with
      hstart | ⟨net, j₀, t, rfl, hj₀, hjoin, hsession, -, rfl⟩
    · rw [hphase] at hstart
      nomatch hstart
    · rw [hphase] at hjoin
      obtain ⟨rfl, ⟨attempt, hchecking⟩, e, he⟩ := returned_reuse hjoin
      have hmem := List.mem_of_getElem? hj₀
      have hgeneration := h.pending j₀ hmem generation (by rw [hchecking]; rfl) e he
      exact ⟨e, hsession ▸ he, hgeneration, (h.registered hmem he).1⟩
  · intro i j lease signals kept henters hphase
    rcases enters_cases hstep henters with
      hstart | ⟨net, j₀, t, rfl, hj₀, hjoin, hsession, -, rfl⟩
    · rw [hphase] at hstart
      nomatch hstart
    · rw [hphase] at hjoin
      have hmem := List.mem_of_getElem? hj₀
      have hmade := h.inv.made j₀ hmem lease
      rw [← hsession]
      rcases attached_cases hjoin with ⟨rfl, rfl⟩ | ⟨e, hsearching, he, rfl, rfl⟩ |
        ⟨e, hown, rfl, rfl, -⟩ | ⟨e, hown, rfl, rfl⟩
      · exact .inr (.inr (List.mem_cons_self ..))
      · have hgeneration := h.pending j₀ hmem lease.generation (by rw [hsearching]; rfl) e he
        exact .inl ⟨e, h.inv.registered _ e he, hgeneration, rfl, rfl⟩
      · exact (hmade e hown).watches
      · exact .inr (.inr (List.mem_cons_self ..))
  · intro i j lease signals henters hphase
    rcases enters_cases hstep henters with
      hstart | ⟨net, j₀, t, rfl, hj₀, hjoin, hsession, -, rfl⟩
    · rw [hphase] at hstart
      nomatch hstart
    · rw [hphase] at hjoin
      have hmade := h.inv.made j₀ (List.mem_of_getElem? hj₀) lease
      have hlast {r : Renewer} : r ∈ s.renewers ++ [r] :=
        List.mem_append_right _ (List.mem_singleton_self _)
      rcases attached_cases hjoin with ⟨rfl, rfl⟩ | ⟨e, hsearching, he, rfl, rfl⟩ |
        ⟨e, hown, rfl, rfl, hkept⟩ | ⟨e, hown, rfl, rfl⟩
      · exact ⟨_, hlast, rfl, List.mem_cons_self ..⟩
      · exact ⟨_, hlast, rfl, List.mem_cons_self ..⟩
      · nomatch hkept
      · obtain ⟨r, hr, hlease, hcancel⟩ := ((hmade e hown).grow grows_drain).renewer
        exact ⟨r, hr, hlease, hcancel ▸ List.mem_cons_self ..⟩
  · intro i r hr hcancel
    exact releases_of_cancelled hinv hr hcancel
  · rintro sessionId generation (rfl | rfl) sessionId' e he hother
    · cases hstep
      exact fenced_release he hother
    · cases hstep
      exact fenced_drain he hother

/-- In a run in which no lease is lost while its entry is registered, and no epoch is installed
between what a join reads in the directory and its look in the registry, each owner watches its own
epoch. -/
theorem run_watched (leaseTtl : ℕ) (localRuntimeId : RuntimeId) (now : ℕ) (actions : List Action)
    (hcalm : ∀ pre a, pre ++ [a] <+: actions → ∀ s,
      run leaseTtl localRuntimeId (.start now) pre = some s → ∀ s',
        step leaseTtl localRuntimeId s a = some s' → Undisturbed s a s')
    (pre : List Action) (a : Action) (hpre : pre ++ [a] <+: actions) (s s' : Pod)
    (hrun : run leaseTtl localRuntimeId (.start now) pre = some s)
    (hstep : step leaseTtl localRuntimeId s a = some s') :
    Watched leaseTtl localRuntimeId s a s' := by
  have horderly : Orderly s := foldlM_invariant_of_allowed (.start now)
    (fun _ _ s' h hok hs ↦ step_orderly h hs (hok s' hs))
    (fun pre' a' hpre' ↦ hcalm pre' a' (hpre'.trans ((List.prefix_append pre [a]).trans hpre))) hrun
  exact watched_of_orderly horderly hstep

/-- The second join is let in on the epoch of the first, the room empties after a renewal, and the
third starts generation 2. -/
def reusedEpoch : List Action :=
  [.join 1 2, .run 0 .answered, .run 0 .answered, .join 1 2, .run 1 .answered, .run 0 .answered,
    .run 0 .answered, .run 0 .answered, .run 0 .answered, .run 0 .answered, .renew 0 .answered,
    .run 1 .answered, .release 2 1, .cancelled 0, .join 1 2, .releaseLease 0 .answered,
    .run 2 .answered, .run 2 .answered, .run 2 .answered, .run 2 .answered, .run 2 .answered,
    .run 2 .answered, .run 2 .answered]

theorem reusedEpoch_undisturbed :
    StepsAll (step 30000 7) Undisturbed (.start 0) reusedEpoch := by
  decide +kernel

theorem run_watched_reuse : ∃ s s', run 30000 7 (.start 0) (reusedEpoch.take 11) = some s ∧
    step 30000 7 s (.run 1 .answered) = some s' ∧
    s'.joins[1]?.map Join.phase = some (.returned (.ok ⟨.localOwner 1, none⟩)) ∧
    Watched 30000 7 s (.run 1 .answered) s' := by
  have heval : ((run 30000 7 (.start 0) (reusedEpoch.take 11)).bind fun s ↦
      (step 30000 7 s (.run 1 .answered)).map fun s' ↦ s'.joins[1]?.map Join.phase) =
        some (some (.returned (.ok ⟨.localOwner 1, none⟩))) := by
    decide +kernel
  obtain ⟨s, hs, heval⟩ := Option.bind_eq_some_iff.mp heval
  obtain ⟨s', hstep, hphase⟩ := Option.map_eq_some_iff.mp heval
  exact ⟨s, s', hs, hstep, hphase, run_watched 30000 7 0 reusedEpoch
    reusedEpoch_undisturbed.forall_prefix _ _ ⟨reusedEpoch.drop 12, rfl⟩ s s' hs hstep⟩

/-- The first join of a huddle installs generation 1, whose lease expires before it is renewed; the
second acquires generation 2, and the third reads it and is about to look in the registry. -/
def expiredEpoch : List Action :=
  [.join 1 2, .run 0 .answered, .run 0 .answered, .run 0 .answered, .run 0 .answered,
    .run 0 .answered, .run 0 .answered, .run 0 .answered, .env (.setClock 40000),
    .join 1 2, .run 1 .answered, .run 1 .answered, .join 1 2, .run 2 .answered]

/-- The second join hands its lease to the registry. -/
def lateAttach : List Action := expiredEpoch ++ [.run 1 .answered, .run 1 .answered]

/-- The reused owner and the new one are both left with signals of generation 1. -/
theorem expiredEpoch_unwatched :
    (∃ s s' j, run 30000 7 (.start 0) expiredEpoch = some s ∧
      step 30000 7 s (.run 2 .answered) = some s' ∧ Enters s s' 2 j ∧
      j.phase = .returned (.ok ⟨.localOwner 2, none⟩) ∧
      ∀ e, s'.entries.lookup j.sessionId = some e → e.generation ≠ 2) ∧
    ∃ s s' j lease signals kept, run 30000 7 (.start 0) lateAttach = some s ∧
      step 30000 7 s (.run 1 .answered) = some s' ∧ Enters s s' 1 j ∧
      j.phase = .attached lease signals kept ∧ ¬Watches s' j.sessionId lease signals := by
  let lease : SessionLease := ⟨1, 2, 7, 2, .huddleControl⟩
  constructor
  · have heval : ((run 30000 7 (.start 0) expiredEpoch).bind fun s ↦
          (step 30000 7 s (.run 2 .answered)).map fun s' ↦
            (s.joins[2]?, s'.joins[2]?, s'.entries.lookup 2)) =
        some (some ⟨1, 2, .checking 0 2⟩, some ⟨1, 2, .returned (.ok ⟨.localOwner 2, none⟩)⟩,
          some ⟨0, 0, 0, 1⟩) := by
      decide +kernel
    obtain ⟨s, hs, heval⟩ := Option.bind_eq_some_iff.mp heval
    obtain ⟨s', hstep, heval⟩ := Option.map_eq_some_iff.mp heval
    simp only [Prod.mk.injEq] at heval
    obtain ⟨hbefore, hjoin, hentry⟩ := heval
    refine ⟨s, s', _, hs, hstep, ⟨hjoin, ?_⟩, rfl, ?_⟩
    · rw [hbefore]
      decide
    · intro e he
      obtain rfl := Option.some.inj (hentry.symm.trans he)
      decide
  · have heval : ((run 30000 7 (.start 0) lateAttach).bind fun s ↦
          (step 30000 7 s (.run 1 .answered)).map fun s' ↦
            ((s.joins[1]?, s'.joins[1]?), s'.epochs, s'.firedLost, s'.firedDraining)) =
        some ((some ⟨1, 2, .searching lease⟩, some ⟨1, 2, .attached lease ⟨0, 0⟩ false⟩),
          [(2, ⟨0, 0, 0, 1⟩)], [], []) := by
      decide +kernel
    obtain ⟨s, hs, heval⟩ := Option.bind_eq_some_iff.mp heval
    obtain ⟨s', hstep, heval⟩ := Option.map_eq_some_iff.mp heval
    simp only [Prod.mk.injEq] at heval
    obtain ⟨⟨hbefore, hjoin⟩, hepochs, hlost, hdraining⟩ := heval
    refine ⟨s, s', _, lease, ⟨0, 0⟩, false, hs, hstep, ⟨hjoin, ?_⟩, rfl, ?_⟩
    · rw [hbefore]
      decide
    · rw [Watches, hepochs, hlost, hdraining]
      rintro (⟨e, he, hgeneration, -⟩ | hfired | hfired)
      · obtain rfl := (Prod.mk.inj (List.mem_singleton.mp he)).2
        exact absurd hgeneration (by decide)
      · nomatch hfired
      · nomatch hfired

end Buzz.Audio.OwnerPod
