import Buzz.PairRelay.Moves

namespace Buzz.PairRelay

open Buzz.Lib Buzz.Nostr

namespace Setup

variable (setup : Setup)

theorem wallSecs_mono {t t' : ℕ} (h : t ≤ t') : setup.wallSecs t ≤ setup.wallSecs t' := by
  unfold wallSecs
  exact_mod_cast Nat.div_le_div_right (Nat.add_le_add_left h _)

theorem wallSecs_add_ttl (t : ℕ) : setup.wallSecs (t + entryTtl) = setup.wallSecs t + 300 := by
  have hadd : setup.epoch + (t + entryTtl) = setup.epoch + t + 300 * nanos 1 := by
    simp only [entryTtl, nanos]
    omega
  unfold wallSecs
  rw [hadd, Nat.add_mul_div_right _ _ (by decide)]
  push_cast
  rfl

def Stale (p : Pending) (t : ℕ) : Prop :=
  ∀ c, eventCreatedAt p.event = some c → c + freshnessSecs < setup.wallSecs t

/-- The event of a run that passed the checks by now. -/
def Known (E : Json → Prop) (p : Pending) (t : ℕ) : Prop :=
  E p.event ∧ ∃ t₀ ≤ t, p.Accepted setup.crypto (setup.wallSecs t₀)

variable {setup} {E : Json → Prop} {p q : Pending} {t t' : ℕ}

theorem Stale.mono (h : setup.Stale p t) (ht : t ≤ t') : setup.Stale p t' :=
  fun c hc ↦ lt_of_lt_of_le (h c hc) (setup.wallSecs_mono ht)

theorem Stale.not_fresh (h : setup.Stale p t) {c : ℤ} (hc : eventCreatedAt p.event = some c) :
    ¬Fresh c (setup.wallSecs t) := by
  intro hfresh
  have hlt := h c hc
  simp only [Fresh, freshnessSecs] at hfresh hlt
  omega

theorem Known.mono (h : setup.Known E p t) (ht : t ≤ t') : setup.Known E p t' := by
  obtain ⟨hE, t₀, ht₀, haccepted⟩ := h
  exact ⟨hE, t₀, ht₀.trans ht, haccepted⟩

/-- A reservation outlasts the window of an event that was fresh when it was checked. -/
theorem Known.stale_add_ttl (h : setup.Known E p t) : setup.Stale p (t + entryTtl) := by
  obtain ⟨-, t₀, ht₀, haccepted⟩ := h
  obtain ⟨-, -, c, hc, hfresh⟩ := of_validateEvent haccepted.valid
  intro c' hc'
  cases hc.symm.trans hc'
  have hmono := setup.wallSecs_mono ht₀
  rw [wallSecs_add_ttl]
  simp only [Fresh, freshnessSecs] at hfresh ⊢
  omega

/-- No two of the events have different commitments and one id. -/
def NoCollision (setup : Setup) (E : Json → Prop) : Prop :=
  ∀ ev ev', E ev → E ev' → ∀ hashed hashed', commitment ev = .ok hashed →
    commitment ev' = .ok hashed' → setup.crypto.digest hashed = setup.crypto.digest hashed' →
    hashed = hashed'

theorem Stale.congr (hE : setup.NoCollision E) (hp : setup.Known E p t) (hq : setup.Known E q t)
    (hid : p.id = q.id) (h : setup.Stale p t') : setup.Stale q t' := by
  obtain ⟨hpE, _, -, hpa⟩ := hp
  obtain ⟨hqE, _, -, hqa⟩ := hq
  obtain ⟨hashed, hhashed, hdigest⟩ := digest_eq_of_accepted hpa.valid hpa.signed
  obtain ⟨hashed', hhashed', hdigest'⟩ := digest_eq_of_accepted hqa.valid hqa.signed
  obtain rfl := hE _ _ hpE hqE _ _ hhashed hhashed' (hdigest.trans (hid.trans hdigest'.symm))
  intro c hc
  exact h c ((eventCreatedAt_eq_of_commitment hhashed hhashed').trans hc)

end Setup

namespace Relay

variable {r : Relay} {id : EventId} {now stamp : ℕ}

def kept (r : Relay) (now : ℕ) : List (EventId × ℕ) :=
  r.seenIds.filter fun e ↦ now - e.2 < entryTtl

theorem reserveId_eq_ok_false (h : (r.reserveId id now stamp).1 = .ok false) :
    (∀ e ∈ r.kept now, e.1 ≠ id) ∧
      (r.reserveId id now stamp).2 = { r with seenIds := r.kept now ++ [(id, stamp)] } := by
  unfold reserveId at h ⊢
  dsimp only at h ⊢
  split at h
  · cases h
  case isFalse hany =>
    rw [if_neg hany]
    split at h
    · cases h
    case isFalse hcap =>
      rw [if_neg hcap]
      refine ⟨fun e he heq ↦ hany ?_, rfl⟩
      exact List.any_eq_true.mpr ⟨e, he, decide_eq_true heq⟩

theorem reserveId_ne_ok_false (h : (r.reserveId id now stamp).1 ≠ .ok false) :
    (r.reserveId id now stamp).2 = { r with seenIds := r.kept now } := by
  unfold reserveId at h ⊢
  dsimp only at h ⊢
  split
  · rfl
  case isFalse hany =>
    rw [if_neg hany] at h
    split
    · rfl
    case isFalse hcap =>
      rw [if_neg hcap] at h
      exact (h rfl).elim

theorem reserveId_of_free (h : ∀ e ∈ r.kept now, e.1 ≠ id) :
    (r.reserveId id now stamp).1 = .ok false ∨
      (r.reserveId id now stamp).1 = .error () ∧ dedupCap ≤ (r.kept now).length := by
  have hany : ¬(r.kept now).any (fun e ↦ e.1 = id) = true := by
    rw [List.any_eq_true]
    rintro ⟨e, he, heq⟩
    exact h e he (of_decide_eq_true heq)
  by_cases hcap : dedupCap ≤ (r.kept now).length
  all_goals unfold kept at hany hcap
  all_goals unfold reserveId kept
  all_goals dsimp only
  all_goals rw [if_neg hany]
  · rw [if_pos hcap]
    exact .inr ⟨rfl, hcap⟩
  · rw [if_neg hcap]
    exact .inl rfl

theorem perm_swapRemove {α : Type} {l : List α} {i : ℕ} (hi : i < l.length) :
    l.Perm (l[i] :: swapRemove l i) := by
  induction l using List.reverseRecOn with
  | nil => cases hi
  | append_singleton init last _ =>
    have hswap : swapRemove (init ++ [last]) i = ((init ++ [last]).set i last).dropLast := by
      rw [swapRemove, List.getLast?_concat]
    rw [List.length_append, List.length_singleton] at hi
    rw [hswap]
    by_cases hlast : i < init.length
    · rw [List.set_append_left i last hlast, List.dropLast_concat, List.getElem_append_left hlast]
      have hset := (List.set_perm_cons_eraseIdx hlast last).cons init[i]
      have hget := (List.getElem_cons_eraseIdx_perm hlast).cons last
      exact (List.perm_append_singleton last init).trans
        (hget.symm.trans ((List.Perm.swap _ _ _).trans hset.symm))
    · obtain rfl : i = init.length := by omega
      rw [List.set_append_right _ _ le_rfl, Nat.sub_self, List.set_cons_zero, List.dropLast_concat,
        List.getElem_append_right le_rfl]
      simp

/-- The entry that `unreserve_id` takes out is the id's one entry. -/
theorem unreserveId_spec (hnodup : (r.seenIds.map Prod.fst).Nodup) :
    ((r.unreserveId id).seenIds.map Prod.fst).Nodup ∧
      ∀ e, e ∈ (r.unreserveId id).seenIds ↔ e ∈ r.seenIds ∧ e.1 ≠ id := by
  unfold unreserveId
  split
  case h_1 hnone =>
    refine ⟨hnodup, fun e ↦ ⟨fun he ↦ ⟨he, ?_⟩, And.left⟩⟩
    simpa using List.findIdx?_eq_none_iff.mp hnone e he
  case h_2 i hsome =>
    obtain ⟨hi, hid, -⟩ := List.findIdx?_eq_some_iff_getElem.mp hsome
    have hperm := perm_swapRemove hi
    have hcons := (hperm.map Prod.fst).nodup_iff.mp hnodup
    rw [List.map_cons, List.nodup_cons] at hcons
    obtain ⟨hfirst, hrest⟩ := hcons
    rw [of_decide_eq_true hid] at hfirst
    refine ⟨hrest, fun e ↦ ?_⟩
    rw [hperm.mem_iff, List.mem_cons]
    constructor
    · intro he
      exact ⟨.inr he, fun heq ↦ hfirst (List.mem_map.mpr ⟨e, he, heq⟩)⟩
    · rintro ⟨rfl | he, hne⟩
      · exact (hne (of_decide_eq_true hid)).elim
      · exact he

end Relay

def Op.Submits (E : Json → Prop) : Op → Prop
  | .frame _ f _ => ∀ ev, f.submitted = some ev → E ev
  | _ => True

namespace View

variable {v : View} {c i : ℕ} {stage : Stage} {p : Pending}

/-- The task of a connection is between the reservation of an id and its outcome. -/
def Holds (v : View) (i : ℕ) (p : Pending) : Prop :=
  v.stages[i]? = some (.reserved p) ∨ ∃ reason, v.stages[i]? = some (.undelivered p reason)

theorem getElem?_setStage : (v.setStage c stage).stages[i]? =
    if c = i then v.stages[c]?.map fun _ ↦ stage else v.stages[i]? := by
  rw [setStage, List.getElem?_set]
  by_cases hi : c = i
  · subst hi
    by_cases hlt : c < v.stages.length
    · simp [hlt]
    · simp [hlt]
  · simp [hi]

def Covered (setup : Setup) (v : View) (p : Pending) : Prop :=
  ∃ stamp, (p.id, stamp) ∈ v.relay.seenIds ∧ setup.Stale p (stamp + entryTtl)

/-- What the reservations guarantee: a fresh event that is held or delivered has its id reserved, by
one task or by its one delivery. -/
structure Dedup (setup : Setup) (E : Json → Prop) (v : View) : Prop where
  nodup : (v.relay.seenIds.map Prod.fst).Nodup
  verified : ∀ (i : ℕ) (p : Pending), v.stages[i]? = some (.verified p) → setup.Known E p v.clock
  known : ∀ i p, v.Holds i p → setup.Known E p v.clock
  sent : ∀ d ∈ v.deliveries, setup.Known E d.pending v.clock
  held : ∀ i p, v.Holds i p → setup.Stale p v.clock ∨ v.Covered setup p ∧
    (∀ j q, v.Holds j q → q.id = p.id → j = i) ∧ ∀ d ∈ v.deliveries, d.pending.id ≠ p.id
  covered : ∀ d ∈ v.deliveries, setup.Stale d.pending v.clock ∨ v.Covered setup d.pending
  once : v.deliveries.Pairwise fun later earlier ↦
    later.pending.id = earlier.pending.id → setup.Stale earlier.pending later.time

variable {setup : Setup} {E : Json → Prop} {v' : View}

/-- Steps that leave the reservations and the deliveries alone. -/
theorem Dedup.of_quiet (h : v.Dedup setup E) (hseen : v'.relay.seenIds = v.relay.seenIds)
    (hsent : v'.deliveries = v.deliveries) (hclock : v.clock ≤ v'.clock)
    (hholds : ∀ i p, v'.Holds i p → v.Holds i p)
    (hverified : ∀ (i : ℕ) (p : Pending),
      v'.stages[i]? = some (.verified p) → v.stages[i]? = some (.verified p) ∨
      setup.Known E p v'.clock) : v'.Dedup setup E where
  nodup := hseen ▸ h.nodup
  verified i p hp := (hverified i p hp).elim (fun hp ↦ (h.verified i p hp).mono hclock) id
  known i p hp := (h.known i p (hholds i p hp)).mono hclock
  sent d hd := (h.sent d (hsent ▸ hd)).mono hclock
  held i p hp := by
    rcases h.held i p (hholds i p hp) with hstale | ⟨hcovered, hunique, hunsent⟩
    · exact .inl (hstale.mono hclock)
    · refine .inr ⟨?_, fun j q hq ↦ hunique j q (hholds j q hq), ?_⟩
      · rw [Covered, hseen]
        exact hcovered
      · rw [hsent]
        exact hunsent
  covered d hd := by
    rcases h.covered d (hsent ▸ hd) with hstale | hcovered
    · exact .inl (hstale.mono hclock)
    · right
      rw [Covered, hseen]
      exact hcovered
  once := hsent ▸ h.once

/-- An event is held as before, or by the task that the step takes on. -/
theorem holds_setStage (h : (v.setStage c stage).Holds i p) : i ≠ c ∧ v.Holds i p ∨
    i = c ∧ (stage = .reserved p ∨ ∃ reason, stage = .undelivered p reason) := by
  simp only [Holds, getElem?_setStage] at h
  by_cases hi : c = i
  · rw [if_pos hi, Option.map_eq_some_iff] at h
    refine .inr ⟨hi.symm, ?_⟩
    rcases h with ⟨_, -, heq⟩ | ⟨reason, h⟩
    · exact .inl heq
    · obtain ⟨_, -, heq⟩ := Option.map_eq_some_iff.mp h
      exact .inr ⟨reason, heq⟩
  · rw [if_neg hi] at h
    exact .inl ⟨fun heq ↦ hi heq.symm, h⟩

theorem holds_of_setStage (hstage : ∀ p, stage ≠ .reserved p ∧ ∀ reason, stage ≠ .undelivered p reason)
    (h : (v.setStage c stage).Holds i p) : i ≠ c ∧ v.Holds i p := by
  rcases holds_setStage h with hold | ⟨-, heq | ⟨reason, heq⟩⟩
  · exact hold
  · exact ((hstage p).1 heq).elim
  · exact ((hstage p).2 reason heq).elim

theorem verified_of_setStage (h : (v.setStage c stage).stages[i]? = some (.verified p)) :
    v.stages[i]? = some (.verified p) ∨ stage = .verified p := by
  rw [getElem?_setStage] at h
  split at h
  · obtain ⟨_, -, heq⟩ := Option.map_eq_some_iff.mp h
    exact .inr heq
  · exact .inl h

/-- Entries go only when the windows of their events have passed. -/
theorem Covered.kept {now : ℕ} (h : v.Covered setup p) :
    setup.Stale p now ∨ ∃ stamp, (p.id, stamp) ∈ v.relay.kept now ∧
      setup.Stale p (stamp + entryTtl) := by
  obtain ⟨stamp, hmem, hstale⟩ := h
  by_cases hkeep : now - stamp < entryTtl
  · exact .inr ⟨stamp, List.mem_filter.mpr ⟨hmem, decide_eq_true hkeep⟩, hstale⟩
  · refine .inl (hstale.mono ?_)
    simp only [entryTtl, nanos] at hkeep ⊢
    omega

/-- Steps that only take one task on, past no reservation. -/
theorem Dedup.setStage (h : v.Dedup setup E) (c : ℕ) (stage : Stage)
    (hstage : ∀ p, stage ≠ .reserved p ∧ ∀ reason, stage ≠ .undelivered p reason)
    (hverified : ∀ p, stage = .verified p → setup.Known E p v'.clock)
    (hseen : v'.relay.seenIds = v.relay.seenIds) (hsent : v'.deliveries = v.deliveries)
    (hclock : v.clock ≤ v'.clock) (hstages : v'.stages = (v.setStage c stage).stages) :
    v'.Dedup setup E := by
  refine h.of_quiet hseen hsent hclock ?_ ?_
  · intro i p hp
    rw [Holds, hstages] at hp
    exact (holds_of_setStage hstage hp).2
  · intro i p hp
    rw [hstages] at hp
    exact (verified_of_setStage hp).imp_right (hverified p)

theorem Dedup.notReserved {now stamp : ℕ} (h : v.Dedup setup E) (hnow : v.clock ≤ now)
    (hstamp : now ≤ stamp) :
    ({ v.setStage c .reading with
      relay := { v.relay with seenIds := v.relay.kept now }, clock := stamp } : View).Dedup
        setup E := by
  have hmono := hnow.trans hstamp
  have hkept {p : Pending} (hp : v.Covered setup p) : setup.Stale p stamp ∨
      Covered setup { v.setStage c .reading with
        relay := { v.relay with seenIds := v.relay.kept now }, clock := stamp } p :=
    (hp.kept).imp_left fun hstale ↦ hstale.mono hstamp
  have hholds : ∀ i p, Holds { v.setStage c .reading with
      relay := { v.relay with seenIds := v.relay.kept now }, clock := stamp } i p → v.Holds i p :=
    fun i p hp ↦ (holds_of_setStage (by simp) hp).2
  refine ⟨h.nodup.sublist (List.filter_sublist.map _), ?_, ?_, ?_, ?_, ?_, h.once⟩
  · intro i p hp
    exact ((verified_of_setStage hp).elim (h.verified i p) nofun).mono hmono
  · exact fun i p hp ↦ (h.known i p (hholds i p hp)).mono hmono
  · exact fun d hd ↦ (h.sent d hd).mono hmono
  · intro i p hp
    rcases h.held i p (hholds i p hp) with hstale | ⟨hcovered, hunique, hunsent⟩
    · exact .inl (hstale.mono hmono)
    · exact (hkept hcovered).imp_right fun hcovered ↦
        ⟨hcovered, fun j q hq ↦ hunique j q (hholds j q hq), hunsent⟩
  · intro d hd
    rcases h.covered d hd with hstale | hcovered
    · exact .inl (hstale.mono hmono)
    · exact hkept hcovered

theorem Dedup.reserved {now stamp : ℕ} (h : v.Dedup setup E) (hE : setup.NoCollision E)
    (hstage : v.stages[c]? = some (.verified p)) (hnow : v.clock ≤ now) (hstamp : now ≤ stamp)
    (hfree : ∀ e ∈ v.relay.kept now, e.1 ≠ p.id) :
    ({ v.setStage c (.reserved p) with
      relay := { v.relay with seenIds := v.relay.kept now ++ [(p.id, stamp)] }
      clock := stamp } : View).Dedup setup E := by
  have hmono := hnow.trans hstamp
  have hp := h.verified c p hstage
  have hfresh {q : Pending} (hq : setup.Known E q v.clock) (hid : q.id = p.id)
      (hcovered : setup.Stale q v.clock ∨ v.Covered setup q) : setup.Stale p stamp := by
    have hstale : setup.Stale q stamp := by
      rcases hcovered with hstale | hcovered
      · exact hstale.mono hmono
      · rcases hcovered.kept with hstale | ⟨_, hmem, -⟩
        · exact hstale.mono hstamp
        · exact (hfree _ hmem hid).elim
    exact hstale.congr hE hq hp hid
  have hkept {q : Pending} (hq : v.Covered setup q) : setup.Stale q stamp ∨
      q.id ≠ p.id ∧ ∃ st, (q.id, st) ∈ v.relay.kept now ++ [(p.id, stamp)] ∧
        setup.Stale q (st + entryTtl) := by
    rcases hq.kept with hstale | ⟨st, hmem, hst⟩
    · exact .inl (hstale.mono hstamp)
    · exact .inr ⟨hfree _ hmem, st, List.mem_append_left _ hmem, hst⟩
  have hholds {i : ℕ} {q : Pending} (hq : Holds (v.setStage c (.reserved p)) i q) :
      i ≠ c ∧ v.Holds i q ∨ i = c ∧ q = p := by
    rcases holds_setStage hq with hold | ⟨hi, heq | ⟨_, heq⟩⟩
    · exact .inl hold
    · cases heq
      exact .inr ⟨hi, rfl⟩
    · cases heq
  refine ⟨?_, ?_, ?_, ?_, ?_, ?_, h.once⟩
  · rw [List.map_append, List.nodup_append]
    refine ⟨h.nodup.sublist (List.filter_sublist.map _), List.nodup_singleton _, ?_⟩
    intro id hid id' hid'
    obtain ⟨e, he, rfl⟩ := List.mem_map.mp hid
    obtain rfl := List.mem_singleton.mp hid'
    exact hfree e he
  · intro i q hq
    exact ((verified_of_setStage hq).elim (h.verified i q) nofun).mono hmono
  · intro i q hq
    rcases hholds hq with ⟨-, hold⟩ | ⟨-, rfl⟩
    · exact (h.known i q hold).mono hmono
    · exact hp.mono hmono
  · exact fun d hd ↦ (h.sent d hd).mono hmono
  · intro i q hq
    rcases hholds hq with ⟨hi, hold⟩ | ⟨rfl, rfl⟩
    · rcases h.held i q hold with hstale | ⟨hcovered, hunique, hunsent⟩
      · exact .inl (hstale.mono hmono)
      · refine (hkept hcovered).imp_right fun ⟨hne, hcovered⟩ ↦ ⟨hcovered, ?_, hunsent⟩
        intro j q' hq' hid
        rcases hholds hq' with ⟨-, hold'⟩ | ⟨-, rfl⟩
        · exact hunique j q' hold' hid
        · exact (hne hid.symm).elim
    · by_cases hstale : setup.Stale q stamp
      · exact .inl hstale
      · refine .inr ⟨⟨stamp, List.mem_append_right _ List.mem_cons_self,
          (hp.mono hmono).stale_add_ttl⟩, ?_, ?_⟩
        · intro j q' hq' hid
          rcases hholds hq' with ⟨-, hold'⟩ | ⟨hj, -⟩
          · have hheld := (h.held j q' hold').imp_right And.left
            exact (hstale (hfresh (h.known j q' hold') hid hheld)).elim
          · exact hj
        · intro d hd hid
          exact hstale (hfresh (h.sent d hd) hid (h.covered d hd))
  · intro d hd
    rcases h.covered d hd with hstale | hcovered
    · exact .inl (hstale.mono hmono)
    · exact (hkept hcovered).imp_right And.right

theorem Dedup.delivered {stamp connId : ℕ} {subId : String} {delivered : Map PublicKey (ℕ × ℕ)}
    (h : v.Dedup setup E) (hE : setup.NoCollision E) (hstage : v.stages[c]? = some (.reserved p))
    (hclock : v.clock ≤ stamp) :
    ({ v.setStage c .reading with
      relay := { v.relay with delivered }, clock := stamp
      deliveries := ⟨p, connId, subId, stamp⟩ :: v.deliveries } : View).Dedup setup E := by
  have hholds {i : ℕ} {q : Pending} (hq : Holds (v.setStage c .reading) i q) :
      i ≠ c ∧ v.Holds i q :=
    holds_of_setStage (by simp) hq
  have hp : v.Holds c p := .inl hstage
  refine ⟨h.nodup, ?_, ?_, ?_, ?_, ?_, ?_⟩
  · intro i q hq
    exact ((verified_of_setStage hq).elim (h.verified i q) nofun).mono hclock
  · exact fun i q hq ↦ (h.known i q (hholds hq).2).mono hclock
  · intro d hd
    rcases List.mem_cons.mp hd with rfl | hd
    · exact (h.known c p hp).mono hclock
    · exact (h.sent d hd).mono hclock
  · intro i q hq
    obtain ⟨hi, hold⟩ := hholds hq
    rcases h.held i q hold with hstale | ⟨hcovered, hunique, hunsent⟩
    · exact .inl (hstale.mono hclock)
    · refine .inr ⟨hcovered, fun j q' hq' ↦ hunique j q' (hholds hq').2, ?_⟩
      intro d hd
      rcases List.mem_cons.mp hd with rfl | hd
      · exact fun hid ↦ hi (hunique c p hp hid).symm
      · exact hunsent d hd
  · intro d hd
    rcases List.mem_cons.mp hd with rfl | hd
    · exact (h.held c p hp).imp (fun hstale ↦ hstale.mono hclock) And.left
    · exact (h.covered d hd).imp_left fun hstale ↦ hstale.mono hclock
  · refine List.Pairwise.cons ?_ h.once
    intro d hd hid
    rcases h.held c p hp with hstale | ⟨-, -, hunsent⟩
    · exact (hstale.mono hclock).congr hE (h.known c p hp) (h.sent d hd) hid
    · exact (hunsent d hd hid.symm).elim

theorem Dedup.undelivered {stamp : ℕ} {reason : String} {delivered : Map PublicKey (ℕ × ℕ)}
    (h : v.Dedup setup E) (hstage : v.stages[c]? = some (.reserved p)) (hclock : v.clock ≤ stamp) :
    ({ v.setStage c (.undelivered p reason) with
      relay := { v.relay with delivered }, clock := stamp } : View).Dedup setup E := by
  refine h.of_quiet rfl rfl hclock ?_ ?_
  · intro i q hq
    rcases holds_setStage hq with ⟨-, hold⟩ | ⟨rfl, heq | ⟨_, heq⟩⟩
    · exact hold
    · cases heq
    · cases heq
      exact .inl hstage
  · exact fun i q hq ↦ (verified_of_setStage hq).imp_right nofun

theorem Dedup.unreserved {reason : String} (h : v.Dedup setup E) (hE : setup.NoCollision E)
    (hstage : v.stages[c]? = some (.undelivered p reason)) :
    ({ v.setStage c .reading with relay := v.relay.unreserveId p.id } : View).Dedup setup E := by
  have hholds {i : ℕ} {q : Pending} (hq : Holds (v.setStage c .reading) i q) :
      i ≠ c ∧ v.Holds i q :=
    holds_of_setStage (by simp) hq
  have hp : v.Holds c p := .inr ⟨reason, hstage⟩
  obtain ⟨hnodup, hmem⟩ := @Relay.unreserveId_spec v.relay p.id h.nodup
  have hkept {q : Pending} (hq : v.Covered setup q) (hne : q.id ≠ p.id) :
      Covered setup { v.setStage c .reading with relay := v.relay.unreserveId p.id } q := by
    obtain ⟨stamp, hentry, hstale⟩ := hq
    exact ⟨stamp, (hmem _).mpr ⟨hentry, hne⟩, hstale⟩
  refine ⟨hnodup, ?_, fun i q hq ↦ h.known i q (hholds hq).2, h.sent, ?_, ?_, h.once⟩
  · exact fun i q hq ↦ (verified_of_setStage hq).elim (h.verified i q) nofun
  · intro i q hq
    obtain ⟨hi, hold⟩ := hholds hq
    rcases h.held i q hold with hstale | ⟨hcovered, hunique, hunsent⟩
    · exact .inl hstale
    · refine .inr ⟨hkept hcovered ?_, fun j q' hq' ↦ hunique j q' (hholds hq').2, hunsent⟩
      exact fun hid ↦ hi (hunique c p hp hid.symm).symm
  · intro d hd
    rcases h.covered d hd with hstale | hcovered
    · exact .inl hstale
    · by_cases hid : d.pending.id = p.id
      · rcases h.held c p hp with hstale | ⟨-, -, hunsent⟩
        · exact .inl (hstale.congr hE (h.known c p hp) (h.sent d hd) hid.symm)
        · exact (hunsent d hd hid).elim
      · exact .inr (hkept hcovered hid)

theorem Dedup.moved {op : Op} (h : v.Dedup setup E) (hE : setup.NoCollision E) (hop : op.Submits E)
    (hmoved : Moved setup v op v') : v'.Dedup setup E := by
  cases hmoved with
  | refused | rejected =>
    exact h.of_quiet rfl rfl le_rfl (fun _ _ ↦ id) fun _ _ ↦ .inl
  | admitted =>
    have hold {i : ℕ} {stage : Stage} (hi : (v.stages ++ [.upgrading])[i]? = some stage)
        (hstage : stage ≠ .upgrading) : v.stages[i]? = some stage := by
      by_cases hlt : i < v.stages.length
      · rwa [List.getElem?_append_left hlt] at hi
      · rw [List.getElem?_append_right (Nat.le_of_not_lt hlt)] at hi
        exact (hstage (List.mem_singleton.mp (List.mem_of_getElem? hi))).elim
    refine h.of_quiet rfl rfl le_rfl ?_ ?_
    · rintro i p (hp | ⟨reason, hp⟩)
      · exact .inl (hold hp nofun)
      · exact .inr ⟨reason, hold hp nofun⟩
    · exact fun i p hp ↦ .inl (hold hp nofun)
  | upgraded c now hstage hnow =>
    exact h.setStage c .reading (by simp) (fun _ heq ↦ nomatch heq) rfl rfl hnow rfl
  | uncounted _ c stage hstage hor =>
    exact h.setStage c .closed (by simp) (fun _ heq ↦ nomatch heq) rfl rfl le_rfl rfl
  | framed c frame now hstage hnow hframed =>
    cases hframed with
    | quiet => exact h.of_quiet rfl rfl hnow (fun _ _ ↦ id) fun _ _ ↦ .inl
    | leave => exact h.setStage c .leaving (by simp) (fun _ heq ↦ nomatch heq) rfl rfl hnow rfl
    | verified p haccepted hsubmitted =>
      refine h.setStage c (.verified p) (by simp) ?_ rfl rfl hnow rfl
      rintro q ⟨⟩
      exact ⟨hop _ hsubmitted, now, le_rfl, haccepted⟩
    | subscribed | unsubscribed =>
      exact h.of_quiet rfl rfl hnow (fun _ _ ↦ id) fun _ _ ↦ .inl
  | notReserved c now stamp p hstage hnow hstamp hanswer =>
    rw [Relay.reserveId_ne_ok_false hanswer]
    exact h.notReserved hnow hstamp
  | reserved c now stamp p hstage hnow hstamp hanswer =>
    obtain ⟨hfree, hrelay⟩ := Relay.reserveId_eq_ok_false hanswer
    rw [hrelay]
    exact h.reserved hE hstage hnow hstamp hfree
  | delivered c now stamp p sub hstage hnow hstamp =>
    exact h.delivered hE hstage (hnow.trans hstamp)
  | undelivered c now stamp p reason delivered hstage hnow hstamp =>
    exact h.undelivered hstage (hnow.trans hstamp)
  | unreserved c p reason hstage => exact h.unreserved hE hstage
  | stopped c hstage =>
    exact h.setStage c .leaving (by simp) (fun _ heq ↦ nomatch heq) rfl rfl le_rfl rfl
  | removedSub _ c stage stage' hstage hor =>
    refine h.setStage c stage' ?_ ?_ rfl rfl le_rfl rfl
    · rcases hor with ⟨-, rfl⟩ | ⟨-, rfl⟩
      · simp
      · simp
    · rcases hor with ⟨-, rfl⟩ | ⟨-, rfl⟩
      · exact fun _ heq ↦ nomatch heq
      · exact fun _ heq ↦ nomatch heq
  | channel => exact h

end View

end Buzz.PairRelay
