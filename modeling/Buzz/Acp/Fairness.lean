import Buzz.Acp.Custody

namespace Buzz.Acp

open Buzz.Lib Buzz.Nostr

namespace EventQueue

def Eligible (q : EventQueue) (now : Instant) (channelId : Uuid) : Prop :=
  q.ready now channelId (q.queueOf channelId) = true

instance (q : EventQueue) (now : Instant) (channelId : Uuid) :
    Decidable (q.Eligible now channelId) :=
  inferInstanceAs (Decidable (_ = true))

def HoldsOldest (q : EventQueue) (now : Instant) (channelId : Uuid) : Prop :=
  q.Eligible now channelId ∧ ∃ qe ∈ q.queueOf channelId, ∀ other, q.Eligible now other →
    ∀ qe' ∈ q.queueOf other, qe.receivedAt ≤ qe'.receivedAt

def HeadsOldest (q : EventQueue) (now : Instant) : Prop :=
  ∀ other, q.Eligible now other → ∀ qe ∈ q.queueOf other,
    headReceivedAt (q.queueOf other) ≤ qe.receivedAt

structure Served (q : EventQueue) (now : Instant) (batch : FlushBatch) : Prop where
  eligible : q.Eligible now batch.channelId
  oldestHead : ∀ other, q.Eligible now other →
    headReceivedAt (q.queueOf batch.channelId) ≤ headReceivedAt (q.queueOf other)
  front : batch.events.Perm
    (((q.queueOf batch.channelId).take maxBatchEvents).map QueuedEvent.toBatchEvent)
  sorted : batch.events.Pairwise fun a b ↦ a.event.createdAt.toNat ≤ b.event.createdAt.toNat

structure Redispatched (q : EventQueue) (now : Instant) (batch : FlushBatch) : Prop where
  none : ∀ other, ¬q.Eligible now other
  idle : batch.channelId ∉ q.inFlightChannels
  cancelled : q.cancelledBatches.lookup batch.channelId = some batch.events

variable {q : EventQueue} {now : Instant} {channelId : Uuid}

theorem queueOf_of_mem {e : (_ : Uuid) × List QueuedEvent} (h : e ∈ q.queues.entries) :
    q.queueOf e.1 = e.2 := by
  rw [queueOf, Map.mem_entries_iff.mp h]
  rfl

/-- The eligible channels are those that the scan of the queues finds. -/
theorem mem_ready_iff : (⟨channelId, q.queueOf channelId⟩ : (_ : Uuid) × List QueuedEvent) ∈
    q.queues.entries.filter (fun e ↦ q.ready now e.1 e.2) ↔ q.Eligible now channelId := by
  rw [List.mem_filter, Eligible, and_iff_right_iff_imp]
  intro hready
  rw [Map.mem_entries_iff]
  cases hlookup : q.queues.lookup channelId with
  | some queue => simp [queueOf, hlookup]
  | none => simp [ready, queueOf, hlookup] at hready

theorem eligible_of_mem {e : (_ : Uuid) × List QueuedEvent}
    (h : e ∈ q.queues.entries.filter fun e ↦ q.ready now e.1 e.2) :
    q.Eligible now e.1 ∧ q.queueOf e.1 = e.2 := by
  have hqueue := queueOf_of_mem (List.mem_filter.mp h).1
  refine ⟨?_, hqueue⟩
  rw [← mem_ready_iff, hqueue]
  exact h

theorem any_ready_iff : (q.queues.entries.any fun e ↦ q.ready now e.1 e.2) = true ↔
    ∃ other, q.Eligible now other := by
  rw [List.any_eq_true]
  constructor
  · rintro ⟨e, he, hready⟩
    exact ⟨e.1, (eligible_of_mem (List.mem_filter.mpr ⟨he, hready⟩)).1⟩
  · rintro ⟨other, h⟩
    have hmem := List.mem_filter.mp (mem_ready_iff.mpr h)
    exact ⟨_, hmem.1, hmem.2⟩

theorem getElem_mod_isSome {α : Type*} {l : List α} (pick : ℕ) :
    (l[pick % l.length]?).isSome = true ↔ l ≠ [] := by
  rw [Option.isSome_iff_ne_none, Ne,
    List.getElem?_eq_none_iff, not_le, ← List.length_pos_iff]
  exact ⟨fun h ↦ (Nat.zero_le _).trans_lt h, Nat.mod_lt _⟩

theorem exists_least {α : Type*} (f : α → ℕ) {l : List α} (h : l ≠ []) :
    ∃ a ∈ l, ∀ b ∈ l, f a ≤ f b := by
  induction l with
  | nil => exact absurd rfl h
  | cons a l ih =>
    by_cases hl : l = []
    · exact ⟨a, List.mem_cons_self, by simp [hl]⟩
    · obtain ⟨b, hb, hle⟩ := ih hl
      by_cases hab : f a ≤ f b
      · refine ⟨a, List.mem_cons_self, fun c hc ↦ ?_⟩
        rcases List.mem_cons.mp hc with rfl | hc
        · exact le_rfl
        · exact hab.trans (hle c hc)
      · refine ⟨b, List.mem_cons_of_mem a hb, fun c hc ↦ ?_⟩
        rcases List.mem_cons.mp hc with rfl | hc
        · omega
        · exact hle c hc

theorem nextChannel_isSome_iff (pick : ℕ) :
    (q.nextChannel now pick).isSome = true ↔ ∃ other, q.Eligible now other := by
  rw [nextChannel, Option.isSome_map, getElem_mod_isSome, ← any_ready_iff, List.any_eq_true]
  constructor
  · intro h
    obtain ⟨e, he⟩ := List.exists_mem_of_ne_nil _ h
    have hready := List.mem_filter.mp (List.mem_filter.mp he).1
    exact ⟨e, hready⟩
  · rintro ⟨e, he, hready⟩ hnil
    have hmem : e ∈ q.queues.entries.filter fun e ↦ q.ready now e.1 e.2 :=
      List.mem_filter.mpr ⟨he, hready⟩
    obtain ⟨a, ha, hle⟩ := exists_least
      (fun e : (_ : Uuid) × List QueuedEvent ↦ headReceivedAt e.2) (List.ne_nil_of_mem hmem)
    have holdest : a ∈ ([] : List ((_ : Uuid) × List QueuedEvent)) := by
      rw [← hnil]
      exact List.mem_filter.mpr ⟨ha, List.all_eq_true.mpr fun b hb ↦ decide_eq_true (hle b hb)⟩
    nomatch holdest

theorem nextChannel_spec {pick : ℕ} (h : q.nextChannel now pick = some channelId) :
    q.Eligible now channelId ∧ ∀ other, q.Eligible now other →
      headReceivedAt (q.queueOf channelId) ≤ headReceivedAt (q.queueOf other) := by
  obtain ⟨e, he, rfl⟩ := Option.map_eq_some_iff.mp h
  obtain ⟨hmem, holdest⟩ := List.mem_filter.mp (List.mem_of_getElem? he)
  obtain ⟨heligible, hqueue⟩ := eligible_of_mem hmem
  refine ⟨heligible, fun other hother ↦ ?_⟩
  rw [List.all_eq_true] at holdest
  rw [hqueue]
  exact of_decide_eq_true (holdest _ (mem_ready_iff.mpr hother))

theorem cancelledChannel_isSome_iff (pick : ℕ) :
    (q.cancelledChannel pick).isSome = true ↔
      (q.cancelledBatches.entries.any fun e ↦ e.1 ∉ q.inFlightChannels) = true := by
  rw [cancelledChannel, Option.isSome_map, getElem_mod_isSome, Ne, List.filter_eq_nil_iff]
  simp

theorem cancelledChannel_spec {pick : ℕ} (h : q.cancelledChannel pick = some channelId) :
    channelId ∉ q.inFlightChannels ∧
      ∃ events, q.cancelledBatches.lookup channelId = some events := by
  obtain ⟨e, he, rfl⟩ := Option.map_eq_some_iff.mp h
  obtain ⟨hmem, hidle⟩ := List.mem_filter.mp (List.mem_of_getElem? he)
  exact ⟨of_decide_eq_true hidle, e.2, Map.mem_entries_iff.mp hmem⟩

theorem flushNext_isSome_iff (q : EventQueue) (now : Instant) (pick : ℕ) :
    (q.flushNext now pick).2.isSome = true ↔ (q.hasFlushableWork now).2 = true := by
  have hnext : ((q.expire now).nextChannel now pick).isSome = true ↔
      ∃ other, (q.expire now).Eligible now other := nextChannel_isSome_iff pick
  have hcancelled := cancelledChannel_isSome_iff (q := q.expire now) pick
  rw [hasFlushableWork, Bool.or_eq_true, any_ready_iff, ← hnext, ← hcancelled, flushNext]
  dsimp only
  cases (q.expire now).nextChannel now pick with
  | some channelId => simp
  | none => cases (q.expire now).cancelledChannel pick <;> simp

theorem flushNext_spec {pick : ℕ} {batch : FlushBatch} (h : (q.flushNext now pick).2 = some batch) :
    (q.expire now).Served now batch ∨ (q.expire now).Redispatched now batch := by
  have hsome : ((q.expire now).nextChannel now pick).isSome = true ↔
      ∃ other, (q.expire now).Eligible now other := nextChannel_isSome_iff pick
  rw [flushNext] at h
  dsimp only at h
  cases hnext : (q.expire now).nextChannel now pick with
  | some channelId =>
    rw [hnext] at h
    obtain rfl := Option.some.inj h
    obtain ⟨heligible, holdest⟩ := nextChannel_spec hnext
    refine .inl ⟨heligible, holdest, List.perm_insertionSort _ _, ?_⟩
    have htotal : Std.Total fun a b : BatchEvent ↦
        a.event.createdAt.toNat ≤ b.event.createdAt.toNat := ⟨fun a b ↦ le_total _ _⟩
    have htrans : IsTrans BatchEvent fun a b ↦
        a.event.createdAt.toNat ≤ b.event.createdAt.toNat := ⟨fun a b c ↦ le_trans⟩
    exact List.pairwise_insertionSort _ _
  | none =>
    rw [hnext] at h hsome
    cases hcancelled : (q.expire now).cancelledChannel pick with
    | none =>
      rw [hcancelled] at h
      nomatch h
    | some channelId =>
      rw [hcancelled] at h
      obtain rfl := Option.some.inj h
      obtain ⟨hidle, events, hevents⟩ := cancelledChannel_spec hcancelled
      refine .inr ⟨fun other hother ↦ ?_, hidle, ?_⟩
      · exact Bool.false_ne_true (hsome.mpr ⟨other, hother⟩)
      · simp [hevents]

theorem nextChannel_of_flushNext {pick : ℕ} {batch : FlushBatch}
    (h : (q.flushNext now pick).2 = some batch)
    (heligible : ∃ other, (q.expire now).Eligible now other) :
    (q.expire now).nextChannel now pick = some batch.channelId := by
  have hsome := (nextChannel_isSome_iff pick).mpr heligible
  obtain ⟨channelId, hnext⟩ := Option.isSome_iff_exists.mp hsome
  rw [flushNext] at h
  dsimp only at h
  rw [hnext] at h ⊢
  obtain rfl := Option.some.inj h
  rfl

theorem Eligible.ne_nil (h : q.Eligible now channelId) : q.queueOf channelId ≠ [] := by
  rintro hnil
  simp [Eligible, ready, hnil] at h

theorem Served.size {batch : FlushBatch} (h : q.Served now batch) :
    1 ≤ batch.events.length ∧ batch.events.length ≤ maxBatchEvents := by
  have hlen := h.front.length_eq
  have hpos := List.length_pos_iff.mpr h.eligible.ne_nil
  have hmax : maxBatchEvents = 50 := rfl
  rw [List.length_map, List.length_take] at hlen
  omega

theorem Served.holdsOldest {batch : FlushBatch} (h : q.Served now batch)
    (hheads : q.HeadsOldest now) : q.HoldsOldest now batch.channelId := by
  obtain ⟨qe, queue, hqueue⟩ := List.exists_cons_of_ne_nil h.eligible.ne_nil
  have hhead : headReceivedAt (q.queueOf batch.channelId) = qe.receivedAt := by
    rw [hqueue]
    rfl
  refine ⟨h.eligible, qe, by rw [hqueue]; exact List.mem_cons_self, fun other hother qe' hqe' ↦ ?_⟩
  rw [← hhead]
  exact (h.oldestHead other hother).trans (hheads other hother qe' hqe')

end EventQueue

end Buzz.Acp
