import Buzz.Acp.Custody

namespace Buzz.Acp

open Buzz.Lib Buzz.Nostr

/-- The retry records are the same, and no channel has a cancelled batch that had none. -/
structure EventQueue.Calm (q q' : EventQueue) : Prop where
  counts : q'.retryCounts = q.retryCounts
  throttles : q'.retryAfter = q.retryAfter
  cancelled : ∀ channelId, channelId ∈ q'.cancelledBatches → channelId ∈ q.cancelledBatches

namespace EventQueue

variable {q q' q'' : EventQueue}

theorem Calm.refl (q : EventQueue) : q.Calm q := ⟨rfl, rfl, fun _ ↦ id⟩

theorem Calm.trans (h : q.Calm q') (h' : q'.Calm q'') : q.Calm q'' :=
  ⟨h'.counts.trans h.counts, h'.throttles.trans h.throttles,
    fun channelId hmem ↦ h.cancelled channelId (h'.cancelled channelId hmem)⟩

theorem Calm.attempts (h : q.Calm q') (channelId : Uuid) :
    q'.attempts channelId = q.attempts channelId := by
  rw [EventQueue.attempts, h.counts]
  rfl

theorem calm_push (q : EventQueue) (event : QueuedEvent) : q.Calm (q.push event).1 := by
  rw [push]
  split
  · exact .refl q
  · exact ⟨rfl, rfl, fun _ ↦ id⟩

theorem calm_expire (q : EventQueue) (now : Instant) : q.Calm (q.expire now) := by
  rw [expire]
  induction q.expired now generalizing q with
  | nil => exact .refl q
  | cons channelId channels ih =>
    refine Calm.trans ?_ (ih _)
    rw [expireChannel, recoverWithheldForExpiredChannel]
    split
    · exact ⟨rfl, rfl, fun _ ↦ id⟩
    · exact ⟨rfl, rfl, fun _ ↦ id⟩

theorem calm_startFlight (q : EventQueue) (now : Instant) (channelId : Uuid) :
    q.Calm (q.startFlight now channelId) :=
  ⟨rfl, rfl, fun _ hmem ↦ (AList.mem_erase.mp hmem).2⟩

theorem calm_flushNext (q : EventQueue) (now : Instant) (pick : ℕ) :
    q.Calm (q.flushNext now pick).1 := by
  refine (q.calm_expire now).trans ?_
  rw [flushNext]
  simp only
  split
  · next channelId _ =>
    have hset : (q.expire now).Calm ((q.expire now).setQueue channelId
        (((q.expire now).queueOf channelId).drop maxBatchEvents)) := ⟨rfl, rfl, fun _ ↦ id⟩
    exact hset.trans (calm_startFlight _ now channelId)
  · split
    · exact .refl _
    · exact calm_startFlight _ now _

theorem calm_markNativeSteerPending (q : EventQueue) (channelId : Uuid) (eventId : String) :
    q.Calm (q.markNativeSteerPending channelId eventId).1 := by
  rw [markNativeSteerPending]
  split
  · exact .refl q
  · exact ⟨rfl, rfl, fun _ ↦ id⟩

theorem calm_releaseNativeSteer (q : EventQueue) (channelId : Uuid) (eventId : String) :
    q.Calm (q.releaseNativeSteer channelId eventId) := by
  rw [releaseNativeSteer]
  split
  · exact .refl q
  · exact ⟨rfl, rfl, fun _ ↦ id⟩

theorem calm_removeEvent (q : EventQueue) (channelId : Uuid) (eventId : String) :
    q.Calm (q.removeEvent channelId eventId) := by
  have hwithheld : q.Calm (q.removeWithheld channelId eventId) := by
    rw [removeWithheld]
    split
    · exact .refl q
    · exact ⟨rfl, rfl, fun _ ↦ id⟩
  refine hwithheld.trans ?_
  rw [removeEvent, removeQueued]
  split
  · exact .refl _
  · exact ⟨rfl, rfl, fun _ ↦ id⟩

theorem calm_extendInFlightDeadline (q : EventQueue) (now : Instant) (channelId : Uuid)
    (maxTurnSecs : ℕ) : q.Calm (q.extendInFlightDeadline now channelId maxTurnSecs) := by
  rw [extendInFlightDeadline]
  split
  · exact .refl q
  · simp only
    split
    · exact ⟨rfl, rfl, fun _ ↦ id⟩
    · exact .refl q

variable {channelId : Uuid} {now : Instant}

theorem unthrottled_iff : q.unthrottled now channelId = true ↔
    ∀ t, q.retryAfter.lookup channelId = some t → t ≤ now := by
  rw [unthrottled, Option.all_eq_true]
  simp only [decide_eq_true_eq]

theorem markComplete_cancelledBatches (q : EventQueue) (now : Instant) (channelId : Uuid) :
    (q.markComplete now channelId).cancelledBatches = q.cancelledBatches := by
  rw [markComplete]
  simp only
  split
  · split <;> rfl
  · rfl

theorem markComplete_of_throttled (h : q.unthrottled now channelId = false) :
    (q.markComplete now channelId).retryCounts = q.retryCounts ∧
      (q.markComplete now channelId).retryAfter = q.retryAfter := by
  rw [unthrottled] at h
  rw [markComplete]
  simp only
  split
  · next deadline hdeadline =>
    rw [hdeadline, Option.all_some, decide_eq_false_iff_not, not_le] at h
    rw [if_pos h]
    exact ⟨rfl, rfl⟩
  · next hnone =>
    rw [hnone, Option.all_none] at h
    cases h

theorem markComplete_of_unthrottled (h : q.unthrottled now channelId = true) :
    (q.markComplete now channelId).retryCounts = q.retryCounts.erase channelId ∧
      ∀ other, (q.markComplete now channelId).retryAfter.lookup other =
        (q.retryAfter.erase channelId).lookup other := by
  rw [unthrottled] at h
  rw [markComplete]
  simp only
  split
  · next deadline hdeadline =>
    rw [hdeadline, Option.all_some, decide_eq_true_eq] at h
    rw [if_neg (Nat.not_lt.mpr h)]
    exact ⟨rfl, fun _ ↦ rfl⟩
  · next hnone =>
    refine ⟨rfl, fun other ↦ ?_⟩
    rw [Map.lookup_erase_eq]
    split
    · next heq => rw [heq, hnone]
    · rfl

theorem attempts_erase (q : EventQueue) (channelId other : Uuid) :
    ((q.retryCounts.erase other).lookup channelId).getD 0 =
      if channelId = other then 0 else q.attempts channelId := by
  rw [Map.lookup_erase_eq]
  split <;> rfl

theorem unthrottled_of_nextChannel {pick : ℕ} (h : q.nextChannel now pick = some channelId) :
    q.unthrottled now channelId = true := by
  obtain ⟨e, he, rfl⟩ := Option.map_eq_some_iff.mp h
  have hready := (List.mem_filter.mp (List.mem_filter.mp (List.mem_of_getElem? he)).1).2
  rw [ready, Bool.and_eq_true] at hready
  exact hready.2

theorem mem_of_cancelledChannel {pick : ℕ} (h : q.cancelledChannel pick = some channelId) :
    channelId ∈ q.cancelledBatches := by
  obtain ⟨e, he, rfl⟩ := Option.map_eq_some_iff.mp h
  have hmem := (List.mem_filter.mp (List.mem_of_getElem? he)).1
  exact AList.lookup_isSome.mp (Option.isSome_iff_exists.mpr ⟨e.2, Map.mem_entries_iff.mp hmem⟩)

theorem flushed_cases {pick : ℕ} {batch : FlushBatch}
    (h : (q.flushNext now pick).2 = some batch) :
    q.unthrottled now batch.channelId = true ∨ batch.channelId ∈ q.cancelledBatches := by
  have hcalm := q.calm_expire now
  rw [flushNext] at h
  simp only at h
  split at h
  · next channelId hnext =>
    left
    rw [← Option.some.inj h, unthrottled, ← hcalm.throttles]
    exact unthrottled_of_nextChannel hnext
  · split at h
    · cases h
    · next channelId hnext =>
      right
      rw [← Option.some.inj h]
      exact hcalm.cancelled channelId (mem_of_cancelledChannel hnext)

end EventQueue

/-- A run seen from one channel: the failed turns since a turn of the channel last completed, was
cancelled or was dead-lettered, the instant before which its last failure holds it back, and whether
any of its turns was cancelled. -/
structure Watch where
  state : Custody
  failures : ℕ := 0
  notBefore : Option Instant := none
  cancelled : Bool := false

namespace Watch

def handedBack (w : Watch) : QueueOp → Option Uuid
  | .requeue i _ | .requeuePreserveTimestamps i | .requeueAsCancelled i _ | .complete i =>
    (w.state.outstanding[i]?).map fun o ↦ o.batch.channelId
  | _ => none

def deadLetters (w : Watch) (i nanos : ℕ) : Bool :=
  (w.state.outstanding[i]?).any fun o ↦
    (w.state.queue.requeue w.state.clock nanos o.batch).2.isSome

def step (channelId : Uuid) (w : Watch) (op : QueueOp) : Watch :=
  let state := w.state.step op
  if w.handedBack op = some channelId then
    match op with
    | .requeue i nanos =>
      { w with
        state
        failures := if w.deadLetters i nanos then 0 else w.failures + 1
        notBefore := state.queue.retryAfter.lookup channelId }
    | .requeueAsCancelled _ _ => { w with state, failures := 0, cancelled := true }
    | .complete _ => { w with state, failures := 0 }
    | _ => { w with state }
  else { w with state }

def run (channelId : Uuid) (queue : EventQueue) (ops : List QueueOp) : Watch :=
  ops.foldl (step channelId) { state := { queue } }

/-- The call takes the channel's attempts off the record after failed turns: a completion, or a
compaction while nothing of the channel is queued or in flight, without an active throttle. -/
def Forgets (channelId : Uuid) (w : Watch) (op : QueueOp) : Prop :=
  0 < w.failures ∧ w.state.queue.unthrottled w.state.clock channelId = true ∧
    (op = .markComplete channelId ∨
      op = .compactExpiredState ∧ w.state.queue.queueOf channelId = [] ∧
        channelId ∉ w.state.queue.inFlightChannels)

instance (channelId : Uuid) (w : Watch) (op : QueueOp) : Decidable (w.Forgets channelId op) :=
  inferInstanceAs (Decidable (_ ∧ _ ∧ _))

/-- The record covers the failed turns, and a throttle is there until it ends. -/
structure Bounded (channelId : Uuid) (w : Watch) : Prop where
  recorded : w.failures ≤ w.state.queue.attempts channelId
  bounded : w.state.queue.attempts channelId ≤ maxRetries
  throttled : ∀ t, w.notBefore = some t → w.state.clock < t →
    w.state.queue.retryAfter.lookup channelId = some t
  uncancelled : w.cancelled = false → channelId ∉ w.state.queue.cancelledBatches

variable {channelId : Uuid} {w : Watch}

theorem Bounded.calm (h : Bounded channelId w) {state : Custody}
    (hcalm : w.state.queue.Calm state.queue) (hclock : w.state.clock ≤ state.clock) :
    Bounded channelId { w with state } where
  recorded := h.recorded.trans_eq (hcalm.attempts channelId).symm
  bounded := (hcalm.attempts channelId).trans_le h.bounded
  throttled t ht hlt := by
    rw [hcalm.throttles]
    exact h.throttled t ht (Nat.lt_of_le_of_lt hclock hlt)
  uncancelled hc hmem := h.uncancelled hc (hcalm.cancelled channelId hmem)

theorem Bounded.markComplete (h : Bounded channelId w) (other : Uuid)
    (hkeep : ¬w.Forgets channelId (.markComplete other)) :
    Bounded channelId { w with state := w.state.step (.markComplete other) } := by
  have hcancelled := w.state.queue.markComplete_cancelledBatches w.state.clock other
  cases hthrottle : w.state.queue.unthrottled w.state.clock other with
  | false =>
    obtain ⟨hcounts, hthrottles⟩ := EventQueue.markComplete_of_throttled hthrottle
    exact h.calm ⟨hcounts, hthrottles, fun _ hmem ↦ hcancelled ▸ hmem⟩ le_rfl
  | true =>
    obtain ⟨hcounts, hthrottles⟩ := EventQueue.markComplete_of_unthrottled hthrottle
    have hattempts : (w.state.queue.markComplete w.state.clock other).attempts channelId =
        if channelId = other then 0 else w.state.queue.attempts channelId := by
      rw [EventQueue.attempts, hcounts, EventQueue.attempts_erase]
    refine ⟨?_, ?_, fun t ht hlt ↦ ?_, fun hc hmem ↦ h.uncancelled hc (hcancelled ▸ hmem)⟩
    · have hrecorded := h.recorded
      by_cases hother : channelId = other
      · subst hother
        have hzero : w.failures = 0 := by
          by_contra hne
          exact hkeep ⟨Nat.pos_of_ne_zero hne, hthrottle, .inl rfl⟩
        rw [hzero]
        exact Nat.zero_le _
      · simp only [Custody.step, hattempts, if_neg hother]
        exact hrecorded
    · have hbounded := h.bounded
      simp only [Custody.step, hattempts]
      split <;> omega
    · have hold := h.throttled t ht hlt
      simp only [Custody.step, hthrottles, Map.lookup_erase_eq]
      split
      · next hother =>
        subst hother
        exact absurd (EventQueue.unthrottled_iff.mp hthrottle t hold) (Nat.not_le.mpr hlt)
      · exact hold

theorem Bounded.compact (h : Bounded channelId w)
    (hkeep : ¬w.Forgets channelId .compactExpiredState) :
    Bounded channelId { w with state := w.state.step .compactExpiredState } := by
  have hthrottle : (w.state.queue.compactExpiredState w.state.clock).retryAfter.lookup channelId =
      (w.state.queue.retryAfter.lookup channelId).filter fun t ↦ decide (w.state.clock < t) :=
    Map.lookup_keepEntries
  have hcounts : ∃ idle : Bool,
      (w.state.queue.compactExpiredState w.state.clock).attempts channelId =
        (if idle then 0 else w.state.queue.attempts channelId) ∧
      (idle = true → w.state.queue.unthrottled w.state.clock channelId = true ∧
        w.state.queue.queueOf channelId = [] ∧ channelId ∉ w.state.queue.inFlightChannels) := by
    refine ⟨({ w.state.queue with
      retryAfter := Map.keepEntries (fun _ deadline ↦ decide (w.state.clock < deadline))
        w.state.queue.retryAfter } : EventQueue).idle channelId, ?_, fun hyes ↦ ?_⟩
    · rw [EventQueue.attempts, EventQueue.compactExpiredState]
      simp only [Map.lookup_keepEntries]
      rw [EventQueue.attempts]
      cases w.state.queue.retryCounts.lookup channelId with
      | none => split <;> rfl
      | some count =>
        split
        · next hidle =>
          rw [hidle]
          rfl
        · next hidle =>
          rw [Bool.not_eq_true] at hidle
          rw [hidle]
          rfl
    · simp only [EventQueue.idle, Bool.and_eq_true, decide_eq_true_eq, List.isEmpty_iff] at hyes
      obtain ⟨⟨hfree, hempty⟩, hflight⟩ := hyes
      refine ⟨EventQueue.unthrottled_iff.mpr fun t ht ↦ ?_, hempty, hflight⟩
      by_contra hlt
      rw [← AList.lookup_eq_none, Map.lookup_keepEntries, ht, Option.filter_some_pos] at hfree
      · cases hfree
      · exact decide_eq_true (not_le.mp hlt)
  obtain ⟨idle, hattempts, hidle⟩ := hcounts
  have hrecorded := h.recorded
  have hbounded := h.bounded
  refine ⟨?_, ?_, fun t ht hlt ↦ ?_, h.uncancelled⟩
  · simp only [Custody.step, hattempts]
    split
    · next hyes =>
      obtain ⟨hfree, hempty, hflight⟩ := hidle hyes
      have hzero : ¬0 < w.failures := fun hpos ↦
        hkeep ⟨hpos, hfree, .inr ⟨rfl, hempty, hflight⟩⟩
      omega
    · exact hrecorded
  · simp only [Custody.step, hattempts]
    split <;> omega
  · simp only [Custody.step, hthrottle, h.throttled t ht hlt]
    exact Option.filter_some_pos (decide_eq_true hlt)

theorem requeue_cancelledBatches (q : EventQueue) (now : Instant) (nanos : ℕ)
    (batch : FlushBatch) :
    (q.requeue now nanos batch).1.cancelledBatches = q.cancelledBatches := by
  rw [EventQueue.requeue]
  split <;> rfl

theorem requeue_of_ne (q : EventQueue) (now : Instant) (nanos : ℕ) (batch : FlushBatch)
    (hne : channelId ≠ batch.channelId) :
    (q.requeue now nanos batch).1.attempts channelId = q.attempts channelId ∧
      (q.requeue now nanos batch).1.retryAfter.lookup channelId =
        q.retryAfter.lookup channelId := by
  rw [EventQueue.requeue]
  split
  · refine ⟨?_, AList.lookup_erase_ne hne⟩
    exact congrArg (Option.getD · 0) (AList.lookup_erase_ne hne)
  · refine ⟨?_, AList.lookup_insert_ne hne⟩
    exact congrArg (Option.getD · 0) (AList.lookup_insert_ne hne)

theorem requeue_self (q : EventQueue) (now : Instant) (nanos : ℕ) (batch : FlushBatch) :
    (q.requeue now nanos batch).2.isSome = decide (maxRetries < q.attempts batch.channelId + 1) ∧
      (q.requeue now nanos batch).1.attempts batch.channelId =
        if maxRetries < q.attempts batch.channelId + 1 then 0
        else q.attempts batch.channelId + 1 := by
  rw [EventQueue.requeue]
  split
  · next hdead =>
    refine ⟨(decide_eq_true hdead).symm, ?_⟩
    exact congrArg (Option.getD · 0) (AList.lookup_erase _ _)
  · next hlive =>
    refine ⟨(decide_eq_false hlive).symm, ?_⟩
    exact congrArg (Option.getD · 0) (AList.lookup_insert _)

theorem Bounded.requeue (h : Bounded channelId w) (i nanos : ℕ) :
    Bounded channelId (w.step channelId (.requeue i nanos)) := by
  have hrecorded := h.recorded
  have hbounded := h.bounded
  cases hout : w.state.outstanding[i]? with
  | none =>
    have hsame : w.step channelId (.requeue i nanos) = { w with state := w.state } := by
      simp only [Watch.step, handedBack, Custody.step, hout, Option.map_none, reduceCtorEq,
        if_false]
    rw [hsame]
    exact h
  | some o =>
    have hcancelled := requeue_cancelledBatches w.state.queue w.state.clock nanos o.batch
    by_cases hmine : o.batch.channelId = channelId
    · subst hmine
      obtain ⟨hdead, hattempts⟩ := requeue_self w.state.queue w.state.clock nanos o.batch
      have hstep : w.step o.batch.channelId (.requeue i nanos) = { w with
          state := w.state.step (.requeue i nanos)
          failures := if w.deadLetters i nanos then 0 else w.failures + 1
          notBefore := (w.state.step (.requeue i nanos)).queue.retryAfter.lookup
            o.batch.channelId } := by
        simp only [Watch.step, handedBack, hout, Option.map_some, if_true]
      have hdeadLetters : w.deadLetters i nanos =
          decide (maxRetries < w.state.queue.attempts o.batch.channelId + 1) := by
        rw [deadLetters, hout, Option.any_some, hdead]
      rw [hstep]
      refine ⟨?_, ?_, fun t ht _ ↦ ht, fun hc hmem ↦ h.uncancelled hc ?_⟩
      · simp only [Custody.step, hout, hattempts, hdeadLetters, decide_eq_true_eq]
        split <;> omega
      · simp only [Custody.step, hout, hattempts]
        split <;> omega
      · simp only [Custody.step, hout, hcancelled] at hmem
        exact hmem
    · obtain ⟨hattempts, hthrottle⟩ := requeue_of_ne w.state.queue w.state.clock nanos
        o.batch (Ne.symm hmine)
      have hstep : w.step channelId (.requeue i nanos) =
          { w with state := w.state.step (.requeue i nanos) } := by
        simp only [Watch.step, handedBack, hout, Option.map_some, Option.some.injEq, if_neg hmine]
      rw [hstep]
      refine ⟨?_, ?_, fun t ht hlt ↦ ?_, fun hc hmem ↦ h.uncancelled hc ?_⟩
      · simp only [Custody.step, hout, hattempts]
        exact hrecorded
      · simp only [Custody.step, hout, hattempts]
        exact hbounded
      · simp only [Custody.step, hout, hthrottle] at hlt ⊢
        exact h.throttled t ht hlt
      · simp only [Custody.step, hout, hcancelled] at hmem
        exact hmem

theorem step_of_handedBack_ne {op : QueueOp} (h : w.handedBack op ≠ some channelId) :
    w.step channelId op = { w with state := w.state.step op } := by
  unfold Watch.step
  exact if_neg h

theorem calm_requeuePreserveTimestamps (q : EventQueue) (batch : FlushBatch) :
    q.Calm (q.requeuePreserveTimestamps batch) := ⟨rfl, rfl, fun _ ↦ id⟩

theorem Bounded.requeuePreserveTimestamps (h : Bounded channelId w) (i : ℕ) :
    Bounded channelId (w.step channelId (.requeuePreserveTimestamps i)) := by
  have hstep : w.step channelId (.requeuePreserveTimestamps i) =
      { w with state := w.state.step (.requeuePreserveTimestamps i) } := by
    unfold Watch.step
    exact ite_self _
  rw [hstep]
  cases hout : w.state.outstanding[i]? with
  | none =>
    rw [Custody.step, hout]
    exact h
  | some o =>
    rw [Custody.step, hout]
    exact h.calm (calm_requeuePreserveTimestamps _ o.batch) le_rfl

theorem Bounded.requeueAsCancelled (h : Bounded channelId w) (i : ℕ) (reason : CancelReason) :
    Bounded channelId (w.step channelId (.requeueAsCancelled i reason)) := by
  cases hout : w.state.outstanding[i]? with
  | none =>
    rw [step_of_handedBack_ne (by simp [handedBack, hout]), Custody.step, hout]
    exact h
  | some o =>
    by_cases hmine : o.batch.channelId = channelId
    · have hstep : w.step channelId (.requeueAsCancelled i reason) =
          { w with
            state := w.state.step (.requeueAsCancelled i reason), failures := 0
            cancelled := true } := by
        rw [Watch.step, handedBack, hout, Option.map_some, hmine, if_pos rfl]
      rw [hstep, Custody.step, hout]
      exact ⟨Nat.zero_le _, h.bounded, h.throttled, fun hc ↦ nomatch hc⟩
    · rw [step_of_handedBack_ne (by simp [handedBack, hout, hmine]), Custody.step, hout]
      refine ⟨h.recorded, h.bounded, h.throttled, fun hc hmem ↦ h.uncancelled hc ?_⟩
      exact ((AList.mem_insert _).mp hmem).resolve_left (Ne.symm hmine)

theorem Bounded.complete (h : Bounded channelId w) (i : ℕ) :
    Bounded channelId (w.step channelId (.complete i)) := by
  cases hout : w.state.outstanding[i]? with
  | none =>
    rw [step_of_handedBack_ne (by simp [handedBack, hout]), Custody.step, hout]
    exact h
  | some o =>
    by_cases hmine : o.batch.channelId = channelId
    · have hstep : w.step channelId (.complete i) =
          { w with state := w.state.step (.complete i), failures := 0 } := by
        rw [Watch.step, handedBack, hout, Option.map_some, hmine, if_pos rfl]
      rw [hstep, Custody.step, hout]
      exact ⟨Nat.zero_le _, h.bounded, h.throttled, h.uncancelled⟩
    · rw [step_of_handedBack_ne (by simp [handedBack, hout, hmine]), Custody.step, hout]
      exact h.calm (EventQueue.Calm.refl _) le_rfl

theorem Bounded.step (h : Bounded channelId w) {op : QueueOp} (hkeep : ¬w.Forgets channelId op) :
    Bounded channelId (w.step channelId op) := by
  cases op with
  | requeue i nanos => exact h.requeue i nanos
  | requeuePreserveTimestamps i => exact h.requeuePreserveTimestamps i
  | requeueAsCancelled i reason => exact h.requeueAsCancelled i reason
  | complete i => exact h.complete i
  | markComplete other => exact h.markComplete other hkeep
  | compactExpiredState => exact h.compact hkeep
  | push event => exact h.calm (EventQueue.calm_push _ event) le_rfl
  | flushNext pick => exact h.calm (EventQueue.calm_flushNext _ _ pick) le_rfl
  | markNativeSteerPending other eventId =>
    exact h.calm (EventQueue.calm_markNativeSteerPending _ other eventId) le_rfl
  | releaseNativeSteer other eventId =>
    exact h.calm (EventQueue.calm_releaseNativeSteer _ other eventId) le_rfl
  | removeEvent other eventId =>
    exact h.calm (EventQueue.calm_removeEvent _ other eventId) le_rfl
  | hasFlushableWork => exact h.calm (EventQueue.calm_expire _ _) le_rfl
  | extendInFlightDeadline other maxTurnSecs =>
    exact h.calm (EventQueue.calm_extendInFlightDeadline _ _ other maxTurnSecs) le_rfl
  | advance nanos => exact h.calm (EventQueue.Calm.refl _) (Nat.le_add_right _ nanos)

theorem Bounded.flushed (h : Bounded channelId w) (hc : w.cancelled = false) {pick : ℕ}
    {batch : FlushBatch} (hflush : (w.state.queue.flushNext w.state.clock pick).2 = some batch)
    (hmine : batch.channelId = channelId) {t : Instant} (ht : w.notBefore = some t) :
    t ≤ w.state.clock := by
  subst hmine
  by_contra hlt
  rw [not_le] at hlt
  rcases EventQueue.flushed_cases hflush with hfree | hmem
  · have hthrottle := h.throttled t ht hlt
    exact hlt.not_ge (EventQueue.unthrottled_iff.mp hfree t hthrottle)
  · exact h.uncancelled hc hmem

theorem Bounded.deadLetters (h : Bounded channelId w) {i : ℕ} (nanos : ℕ)
    (hmine : w.handedBack (.requeue i nanos) = some channelId) (hfull : w.failures = maxRetries) :
    w.deadLetters i nanos = true := by
  obtain ⟨o, hout, rfl⟩ := Option.map_eq_some_iff.mp hmine
  have hrecorded := h.recorded
  rw [Watch.deadLetters, hout, Option.any_some, (requeue_self _ _ _ _).1, decide_eq_true_eq]
  omega

theorem bounded_init (channelId : Uuid) (mode : DedupMode) (maxTurnSecs : ℕ) :
    Bounded channelId
      { state := { queue := (EventQueue.new mode).withInFlightDeadline maxTurnSecs } } where
  recorded := Nat.zero_le _
  bounded := Nat.zero_le _
  throttled _ ht := by cases ht
  uncancelled _ hmem := absurd hmem (AList.notMem_empty channelId)

/-- Where nothing forgets the failed turns of a channel, the attempts on record cover them, there
are never more of them than retries, the next one is then dead-lettered, and a requeued batch waits
for its instant unless a turn of the channel was cancelled. -/
theorem dead_lettered_within_budget (channelId : Uuid) (mode : DedupMode) (maxTurnSecs : ℕ)
    (ops : List QueueOp)
    (hkeep : ∀ pre op, pre ++ [op] <+: ops → ¬(run channelId
      ((EventQueue.new mode).withInFlightDeadline maxTurnSecs) pre).Forgets channelId op) :
    ∀ pre, pre <+: ops →
      let w := run channelId ((EventQueue.new mode).withInFlightDeadline maxTurnSecs) pre
      (w.failures ≤ w.state.queue.attempts channelId ∧
        w.state.queue.attempts channelId ≤ maxRetries) ∧
      (∀ i nanos, w.handedBack (.requeue i nanos) = some channelId → w.failures = maxRetries →
        w.deadLetters i nanos = true) ∧
      (w.cancelled = false → ∀ pick batch,
        (w.state.queue.flushNext w.state.clock pick).2 = some batch →
          batch.channelId = channelId → ∀ t, w.notBefore = some t → t ≤ w.state.clock) := by
  intro pre hpre
  have hbounded : Bounded channelId
      (run channelId ((EventQueue.new mode).withInFlightDeadline maxTurnSecs) pre) :=
    forall_prefix_of_steps (step channelId) (Bounded channelId) (Forgets channelId)
      (bounded_init channelId mode maxTurnSecs) (fun _ _ h hop ↦ h.step hop) hkeep pre hpre
  refine ⟨⟨hbounded.recorded, hbounded.bounded⟩, fun i nanos hmine hfull ↦ ?_,
    fun hc pick batch hflush hmine t ht ↦ ?_⟩
  · exact hbounded.deadLetters nanos hmine hfull
  · exact hbounded.flushed hc hflush hmine ht

/-- A batch that fails twice, with its delay in between. -/
theorem dead_lettered_within_budget_retried :
    (run 7 ((EventQueue.new .queue).withInFlightDeadline 7200) [.push (message 1), .flushNext 0,
      .requeue 0 0, .markComplete 7, .advance (secs 5), .flushNext 0, .requeue 0 0,
      .markComplete 7]).state.queue.attempts 7 ≤ maxRetries := by
  refine (dead_lettered_within_budget 7 .queue 7200 _ (forall_step_of_lt ?_) _
    (List.prefix_refl _)).1.2
  decide

/-- A turn that fails, and after its delay an attempt to dispatch it that finds no idle agent. -/
def failThenExhaust : List QueueOp :=
  [.flushNext 0, .requeue 0 0, .markComplete 7, .advance (secs 400), .flushNext 0,
    .requeuePreserveTimestamps 0, .markComplete 7]

/-- A poison batch fails more often than the budget allows when an exhausted pool comes between. -/
theorem exhausted_pool_forgets_attempts :
    maxRetries < (run 7 ((EventQueue.new .queue).withInFlightDeadline 7200)
      (.push (message 1) :: (List.replicate 11 failThenExhaust).flatten)).failures := by
  decide +kernel

end Watch

end Buzz.Acp
