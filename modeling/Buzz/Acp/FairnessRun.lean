import Buzz.Acp.Custody
import Buzz.Acp.Fairness
import Buzz.Lib.Fates

namespace Buzz.Acp

open Buzz.Lib Buzz.Nostr

/-- Why an event is no longer in the queue of its channel. -/
inductive Leaving
  | delivered
  | dropped
  | withheld
  | removed
deriving DecidableEq

namespace EventQueue

/-- The fates in the queue of a channel when another, or itself, gets `n` events at its front. -/
def frontMove (channelId target : Uuid) (n : ℕ) : ℕ → Fate Leaving :=
  if channelId = target then Fate.putFront n maxPendingPerChannel .dropped else .stays

def pushMove (channelId : Uuid) (q : EventQueue) (event : QueuedEvent) : ℕ → Fate Leaving :=
  if channelId = event.channelId ∧ (q.push event).2 = true then
    Fate.dropFront (if maxPendingPerChannel ≤ (q.queueOf channelId).length then 1 else 0) .dropped
  else .stays

def recoverMove (channelId : Uuid) (q : EventQueue) (target : Uuid) : ℕ → Fate Leaving :=
  match q.withheldNativeSteer.lookup target with
  | none => .stays
  | some entries => frontMove channelId target entries.length

def expireMove (channelId : Uuid) (q : EventQueue) (now : Instant) : ℕ → Fate Leaving :=
  Fate.follow expireChannel (recoverMove channelId) q (q.expired now)

def takeMove (channelId : Uuid) (q : EventQueue) (now : Instant) (pick : ℕ) : ℕ → Fate Leaving :=
  if q.nextChannel now pick = some channelId then Fate.dropFront maxBatchEvents .delivered
  else .stays

def flushMove (channelId : Uuid) (q : EventQueue) (now : Instant) (pick : ℕ) (i : ℕ) :
    Fate Leaving :=
  (q.expireMove channelId now i).andThen ((q.expire now).takeMove channelId now pick)

def requeueMove (channelId : Uuid) (q : EventQueue) (batch : FlushBatch) : ℕ → Fate Leaving :=
  if maxRetries < q.attempts batch.channelId + 1 then .stays
  else frontMove channelId batch.channelId batch.events.length

def markMove (channelId : Uuid) (q : EventQueue) (target : Uuid) (eventId : String) :
    ℕ → Fate Leaving :=
  if channelId = target then Fate.eraseFirst (q.queueOf channelId) (named eventId) .withheld
  else .stays

def releaseMove (channelId : Uuid) (q : EventQueue) (target : Uuid) (eventId : String) :
    ℕ → Fate Leaving :=
  match (q.withheldOf target).find? (named eventId) with
  | none => .stays
  | some _ => frontMove channelId target 1

def removeMove (channelId : Uuid) (q : EventQueue) (target : Uuid) (eventId : String) :
    ℕ → Fate Leaving :=
  if channelId = target then
    Fate.keepIf (q.queueOf channelId) (fun qe ↦ !named eventId qe) .removed
  else .stays

def drainMove (channelId target : Uuid) : ℕ → Fate Leaving :=
  if channelId = target then fun _ ↦ .leaves .removed else .stays

theorem queueOf_insert (q : EventQueue) (channelId target : Uuid) (queue : List QueuedEvent) :
    ((AList.insert target queue q.queues).lookup channelId).getD [] =
      if channelId = target then queue else q.queueOf channelId := by
  rw [Map.lookup_insert_eq]
  split <;> rfl

theorem queueOf_erase (q : EventQueue) (channelId target : Uuid) :
    ((q.queues.erase target).lookup channelId).getD [] =
      if channelId = target then [] else q.queueOf channelId := by
  rw [Map.lookup_erase_eq]
  split <;> rfl

theorem queueOf_pushFront (q : EventQueue) (channelId target : Uuid) (events : List QueuedEvent) :
    (q.pushFront target events).queueOf channelId = if channelId = target then
      (events ++ q.queueOf target).take maxPendingPerChannel else q.queueOf channelId :=
  queueOf_insert q channelId target _

theorem queueOf_setQueue (q : EventQueue) (channelId target : Uuid) (queue : List QueuedEvent) :
    (q.setQueue target queue).queueOf channelId = if channelId = target then queue
      else q.queueOf channelId := by
  rw [setQueue, queueOf]
  dsimp only
  split
  case isTrue hempty =>
    rw [queueOf_erase, List.isEmpty_iff.mp hempty]
  case isFalse => exact queueOf_insert q channelId target queue

theorem edits_frontMove (q : EventQueue) (channelId target : Uuid) (events : List QueuedEvent) :
    Fate.Edits (frontMove channelId target events.length) (q.queueOf channelId)
      ((q.pushFront target events).queueOf channelId) := by
  rw [queueOf_pushFront, frontMove]
  split
  case isTrue h =>
    subst target
    exact Fate.edits_putFront events maxPendingPerChannel Leaving.dropped
  case isFalse => exact Fate.edits_refl _

theorem queueOf_push (channelId : Uuid) (q : EventQueue) (event : QueuedEvent) :
    (q.push event).1.queueOf channelId =
      if channelId = event.channelId ∧ (q.push event).2 = true then
        (q.queueOf channelId).drop
          (if maxPendingPerChannel ≤ (q.queueOf channelId).length then 1 else 0) ++ [event]
      else q.queueOf channelId := by
  rw [push]
  by_cases hmode : q.dedupMode = .drop ∧ event.channelId ∈ q.inFlightChannels
  · simp [hmode]
  · simp only [if_neg hmode, and_true]
    refine (queueOf_insert q channelId event.channelId _).trans ?_
    split
    case isTrue h => rw [h]
    case isFalse => rfl

theorem length_requeued (batch : FlushBatch) : (requeued batch).length = batch.events.length :=
  List.length_map _

theorem edits_pushMove (channelId : Uuid) (q : EventQueue) (event : QueuedEvent) :
    Fate.Edits (q.pushMove channelId event) (q.queueOf channelId)
      ((q.push event).1.queueOf channelId) := by
  rw [queueOf_push, pushMove]
  split
  · have h := (Fate.edits_dropFront (l := q.queueOf channelId)
      (if maxPendingPerChannel ≤ (q.queueOf channelId).length then 1 else 0)
      Leaving.dropped).append [event]
    exact h
  · exact Fate.edits_refl _

theorem edits_recoverMove (channelId : Uuid) (q : EventQueue) (target : Uuid) :
    Fate.Edits (q.recoverMove channelId target) (q.queueOf channelId)
      ((q.expireChannel target).queueOf channelId) := by
  rw [recoverMove, expireChannel, recoverWithheldForExpiredChannel]
  cases q.withheldNativeSteer.lookup target with
  | none => exact Fate.edits_refl _
  | some entries => exact edits_frontMove _ channelId target entries

theorem edits_expireMove (channelId : Uuid) (q : EventQueue) (now : Instant) :
    Fate.Edits (q.expireMove channelId now) (q.queueOf channelId)
      ((q.expire now).queueOf channelId) :=
  Fate.edits_follow (edits_recoverMove channelId) q (q.expired now)

theorem queueOf_flushNext (q : EventQueue) (now : Instant) (pick : ℕ) (channelId : Uuid) :
    (q.flushNext now pick).1.queueOf channelId =
      if (q.expire now).nextChannel now pick = some channelId then
        ((q.expire now).queueOf channelId).drop maxBatchEvents
      else (q.expire now).queueOf channelId := by
  rw [flushNext]
  dsimp only
  cases hnext : (q.expire now).nextChannel now pick with
  | none =>
    cases (q.expire now).cancelledChannel pick <;> rfl
  | some target =>
    have hset := queueOf_setQueue (q.expire now) channelId target
      (((q.expire now).queueOf target).drop maxBatchEvents)
    simp only [Option.some.injEq]
    split
    case isTrue h =>
      subst target
      rw [if_pos rfl] at hset
      exact hset
    case isFalse h =>
      rw [if_neg (Ne.symm h)] at hset
      exact hset

theorem edits_flushMove (channelId : Uuid) (q : EventQueue) (now : Instant) (pick : ℕ) :
    Fate.Edits (q.flushMove channelId now pick) (q.queueOf channelId)
      ((q.flushNext now pick).1.queueOf channelId) := by
  refine (edits_expireMove channelId q now).andThen ?_
  rw [queueOf_flushNext, takeMove]
  split
  · exact Fate.edits_dropFront _ _
  · exact Fate.edits_refl _

theorem edits_requeueMove (channelId : Uuid) (q : EventQueue) (now : Instant) (nanos : ℕ)
    (batch : FlushBatch) : Fate.Edits (q.requeueMove channelId batch) (q.queueOf channelId)
      ((q.requeue now nanos batch).1.queueOf channelId) := by
  rw [requeueMove, requeue]
  dsimp only
  split
  · exact Fate.edits_refl _
  · rw [← length_requeued]
    exact edits_frontMove _ channelId batch.channelId (requeued batch)

theorem edits_markMove (channelId : Uuid) (q : EventQueue) (target : Uuid) (eventId : String) :
    Fate.Edits (q.markMove channelId target eventId) (q.queueOf channelId)
      ((q.markNativeSteerPending target eventId).1.queueOf channelId) := by
  rw [markMove, markNativeSteerPending]
  cases hfind : (q.queueOf target).find? (named eventId) with
  | none =>
    dsimp only
    split
    case isTrue h =>
      subst target
      have herase : (q.queueOf channelId).eraseP (named eventId) = q.queueOf channelId :=
        List.eraseP_of_forall_not (List.find?_eq_none.mp hfind)
      conv => arg 3; rw [← herase]
      exact Fate.edits_eraseFirst Leaving.withheld
    case isFalse => exact Fate.edits_refl _
  | some qe =>
    have hset := queueOf_setQueue q channelId target ((q.queueOf target).eraseP (named eventId))
    change Fate.Edits _ _ ((q.setQueue target _).queueOf channelId)
    rw [hset]
    split
    case isTrue h =>
      subst target
      exact Fate.edits_eraseFirst Leaving.withheld
    case isFalse => exact Fate.edits_refl _

theorem edits_releaseMove (channelId : Uuid) (q : EventQueue) (target : Uuid) (eventId : String) :
    Fate.Edits (q.releaseMove channelId target eventId) (q.queueOf channelId)
      ((q.releaseNativeSteer target eventId).queueOf channelId) := by
  rw [releaseMove, releaseNativeSteer, withheldOf]
  cases ((q.withheldNativeSteer.lookup target).getD []).find? (named eventId) with
  | none => exact Fate.edits_refl _
  | some qe => exact edits_frontMove _ channelId target [qe]

theorem queueOf_removeEvent (channelId : Uuid) (q : EventQueue) (target : Uuid)
    (eventId : String) : (q.removeEvent target eventId).queueOf channelId =
      if channelId = target then (q.queueOf channelId).filter fun qe ↦ !named eventId qe
      else q.queueOf channelId := by
  have hkeep (c : Uuid) : (q.removeWithheld target eventId).queueOf c = q.queueOf c := by
    rw [removeWithheld]
    split <;> rfl
  rw [removeEvent, removeQueued, ← hkeep channelId]
  cases hlookup : (q.removeWithheld target eventId).queues.lookup target with
  | none =>
    dsimp only
    split
    case isTrue h =>
      subst target
      rw [queueOf, hlookup]
      rfl
    case isFalse => rfl
  | some queue =>
    dsimp only
    rw [queueOf_setQueue]
    split
    case isTrue h =>
      subst target
      rw [queueOf, hlookup]
      rfl
    case isFalse => rfl

theorem edits_removeMove (channelId : Uuid) (q : EventQueue) (target : Uuid) (eventId : String) :
    Fate.Edits (q.removeMove channelId target eventId) (q.queueOf channelId)
      ((q.removeEvent target eventId).queueOf channelId) := by
  rw [queueOf_removeEvent, removeMove]
  split
  · exact Fate.edits_keepIf Leaving.removed
  · exact Fate.edits_refl _

theorem markComplete_queues (q : EventQueue) (now : Instant) (target : Uuid) :
    (q.markComplete now target).queues = q.queues := by
  rw [markComplete]
  dsimp only
  cases q.retryAfter.lookup target with
  | none => rfl
  | some deadline =>
    dsimp only
    split <;> rfl

theorem extendInFlightDeadline_queues (q : EventQueue) (now : Instant) (target : Uuid)
    (maxTurnSecs : ℕ) : (q.extendInFlightDeadline now target maxTurnSecs).queues = q.queues := by
  rw [extendInFlightDeadline]
  cases q.inFlightDeadlines.lookup target with
  | none => rfl
  | some current =>
    dsimp only
    split <;> rfl

theorem edits_drainMove (channelId : Uuid) (q : EventQueue) (target : Uuid) :
    Fate.Edits (drainMove channelId target) (q.queueOf channelId)
      ((q.drainChannel target).1.queueOf channelId) := by
  rw [drainMove]
  split
  case isTrue => exact ⟨fun _ h ↦ (nomatch h), fun _ h ↦ (nomatch h)⟩
  case isFalse h =>
    have herase := queueOf_erase q channelId target
    rw [if_neg h] at herase
    change Fate.Edits _ _ (((q.queues.erase target).lookup channelId).getD [])
    rw [herase]
    exact Fate.edits_refl _

/-- An event of the channel's queue fell victim to the depth cap. -/
def Lost (q q' : EventQueue) (channelId : Uuid) (qe : QueuedEvent) : Prop :=
  ∃ lost, q'.overflow = q.overflow ++ lost ∧ (channelId, qe.toBatchEvent) ∈ lost

section Leaving

variable {q q' : EventQueue} {channelId target : Uuid} {qe : QueuedEvent} {i : ℕ} {why : Leaving}

theorem lost_of_dropFront {n : ℕ} (hqe : (q.queueOf channelId)[i]? = some qe)
    (h : Fate.dropFront n Leaving.dropped i = .leaves why) :
    why = .dropped ∧ qe ∈ (q.queueOf channelId).take n := by
  rw [Fate.dropFront] at h
  split at h
  case isTrue hi =>
    refine ⟨(Fate.leaves.inj h).symm, List.mem_of_getElem? (i := i) ?_⟩
    rw [List.getElem?_take_of_lt hi, hqe]
  case isFalse => cases h

theorem lost_frontMove (q : EventQueue) (events : List QueuedEvent)
    (hqe : (q.queueOf channelId)[i]? = some qe)
    (h : frontMove channelId target events.length i = .leaves why) :
    why = .dropped ∧ q.Lost (q.pushFront target events) channelId qe := by
  rw [frontMove] at h
  split at h
  case isFalse => cases h
  case isTrue heq =>
    subst target
    rw [Fate.putFront] at h
    split at h
    case isTrue => cases h
    case isFalse hcap =>
      refine ⟨(Fate.leaves.inj h).symm, _, rfl, List.mem_map.mpr ⟨qe, ?_, rfl⟩⟩
      rw [List.mem_reverse]
      apply List.mem_of_getElem? (i := events.length + i - maxPendingPerChannel)
      rw [List.getElem?_drop, Nat.add_sub_cancel' (by omega),
        List.getElem?_append_right (Nat.le_add_right _ _), Nat.add_sub_cancel_left, hqe]

theorem lost_pushMove {event : QueuedEvent} (hqe : (q.queueOf channelId)[i]? = some qe)
    (h : q.pushMove channelId event i = .leaves why) :
    why = .dropped ∧ q.Lost (q.push event).1 channelId qe := by
  rw [pushMove] at h
  split at h
  case isFalse => cases h
  case isTrue haccepted =>
    obtain ⟨rfl, haccepted⟩ := haccepted
    obtain ⟨hwhy, hmem⟩ := lost_of_dropFront hqe h
    rw [push] at haccepted ⊢
    split at haccepted
    case isTrue => cases haccepted
    case isFalse hmode =>
      rw [if_neg hmode]
      exact ⟨hwhy, _, rfl, List.mem_map.mpr ⟨qe, hmem, rfl⟩⟩

theorem lost_recoverMove (hqe : (q.queueOf channelId)[i]? = some qe)
    (h : q.recoverMove channelId target i = .leaves why) :
    why = .dropped ∧ q.Lost (q.expireChannel target) channelId qe := by
  rw [recoverMove] at h
  rw [expireChannel, recoverWithheldForExpiredChannel]
  cases hlookup : q.withheldNativeSteer.lookup target with
  | none =>
    rw [hlookup] at h
    cases h
  | some entries =>
    rw [hlookup] at h
    exact lost_frontMove { q with
      inFlightChannels := q.inFlightChannels.erase target
      inFlightDeadlines := q.inFlightDeadlines.erase target
      withheldNativeSteer := q.withheldNativeSteer.erase target } entries hqe h

theorem overflow_expireChannel (q : EventQueue) (target : Uuid) :
    q.overflow <+: (q.expireChannel target).overflow := by
  rw [expireChannel, recoverWithheldForExpiredChannel]
  dsimp only
  cases q.withheldNativeSteer.lookup target with
  | none => exact List.prefix_rfl
  | some entries => exact List.prefix_append _ _

theorem overflow_expireChannels (ids : List Uuid) (q : EventQueue) :
    q.overflow <+: (ids.foldl expireChannel q).overflow := by
  induction ids generalizing q with
  | nil => exact List.prefix_rfl
  | cons id ids ih => exact (q.overflow_expireChannel id).trans (ih (q.expireChannel id))

theorem Lost.mono {q₀ q₁ : EventQueue} (h : q.Lost q' channelId qe)
    (h₀ : q₀.overflow <+: q.overflow) (h₁ : q'.overflow <+: q₁.overflow) :
    q₀.Lost q₁ channelId qe := by
  obtain ⟨lost, hoverflow, hmem⟩ := h
  obtain ⟨before, hbefore⟩ := h₀
  obtain ⟨after, hafter⟩ := h₁
  refine ⟨before ++ lost ++ after, ?_, by simp [hmem]⟩
  rw [← hafter, hoverflow, ← hbefore]
  simp only [List.append_assoc]

theorem lost_expireMove {now : Instant} (hqe : (q.queueOf channelId)[i]? = some qe)
    (h : q.expireMove channelId now i = .leaves why) :
    why = .dropped ∧ q.Lost (q.expire now) channelId qe := by
  obtain ⟨pre, id, post, j, hids, hj, hmove⟩ :=
    Fate.exists_leaving (edits_recoverMove channelId) hqe h
  obtain ⟨hwhy, hlost⟩ := lost_recoverMove hj hmove
  refine ⟨hwhy, hlost.mono (overflow_expireChannels pre q) ?_⟩
  rw [expire, hids, List.foldl_append, List.foldl_cons]
  exact overflow_expireChannels post _

theorem lost_releaseMove {eventId : String} (hqe : (q.queueOf channelId)[i]? = some qe)
    (h : q.releaseMove channelId target eventId i = .leaves why) :
    why = .dropped ∧ q.Lost (q.releaseNativeSteer target eventId) channelId qe := by
  rw [releaseMove, withheldOf] at h
  rw [releaseNativeSteer]
  cases hfind : ((q.withheldNativeSteer.lookup target).getD []).find? (named eventId) with
  | none =>
    rw [hfind] at h
    cases h
  | some released =>
    rw [hfind] at h
    let rest := q.setWithheld target
      (((q.withheldNativeSteer.lookup target).getD []).eraseP (named eventId))
    exact lost_frontMove rest [released] hqe h

theorem lost_requeueMove (now : Instant) (nanos : ℕ) {batch : FlushBatch}
    (hqe : (q.queueOf channelId)[i]? = some qe)
    (h : q.requeueMove channelId batch i = .leaves why) :
    why = .dropped ∧ q.Lost (q.requeue now nanos batch).1 channelId qe := by
  rw [requeueMove] at h
  rw [requeue]
  dsimp only
  split at h
  case isTrue => cases h
  case isFalse hretry =>
    rw [if_neg hretry]
    rw [← length_requeued] at h
    exact lost_frontMove { q with
      retryCounts := AList.insert batch.channelId (q.attempts batch.channelId + 1) q.retryCounts }
      (requeued batch) hqe h

theorem Lost.flushNext {now : Instant} (h : q.Lost (q.expire now) channelId qe) (pick : ℕ) :
    q.Lost (q.flushNext now pick).1 channelId qe := by
  rw [EventQueue.flushNext]
  dsimp only
  cases (q.expire now).nextChannel now pick with
  | some target => exact h
  | none => cases (q.expire now).cancelledChannel pick <;> exact h

theorem delivered_takeMove {now : Instant} {pick : ℕ}
    (hqe : ((q.expire now).queueOf channelId)[i]? = some qe)
    (h : (q.expire now).takeMove channelId now pick i = .leaves why) :
    why = .delivered ∧ ∃ batch, (q.flushNext now pick).2 = some batch ∧
      batch.channelId = channelId ∧ qe.toBatchEvent ∈ batch.events := by
  rw [takeMove] at h
  split at h
  case isFalse => cases h
  case isTrue hnext =>
    rw [Fate.dropFront] at h
    split at h
    case isFalse => cases h
    case isTrue hi =>
      refine ⟨(Fate.leaves.inj h).symm, ?_⟩
      rw [flushNext]
      dsimp only
      rw [hnext]
      refine ⟨_, rfl, rfl, (List.perm_insertionSort _ _).mem_iff.mpr (List.mem_map_of_mem ?_)⟩
      apply List.mem_of_getElem? (i := i)
      rw [List.getElem?_take_of_lt hi, hqe]

theorem withheld_markMove {eventId : String} (hqe : (q.queueOf channelId)[i]? = some qe)
    (h : q.markMove channelId target eventId i = .leaves why) :
    why = .withheld ∧ channelId = target ∧ named eventId qe = true ∧
      qe ∈ (q.markNativeSteerPending target eventId).1.withheldOf channelId := by
  rw [markMove] at h
  split at h
  case isFalse => cases h
  case isTrue heq =>
    subst target
    rw [Fate.eraseFirst] at h
    split at h
    case isTrue => cases h
    case isFalse =>
      split at h
      case isFalse => cases h
      case isTrue hi =>
        have hfind : (q.queueOf channelId).find? (named eventId) = some qe := by
          rw [List.find?_eq_getElem?_findIdx, ← hi, hqe]
        refine ⟨(Fate.leaves.inj h).symm, rfl, List.find?_some hfind, ?_⟩
        rw [markNativeSteerPending, hfind]
        simp [setWithheld, withheldOf]

theorem removed_removeMove {eventId : String} (hqe : (q.queueOf channelId)[i]? = some qe)
    (h : q.removeMove channelId target eventId i = .leaves why) :
    why = .removed ∧ channelId = target ∧ named eventId qe = true := by
  rw [removeMove] at h
  split at h
  case isFalse => cases h
  case isTrue heq =>
    rw [Fate.keepIf, hqe] at h
    split at h
    case isTrue => cases h
    case isFalse hnamed => exact ⟨(Fate.leaves.inj h).symm, heq, by simpa using hnamed⟩

theorem frontMove_ne_delivered (n : ℕ) : frontMove channelId target n i ≠ .leaves .delivered := by
  rw [frontMove]
  split
  · exact Fate.putFront_ne (by decide) _ _ _
  · nofun

theorem pushMove_ne_delivered (event : QueuedEvent) :
    q.pushMove channelId event i ≠ .leaves .delivered := by
  rw [pushMove]
  split
  · exact Fate.dropFront_ne (by decide) _ _
  · nofun

theorem requeueMove_ne_delivered (batch : FlushBatch) :
    q.requeueMove channelId batch i ≠ .leaves .delivered := by
  rw [requeueMove]
  split
  · nofun
  · exact frontMove_ne_delivered _

theorem markMove_ne_delivered (eventId : String) :
    q.markMove channelId target eventId i ≠ .leaves .delivered := by
  rw [markMove]
  split
  · exact Fate.eraseFirst_ne (by decide) _ _ _
  · nofun

theorem releaseMove_ne_delivered (eventId : String) :
    q.releaseMove channelId target eventId i ≠ .leaves .delivered := by
  rw [releaseMove]
  cases (q.withheldOf target).find? (named eventId) with
  | none => nofun
  | some released => exact frontMove_ne_delivered 1

theorem removeMove_ne_delivered (eventId : String) :
    q.removeMove channelId target eventId i ≠ .leaves .delivered := by
  rw [removeMove]
  split
  · exact Fate.keepIf_ne (by decide) _ _ _
  · nofun

theorem drainMove_ne_delivered : drainMove channelId target i ≠ .leaves .delivered := by
  rw [drainMove]
  split <;> nofun

theorem expireMove_ne_delivered {now : Instant} :
    q.expireMove channelId now i ≠ .leaves .delivered := by
  refine Fate.follow_ne (fun q target i ↦ ?_) q (q.expired now) i
  rw [recoverMove]
  cases q.withheldNativeSteer.lookup target with
  | none => nofun
  | some entries => exact frontMove_ne_delivered _

theorem frontFirst_flushMove (channelId : Uuid) (q : EventQueue) (now : Instant) (pick : ℕ) :
    Fate.FrontFirst (q.flushMove channelId now pick) .delivered := by
  have hexpire : Fate.FrontFirst (q.expireMove channelId now) .delivered :=
    Fate.frontFirst_of_ne fun _ ↦ expireMove_ne_delivered
  refine hexpire.andThen (edits_expireMove channelId q now) ?_
  rw [takeMove]
  split
  · exact Fate.frontFirst_dropFront maxBatchEvents
  · exact Fate.frontFirst_of_ne fun i ↦ by simp

end Leaving

end EventQueue

namespace Custody

def move (channelId : Uuid) (s : Custody) : Call → ℕ → Fate Leaving
  | .drainChannel target => EventQueue.drainMove channelId target
  | .op (.push event) => s.queue.pushMove channelId event
  | .op (.flushNext pick) => s.queue.flushMove channelId s.clock pick
  | .op .hasFlushableWork => s.queue.expireMove channelId s.clock
  | .op (.requeue i _) => (s.outstanding[i]?.map fun o ↦
      s.queue.requeueMove channelId o.batch).getD .stays
  | .op (.requeuePreserveTimestamps i) => (s.outstanding[i]?.map fun o ↦
      EventQueue.frontMove channelId o.batch.channelId o.batch.events.length).getD .stays
  | .op (.markNativeSteerPending target eventId) => s.queue.markMove channelId target eventId
  | .op (.releaseNativeSteer target eventId) => s.queue.releaseMove channelId target eventId
  | .op (.removeEvent target eventId) => s.queue.removeMove channelId target eventId
  | .op _ => .stays

theorem edits_move (channelId : Uuid) (s : Custody) (c : Call) :
    Fate.Edits (s.move channelId c) (s.queue.queueOf channelId)
      ((s.call c).queue.queueOf channelId) := by
  cases c with
  | drainChannel target => exact s.queue.edits_drainMove channelId target
  | op op =>
    cases op with
    | push event => exact s.queue.edits_pushMove channelId event
    | flushNext pick => exact s.queue.edits_flushMove channelId s.clock pick
    | hasFlushableWork => exact s.queue.edits_expireMove channelId s.clock
    | markNativeSteerPending target eventId => exact s.queue.edits_markMove channelId target eventId
    | releaseNativeSteer target eventId => exact s.queue.edits_releaseMove channelId target eventId
    | removeEvent target eventId => exact s.queue.edits_removeMove channelId target eventId
    | requeue i nanos =>
      rw [move, call, step]
      cases s.outstanding[i]? with
      | none => exact Fate.edits_refl _
      | some o => exact s.queue.edits_requeueMove channelId s.clock nanos o.batch
    | requeuePreserveTimestamps i =>
      rw [move, call, step]
      cases s.outstanding[i]? with
      | none => exact Fate.edits_refl _
      | some o =>
        rw [Option.map_some, Option.getD_some, ← EventQueue.length_requeued]
        exact EventQueue.edits_frontMove s.queue channelId o.batch.channelId
          (EventQueue.requeued o.batch)
    | requeueAsCancelled i reason =>
      change Fate.Edits .stays _ ((s.step (.requeueAsCancelled i reason)).queue.queueOf channelId)
      rw [step]
      cases s.outstanding[i]? with
      | none => exact Fate.edits_refl _
      | some o => exact Fate.edits_refl _
    | complete i =>
      change Fate.Edits .stays _ ((s.step (.complete i)).queue.queueOf channelId)
      rw [step]
      cases s.outstanding[i]? with
      | none => exact Fate.edits_refl _
      | some o => exact Fate.edits_refl _
    | markComplete target =>
      change Fate.Edits .stays _ ((s.queue.markComplete s.clock target).queueOf channelId)
      rw [EventQueue.queueOf, EventQueue.queueOf, s.queue.markComplete_queues s.clock target]
      exact Fate.edits_refl _
    | compactExpiredState => exact Fate.edits_refl _
    | extendInFlightDeadline target maxTurnSecs =>
      change Fate.Edits .stays _
        ((s.queue.extendInFlightDeadline s.clock target maxTurnSecs).queueOf channelId)
      rw [EventQueue.queueOf, EventQueue.queueOf,
        s.queue.extendInFlightDeadline_queues s.clock target maxTurnSecs]
      exact Fate.edits_refl _
    | advance nanos => exact Fate.edits_refl _

def Leaves (channelId : Uuid) (s : Custody) (c : Call) (qe : QueuedEvent) : Leaving → Prop
  | .delivered => ∃ pick batch, c = .op (.flushNext pick) ∧
      (s.queue.flushNext s.clock pick).2 = some batch ∧ batch.channelId = channelId ∧
      qe.toBatchEvent ∈ batch.events
  | .dropped => s.queue.Lost (s.call c).queue channelId qe
  | .withheld => ∃ eventId, c = .op (.markNativeSteerPending channelId eventId) ∧
      EventQueue.named eventId qe = true ∧ qe ∈ (s.call c).queue.withheldOf channelId
  | .removed => c = .drainChannel channelId ∨
      ∃ eventId, c = .op (.removeEvent channelId eventId) ∧ EventQueue.named eventId qe = true

theorem leaves_move {channelId : Uuid} {s : Custody} {c : Call} {qe : QueuedEvent} {i : ℕ}
    {why : Leaving} (hqe : (s.queue.queueOf channelId)[i]? = some qe)
    (h : s.move channelId c i = .leaves why) : s.Leaves channelId c qe why := by
  cases c with
  | drainChannel target =>
    rw [move, EventQueue.drainMove] at h
    split at h
    case isFalse => cases h
    case isTrue heq =>
      subst target
      obtain rfl := Fate.leaves.inj h
      exact .inl rfl
  | op op =>
    cases op with
    | push event =>
      obtain ⟨rfl, hlost⟩ := EventQueue.lost_pushMove hqe h
      exact hlost
    | flushNext pick =>
      rw [move, EventQueue.flushMove] at h
      cases hexpire : s.queue.expireMove channelId s.clock i with
      | leaves why' =>
        rw [hexpire] at h
        obtain rfl := Fate.leaves.inj h
        obtain ⟨rfl, hlost⟩ := EventQueue.lost_expireMove hqe hexpire
        exact hlost.flushNext pick
      | stays k =>
        rw [hexpire] at h
        have hk := (s.queue.edits_expireMove channelId s.clock).kept hqe hexpire
        obtain ⟨rfl, batch, hbatch⟩ := EventQueue.delivered_takeMove hk h
        exact ⟨pick, batch, rfl, hbatch⟩
    | hasFlushableWork =>
      obtain ⟨rfl, hlost⟩ := EventQueue.lost_expireMove hqe h
      exact hlost
    | markNativeSteerPending target eventId =>
      obtain ⟨rfl, rfl, hnamed, hmem⟩ := EventQueue.withheld_markMove hqe h
      exact ⟨eventId, rfl, hnamed, hmem⟩
    | removeEvent target eventId =>
      obtain ⟨rfl, rfl, hnamed⟩ := EventQueue.removed_removeMove hqe h
      exact .inr ⟨eventId, rfl, hnamed⟩
    | releaseNativeSteer target eventId =>
      obtain ⟨rfl, hlost⟩ := EventQueue.lost_releaseMove hqe h
      exact hlost
    | requeue k nanos =>
      rw [move] at h
      cases hk : s.outstanding[k]? with
      | none =>
        rw [hk] at h
        cases h
      | some o =>
        rw [hk] at h
        obtain ⟨rfl, hlost⟩ := EventQueue.lost_requeueMove s.clock nanos hqe h
        simpa [Leaves, call, step, hk] using hlost
    | requeuePreserveTimestamps k =>
      rw [move] at h
      cases hk : s.outstanding[k]? with
      | none =>
        rw [hk] at h
        cases h
      | some o =>
        rw [hk, Option.map_some, Option.getD_some, ← EventQueue.length_requeued] at h
        obtain ⟨rfl, hlost⟩ :=
          EventQueue.lost_frontMove s.queue (EventQueue.requeued o.batch) hqe h
        simpa [Leaves, call, step, hk, EventQueue.requeuePreserveTimestamps] using hlost
    | requeueAsCancelled i reason => cases h
    | complete i => cases h
    | markComplete target => cases h
    | compactExpiredState => cases h
    | extendInFlightDeadline target maxTurnSecs => cases h
    | advance nanos => cases h

theorem frontFirst_move (channelId : Uuid) (s : Custody) (c : Call) :
    Fate.FrontFirst (s.move channelId c) .delivered := by
  cases c with
  | drainChannel target => exact Fate.frontFirst_of_ne fun _ ↦ EventQueue.drainMove_ne_delivered
  | op op =>
    cases op with
    | flushNext pick => exact EventQueue.frontFirst_flushMove channelId s.queue s.clock pick
    | push event => exact Fate.frontFirst_of_ne fun _ ↦ EventQueue.pushMove_ne_delivered event
    | hasFlushableWork => exact Fate.frontFirst_of_ne fun _ ↦ EventQueue.expireMove_ne_delivered
    | markNativeSteerPending target eventId =>
      exact Fate.frontFirst_of_ne fun _ ↦ EventQueue.markMove_ne_delivered eventId
    | releaseNativeSteer target eventId =>
      exact Fate.frontFirst_of_ne fun _ ↦ EventQueue.releaseMove_ne_delivered eventId
    | removeEvent target eventId =>
      exact Fate.frontFirst_of_ne fun _ ↦ EventQueue.removeMove_ne_delivered eventId
    | requeue k nanos =>
      refine Fate.frontFirst_of_ne fun i ↦ ?_
      rw [move]
      cases s.outstanding[k]? with
      | none => simp
      | some o => exact EventQueue.requeueMove_ne_delivered o.batch
    | requeuePreserveTimestamps k =>
      refine Fate.frontFirst_of_ne fun i ↦ ?_
      rw [move]
      cases s.outstanding[k]? with
      | none => simp
      | some o => exact EventQueue.frontMove_ne_delivered _
    | requeueAsCancelled i reason => exact Fate.frontFirst_of_ne fun i ↦ nofun
    | complete i => exact Fate.frontFirst_of_ne fun i ↦ nofun
    | markComplete target => exact Fate.frontFirst_of_ne fun i ↦ nofun
    | compactExpiredState => exact Fate.frontFirst_of_ne fun i ↦ nofun
    | extendInFlightDeadline target maxTurnSecs => exact Fate.frontFirst_of_ne fun i ↦ nofun
    | advance nanos => exact Fate.frontFirst_of_ne fun i ↦ nofun

def fate (channelId : Uuid) (s : Custody) (calls : List Call) (i : ℕ) : Fate Leaving :=
  Fate.follow call (move channelId) s calls i

theorem edits_fate (channelId : Uuid) (s : Custody) (calls : List Call) :
    Fate.Edits (s.fate channelId calls) (s.queue.queueOf channelId)
      ((calls.foldl call s).queue.queueOf channelId) :=
  Fate.edits_follow (edits_move channelId) s calls

theorem frontFirst_fate (channelId : Uuid) (s : Custody) (calls : List Call) :
    Fate.FrontFirst (s.fate channelId calls) .delivered :=
  Fate.frontFirst_follow (edits_move channelId) (frontFirst_move channelId) s calls

structure InTurn (channelId : Uuid) (s : Custody) (i : ℕ) (qe : QueuedEvent) (calls : List Call) :
    Prop where
  waits : ∀ {k}, s.fate channelId calls i = .stays k →
    ((calls.foldl call s).queue.queueOf channelId)[k]? = some qe
  leaves : ∀ {why}, s.fate channelId calls i = .leaves why → ∃ pre c post,
    calls = pre ++ c :: post ∧ (pre.foldl call s).Leaves channelId c qe why
  first : ∀ {pre event post}, calls = pre ++ .op (.push event) :: post →
    event.channelId = channelId → ((pre.foldl call s).queue.push event).2 = true →
    let pushed := (pre.foldl call s).call (.op (.push event))
    (pushed.queue.queueOf channelId).getLast? = some event ∧
    (pushed.fate channelId post ((pushed.queue.queueOf channelId).length - 1) =
      .leaves .delivered → ∃ why, s.fate channelId calls i = .leaves why)

theorem first_of_push {channelId : Uuid} {s : Custody} {i : ℕ} {qe event : QueuedEvent}
    {post : List Call} (hqe : (s.queue.queueOf channelId)[i]? = some qe)
    (hchannel : event.channelId = channelId) (haccepted : (s.queue.push event).2 = true)
    (hlater : (s.call (.op (.push event))).fate channelId post
      (((s.call (.op (.push event))).queue.queueOf channelId).length - 1) = .leaves .delivered) :
    ∃ why, s.fate channelId (.op (.push event) :: post) i = .leaves why := by
  have hpushed : ((s.call (.op (.push event))).queue.queueOf channelId) = _ :=
    EventQueue.queueOf_push channelId s.queue event
  rw [if_pos ⟨hchannel.symm, haccepted⟩] at hpushed
  rw [fate, Fate.follow]
  cases hi : s.move channelId (.op (.push event)) i with
  | leaves why => exact ⟨why, rfl⟩
  | stays k =>
    refine frontFirst_fate channelId (s.call (.op (.push event))) post ?_ hlater
    have hlen := (List.getElem?_eq_some_iff.mp hqe).1
    change s.queue.pushMove channelId event i = .stays k at hi
    rw [EventQueue.pushMove, if_pos ⟨hchannel.symm, haccepted⟩, Fate.dropFront] at hi
    rw [hpushed, List.length_append, List.length_drop, List.length_singleton, Nat.add_sub_cancel]
    generalize (if maxPendingPerChannel ≤ (s.queue.queueOf channelId).length then 1 else 0) = n
      at hi ⊢
    split at hi
    case isTrue => cases hi
    case isFalse =>
      have hk := Fate.stays.inj hi
      omega

theorem inTurn {channelId : Uuid} {s : Custody} {i : ℕ} {qe : QueuedEvent} (calls : List Call)
    (hqe : (s.queue.queueOf channelId)[i]? = some qe) : s.InTurn channelId i qe calls where
  waits := (s.edits_fate channelId calls).kept hqe
  leaves := by
    intro why hwhy
    obtain ⟨pre, c, post, j, hcalls, hj, hmove⟩ :=
      Fate.exists_leaving (edits_move channelId) hqe hwhy
    exact ⟨pre, c, post, hcalls, leaves_move hj hmove⟩
  first := by
    rintro pre event post rfl hchannel haccepted
    constructor
    · have hpushed := EventQueue.queueOf_push channelId (pre.foldl call s).queue event
      rw [if_pos ⟨hchannel.symm, haccepted⟩] at hpushed
      change (((pre.foldl call s).queue.push event).1.queueOf channelId).getLast? = some event
      rw [hpushed, List.getLast?_concat]
    · intro hlater
      rw [fate, Fate.follow_append]
      cases hpre : Fate.follow call (move channelId) s pre i with
      | leaves why => exact ⟨why, rfl⟩
      | stays k =>
        exact first_of_push ((s.edits_fate channelId pre).kept hqe hpre) hchannel haccepted hlater

/-- What a flush gives, and what it leaves behind. -/
structure Fair (s : Custody) : Prop where
  agrees : ∀ pick, (s.queue.flushNext s.clock pick).2.isSome = true ↔
    (s.queue.hasFlushableWork s.clock).2 = true
  batch : ∀ {pick batch}, (s.queue.flushNext s.clock pick).2 = some batch →
    ((s.queue.expire s.clock).Served s.clock batch ∧
      1 ≤ batch.events.length ∧ batch.events.length ≤ maxBatchEvents ∧
      ((s.queue.expire s.clock).HeadsOldest s.clock →
        (s.queue.expire s.clock).HoldsOldest s.clock batch.channelId) ∧
      (s.queue.flushNext s.clock pick).1.queueOf batch.channelId =
        ((s.queue.expire s.clock).queueOf batch.channelId).drop maxBatchEvents) ∨
    (s.queue.expire s.clock).Redispatched s.clock batch
  inTurn : ∀ {channelId i qe} calls, (s.queue.queueOf channelId)[i]? = some qe →
    s.InTurn channelId i qe calls

/-- In every state of the queue, a flush serves the channel whose head is the oldest, and what it
leaves behind is not overtaken by what is pushed later. -/
theorem flushNext_fair (s : Custody) : s.Fair where
  agrees := s.queue.flushNext_isSome_iff s.clock
  batch := by
    intro pick batch hbatch
    rcases EventQueue.flushNext_spec hbatch with hserved | hagain
    · refine .inl ⟨hserved, hserved.size.1, hserved.size.2, hserved.holdsOldest, ?_⟩
      rw [EventQueue.queueOf_flushNext,
        if_pos (EventQueue.nextChannel_of_flushNext hbatch ⟨_, hserved.eligible⟩)]
    · exact .inr hagain
  inTurn := fun calls hqe ↦ inTurn calls hqe

end Custody

namespace EventQueue

/-- What a run of accepted pushes to one channel leaves: the latest events, as many as the depth
cap lets stay. -/
def pushed (q : EventQueue) (channelId : Uuid) (events : List QueuedEvent) : EventQueue :=
  let queue := q.queueOf channelId ++ events
  let dropped := queue.length - maxPendingPerChannel
  { q with
    queues := AList.insert channelId (queue.drop dropped) q.queues
    overflow := q.overflow ++ (queue.take dropped).map fun qe ↦ (channelId, qe.toBatchEvent) }

theorem push_of_queue {q : EventQueue} (hmode : q.dedupMode = .queue) (event : QueuedEvent)
    (hlen : (q.queueOf event.channelId).length ≤ maxPendingPerChannel) :
    (q.push event).1 = q.pushed event.channelId [event] := by
  have hcap : maxPendingPerChannel = 500 := rfl
  rw [push, if_neg (by simp [hmode]), pushed, List.length_append, List.length_singleton]
  dsimp only
  split
  case isTrue h =>
    have hone : (q.queueOf event.channelId).length + 1 - maxPendingPerChannel = 1 := by omega
    rw [hone, List.drop_append_of_le_length (by omega), List.take_append_of_le_length (by omega)]
  case isFalse h =>
    have hzero : (q.queueOf event.channelId).length + 1 - maxPendingPerChannel = 0 := by omega
    rw [hzero]
    simp

theorem pushed_pushed (q : EventQueue) (channelId : Uuid) (first rest : List QueuedEvent) :
    (q.pushed channelId first).pushed channelId rest = q.pushed channelId (first ++ rest) := by
  have hqueue : (q.pushed channelId first).queueOf channelId = (q.queueOf channelId ++ first).drop
      ((q.queueOf channelId ++ first).length - maxPendingPerChannel) := by
    simp [pushed, queueOf]
  have hsplit : (q.queueOf channelId ++ (first ++ rest)).length - maxPendingPerChannel =
      ((q.queueOf channelId ++ first).length - maxPendingPerChannel) +
        (((q.queueOf channelId ++ first).drop ((q.queueOf channelId ++ first).length -
          maxPendingPerChannel) ++ rest).length - maxPendingPerChannel) := by
    simp only [List.length_append, List.length_drop]
    omega
  have hdrop : (q.queueOf channelId ++ (first ++ rest)).drop
      ((q.queueOf channelId ++ first).length - maxPendingPerChannel) =
        (q.queueOf channelId ++ first).drop
          ((q.queueOf channelId ++ first).length - maxPendingPerChannel) ++ rest := by
    rw [← List.append_assoc, List.drop_append_of_le_length (Nat.sub_le _ _)]
  have htake : (q.queueOf channelId ++ (first ++ rest)).take
      ((q.queueOf channelId ++ first).length - maxPendingPerChannel) =
        (q.queueOf channelId ++ first).take
          ((q.queueOf channelId ++ first).length - maxPendingPerChannel) := by
    rw [← List.append_assoc, List.take_append_of_le_length (Nat.sub_le _ _)]
  rw [pushed, hqueue, pushed, pushed, hsplit, List.take_add, ← List.drop_drop, hdrop, htake]
  simp only [AList.insert_insert, List.map_append, List.append_assoc]

theorem foldl_push {q : EventQueue} {channelId : Uuid} (hmode : q.dedupMode = .queue)
    (hlen : (q.queueOf channelId).length ≤ maxPendingPerChannel) {events : List QueuedEvent}
    (hne : events ≠ []) (hchannel : ∀ e ∈ events, e.channelId = channelId) :
    events.foldl (fun q e ↦ (q.push e).1) q = q.pushed channelId events := by
  induction events generalizing q with
  | nil => exact absurd rfl hne
  | cons event events ih =>
    obtain rfl := hchannel event List.mem_cons_self
    have hstays : ((q.pushed event.channelId [event]).queueOf event.channelId).length ≤
        maxPendingPerChannel := by
      simp only [pushed, queueOf, AList.lookup_insert, Option.getD_some, List.length_drop]
      omega
    have hfirst := push_of_queue hmode event hlen
    rw [List.foldl_cons, hfirst]
    by_cases hnil : events = []
    · rw [hnil, List.foldl_nil]
    · have hmode' : (q.pushed event.channelId [event]).dedupMode = .queue := hmode
      rw [ih hmode' hstays hnil fun e he ↦ hchannel e (List.mem_cons_of_mem event he),
        pushed_pushed, List.singleton_append]

end EventQueue

namespace Custody

theorem foldl_call_push (s : Custody) (events : List QueuedEvent) :
    ((events.map fun e ↦ Call.op (.push e)).foldl call s).queue =
        events.foldl (fun q e ↦ (q.push e).1) s.queue ∧
      ((events.map fun e ↦ Call.op (.push e)).foldl call s).clock = s.clock := by
  induction events generalizing s with
  | nil => exact ⟨rfl, rfl⟩
  | cons e events ih => exact ih (s.call (.op (.push e)))

theorem flushNext_of_pushes {s : Custody} {channelId : Uuid} {events : List QueuedEvent}
    (hmode : s.queue.dedupMode = .queue)
    (hlen : (s.queue.queueOf channelId).length ≤ maxPendingPerChannel) (hne : events ≠ [])
    (hchannel : ∀ e ∈ events, e.channelId = channelId) (pick : ℕ) :
    let s' := ((events.map fun e ↦ Call.op (.push e)) ++
      [Call.op (.markComplete channelId)]).foldl call s
    s'.queue.flushNext s'.clock pick = EventQueue.flushNext
      ((s.queue.pushed channelId events).markComplete s.clock channelId) s.clock pick := by
  obtain ⟨hqueue, hclock⟩ := s.foldl_call_push events
  rw [EventQueue.foldl_push hmode hlen hne hchannel] at hqueue
  rw [List.foldl_append, List.foldl_cons, List.foldl_nil, ← hqueue, ← hclock]
  rfl

def messages (first count : ℕ) : List QueuedEvent :=
  (List.range' first count).map fun id ↦ message (.ofNat _ id)

def pushes (first count : ℕ) : List Call := (messages first count).map fun e ↦ .op (.push e)

/-- A flush leaves the last of 51 events behind; 500 more fill the queue, which drops it, and the
next flush gives the event that was pushed right after it. -/
theorem depth_cap_drops_left_behind :
    let s := afterCalls .queue 7200 (pushes 0 51 ++ [Call.op (.flushNext 0)])
    let s' := (pushes 51 500 ++ [Call.op (.markComplete 7)]).foldl call s
    s.queue.queueOf 7 = [message 50] ∧
      ∃ batch ∈ (s'.queue.flushNext s'.clock 0).2, batch.channelId = 7 ∧
        (message 51).toBatchEvent ∈ batch.events ∧ (message 50).toBatchEvent ∉ batch.events := by
  intro s s'
  have hleft : s.queue.queueOf 7 = [message 50] := by decide +kernel
  have hchannel : ∀ e ∈ messages 51 500, e.channelId = 7 := by
    intro e he
    obtain ⟨id, -, rfl⟩ := List.mem_map.mp he
    rfl
  have hflush : s'.queue.flushNext s'.clock 0 = _ :=
    flushNext_of_pushes (by decide +kernel) (by decide +kernel) (by decide) hchannel 0
  refine ⟨hleft, ?_⟩
  rw [hflush]
  decide +kernel

end Custody

end Buzz.Acp
