import Buzz.Acp.Custody
import Buzz.Acp.Retry

namespace Buzz.Acp

open Buzz.Lib Buzz.Nostr

section Tokens

variable {x : Token} {channelId : Uuid}

theorem count_queuedTokens_split (channelId : Uuid) (events : List QueuedEvent) (n : ℕ) :
    (queuedTokens channelId (events.take n)).count x +
      (queuedTokens channelId (events.drop n)).count x =
        (queuedTokens channelId events).count x := by
  rw [← List.count_append, queuedTokens, queuedTokens, ← List.map_append, List.take_append_drop]
  rfl

theorem count_queuedTokens_append (events events' : List QueuedEvent) :
    (queuedTokens channelId (events ++ events')).count x =
      (queuedTokens channelId events).count x + (queuedTokens channelId events').count x := by
  rw [queuedTokens, List.map_append, List.count_append]
  rfl

theorem count_queuedTokens_perm {events events' : List QueuedEvent} (h : events.Perm events') :
    (queuedTokens channelId events).count x = (queuedTokens channelId events').count x :=
  (h.map _).count_eq x

theorem count_tokens_perm (channelId : Uuid) {events events' : List BatchEvent}
    (h : events.Perm events') :
    (tokens channelId events).count x = (tokens channelId events').count x :=
  (h.map _).count_eq x

theorem tokens_map (events : List QueuedEvent) :
    tokens channelId (events.map QueuedEvent.toBatchEvent) = queuedTokens channelId events := by
  rw [tokens, List.map_map]
  rfl

theorem queuedTokens_requeued (batch : FlushBatch) :
    queuedTokens batch.channelId (EventQueue.requeued batch) =
      tokens batch.channelId batch.events := by
  rw [queuedTokens, EventQueue.requeued, List.map_map]
  rfl

theorem count_filter_split (channelId : Uuid) (p : QueuedEvent → Bool) (events : List QueuedEvent) :
    (queuedTokens channelId (events.filter p)).count x +
      (queuedTokens channelId (events.filter fun qe ↦ !p qe)).count x =
        (queuedTokens channelId events).count x := by
  rw [← count_queuedTokens_append]
  exact count_queuedTokens_perm (List.filter_append_perm p events)

theorem count_find_erase (channelId : Uuid) {p : QueuedEvent → Bool} {events : List QueuedEvent}
    {qe : QueuedEvent}
    (h : events.find? p = some qe) :
    (queuedTokens channelId (events.eraseP p)).count x + (queuedTokens channelId [qe]).count x =
      (queuedTokens channelId events).count x := by
  induction events with
  | nil => cases h
  | cons head events ih =>
    rw [List.find?_cons] at h
    have hcons : (queuedTokens channelId (head :: events)).count x =
        (queuedTokens channelId [head]).count x + (queuedTokens channelId events).count x :=
      count_queuedTokens_append [head] events
    cases hp : p head with
    | true =>
      rw [hp] at h
      rw [List.eraseP_cons_of_pos hp, ← Option.some.inj h]
      omega
    | false =>
      rw [hp] at h
      have hcons' : (queuedTokens channelId (head :: events.eraseP p)).count x =
          (queuedTokens channelId [head]).count x +
            (queuedTokens channelId (events.eraseP p)).count x :=
        count_queuedTokens_append [head] (events.eraseP p)
      rw [List.eraseP_cons_of_neg (by rw [hp]; exact Bool.false_ne_true)]
      have hrest := ih h
      omega

end Tokens

namespace EventQueue

def contents (q : EventQueue) : List Token :=
  Map.contents QueuedEvent.toBatchEvent q.queues ++
  Map.contents QueuedEvent.toBatchEvent q.withheldNativeSteer ++
  Map.contents id q.cancelledBatches ++ q.overflow

variable {q : EventQueue} {now : Instant} {channelId : Uuid} {x : Token}

theorem count_contents : q.contents.count x =
    (Map.contents QueuedEvent.toBatchEvent q.queues).count x +
    (Map.contents QueuedEvent.toBatchEvent q.withheldNativeSteer).count x +
    (Map.contents id q.cancelledBatches).count x + q.overflow.count x := by
  simp only [contents, List.count_append]

theorem count_insert_queue (m : Map Uuid (List QueuedEvent)) (channelId : Uuid)
    (queue : List QueuedEvent) :
    (Map.contents QueuedEvent.toBatchEvent (AList.insert channelId queue m)).count x +
        (queuedTokens channelId ((m.lookup channelId).getD [])).count x =
      (Map.contents QueuedEvent.toBatchEvent m).count x +
        (queuedTokens channelId queue).count x :=
  Map.count_contents_insert

theorem count_erase_queue (m : Map Uuid (List QueuedEvent)) (channelId : Uuid) :
    (Map.contents QueuedEvent.toBatchEvent (m.erase channelId)).count x +
        (queuedTokens channelId ((m.lookup channelId).getD [])).count x =
      (Map.contents QueuedEvent.toBatchEvent m).count x :=
  Map.count_contents_erase

theorem count_set_queue (m : Map Uuid (List QueuedEvent)) (channelId : Uuid)
    (queue : List QueuedEvent) :
    (Map.contents QueuedEvent.toBatchEvent
        (if queue.isEmpty then m.erase channelId else AList.insert channelId queue m)).count x +
        (queuedTokens channelId ((m.lookup channelId).getD [])).count x =
      (Map.contents QueuedEvent.toBatchEvent m).count x +
        (queuedTokens channelId queue).count x := by
  split
  · next hempty =>
    rw [List.isEmpty_iff.mp hempty]
    exact count_erase_queue m channelId
  · exact count_insert_queue m channelId queue

theorem count_pushFront (channelId : Uuid) (events : List QueuedEvent) :
    (q.pushFront channelId events).contents.count x =
      q.contents.count x + (queuedTokens channelId events).count x := by
  have hinsert := count_insert_queue (x := x) q.queues channelId
    ((events ++ q.queueOf channelId).take maxPendingPerChannel)
  have hsplit := count_queuedTokens_split (x := x) channelId
    (events ++ q.queueOf channelId) maxPendingPerChannel
  have hdropped : (queuedTokens channelId
      ((events ++ q.queueOf channelId).drop maxPendingPerChannel).reverse).count x = _ :=
    count_queuedTokens_perm (List.reverse_perm _)
  rw [count_queuedTokens_append] at hsplit
  simp only [count_contents, pushFront, List.count_append]
  simp only [queueOf, queuedTokens] at *
  omega

theorem count_setQueue (channelId : Uuid) (queue : List QueuedEvent) :
    (q.setQueue channelId queue).contents.count x +
        (queuedTokens channelId (q.queueOf channelId)).count x =
      q.contents.count x + (queuedTokens channelId queue).count x := by
  have hset := count_set_queue (x := x) q.queues channelId queue
  simp only [count_contents, setQueue, queueOf] at *
  omega

theorem count_setWithheld (channelId : Uuid) (entries : List QueuedEvent) :
    (q.setWithheld channelId entries).contents.count x +
        (queuedTokens channelId ((q.withheldNativeSteer.lookup channelId).getD [])).count x =
      q.contents.count x + (queuedTokens channelId entries).count x := by
  have hset := count_set_queue (x := x) q.withheldNativeSteer channelId entries
  simp only [count_contents, setWithheld] at *
  omega

theorem count_push (event : QueuedEvent) :
    (q.push event).1.contents.count x = q.contents.count x +
      if (q.push event).2 then [(event.channelId, event.toBatchEvent)].count x else 0 := by
  rw [push]
  split
  · rfl
  · simp only [if_true]
    generalize (if maxPendingPerChannel ≤ (q.queueOf event.channelId).length then 1 else 0) = n
    have hinsert := count_insert_queue (x := x) q.queues event.channelId
      ((q.queueOf event.channelId).drop n ++ [event])
    have hsplit := count_queuedTokens_split (x := x) event.channelId (q.queueOf event.channelId) n
    rw [count_queuedTokens_append] at hinsert
    simp only [count_contents, List.count_append]
    simp only [queueOf, queuedTokens, List.map_cons, List.map_nil] at *
    omega

theorem count_recoverWithheld :
    (q.recoverWithheldForExpiredChannel channelId).contents.count x = q.contents.count x := by
  rw [recoverWithheldForExpiredChannel]
  split
  · rfl
  · next entries hentries =>
    have herase := count_erase_queue (x := x) q.withheldNativeSteer channelId
    rw [hentries, Option.getD_some] at herase
    rw [count_pushFront]
    simp only [count_contents]
    omega

theorem count_expire (q : EventQueue) (now : Instant) :
    (q.expire now).contents.count x = q.contents.count x := by
  rw [expire]
  induction q.expired now generalizing q with
  | nil => rfl
  | cons channelId channels ih =>
    rw [List.foldl_cons, ih, expireChannel, count_recoverWithheld]
    rfl

theorem count_startFlight (q : EventQueue) (now : Instant) (channelId : Uuid) :
    (q.startFlight now channelId).contents.count x +
        (tokens channelId ((q.cancelledBatches.lookup channelId).getD [])).count x =
      q.contents.count x := by
  have herase : (Map.contents id (q.cancelledBatches.erase channelId)).count x +
      (tokens channelId ((q.cancelledBatches.lookup channelId).getD [])).count x =
        (Map.contents id q.cancelledBatches).count x := Map.count_contents_erase
  simp only [count_contents, startFlight]
  omega

theorem sortByCreatedAt_perm (events : List BatchEvent) : (sortByCreatedAt events).Perm events :=
  List.perm_insertionSort _ events

theorem count_flushNext (q : EventQueue) (now : Instant) (pick : ℕ) :
    (q.flushNext now pick).1.contents.count x +
        (((q.flushNext now pick).2.map FlushBatch.tokens).getD []).count x =
      q.contents.count x := by
  have hexpire := count_expire (x := x) q now
  rw [flushNext]
  simp only
  split
  · next channelId _ =>
    have hset := count_setQueue (x := x) (q := q.expire now) channelId
      (((q.expire now).queueOf channelId).drop maxBatchEvents)
    have hsplit := count_queuedTokens_split (x := x) channelId ((q.expire now).queueOf channelId)
      maxBatchEvents
    have hstart := count_startFlight (x := x) ((q.expire now).setQueue channelId
      (((q.expire now).queueOf channelId).drop maxBatchEvents)) now channelId
    have hsort := count_tokens_perm (x := x) channelId (sortByCreatedAt_perm
      ((((q.expire now).queueOf channelId).take maxBatchEvents).map QueuedEvent.toBatchEvent))
    rw [tokens_map] at hsort
    simp only [Option.map_some, Option.getD_some, FlushBatch.tokens, List.count_append]
    simp only [setQueue] at *
    omega
  · split
    · rw [Option.map_none, Option.getD_none, List.count_nil]
      omega
    · next channelId _ =>
      have hstart := count_startFlight (x := x) (q.expire now) now channelId
      simp only [Option.map_some, Option.getD_some, FlushBatch.tokens, List.count_append]
      simp only [tokens, List.map_nil, List.count_nil] at *
      omega

theorem count_requeue (q : EventQueue) (now : Instant) (nanos : ℕ) (batch : FlushBatch) :
    (q.requeue now nanos batch).1.contents.count x =
      q.contents.count x + if maxRetries < q.attempts batch.channelId + 1 then 0
        else (tokens batch.channelId batch.events).count x := by
  rw [requeue]
  split
  · rfl
  · have hfront := count_pushFront (x := x) (q := { q with
        retryCounts :=
          AList.insert batch.channelId (q.attempts batch.channelId + 1) q.retryCounts })
      batch.channelId (requeued batch)
    rw [queuedTokens_requeued] at hfront
    exact hfront

theorem count_requeuePreserveTimestamps (q : EventQueue) (batch : FlushBatch) :
    (q.requeuePreserveTimestamps batch).contents.count x =
      q.contents.count x + (tokens batch.channelId batch.events).count x := by
  rw [requeuePreserveTimestamps, count_pushFront, queuedTokens_requeued]

theorem count_requeueAsCancelled (q : EventQueue) (batch : FlushBatch) (reason : CancelReason) :
    (q.requeueAsCancelled batch reason).contents.count x =
      q.contents.count x + batch.tokens.count x := by
  have hinsert : (Map.contents id (AList.insert batch.channelId _ q.cancelledBatches)).count x +
      (tokens batch.channelId ((q.cancelledBatches.lookup batch.channelId).getD [])).count x =
        (Map.contents id q.cancelledBatches).count x +
          (tokens batch.channelId ((q.cancelledBatches.lookup batch.channelId).getD [] ++
            batch.cancelledEvents ++ batch.events)).count x := Map.count_contents_insert
  simp only [count_contents, requeueAsCancelled, FlushBatch.tokens, tokens, List.map_append,
    List.count_append] at *
  omega

theorem count_markComplete (q : EventQueue) (now : Instant) (channelId : Uuid) :
    (q.markComplete now channelId).contents.count x = q.contents.count x := by
  rw [markComplete]
  simp only
  split
  · split <;> rfl
  · rfl

theorem count_markNativeSteerPending (q : EventQueue) (channelId : Uuid) (eventId : String) :
    (q.markNativeSteerPending channelId eventId).1.contents.count x = q.contents.count x := by
  rw [markNativeSteerPending]
  split
  · rfl
  · next qe hfind =>
    have herase := count_find_erase (x := x) channelId hfind
    have hset := count_setQueue (x := x) (q := q) channelId
      ((q.queueOf channelId).eraseP (named eventId))
    have hwith := count_setWithheld (x := x) (q := q.setQueue channelId
      ((q.queueOf channelId).eraseP (named eventId))) channelId
      ((q.withheldNativeSteer.lookup channelId).getD [] ++ [qe])
    rw [count_queuedTokens_append] at hwith
    simp only [setQueue] at *
    omega

theorem count_releaseNativeSteer (q : EventQueue) (channelId : Uuid) (eventId : String) :
    (q.releaseNativeSteer channelId eventId).contents.count x = q.contents.count x := by
  rw [releaseNativeSteer]
  split
  · rfl
  · next qe hfind =>
    have herase := count_find_erase (x := x) channelId hfind
    have hwith := count_setWithheld (x := x) (q := q) channelId
      (((q.withheldNativeSteer.lookup channelId).getD []).eraseP (named eventId))
    rw [count_pushFront]
    omega

theorem count_removeWithheld (q : EventQueue) (channelId : Uuid) (eventId : String) :
    (q.removeWithheld channelId eventId).contents.count x +
        (queuedTokens channelId (((q.withheldNativeSteer.lookup channelId).getD []).filter
          (named eventId))).count x =
      q.contents.count x := by
  rw [removeWithheld]
  split
  · next hlookup =>
    rw [hlookup, Option.getD_none, List.filter_nil]
    rfl
  · next entries hlookup =>
    have hset := count_setWithheld (x := x) (q := q) channelId
      (entries.filter fun qe ↦ !named eventId qe)
    have hsplit := count_filter_split (x := x) channelId (named eventId) entries
    rw [hlookup, Option.getD_some] at *
    omega

theorem count_removeQueued (q : EventQueue) (channelId : Uuid) (eventId : String) :
    (q.removeQueued channelId eventId).contents.count x +
        (queuedTokens channelId ((q.queueOf channelId).filter (named eventId))).count x =
      q.contents.count x := by
  rw [removeQueued]
  split
  · next hlookup =>
    rw [queueOf, hlookup, Option.getD_none, List.filter_nil]
    rfl
  · next queue hlookup =>
    have hset := count_setQueue (x := x) (q := q) channelId
      (queue.filter fun qe ↦ !named eventId qe)
    have hsplit := count_filter_split (x := x) channelId (named eventId) queue
    rw [queueOf, hlookup, Option.getD_some] at *
    omega

theorem queueOf_removeWithheld (q : EventQueue) (channelId : Uuid) (eventId : String) :
    (q.removeWithheld channelId eventId).queueOf channelId = q.queueOf channelId := by
  rw [removeWithheld]
  split <;> rfl

theorem count_removeEvent (q : EventQueue) (channelId : Uuid) (eventId : String) :
    (q.removeEvent channelId eventId).contents.count x +
        (queuedTokens channelId (((q.withheldNativeSteer.lookup channelId).getD []).filter
          (named eventId))).count x +
        (queuedTokens channelId ((q.queueOf channelId).filter (named eventId))).count x =
      q.contents.count x := by
  have hwithheld := count_removeWithheld (x := x) q channelId eventId
  have hqueued := count_removeQueued (x := x) (q.removeWithheld channelId eventId) channelId eventId
  rw [queueOf_removeWithheld] at hqueued
  rw [removeEvent]
  omega

theorem count_extendInFlightDeadline (q : EventQueue) (now : Instant) (channelId : Uuid)
    (maxTurnSecs : ℕ) :
    (q.extendInFlightDeadline now channelId maxTurnSecs).contents.count x = q.contents.count x := by
  rw [extendInFlightDeadline]
  split
  · rfl
  · simp only
    split <;> rfl

end EventQueue

namespace Custody

variable {s : Custody} {x : Token}

def out (s : Custody) : List Token := s.outstanding.flatMap fun o ↦ o.batch.tokens

theorem map_snd_placed (place : Place) (held : List Token) :
    (placed place held).map Prod.snd = held := by
  rw [placed, List.map_map]
  exact List.map_id held

theorem map_snd_located (s : Custody) : (s.located.map Prod.snd) =
    s.queue.contents ++ s.out ++ s.completed ++ s.deadLettered ++ s.removed := by
  have hout (o : Outstanding) : o.located.map Prod.snd = o.batch.tokens := by
    rw [Outstanding.located, List.map_append, map_snd_placed, map_snd_placed, FlushBatch.tokens]
  simp only [located, List.map_append, map_snd_placed, List.map_flatMap, hout]
  rfl

theorem conserved_iff : s.Conserved ↔ ∀ x, s.queue.contents.count x + s.out.count x +
    s.completed.count x + s.deadLettered.count x + s.removed.count x = s.accepted.count x := by
  rw [Conserved, map_snd_located, List.perm_iff_count]
  simp only [List.count_append]

theorem out_orphan (s : Custody) : s.orphan.flatMap (fun o ↦ o.batch.tokens) = s.out := by
  rw [orphan, List.flatMap_map, out]

theorem count_out_erase {i : ℕ} {o : Outstanding} (h : s.outstanding[i]? = some o) :
    ((s.outstanding.eraseIdx i).flatMap fun o ↦ o.batch.tokens).count x + o.batch.tokens.count x =
      s.out.count x := by
  obtain ⟨hi, rfl⟩ := List.getElem?_eq_some_iff.mp h
  have hperm := ((List.getElem_cons_eraseIdx_perm hi).flatMap_right
    fun o ↦ o.batch.tokens).count_eq x
  rw [List.flatMap_cons, List.count_append] at hperm
  rw [out]
  omega

def lost (s : Custody) : QueueOp → List Token
  | .requeue i _ =>
    match s.outstanding[i]? with
    | none => []
    | some o =>
      if maxRetries < s.queue.attempts o.batch.channelId + 1 then []
      else tokens o.batch.channelId o.batch.cancelledEvents
  | .requeuePreserveTimestamps i =>
    match s.outstanding[i]? with
    | none => []
    | some o => tokens o.batch.channelId o.batch.cancelledEvents
  | _ => []

def held (s : Custody) (x : Token) : ℕ :=
  s.queue.contents.count x + s.out.count x + s.completed.count x + s.deadLettered.count x +
    s.removed.count x

theorem requeue_dead (s : Custody) (nanos : ℕ) (batch : FlushBatch) :
    ((s.queue.requeue s.clock nanos batch).2.map FlushBatch.tokens).getD [] =
      if maxRetries < s.queue.attempts batch.channelId + 1 then batch.tokens else [] := by
  rw [EventQueue.requeue]
  split <;> rfl

theorem held_step (s : Custody) (op : QueueOp) (x : Token) :
    (s.step op).held x + (s.lost op).count x + s.accepted.count x =
      s.held x + (s.step op).accepted.count x := by
  cases op with
  | push event =>
    have hpush := EventQueue.count_push (q := s.queue) (x := x) event
    simp only [step, held, lost, out, List.count_nil] at *
    cases haccepted : (s.queue.push event).2 with
    | true =>
      simp only [haccepted, if_true, List.count_cons, List.count_nil] at *
      omega
    | false =>
      simp only [haccepted, Bool.false_eq_true, if_false] at *
      omega
  | flushNext pick =>
    have hflush := EventQueue.count_flushNext (x := x) s.queue s.clock pick
    have horphan := congrArg (List.count x) s.out_orphan
    simp only [step, held, lost, out, List.count_nil, List.flatMap_append, List.count_append] at *
    cases hbatch : (s.queue.flushNext s.clock pick).2 with
    | none =>
      simp only [hbatch, Option.map_none, Option.toList_none, Option.getD_none, List.flatMap_nil,
        List.count_nil] at *
      omega
    | some batch =>
      simp only [hbatch, Option.map_some, Option.toList_some, Option.getD_some,
        List.flatMap_singleton] at *
      omega
  | requeue i nanos =>
    cases hout : s.outstanding[i]? with
    | none =>
      simp only [step, lost, hout, List.count_nil]
      omega
    | some o =>
      have herase := count_out_erase (x := x) hout
      have hrequeue := EventQueue.count_requeue (x := x) s.queue s.clock nanos o.batch
      simp only [step, lost, hout, held, requeue_dead, List.count_append]
      rw [FlushBatch.tokens, List.count_append] at herase
      split at hrequeue
      · next hdead =>
        simp only [if_pos hdead, FlushBatch.tokens, List.count_append, List.count_nil, out] at *
        omega
      · next hdead =>
        simp only [if_neg hdead, List.count_nil, out] at *
        omega
  | requeuePreserveTimestamps i =>
    cases hout : s.outstanding[i]? with
    | none =>
      simp only [step, lost, hout, List.count_nil]
      omega
    | some o =>
      have herase := count_out_erase (x := x) hout
      have hrequeue := EventQueue.count_requeuePreserveTimestamps (x := x) s.queue o.batch
      rw [FlushBatch.tokens, List.count_append] at herase
      simp only [step, lost, hout, held, out] at *
      omega
  | requeueAsCancelled i reason =>
    cases hout : s.outstanding[i]? with
    | none =>
      simp only [step, lost, hout, List.count_nil]
      omega
    | some o =>
      have herase := count_out_erase (x := x) hout
      have hrequeue := EventQueue.count_requeueAsCancelled (x := x) s.queue o.batch reason
      simp only [step, lost, hout, held, out, List.count_nil] at *
      omega
  | complete i =>
    cases hout : s.outstanding[i]? with
    | none =>
      simp only [step, lost, hout, List.count_nil]
      omega
    | some o =>
      have herase := count_out_erase (x := x) hout
      simp only [step, lost, hout, held, out, List.count_append, List.count_nil] at *
      omega
  | markComplete channelId =>
    have hmark := EventQueue.count_markComplete (x := x) s.queue s.clock channelId
    simp only [step, held, lost, out, List.count_nil] at *
    omega
  | markNativeSteerPending channelId eventId =>
    have hmark := EventQueue.count_markNativeSteerPending (x := x) s.queue channelId eventId
    simp only [step, held, lost, out, List.count_nil] at *
    omega
  | releaseNativeSteer channelId eventId =>
    have hrelease := EventQueue.count_releaseNativeSteer (x := x) s.queue channelId eventId
    simp only [step, held, lost, out, List.count_nil] at *
    omega
  | removeEvent channelId eventId =>
    have hremove := EventQueue.count_removeEvent (x := x) s.queue channelId eventId
    simp only [step, held, lost, out, found, List.count_nil, List.count_append] at *
    omega
  | hasFlushableWork =>
    have hexpire := EventQueue.count_expire (x := x) s.queue s.clock
    have horphan := congrArg (List.count x) s.out_orphan
    simp only [step, held, lost, out, EventQueue.hasFlushableWork, List.count_nil] at *
    omega
  | compactExpiredState => rfl
  | extendInFlightDeadline channelId maxTurnSecs =>
    have hextend := EventQueue.count_extendInFlightDeadline (x := x) s.queue s.clock channelId
      maxTurnSecs
    simp only [step, held, lost, out, List.count_nil] at *
    omega
  | advance nanos => rfl

def PutsBackCancelled (s : Custody) : QueueOp → Prop
  | .requeue i _ => ∃ o, s.outstanding[i]? = some o ∧ o.batch.cancelledEvents ≠ [] ∧
      s.queue.attempts o.batch.channelId < maxRetries
  | .requeuePreserveTimestamps i =>
    ∃ o, s.outstanding[i]? = some o ∧ o.batch.cancelledEvents ≠ []
  | _ => False

theorem lost_eq_nil_iff (s : Custody) (op : QueueOp) :
    s.lost op = [] ↔ ¬s.PutsBackCancelled op := by
  cases op with
  | requeue i nanos =>
    rw [lost, PutsBackCancelled]
    cases hout : s.outstanding[i]? with
    | none => simp
    | some o =>
      by_cases hdead : maxRetries < s.queue.attempts o.batch.channelId + 1
      · simp [hdead, Nat.le_of_lt_succ hdead]
      · have hlt : s.queue.attempts o.batch.channelId < maxRetries := by omega
        simp [hdead, hlt, tokens]
  | requeuePreserveTimestamps i =>
    rw [lost, PutsBackCancelled]
    cases hout : s.outstanding[i]? with
    | none => simp
    | some o => simp [tokens]
  | _ => simp [lost, PutsBackCancelled]

theorem conserved_step_iff (h : s.Conserved) (op : QueueOp) :
    (s.step op).Conserved ↔ ¬s.PutsBackCancelled op := by
  rw [← lost_eq_nil_iff, conserved_iff]
  rw [conserved_iff] at h
  constructor
  · intro hstep
    refine List.eq_nil_iff_forall_not_mem.mpr fun x hx ↦ ?_
    have hbalance := s.held_step op x
    have hpos := List.count_pos_iff.mpr hx
    have hafter := hstep x
    have hbefore := h x
    simp only [held] at hbalance
    omega
  · intro hlost x
    have hbalance := s.held_step op x
    have hbefore := h x
    rw [hlost, List.count_nil] at hbalance
    simp only [held] at hbalance
    omega

theorem conserved_init (mode : DedupMode) (maxTurnSecs : ℕ) :
    Conserved { queue := (EventQueue.new mode).withInFlightDeadline maxTurnSecs } :=
  List.Perm.refl []

/-- Every accepted event stays in exactly one place through a run exactly when no step puts back a
batch with cancelled events. -/
theorem events_conserved_iff (mode : DedupMode) (maxTurnSecs : ℕ) (ops : List QueueOp) :
    (∀ pre, pre <+: ops →
        (run ((EventQueue.new mode).withInFlightDeadline maxTurnSecs) pre).Conserved) ↔
      ∀ pre op, pre ++ [op] <+: ops →
        ¬(run ((EventQueue.new mode).withInFlightDeadline maxTurnSecs) pre).PutsBackCancelled op :=
  forall_prefix_good_iff step (fun _ ↦ True) Conserved PutsBackCancelled trivial
    (conserved_init mode maxTurnSecs) (fun _ _ _ ↦ trivial)
    (fun _ op _ h ↦ conserved_step_iff h op) ops

/-- A steered turn's events, merged into the next batch, are lost when the pool is exhausted. -/
theorem exhausted_pool_loses_cancelled :
    ¬(run ((EventQueue.new .queue).withInFlightDeadline 7200) [.push (message 1), .flushNext 0,
      .requeueAsCancelled 0 .steer, .markComplete 7, .push (message 2), .flushNext 0,
      .requeuePreserveTimestamps 0, .markComplete 7]).Conserved := by
  intro h
  have hlength := h.length_eq
  revert hlength
  decide

end Custody

inductive TurnOutcome
  | ok
  | cancelled
  | discarded
  | failed (nanos : ℕ)

namespace Custody

/-- `dispatch_pending` with so many idle agents; the batch that finds none is put back. -/
def dispatchPending (picks : ℕ → ℕ) : ℕ → Custody → Custody
  | 0, s =>
    match (s.queue.flushNext s.clock (picks 0)).2 with
    | none => s.step (.flushNext (picks 0))
    | some batch =>
      ((s.step (.flushNext (picks 0))).step (.requeuePreserveTimestamps 0)).step
        (.markComplete batch.channelId)
  | idle + 1, s =>
    match (s.queue.flushNext s.clock (picks (idle + 1))).2 with
    | none => s.step (.flushNext (picks (idle + 1)))
    | some _ => dispatchPending picks idle (s.step (.flushNext (picks (idle + 1))))

def handBack (i : ℕ) (batch : FlushBatch) : TurnOutcome → QueueOp
  | .ok | .discarded => .complete i
  | .cancelled => .requeueAsCancelled i (batch.cancelReason.getD .steer)
  | .failed nanos => .requeue i nanos

def handlePromptResult (s : Custody) (i : ℕ) (outcome : TurnOutcome) : Custody :=
  match s.outstanding[i]? with
  | none => s
  | some o =>
    (s.step (handBack i o.batch outcome)).step (.markComplete o.batch.channelId)

variable {s : Custody}

/-- The state is what some calls make of the other one. -/
def Leads (s s' : Custody) : Prop := ∃ ops : List QueueOp, ops.foldl step s = s'

theorem leads_step (s : Custody) (op : QueueOp) : s.Leads (s.step op) := ⟨[op], rfl⟩

theorem Leads.trans {s' s'' : Custody} (h : s.Leads s') (h' : s'.Leads s'') : s.Leads s'' := by
  obtain ⟨ops, rfl⟩ := h
  obtain ⟨ops', rfl⟩ := h'
  exact ⟨ops ++ ops', List.foldl_append⟩

theorem leads_dispatchPending (picks : ℕ → ℕ) (idle : ℕ) (s : Custody) :
    s.Leads (s.dispatchPending picks idle) := by
  induction idle generalizing s with
  | zero =>
    rw [dispatchPending]
    split
    · exact s.leads_step _
    · exact ((s.leads_step _).trans (leads_step _ _)).trans (leads_step _ _)
  | succ idle ih =>
    rw [dispatchPending]
    split
    · exact s.leads_step _
    · exact (s.leads_step _).trans (ih _)

theorem leads_handlePromptResult (s : Custody) (i : ℕ) (outcome : TurnOutcome) :
    s.Leads (s.handlePromptResult i outcome) := by
  rw [handlePromptResult]
  split
  · exact ⟨[], rfl⟩
  · exact (s.leads_step _).trans (leads_step _ _)

end Custody

end Buzz.Acp
