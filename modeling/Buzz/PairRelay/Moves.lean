import Buzz.PairRelay.Server

namespace Buzz.PairRelay

open Buzz.Lib Buzz.Nostr

/-- The server less its channels and rate windows. -/
structure View where
  relay : Relay
  stages : List Stage
  subIds : List (Option String)
  rejecting : ℕ
  clock : ℕ
  deliveries : List Delivery

def View.setStage (v : View) (c : ℕ) (stage : Stage) : View :=
  { v with stages := v.stages.set c stage }

namespace Server

def stages (s : Server) : List Stage := s.conns.map Conn.stage

def subIds (s : Server) : List (Option String) := s.conns.map Conn.subId

def view (s : Server) : View :=
  ⟨s.relay, s.stages, s.subIds, s.rejecting, s.clock, s.deliveries⟩

variable (s : Server) (c : ℕ)

theorem stageOf_eq : s.stageOf c = s.stages[c]? := by
  rw [stageOf, stages, List.getElem?_map]

theorem map_modify {α β : Type} (g : α → β) (f : α → α) (f' : β → β) (h : ∀ a, g (f a) = f' (g a))
    (l : List α) : (l.modify c f).map g = (l.map g).modify c f' := by
  apply List.ext_getElem?
  intro i
  rw [List.getElem?_map, List.getElem?_modify, List.getElem?_modify, List.getElem?_map]
  cases l[i]? with
  | none => simp
  | some a =>
    by_cases hi : c = i
    · simp [hi, h]
    · simp [hi]

theorem modify_const {α : Type} (a : α) (l : List α) : (l.modify c fun _ ↦ a) = l.set c a := by
  apply List.ext_getElem?
  intro i
  rw [List.getElem?_modify, List.getElem?_set]
  by_cases hi : c = i
  · subst hi
    by_cases hlt : c < l.length
    · simp [hlt]
    · simp [hlt]
  · simp [hi]

theorem modify_id {α : Type} (l : List α) : l.modify c id = l := by
  apply List.ext_getElem?
  intro i
  rw [List.getElem?_modify]
  by_cases hi : c = i
  · simp [hi]
  · simp [hi]

theorem view_modify {f : Conn → Conn} (hstage : ∀ conn, (f conn).stage = conn.stage)
    (hsub : ∀ conn, (f conn).subId = conn.subId) : (s.modify c f).view = s.view := by
  have hstages : (s.modify c f).stages = s.stages := by
    rw [stages, stages, modify, map_modify c Conn.stage f id hstage, modify_id]
  have hsubs : (s.modify c f).subIds = s.subIds := by
    rw [subIds, subIds, modify, map_modify c Conn.subId f id hsub, modify_id]
  simp only [view, hstages, hsubs]
  rfl

theorem view_send (m : OutMsg) : (s.send c m).view = s.view :=
  view_modify s c (fun _ ↦ rfl) fun _ ↦ rfl

theorem view_reply (json : Json) : (s.reply c json).view = s.view := view_send s c _

theorem view_modify_stage {f : Conn → Conn} {stage : Stage}
    (hstage : ∀ conn, (f conn).stage = stage) (hsub : ∀ conn, (f conn).subId = conn.subId) :
    (s.modify c f).view = s.view.setStage c stage := by
  have hstages : (s.modify c f).stages = s.stages.set c stage := by
    rw [stages, stages, modify, map_modify c Conn.stage f (fun _ ↦ stage) hstage, modify_const]
  have hsubs : (s.modify c f).subIds = s.subIds := by
    rw [subIds, subIds, modify, map_modify c Conn.subId f id hsub, modify_id]
  simp only [view, hstages, hsubs]
  rfl

theorem view_setStage (stage : Stage) :
    (s.setStage c stage).view = s.view.setStage c stage :=
  view_modify_stage s c (fun _ ↦ rfl) fun _ ↦ rfl

theorem view_modify_sub {f : Conn → Conn} {subId : Option String}
    (hstage : ∀ conn, (f conn).stage = conn.stage) (hsub : ∀ conn, (f conn).subId = subId) :
    (s.modify c f).view = { s.view with subIds := s.subIds.set c subId } := by
  have hstages : (s.modify c f).stages = s.stages := by
    rw [stages, stages, modify, map_modify c Conn.stage f id hstage, modify_id]
  have hsubs : (s.modify c f).subIds = s.subIds.set c subId := by
    rw [subIds, subIds, modify, map_modify c Conn.subId f (fun _ ↦ subId) hsub, modify_const]
  simp only [view, hstages, hsubs]
  rfl

end Server

def Frame.submitted : Frame → Option Json
  | .text t =>
    match Json.parse t with
    | some (.arr [_, ev]) => some ev
    | _ => none
  | _ => none

/-- An event that has passed the checks on a second of the wall clock. -/
structure Pending.Accepted (crypto : Crypto) (wallSecs : ℤ) (p : Pending) : Prop where
  valid : validateEvent wallSecs p.event = .ok (p.eventId, p.id, p.pValue)
  signed : verifyEventSig crypto p.event = .ok ()

inductive Framed (crypto : Crypto) (wallSecs : ℤ) (c : ℕ) (frame : Frame) (v : View) : View → Prop
  | quiet : Framed crypto wallSecs c frame v v
  | leave : Framed crypto wallSecs c frame v (v.setStage c .leaving)
  | verified (p : Pending) : p.Accepted crypto wallSecs → frame.submitted = some p.event →
      Framed crypto wallSecs c frame v (v.setStage c (.verified p))
  | subscribed (subId : String) (p : PublicKey) : v.subIds[c]? = some none →
      (∀ sub ∈ v.relay.subs, sub.pValue ≠ p) →
      Framed crypto wallSecs c frame v { v with
        subIds := v.subIds.set c (some subId)
        relay := { v.relay with subs := v.relay.subs ++ [⟨c, subId, p⟩] } }
  | unsubscribed : Framed crypto wallSecs c frame v { v with
      subIds := v.subIds.set c none
      relay := v.relay.removeSub c }

section Frames

variable {crypto : Crypto} {wallSecs : ℤ} {c : ℕ} {frame : Frame} {s : Server} {conn : Conn}
  {v v' : View}

theorem Framed.of_quiet (h : v' = v) : Framed crypto wallSecs c frame v v' := h ▸ .quiet

theorem Framed.reply (json : Json) : Framed crypto wallSecs c frame s.view (s.reply c json).view :=
  .of_quiet (s.view_reply c json)

theorem Framed.setLeaving : Framed crypto wallSecs c frame s.view (s.setStage c .leaving).view := by
  rw [s.view_setStage]
  exact .leave

theorem Framed.of_subscribed {f : Conn → Conn} {subId : String} {p : PublicKey}
    (hstage : ∀ conn, (f conn).stage = conn.stage) (hsub : ∀ conn, (f conn).subId = some subId)
    (hnone : s.subIds[c]? = some none) (hfresh : ∀ sub ∈ s.relay.subs, sub.pValue ≠ p) :
    Framed crypto wallSecs c frame s.view ({ s.modify c f with
      relay := { s.relay with subs := s.relay.subs ++ [⟨c, subId, p⟩] } } : Server).view := by
  have hview : ({ s.modify c f with
      relay := { s.relay with subs := s.relay.subs ++ [⟨c, subId, p⟩] } } : Server).view =
      { (s.modify c f).view with
        relay := { s.relay with subs := s.relay.subs ++ [⟨c, subId, p⟩] } } := rfl
  rw [hview, s.view_modify_sub c hstage hsub]
  exact .subscribed subId p hnone hfresh

theorem Framed.of_unsubscribed {f : Conn → Conn} (hstage : ∀ conn, (f conn).stage = conn.stage)
    (hsub : ∀ conn, (f conn).subId = none) :
    Framed crypto wallSecs c frame s.view
      ({ s.modify c f with relay := s.relay.removeSub c } : Server).view := by
  have hview : ({ s.modify c f with relay := s.relay.removeSub c } : Server).view =
      { (s.modify c f).view with relay := s.relay.removeSub c } := rfl
  rw [hview, s.view_modify_sub c hstage hsub]
  exact .unsubscribed

theorem Framed.of_verified {f : Conn → Conn} {p : Pending}
    (hstage : ∀ conn, (f conn).stage = .verified p) (hsub : ∀ conn, (f conn).subId = conn.subId)
    (haccepted : p.Accepted crypto wallSecs) (hframe : frame.submitted = some p.event) :
    Framed crypto wallSecs c frame s.view (s.modify c f).view := by
  rw [s.view_modify_stage c hstage hsub]
  exact .verified p haccepted hframe

theorem framed_req (hconn : s.subIds[c]? = some conn.subId) (arr : List Json) :
    Framed crypto wallSecs c frame s.view (s.handleReq c conn arr).view := by
  unfold Server.handleReq
  split
  · exact .reply _
  split
  · exact .reply _
  split
  · exact .reply _
  split
  · exact .reply _
  split
  · exact .reply _
  split
  · exact .reply _
  case isFalse hsub =>
    split
    · exact .reply _
    split
    · exact .reply _
    case isFalse hany =>
      split
      · exact .setLeaving
      · refine Framed.of_subscribed ?_ ?_ ?_ ?_
        · exact fun _ ↦ rfl
        · exact fun _ ↦ rfl
        · rw [Bool.not_eq_true, Option.isSome_eq_false_iff, Option.isNone_iff_eq_none] at hsub
          rw [hconn, hsub]
        · intro sub hmem heq
          exact hany (List.any_eq_true.mpr ⟨sub, hmem, decide_eq_true heq⟩)

theorem framed_close (arr : List Json) :
    Framed crypto wallSecs c frame s.view (s.handleClose c conn arr).view := by
  unfold Server.handleClose
  split
  · split
    · refine Framed.of_unsubscribed ?_ ?_
      · exact fun _ ↦ rfl
      · exact fun _ ↦ rfl
    · exact .quiet
  · exact .reply _

theorem framed_event {verb ev : Json} {now : ℕ} (hframe : frame.submitted = some ev) :
    Framed crypto wallSecs c frame s.view
      (s.handleEvent crypto wallSecs c conn [verb, ev] now).view := by
  have hrate : ∀ eventRate, (s.modify c fun conn ↦ { conn with eventRate }).view = s.view :=
    fun _ ↦ s.view_modify c (fun _ ↦ rfl) fun _ ↦ rfl
  simp only [Server.handleEvent]
  rw [← hrate (conn.eventRate.tick now).2]
  split
  · exact .reply _
  split
  · exact .reply _
  split
  · exact .reply _
  split
  · exact .reply _
  case h_2 eventId id pValue hvalid =>
    split
    · exact .reply _
    case h_2 hsig =>
      refine Framed.of_verified (p := ⟨ev, eventId, id, pValue⟩) ?_ ?_ ⟨hvalid, hsig⟩ hframe
      · exact fun _ ↦ rfl
      · exact fun _ ↦ rfl

theorem framed_text (hconn : s.subIds[c]? = some conn.subId) (t : String) (now : ℕ) :
    Framed crypto wallSecs c (.text t) s.view
      (s.handleText crypto wallSecs c conn t now).view := by
  unfold Server.handleText
  split
  case h_1 verb rest hparse =>
    dsimp only
    split
    · exact framed_req hconn _
    split
    · match rest, hparse with
      | [ev], hparse =>
        apply framed_event
        rw [Frame.submitted, hparse]
      | [], _ => exact .reply _
      | _ :: _ :: _, _ => exact .reply _
    split
    · exact framed_close _
    · exact .reply _
  · exact .reply _

theorem framed_frame (hconn : s.subIds[c]? = some conn.subId) (now : ℕ) :
    Framed crypto wallSecs c frame s.view
      (s.handleFrame crypto wallSecs c conn frame now).view := by
  have hrate : ∀ msgRate, (s.modify c fun conn ↦ { conn with msgRate }).view = s.view :=
    fun _ ↦ s.view_modify c (fun _ ↦ rfl) fun _ ↦ rfl
  simp only [Server.handleFrame]
  rw [← hrate (conn.msgRate.tick now).2]
  split
  · exact .setLeaving
  split
  · exact .setLeaving
  · exact .setLeaving
  · split
    · exact .setLeaving
    · exact .of_quiet (Server.view_send _ c _)
  · exact .quiet
  · rw [← Server.view_send _ c .close]
    exact .setLeaving
  · apply framed_text
    rw [← hconn]
    exact congrArg (fun v ↦ v.subIds[c]?) (hrate _)

end Frames

namespace View

def evicted (v : View) (now : ℕ) : Map PublicKey (ℕ × ℕ) :=
  Map.keepEntries (fun _ e ↦ now - e.2 < entryTtl) v.relay.delivered

/-- How many deliveries of its budget a recipient has had. -/
def spent (v : View) (now : ℕ) (p : PublicKey) : ℕ :=
  (((v.evicted now).lookup p).map Prod.fst).getD 0

end View

inductive Moved (setup : Setup) (v : View) : Op → View → Prop
  | refused : maxConns ≤ v.relay.connCount → Moved setup v .request { v with
      relay := { v.relay with connCount := v.relay.connCount + 1 }
      rejecting := v.rejecting + 1 }
  | admitted : v.relay.connCount < maxConns → Moved setup v .request { v with
      relay := { v.relay with
        connCount := v.relay.connCount + 1, nextConnId := v.relay.nextConnId + 1 }
      stages := v.stages ++ [.upgrading]
      subIds := v.subIds ++ [none] }
  | rejected : 0 < v.rejecting → Moved setup v .reject { v with
      relay := { v.relay with connCount := v.relay.connCount - 1 }
      rejecting := v.rejecting - 1 }
  | upgraded (c now : ℕ) : v.stages[c]? = some .upgrading → v.clock ≤ now →
      Moved setup v (.upgraded c now) { v.setStage c .reading with clock := now }
  | uncounted (op : Op) (c : ℕ) (stage : Stage) : v.stages[c]? = some stage →
      stage = .upgrading ∨ stage = .uncounted → Moved setup v op { v.setStage c .closed with
        relay := { v.relay with connCount := v.relay.connCount - 1 } }
  | framed (c : ℕ) (frame : Frame) (now : ℕ) {v' : View} : v.stages[c]? = some .reading →
      v.clock ≤ now → Framed setup.crypto (setup.wallSecs now) c frame v v' →
      Moved setup v (.frame c frame now) { v' with clock := now }
  | notReserved (c now stamp : ℕ) (p : Pending) : v.stages[c]? = some (.verified p) →
      v.clock ≤ now → now ≤ stamp → (v.relay.reserveId p.id now stamp).1 ≠ .ok false →
      Moved setup v (.reserve c now stamp) { v.setStage c .reading with
          relay := (v.relay.reserveId p.id now stamp).2, clock := stamp }
  | reserved (c now stamp : ℕ) (p : Pending) : v.stages[c]? = some (.verified p) →
      v.clock ≤ now → now ≤ stamp → (v.relay.reserveId p.id now stamp).1 = .ok false →
      Moved setup v (.reserve c now stamp) { v.setStage c (.reserved p) with
        relay := (v.relay.reserveId p.id now stamp).2, clock := stamp }
  | delivered (c now stamp : ℕ) (p : Pending) (sub : Sub) : v.stages[c]? = some (.reserved p) →
      v.clock ≤ now → now ≤ stamp → v.relay.matching p.pValue = [sub] →
      v.spent now p.pValue < maxDeliveredPerP →
      Moved setup v (.deliver c now stamp) { v.setStage c .reading with
        relay := { v.relay with
          delivered := (v.evicted now).insert p.pValue (v.spent now p.pValue + 1, stamp) }
        clock := stamp
        deliveries := ⟨p, sub.connId, sub.subId, stamp⟩ :: v.deliveries }
  | undelivered (c now stamp : ℕ) (p : Pending) (reason : String)
      (delivered : Map PublicKey (ℕ × ℕ)) : v.stages[c]? = some (.reserved p) → v.clock ≤ now →
      now ≤ stamp → delivered = v.relay.delivered ∨ delivered = v.evicted now →
      Moved setup v (.deliver c now stamp) { v.setStage c (.undelivered p reason) with
        relay := { v.relay with delivered }, clock := stamp }
  | unreserved (c : ℕ) (p : Pending) (reason : String) :
      v.stages[c]? = some (.undelivered p reason) → Moved setup v (.unreserve c)
        { v.setStage c .reading with relay := v.relay.unreserveId p.id }
  | stopped (c : ℕ) : v.stages[c]? = some .reading → Moved setup v (.stop c) (v.setStage c .leaving)
  | removedSub (op : Op) (c : ℕ) (stage stage' : Stage) : v.stages[c]? = some stage →
      (stage = .leaving ∧ stage' = .draining) ∨
        ((stage = .reading ∨ stage = .draining) ∧ stage' = .uncounted) →
      Moved setup v op { v.setStage c stage' with relay := v.relay.removeSub c }
  | channel (op : Op) : Moved setup v op v

section Step

variable {setup : Setup} {s s' : Server} {op : Op} {c now stamp : ℕ} {p : Pending}

theorem moved_request (h : step setup s .request = some s') :
    Moved setup s.view .request s'.view := by
  simp only [step] at h
  split at h
  case isTrue hfull =>
    cases h
    exact .refused hfull
  case isFalse hroom =>
    cases h
    have hadmitted := @Moved.admitted setup s.view (Nat.lt_of_not_le hroom)
    have hstages : s.view.stages ++ [.upgrading] = (s.conns ++ [({} : Conn)]).map Conn.stage := by
      rw [List.map_append]
      rfl
    have hsubs : s.view.subIds ++ [none] = (s.conns ++ [({} : Conn)]).map Conn.subId := by
      rw [List.map_append]
      rfl
    rw [hstages, hsubs] at hadmitted
    exact hadmitted

theorem moved_upgraded (h : step setup s (.upgraded c now) = some s') :
    Moved setup s.view (.upgraded c now) s'.view := by
  simp only [step] at h
  split at h
  case h_1 hstage =>
    split at h
    case isTrue hnow =>
      cases h
      rw [s.stageOf_eq] at hstage
      have hview : (s.modify c fun conn ↦ { conn with
          stage := .reading, msgRate := .start now, eventRate := .start now }).view =
          s.view.setStage c .reading := s.view_modify_stage c (fun _ ↦ rfl) fun _ ↦ rfl
      have hmoved := @Moved.upgraded setup s.view c now hstage hnow
      rw [← hview] at hmoved
      exact hmoved
    · cases h
  · cases h

theorem moved_frame {frame : Frame} (h : step setup s (.frame c frame now) = some s') :
    Moved setup s.view (.frame c frame now) s'.view := by
  simp only [step] at h
  split at h
  case h_1 conn hconn =>
    split at h
    case h_1 hstage =>
      split at h
      case isTrue hnow =>
        cases h
        have hreading : s.stages[c]? = some .reading := by
          rw [Server.stages, List.getElem?_map, hconn, Option.map_some, hstage]
        have hsub : s.subIds[c]? = some conn.subId := by
          rw [Server.subIds, List.getElem?_map, hconn, Option.map_some]
        exact .framed c frame now hreading hnow (framed_frame hsub now)
      · cases h
    · cases h
  · cases h

theorem moved_reserve (h : step setup s (.reserve c now stamp) = some s') :
    Moved setup s.view (.reserve c now stamp) s'.view := by
  simp only [step] at h
  split at h
  case h_1 p hstage =>
    rw [s.stageOf_eq] at hstage
    split at h
    case isTrue hnow =>
      have hnot := @Moved.notReserved setup s.view c now stamp p hstage hnow.1 hnow.2
      split at h
      case h_1 hduplicate =>
        cases h
        rw [Server.view_setStage, Server.view_reply]
        exact hnot fun hok ↦ nomatch hduplicate.symm.trans hok
      case h_2 hfull =>
        cases h
        rw [Server.view_setStage, Server.view_reply]
        exact hnot fun hok ↦ nomatch hfull.symm.trans hok
      case h_3 hok =>
        cases h
        rw [Server.view_setStage]
        exact .reserved c now stamp p hstage hnow.1 hnow.2 hok
    · cases h
  · cases h

theorem moved_unreserve (h : step setup s (.unreserve c) = some s') :
    Moved setup s.view (.unreserve c) s'.view := by
  simp only [step] at h
  split at h
  case h_1 p reason hstage =>
    rw [s.stageOf_eq] at hstage
    cases h
    rw [Server.view_setStage, Server.view_reply]
    exact .unreserved c p reason hstage
  · cases h

theorem deliverSingle_cases (s : Server) (p : Pending) (now stamp : ℕ) :
    (∃ sub channel, s.relay.matching p.pValue = [sub] ∧
      s.view.spent now p.pValue < maxDeliveredPerP ∧
      s.accepts sub.connId (.text (makeEvent sub.subId p.event)) = some channel ∧
      s.deliverSingle p now stamp = (.ok true,
        { s.modify sub.connId (fun conn ↦ { conn with channel }) with
          relay := { s.relay with delivered :=
            (s.view.evicted now).insert p.pValue (s.view.spent now p.pValue + 1, stamp) }
          deliveries := ⟨p, sub.connId, sub.subId, stamp⟩ :: s.deliveries })) ∨
    ∃ answer delivered,
      s.deliverSingle p now stamp = (answer, { s with relay := { s.relay with delivered } }) ∧
      answer ≠ .ok true ∧ (delivered = s.relay.delivered ∨ delivered = s.view.evicted now) := by
  unfold Server.deliverSingle
  split
  · exact .inr ⟨_, s.relay.delivered, rfl, nofun, .inl rfl⟩
  · exact .inr ⟨_, s.relay.delivered, rfl, nofun, .inl rfl⟩
  case h_3 sub hmatching =>
    dsimp only
    split
    · exact .inr ⟨_, s.view.evicted now, rfl, nofun, .inr rfl⟩
    case isFalse hspent =>
      split
      · exact .inr ⟨_, s.view.evicted now, rfl, nofun, .inr rfl⟩
      split
      · exact .inr ⟨_, s.view.evicted now, rfl, nofun, .inr rfl⟩
      case h_2 channel hchannel =>
        exact .inl ⟨sub, channel, hmatching, Nat.lt_of_not_le hspent, hchannel, rfl⟩

theorem moved_deliver (h : step setup s (.deliver c now stamp) = some s') :
    Moved setup s.view (.deliver c now stamp) s'.view := by
  simp only [step] at h
  split at h
  case h_1 p hstage =>
    rw [s.stageOf_eq] at hstage
    split at h
    case isTrue hnow =>
      rcases deliverSingle_cases s p now stamp with
        ⟨sub, channel, hmatching, hspent, -, hres⟩ | ⟨answer, delivered, hres, hanswer, hdelivered⟩
      · rw [hres] at h
        cases h
        have hview : (s.modify sub.connId fun conn ↦ { conn with channel }).view = s.view :=
          s.view_modify sub.connId (fun _ ↦ rfl) fun _ ↦ rfl
        have hmoved := @Moved.delivered setup s.view c now stamp p sub hstage hnow.1 hnow.2
          hmatching hspent
        rw [Server.view_setStage, Server.view_reply]
        rw [← hview] at hmoved ⊢
        exact hmoved
      · have hmoved (reason : String) : Moved setup s.view (.deliver c now stamp)
            { s.view.setStage c (.undelivered p reason) with
              relay := { s.relay with delivered }, clock := stamp } :=
          .undelivered c now stamp p reason delivered hstage hnow.1 hnow.2 hdelivered
        rw [hres] at h
        dsimp only at h
        split at h
        · exact (hanswer rfl).elim
        · cases h
          rw [Server.view_setStage]
          exact hmoved _
        · cases h
          rw [Server.view_setStage]
          exact hmoved _
    · cases h
  · cases h

theorem Moved.of_channel {f : Conn → Conn} (hstage : ∀ conn, (f conn).stage = conn.stage)
    (hsub : ∀ conn, (f conn).subId = conn.subId) : Moved setup s.view op (s.modify c f).view := by
  rw [s.view_modify c hstage hsub]
  exact .channel op

theorem moved_of_step (h : step setup s op = some s') : Moved setup s.view op s'.view := by
  cases op with
  | request => exact moved_request h
  | reject =>
    simp only [step] at h
    split at h
    · cases h
      exact .rejected ‹_›
    · cases h
  | upgraded c now => exact moved_upgraded h
  | upgradeFailed c =>
    simp only [step] at h
    split at h
    case h_1 hstage =>
      cases h
      rw [s.stageOf_eq] at hstage
      have hmoved := @Moved.uncounted setup s.view (.upgradeFailed c) c _ hstage
        (.inl rfl)
      rw [← s.view_setStage] at hmoved
      exact hmoved
    · cases h
  | frame c frame now => exact moved_frame h
  | reserve c now stamp => exact moved_reserve h
  | deliver c now stamp => exact moved_deliver h
  | unreserve c => exact moved_unreserve h
  | stop c =>
    simp only [step] at h
    split at h
    case h_1 hstage =>
      cases h
      rw [s.stageOf_eq] at hstage
      rw [Server.view_setStage]
      exact .stopped c hstage
    · cases h
  | removeSub c =>
    simp only [step] at h
    split at h
    case h_1 hstage =>
      cases h
      rw [s.stageOf_eq] at hstage
      rw [Server.view_setStage, Server.view_send]
      exact .removedSub _ c _ _ hstage (.inl ⟨rfl, rfl⟩)
    · cases h
  | dropSub c =>
    simp only [step] at h
    split at h
    case h_1 hstage =>
      cases h
      rw [s.stageOf_eq] at hstage
      rw [Server.view_setStage]
      exact .removedSub _ c _ _ hstage (.inr ⟨.inl rfl, rfl⟩)
    case h_2 hstage =>
      cases h
      rw [s.stageOf_eq] at hstage
      rw [Server.view_setStage]
      exact .removedSub _ c _ _ hstage (.inr ⟨.inr rfl, rfl⟩)
    · cases h
  | dropCount c =>
    simp only [step] at h
    split at h
    case h_1 hstage =>
      cases h
      rw [s.stageOf_eq] at hstage
      have hmoved := @Moved.uncounted setup s.view (.dropCount c) c _ hstage
        (.inr rfl)
      rw [← s.view_setStage] at hmoved
      exact hmoved
    · cases h
  | written c =>
    cases h
    refine Moved.of_channel ?_ ?_
    · exact fun _ ↦ rfl
    · exact fun _ ↦ rfl
  | writerGone c =>
    cases h
    refine Moved.of_channel ?_ ?_
    · exact fun _ ↦ rfl
    · exact fun _ ↦ rfl

end Step

end Buzz.PairRelay
