import Buzz.Audio.OwnerControl

namespace Buzz.Audio

open Buzz.Lib Buzz.Nostr Buzz.Relay.Tunnel

namespace Phase

def outgoing : Phase → List HuddleControlMsg
  | .forwarding msg => [msg]
  | _ => []

/-- The receiver of a registration that is under way. -/
def rx? : Phase → Option RosterRx
  | .validating _ _ rx | .admitted _ _ rx | .replying _ rx => some rx
  | _ => none

end Phase

namespace ControlLoop

variable {s s' : ControlLoop} {event : ControlEvent} {rx : RosterRx} {w : World}

def Steady (s : ControlLoop) : ControlEvent → Prop
  | .received (.data _ (some (.registerPeer ..))) _ => s.streamCommunity = none
  | .captured => ∀ rx id, s.rosterRx = some rx → s.phase = .capturing →
      s.roomId = some (some id) → id = rx.room
  | _ => True

def tx (s : ControlLoop) (rx : RosterRx) : List RosterDelta := (s.world.room rx.room).rosterTx

/-- The stream has told its client the roster, and its receiver has passed nothing that the client
does not have, unless a snapshot is about to follow. -/
def Subscribed (s : ControlLoop) (rx : RosterRx) : Prop :=
  ∃ pubkey i snapshot later a b, s.sent = .peerRegistered pubkey i snapshot :: later ∧
    snapshot.view = viewAt (s.tx rx) a ∧ a ≤ (s.tx rx).length ∧
    Carries (s.tx rx) a (later ++ s.phase.outgoing) b ∧
    (s.phase = .serving ∨ s.phase.outgoing ≠ [] → rx.pos ≤ b)

structure Streams (s : ControlLoop) : Prop where
  logged : ∀ id, (s.world.room id).Logged
  unlatched : s.streamCommunity = none →
    s.sent = [] ∧ s.rosterRx = none ∧ s.phase.rx? = none ∧ s.phase.outgoing = []
  registering : ∀ rx, s.phase.rx? = some rx → s.sent = [] ∧ s.rosterRx = none
  passed : ∀ rx, s.phase.rx? = some rx ∨ s.rosterRx = some rx →
    rx.room < s.world.next ∧ rx.pos ≤ (s.tx rx).length
  reply : ∀ pubkey i snapshot rx, s.phase = .replying (.peerRegistered pubkey i snapshot) rx →
    ∃ a, rx.pos ≤ a ∧ a ≤ (s.tx rx).length ∧ snapshot.view = viewAt (s.tx rx) a
  unsubscribed : s.rosterRx = none → ∀ msg ∈ s.sent ++ s.phase.outgoing,
    ∀ pubkey i snapshot, msg ≠ .peerRegistered pubkey i snapshot
  subscribed : ∀ rx, s.rosterRx = some rx → s.Subscribed rx

theorem streams_start {conn : ℕ} {fenced : FencedHeader} {localRuntimeId : RuntimeId} :
    (start conn fenced localRuntimeId).Streams where
  logged _ := Room.logged_new 0 0
  unlatched _ := ⟨rfl, rfl, rfl, rfl⟩
  registering _ h := by cases h
  passed _ h := by rcases h with h | h <;> cases h
  reply _ _ _ _ h := by cases h
  unsubscribed _ _ h := by cases h
  subscribed _ h := by cases h

theorem Streams.of_eq (hs : s.Streams)
    (h : (s'.world, s'.streamCommunity, s'.rosterRx, s'.phase, s'.sent) =
      (s.world, s.streamCommunity, s.rosterRx, s.phase, s.sent)) : s'.Streams := by
  obtain ⟨w, conn, fenced, localRuntimeId, registered, c, rosterRx, reason, phase, sent, _, _⟩ := s'
  simp only [Prod.mk.injEq] at h
  obtain ⟨rfl, rfl, rfl, rfl, rfl⟩ := h
  exact ⟨hs.logged, hs.unlatched, hs.registering, hs.passed, hs.reply, hs.unsubscribed,
    hs.subscribed⟩

/-- The rooms move on. -/
theorem Streams.world (hs : s.Streams) (hinv : s.world.Inv) (hrecords : s.world.Records w) :
    Streams { s with world := w } where
  logged := hrecords.logged hinv hs.logged
  unlatched := hs.unlatched
  registering := hs.registering
  passed rx hrx := by
    obtain ⟨hroom, hpos⟩ := hs.passed rx hrx
    exact ⟨hroom.trans_le hrecords.1, hpos.trans (hrecords.appends hroom).length_le⟩
  reply pubkey i snapshot rx hphase := by
    obtain ⟨a, hpos, ha, hview⟩ := hs.reply pubkey i snapshot rx hphase
    have hrx : s.phase.rx? = some rx := by
      rw [hphase]
      rfl
    have htx := hrecords.appends (hs.passed rx (.inl hrx)).1
    exact ⟨a, hpos, ha.trans htx.length_le, by rw [hview]; exact (viewAt_extend htx ha).symm⟩
  unsubscribed := hs.unsubscribed
  subscribed rx hrx := by
    obtain ⟨pubkey, i, snapshot, later, a, b, hsent, hview, ha, hcarries, hpos⟩ :=
      hs.subscribed rx hrx
    have htx := hrecords.appends (hs.passed rx (.inr hrx)).1
    refine ⟨pubkey, i, snapshot, later, a, b, hsent, ?_, ha.trans htx.length_le, hcarries.extend htx,
      hpos⟩
    rw [hview]
    exact (viewAt_extend htx ha).symm

/-- The loop goes where it has nothing to send. -/
theorem Streams.rest (hs : s.Streams) {phase : Phase} (hrx : phase.rx? = none)
    (hout : phase.outgoing = []) (hserving : phase = .serving → s.phase = .serving) :
    Streams { s with phase := phase } where
  logged := hs.logged
  unlatched hc := ⟨(hs.unlatched hc).1, (hs.unlatched hc).2.1, hrx, hout⟩
  registering rx h := by cases hrx.symm.trans h
  passed rx h := hs.passed rx (.inr (h.resolve_left fun h ↦ (by cases hrx.symm.trans h)))
  reply pubkey i snapshot rx h := by
    dsimp only at h
    rw [h] at hrx
    cases hrx
  unsubscribed hnone msg hmsg := by
    dsimp only at hmsg
    rw [hout, List.append_nil] at hmsg
    exact hs.unsubscribed hnone msg (List.mem_append_left _ hmsg)
  subscribed rx h := by
    obtain ⟨pubkey, i, snapshot, later, a, b, hsent, hview, ha, hcarries, hpos⟩ :=
      hs.subscribed rx h
    by_cases hphase : phase = .serving
    · have hsame : s.phase.outgoing = [] := by
        rw [hserving hphase]
        rfl
      rw [hsame] at hcarries
      refine ⟨pubkey, i, snapshot, later, a, b, hsent, hview, ha, ?_, fun _ ↦
        hpos (.inl (hserving hphase))⟩
      dsimp only
      rw [hout]
      exact hcarries
    · obtain ⟨b', hcarries'⟩ := hcarries.of_append
      refine ⟨pubkey, i, snapshot, later, a, b', hsent, hview, ha, ?_, fun hwaits ↦ ?_⟩
      · dsimp only
        rw [hout, List.append_nil]
        exact hcarries'
      · rcases hwaits with hwaits | hwaits
        · exact absurd hwaits hphase
        · exact absurd hout hwaits

theorem Streams.close (hs : s.Streams) (result : Except ControlError Unit) :
    (s.close result).Streams := hs.rest rfl rfl fun h ↦ (by cases h)

theorem Streams.latch (hs : s.Streams) (c : CommunityId) :
    Streams { s with streamCommunity := some c } where
  logged := hs.logged
  unlatched h := by cases h
  registering := hs.registering
  passed := hs.passed
  reply := hs.reply
  unsubscribed := hs.unsubscribed
  subscribed := hs.subscribed

/-- A registration goes on. -/
theorem Streams.register (hs : s.Streams) (phase : Phase) (hrx : s.phase.rx? = some rx)
    (hrx' : phase.rx? = some rx) (hout : phase.outgoing = [])
    (hreply : ∀ pubkey i snapshot rx, phase = .replying (.peerRegistered pubkey i snapshot) rx →
      ∃ a, rx.pos ≤ a ∧ a ≤ (s.tx rx).length ∧ snapshot.view = viewAt (s.tx rx) a) :
    Streams { s with phase := phase } where
  logged := hs.logged
  unlatched hc := by cases hrx.symm.trans (hs.unlatched hc).2.2.1
  registering _ _ := hs.registering rx hrx
  passed rx' h := by
    have hnone := (hs.registering rx hrx).2
    refine hs.passed rx' (.inl ?_)
    rcases h with h | h
    · rw [hrx, ← h, hrx']
    · cases hnone.symm.trans h
  reply := hreply
  unsubscribed hnone msg hmsg := by
    dsimp only at hmsg
    rw [hout, List.append_nil] at hmsg
    exact hs.unsubscribed hnone msg (List.mem_append_left _ hmsg)
  subscribed rx' h := by cases (hs.registering rx hrx).2.symm.trans h

theorem Streams.rosterRecv (hs : s.Streams) (hserving : s.phase = .serving)
    (hrx : s.rosterRx = some rx) {received : Except RecvError RosterDelta} {rx' : RosterRx}
    (hrecv : rx.recv s.world = some (received, rx')) :
    ({ s with rosterRx := some rx' }.onRosterEvent received).Streams := by
  have hlatched : s.streamCommunity ≠ none := fun hc ↦
    (by cases hrx.symm.trans (hs.unlatched hc).2.1)
  obtain ⟨hroom, hlen⟩ := hs.passed rx (.inr hrx)
  obtain ⟨pubkey, i, snapshot, later, a, b, hsent, hview, ha, hcarries, hpos⟩ :=
    hs.subscribed rx hrx
  have hcarries : Carries (s.tx rx) a (later ++ []) b := by
    rw [hserving] at hcarries
    exact hcarries
  have hpos := hpos (.inl hserving)
  have hb := hcarries.le_length ha
  rw [RosterRx.recv] at hrecv
  split at hrecv
  · next hlag =>
    cases hrecv
    refine ⟨hs.logged, fun hc ↦ absurd hc hlatched, fun _ h ↦ (by cases h), fun rx'' h ↦ ?_,
      fun _ _ _ _ h ↦ (by cases h), fun h ↦ (by cases h), fun rx'' h ↦ ?_⟩
    · cases h.resolve_left fun h ↦ (by cases h)
      exact ⟨hroom, Nat.sub_le _ _⟩
    · cases h
      exact ⟨pubkey, i, snapshot, later, a, b, hsent, hview, ha, hcarries,
        fun h ↦ h.elim (fun h ↦ (by cases h)) fun h ↦ absurd rfl h⟩
  · next hkept =>
    obtain ⟨delta, hdelta, heq⟩ := Option.map_eq_some_iff.mp hrecv
    cases heq
    have hdelta : (s.tx rx)[rx.pos]? = some delta := hdelta
    have hkept : (s.tx rx).length ≤ rx.pos + ROSTER_CAPACITY := by
      change ¬ROSTER_CAPACITY < (s.tx rx).length - rx.pos at hkept
      omega
    rw [List.append_nil] at hcarries
    have hsends : ∃ b', Carries (s.tx rx) a (later ++ [.rosterDelta delta]) b' ∧ rx.pos + 1 ≤ b' := by
      rcases Nat.eq_or_lt_of_le hpos with heq | hlt
      · exact ⟨b + 1, hcarries.next (heq ▸ hdelta), Nat.succ_le_succ hpos⟩
      · exact ⟨b, hcarries.stale hdelta hlt (hb.trans hkept), hlt⟩
    obtain ⟨b', hcarries', hpos'⟩ := hsends
    refine ⟨hs.logged, fun hc ↦ absurd hc hlatched, fun _ h ↦ (by cases h), fun rx'' h ↦ ?_,
      fun _ _ _ _ h ↦ (by cases h), fun h ↦ (by cases h), fun rx'' h ↦ ?_⟩
    · cases h.resolve_left fun h ↦ (by cases h)
      exact ⟨hroom, (List.getElem?_eq_some_iff.mp hdelta).1⟩
    · cases h
      exact ⟨pubkey, i, snapshot, later, a, b', hsent, hview, ha, hcarries', fun _ ↦ hpos'⟩

/-- A snapshot brings the client up to date, whatever the receiver has passed. -/
theorem Streams.capture (hs : s.Streams) (hbase : s.Base) (hphase : s.phase = .capturing) {id : ℕ}
    (hroom : s.roomId = some (some id)) (hhome : ∀ rx, s.rosterRx = some rx → id = rx.room) :
    Streams { s with phase := .forwarding (s.rosterSnapshotMsg id) } where
  logged := hs.logged
  unlatched hc := by
    rw [roomId, hc] at hroom
    cases hroom
  registering _ h := by cases h
  passed rx h := hs.passed rx (.inr (h.resolve_left fun h ↦ (by cases h)))
  reply _ _ _ _ h := by cases h
  unsubscribed hnone msg hmsg := by
    rcases List.mem_append.mp hmsg with hmsg | hmsg
    · exact hs.unsubscribed hnone msg (List.mem_append_left _ hmsg)
    · cases List.mem_singleton.mp hmsg
      intro _ _ _ h
      cases h
  subscribed rx hrx := by
    obtain ⟨pubkey, i, snapshot, later, a, b, hsent, hview, ha, hcarries, -⟩ := hs.subscribed rx hrx
    have hcarries : Carries (s.tx rx) a later b := by
      rw [hphase, Phase.outgoing, List.append_nil] at hcarries
      · exact hcarries
      · intro _ h
        cases h
    have hlatest : (s.world.room id).rosterSnapshot.view = viewAt (s.tx rx) (s.tx rx).length := by
      rw [(hbase.inv.sound id).view_rosterSnapshot, (hs.logged id).view_eq, hhome rx hrx]
      rfl
    exact ⟨pubkey, i, snapshot, later, a, _, hsent, hview, ha,
      hcarries.snapshot (hcarries.le_length ha) (Nat.le_refl _) hlatest,
      fun _ ↦ (hs.passed rx (.inr hrx)).2⟩

theorem Streams.captured (hs : s.Streams) (hbase : s.Base) (hsteady : s.Steady .captured)
    (h : s.onCaptured s.phase = some s') : s'.Streams := by
  cases hphase : s.phase with
  | admitted pubkey i rx =>
    rw [hphase] at h
    cases h
    have hrx : s.phase.rx? = some rx := by
      rw [hphase]
      rfl
    refine hs.register _ hrx rfl rfl fun pubkey' i' snapshot rx' hreply ↦ ?_
    cases hreply
    refine ⟨(s.tx rx).length, (hs.passed rx (.inl hrx)).2, Nat.le_refl _, ?_⟩
    rw [(hbase.inv.sound rx.room).view_rosterSnapshot, (hs.logged rx.room).view_eq]
    rfl
  | capturing =>
    rw [hphase] at h
    obtain ⟨room, hroom, rfl⟩ := Option.map_eq_some_iff.mp h
    cases room with
    | none => exact hs.close _
    | some id =>
      exact hs.capture hbase hphase hroom fun rx hrx ↦ hsteady rx id hrx hphase hroom
  | _ =>
    rw [hphase] at h
    cases h

theorem Streams.sendDone (hs : s.Streams) {ok : Bool} (h : s.onSendDone ok s.phase = some s') :
    s'.Streams := by
  cases hphase : s.phase with
  | replying reply rx =>
    have hrx : s.phase.rx? = some rx := by
      rw [hphase]
      rfl
    obtain ⟨hsent, hnone⟩ := hs.registering rx hrx
    have hlatched : s.streamCommunity ≠ none := fun hc ↦
      (by cases hrx.symm.trans (hs.unlatched hc).2.2.1)
    rw [hphase] at h
    simp only [onSendDone] at h
    split_ifs at h with hok
    · cases h
      cases reply with
      | peerRegistered pubkey i snapshot =>
        obtain ⟨a, hpos, ha, hview⟩ := hs.reply pubkey i snapshot rx hphase
        refine ⟨hs.logged, fun hc ↦ absurd hc hlatched, fun _ h ↦ (by cases h), fun rx' h ↦ ?_,
          fun _ _ _ _ h ↦ (by cases h), fun h ↦ (by cases h), fun rx' h ↦ ?_⟩
        · cases h.resolve_left fun h ↦ (by cases h)
          exact hs.passed rx (.inl hrx)
        · cases h
          refine ⟨pubkey, i, snapshot, [], a, a, ?_, hview, ha, .nil, fun _ ↦ hpos⟩
          dsimp only
          rw [hsent]
          rfl
      | _ =>
        refine ⟨hs.logged, fun hc ↦ absurd hc hlatched, fun _ h ↦ (by cases h), fun rx' h ↦ ?_,
          fun _ _ _ _ h ↦ (by cases h),
          fun _ msg hmsg ↦ ?_, fun rx' h ↦ (by cases hnone.symm.trans h)⟩
        · cases hnone.symm.trans (h.resolve_left fun h ↦ (by cases h))
        · dsimp only at hmsg
          rw [hsent] at hmsg
          cases List.mem_singleton.mp hmsg
          intro _ _ _ h
          cases h
    · cases h
      exact hs.close _
  | forwarding msg =>
    have hout : s.phase.outgoing = [msg] := by
      rw [hphase]
      rfl
    have hlatched : s.streamCommunity ≠ none := fun hc ↦
      (by cases hout.symm.trans (hs.unlatched hc).2.2.2)
    rw [hphase, onSendDone] at h
    cases ok with
    | false =>
      cases h
      exact hs.rest rfl rfl fun h ↦ (by cases h)
    | true =>
      cases h
      refine ⟨hs.logged, fun hc ↦ absurd hc hlatched, fun _ h ↦ (by cases h),
        fun rx h ↦ hs.passed rx (.inr (h.resolve_left fun h ↦ (by cases h))),
        fun _ _ _ _ h ↦ (by cases h), fun hnone m hm ↦ ?_,
        fun rx hrx ↦ ?_⟩
      · refine hs.unsubscribed hnone m ?_
        rw [hout]
        dsimp only [Phase.outgoing] at hm
        rw [List.append_nil] at hm
        exact hm
      · obtain ⟨pubkey, i, snapshot, later, a, b, hsent, hview, ha, hcarries, hpos⟩ :=
          hs.subscribed rx hrx
        rw [hout] at hcarries
        refine ⟨pubkey, i, snapshot, later ++ [msg], a, b, ?_, hview, ha, ?_, fun _ ↦ hpos (.inr ?_)⟩
        · dsimp only
          rw [hsent]
          rfl
        · dsimp only [Phase.outgoing]
          rw [List.append_nil]
          exact hcarries
        · rw [hout]
          intro h
          cases h
  | _ =>
    rw [hphase] at h
    cases h

theorem records_dropPeers {id : ℕ} (peerIds : List Uuid) :
    s.world.Records (dropPeers s.world id peerIds) :=
  .put (Room.records_removePeers peerIds) rfl rfl

theorem Streams.onRegisterPeer (hs : s.Streams) (hbase : s.Base) {c : CommunityId}
    {pubkey : String} {version : UInt8} {draining : Bool} (hnone : s.streamCommunity = none)
    (h : s.onRegisterPeer c pubkey version draining = some s') : s'.Streams := by
  obtain ⟨hsent, hrx, -, hout⟩ := hs.unlatched hnone
  rw [ControlLoop.onRegisterPeer] at h
  split_ifs at h with hlatched hdraining
  · rw [hnone] at hlatched
    exact absurd rfl hlatched
  · cases h
    exact ((hs.latch c).close (.ok ())).of_eq rfl
  · obtain ⟨w, hw, h⟩ := Option.bind_eq_some_iff.mp h
    obtain ⟨id, hid, rfl⟩ := Option.map_eq_some_iff.mp h
    have hrecords := World.records_of_step hw
    have hinv := hbase.inv.moves (World.step_moves hw)
    refine ⟨hrecords.logged hbase.inv hs.logged, fun h ↦ (by cases h), fun _ _ ↦ ⟨hsent, hrx⟩,
      fun rx h ↦ ?_, fun _ _ _ _ h ↦ (by cases h),
      fun _ msg hmsg ↦ ?_, fun rx h ↦ (by cases hrx.symm.trans h)⟩
    · rcases h with h | h
      · cases h
        exact ⟨hinv.joining_lt _ _ hid, Nat.le_refl _⟩
      · cases hrx.symm.trans h
    · dsimp only at hmsg
      rw [hsent] at hmsg
      cases hmsg

theorem Streams.onMessage (hs : s.Streams) (hbase : s.Base) {fenced : FencedHeader}
    {draining : Bool} {msg : HuddleControlMsg}
    (hsteady : s.Steady (.received (.data fenced (some msg)) draining))
    (h : s.onMessage draining msg = some s') : s'.Streams := by
  cases msg with
  | registerPeer c pubkey version => exact hs.onRegisterPeer hbase hsteady h
  | unregisterPeer pubkey =>
    rw [ControlLoop.onMessage, onUnregisterPeer] at h
    split at h
    · cases h
      exact hs
    · obtain ⟨room, -, rfl⟩ := Option.map_eq_some_iff.mp h
      cases room with
      | none => exact hs.of_eq rfl
      | some id => exact (hs.world hbase.inv (records_dropPeers [_])).of_eq rfl
  | rosterResync =>
    cases h
    exact hs.rest rfl rfl fun h ↦ (by cases h)
  | _ =>
    cases h
    exact hs.close _

theorem Streams.onReceived (hs : s.Streams) (hbase : s.Base)
    {draining : Bool} {frame : Received} (hsteady : s.Steady (.received frame draining))
    (h : s.onReceived draining frame = some s') : s'.Streams := by
  cases frame with
  | data fenced payload =>
    simp only [ControlLoop.onReceived] at h
    split_ifs at h
    · cases h
      exact hs.close _
    · cases payload with
      | none =>
        cases h
        exact hs.close _
      | some msg => exact hs.onMessage hbase hsteady h
  | _ =>
    cases h
    exact hs.close _

theorem Streams.onValidated (hs : s.Streams) (hbase : s.Base) {pubkey : String} {version : UInt8}
    {peerId : Uuid} {answer : Except MeshError Unit}
    (hphase : s.phase = .validating pubkey version rx) (hfresh : s.Fresh peerId) :
    (s.onValidated pubkey version rx peerId answer).Streams := by
  have hrx : s.phase.rx? = some rx := by
    rw [hphase]
    rfl
  have hgone : Streams { s with world := s.world.setJoining s.conn none } :=
    hs.world hbase.inv (.of_room rfl rfl)
  cases answer with
  | ok =>
    rw [ControlLoop.onValidated, registerRemotePeer]
    cases hadd : (s.world.room rx.room).addPeer pubkey version peerId with
    | ok slot =>
      have hlt := (hs.passed rx (.inl hrx)).1
      have hnone := hfresh.1 rx.room (List.mem_range.mpr hlt)
      have hrecords : s.world.Records ((s.world.setRoom rx.room slot.2).setJoining s.conn none) :=
        .put (Room.records_addPeer hnone hadd) rfl rfl
      have hentered := (hs.world hbase.inv hrecords).register (.admitted pubkey slot.1 rx)
        hrx rfl rfl fun _ _ _ _ h ↦ (by cases h)
      exact hentered.of_eq rfl
    | error e => exact hgone.register _ hrx rfl rfl fun _ _ _ _ h ↦ (by cases h)
  | error e =>
    rw [ControlLoop.onValidated]
    dsimp only
    split
    · exact hgone.register _ hrx rfl rfl fun _ _ _ _ h ↦ (by cases h)
    · exact hgone.close _

theorem Streams.step (hs : s.Streams) (hbase : s.Base) (hsteady : s.Steady event)
    (hstep : s.step event = some s') : s'.Streams := by
  cases event with
  | other op =>
    rw [ControlLoop.step] at hstep
    split_ifs at hstep
    obtain ⟨w, hw, rfl⟩ := Option.map_eq_some_iff.mp hstep
    exact hs.world hbase.inv (World.records_of_step hw)
  | drained =>
    rw [ControlLoop.step] at hstep
    split_ifs at hstep
    cases hstep
    exact (hs.close (.ok ())).of_eq rfl
  | lost =>
    rw [ControlLoop.step] at hstep
    split_ifs at hstep
    cases hstep
    exact (hs.close (.ok ())).of_eq rfl
  | rosterRecv =>
    rw [ControlLoop.step] at hstep
    split_ifs at hstep with hserving
    obtain ⟨rx, hrx, hstep⟩ := Option.bind_eq_some_iff.mp hstep
    obtain ⟨⟨received, rx'⟩, hrecv, hstep⟩ := Option.bind_eq_some_iff.mp hstep
    cases hstep
    exact hs.rosterRecv hserving hrx hrecv
  | rosterClosed =>
    rw [ControlLoop.step] at hstep
    split_ifs at hstep
    cases hstep
    exact hs.close _
  | captured => exact hs.captured hbase hsteady hstep
  | received frame draining =>
    rw [ControlLoop.step] at hstep
    split_ifs at hstep
    exact hs.onReceived hbase hsteady hstep
  | validated answer peerId =>
    rw [ControlLoop.step] at hstep
    cases hphase : s.phase with
    | validating pubkey version rx =>
      rw [hphase] at hstep
      dsimp only at hstep
      split_ifs at hstep with hfresh
      cases hstep
      exact hs.onValidated hbase hphase hfresh
    | _ =>
      rw [hphase] at hstep
      cases hstep
  | sendDone ok => exact hs.sendDone hstep
  | tornDown goodbyeSent =>
    rw [ControlLoop.step] at hstep
    cases hphase : s.phase with
    | closing result =>
      rw [hphase] at hstep
      obtain ⟨room, -, rfl⟩ := Option.map_eq_some_iff.mp hstep
      have hreturned : Streams { s with phase := .returned result } :=
        hs.rest rfl rfl fun h ↦ (by cases h)
      cases room with
      | none => exact hreturned.of_eq rfl
      | some id =>
        exact (hreturned.world hbase.inv (records_dropPeers _)).of_eq rfl
    | _ =>
      rw [hphase] at hstep
      cases hstep

theorem step_records (hbase : s.Base) (hstep : s.step event = some s') :
    s.world.Records s'.world := by
  cases step_does hstep with
  | other op w _ _ hw => exact World.records_of_step hw
  | quiet event s' hquiet =>
    rw [hquiet.world]
    exact .of_room rfl rfl
  | dropped => exact .of_room rfl rfl
  | registering event c pubkey version w id _ _ _ hw => exact World.records_of_step hw
  | unregistered event pubkey peerId room =>
    cases room with
    | none => exact .of_room rfl rfl
    | some id => exact records_dropPeers [peerId]
  | admitted pubkey version rx peerId i r hphase hfresh hadd =>
    have hlt := hbase.inv.joining_lt _ _ (hbase.waits _ _ _ hphase).1
    exact .put (Room.records_addPeer (hfresh.1 rx.room (List.mem_range.mpr hlt)) hadd) rfl rfl
  | refused event s' hquiet =>
    rw [hquiet.world]
    exact .of_room rfl rfl
  | tornDown goodbyeSent result farewell room =>
    cases room with
    | none => exact .of_room rfl rfl
    | some id => exact records_dropPeers _

/-- What a room has sent at some time of a run stays the start of what it has sent. -/
theorem tx_prefix_run {events : List ControlEvent} (hbase : s.Base) (hrun : s.run events = some s')
    {id : ℕ} (hid : id < s.world.next) :
    (s.world.room id).rosterTx <+: (s'.world.room id).rosterTx := by
  have hinv : ∀ (t : ControlLoop) event t',
      (t.Base ∧ id < t.world.next ∧ (s.world.room id).rosterTx <+: (t.world.room id).rosterTx) →
      t.step event = some t' →
      t'.Base ∧ id < t'.world.next ∧ (s.world.room id).rosterTx <+: (t'.world.room id).rosterTx := by
    rintro t event t' ⟨ht, hlt, hprefix⟩ hstep
    have hrecords := step_records ht hstep
    exact ⟨ht.step hstep, hlt.trans_le hrecords.1, hprefix.trans (hrecords.appends hlt)⟩
  exact (foldlM_invariant ⟨hbase, hid, List.prefix_refl _⟩ hinv hrun).2.2

theorem streams_run {conn : ℕ} {fenced : FencedHeader} {localRuntimeId : RuntimeId}
    {events : List ControlEvent} (hrun : (start conn fenced localRuntimeId).run events = some s)
    (hsteady : ∀ pre event, pre ++ [event] <+: events →
      ∀ t, (start conn fenced localRuntimeId).run pre = some t → t.Steady event) : s.Streams := by
  have hinv : ∀ (t : ControlLoop) event t', t.Base ∧ t.Streams → t.Steady event →
      t.step event = some t' → t'.Base ∧ t'.Streams :=
    fun _ _ _ ht hok hstep ↦ ⟨ht.1.step hstep, ht.2.step ht.1 hok hstep⟩
  exact (foldlM_invariant_of_allowed ⟨base_start, streams_start⟩ hinv hsteady hrun).2

/-- A client that has read any part of the stream of its registration has been told, with each
message, the roster of the owner's room at the revision of the message. -/
theorem readOwnerControl_exact (conn : ℕ) (fenced : FencedHeader) (localRuntimeId : RuntimeId)
    (events : List ControlEvent) (s : ControlLoop)
    (hrun : (start conn fenced localRuntimeId).run events = some s)
    (hsteady : ∀ pre event, pre ++ [event] <+: events →
      ∀ t, (start conn fenced localRuntimeId).run pre = some t → t.Steady event)
    (pubkey : String) (i : ℕ) (snapshot : RosterSnapshot) (later : List HuddleControlMsg)
    (hsent : s.sent = .peerRegistered pubkey i snapshot :: later) :
    ∃ rx, s.rosterRx = some rx ∧
      (∀ pre t, pre <+: events → (start conn fenced localRuntimeId).run pre = some t →
        rx.room < t.world.next → (t.world.room rx.room).view = viewAt (s.tx rx) (t.tx rx).length) ∧
      ∀ delivered, delivered <+: later → ∃ point, snapshot.view = viewAt (s.tx rx) (point 0) ∧
        Exact (s.tx rx) (rosterOf snapshot.peers)
          ((OwnerReader.start snapshot).read delivered).forwarded point := by
  have hs := streams_run hrun hsteady
  cases hrx : s.rosterRx with
  | none =>
    refine absurd rfl (hs.unsubscribed hrx (.peerRegistered pubkey i snapshot) ?_ pubkey i snapshot)
    rw [hsent]
    exact List.mem_cons_self
  | some rx =>
    refine ⟨rx, rfl, fun pre t hpre ht hlt ↦ ?_, fun delivered hdelivered ↦ ?_⟩
    · have hlogged := (streams_run ht fun pre' event h ↦ hsteady pre' event (h.trans hpre)).logged
      obtain ⟨rest, rfl⟩ := hpre
      rw [run, List.foldlM_append] at hrun
      obtain ⟨t', ht', hrest⟩ := Option.bind_eq_some_iff.mp hrun
      cases ht.symm.trans ht'
      rw [(hlogged rx.room).view_eq]
      exact (viewAt_extend (tx_prefix_run (base_run ht) hrest hlt) (Nat.le_refl _)).symm
    · obtain ⟨pubkey', i', snapshot', later', a, b, hsent', hview, ha, hcarries, -⟩ :=
        hs.subscribed rx hrx
      cases hsent.symm.trans hsent'
      obtain ⟨rest, rfl⟩ := hdelivered
      rw [List.append_assoc] at hcarries
      obtain ⟨b', hcarries'⟩ := hcarries.of_append
      obtain ⟨point, hzero, -, hexact⟩ :=
        (OwnerReader.at_read hcarries' hview (hs.logged rx.room).delta).exact_points
      exact ⟨point, by rw [hzero]; exact hview, hexact⟩

def annReturns : List ControlEvent :=
  [.other (.removePeer 0 10), .other (.getOrCreate 1 (1, 7)), .other (.addPeer 1 "ann" 2 10)]

def bobHearsAnnLeave : List ControlEvent :=
  bobJoins ++ [.other (.removePeer 0 10), .rosterRecv, .sendDone true]

def sentDelta (s : ControlLoop) : Bool :=
  match s.sent with
  | [.peerRegistered .., .rosterDelta _] => true
  | _ => false

theorem bob_follows_roster :
    ∃ s pubkey i snapshot later rx, (start 0 ⟨7, 3, 5⟩ 5).run bobHearsAnnLeave = some s ∧
      s.sent = .peerRegistered pubkey i snapshot :: later ∧ later.length = 1 ∧
      s.rosterRx = some rx ∧ ∃ point, Exact (s.tx rx) (rosterOf snapshot.peers)
        ((OwnerReader.start snapshot).read later).forwarded point := by
  have hend : ((start 0 ⟨7, 3, 5⟩ 5).run bobHearsAnnLeave).any sentDelta = true := by
    decide
  obtain ⟨s, hs, hafter⟩ := (Option.any_eq_true _ _).mp hend
  unfold sentDelta at hafter
  split at hafter
  · next pubkey i snapshot delta hsent =>
    have hexact := readOwnerControl_exact 0 ⟨7, 3, 5⟩ 5 bobHearsAnnLeave s hs
      (forall_step_of_lt fun n hn t ht ↦ ?_) pubkey i snapshot [.rosterDelta delta] hsent
    · obtain ⟨rx, hrx, -, hread⟩ := hexact
      obtain ⟨point, -, hpoint⟩ := hread _ (List.prefix_refl _)
      exact ⟨s, pubkey, i, snapshot, _, rx, hs, hsent, rfl, hrx, point, hpoint⟩
    · rcases n with _ | _ | _ | _ | _ | _ | _ | _ | _ | n
      · trivial
      · trivial
      · have hfirst : (((start 0 ⟨7, 3, 5⟩ 5).run (bobHearsAnnLeave.take 2)).all fun t ↦
            t.streamCommunity.isNone) = true := by
          decide
        rw [ht, Option.all_some] at hfirst
        exact Option.isNone_iff_eq_none.mp hfirst
      · trivial
      · have hnone : (((start 0 ⟨7, 3, 5⟩ 5).run (bobHearsAnnLeave.take 4)).all fun t ↦
            t.rosterRx.isNone) = true := by
          decide
        rw [ht, Option.all_some] at hnone
        intro rx id hrx
        cases (Option.isNone_iff_eq_none.mp hnone).symm.trans hrx
      · trivial
      · trivial
      · trivial
      · trivial
      · exact absurd hn (by simp [bobHearsAnnLeave, bobJoins])
  · exact Bool.noConfusion hafter

def lagTwice : List ControlEvent :=
  bobJoins ++ (List.replicate 32 annReturns).flatten ++
    [.rosterRecv, .other (.removePeer 0 10), .captured, .sendDone true,
      .rosterRecv, .captured, .sendDone true]

def repeats67 (s : ControlLoop) : Bool :=
  match s.sent with
  | .peerRegistered _ _ snapshot :: later =>
    decide (((OwnerReader.start snapshot).read later).forwarded.map ClientMsg.revision = [67, 67])
  | _ => false

/-- The client gets two snapshots of one revision. -/
theorem lag_repeats_revision :
    ∃ s pubkey i snapshot later, (start 0 ⟨7, 3, 5⟩ 5).run lagTwice = some s ∧
      s.sent = .peerRegistered pubkey i snapshot :: later ∧
      ((OwnerReader.start snapshot).read later).forwarded.map ClientMsg.revision = [67, 67] ∧
      ¬(((OwnerReader.start snapshot).read later).forwarded.map ClientMsg.revision).Pairwise
        (· < ·) := by
  have hend : ((start 0 ⟨7, 3, 5⟩ 5).run lagTwice).any repeats67 = true := by
    decide +kernel
  obtain ⟨s, hs, hafter⟩ := (Option.any_eq_true _ _).mp hend
  unfold repeats67 at hafter
  split at hafter
  · next pubkey i snapshot later hsent =>
    have hrevisions := of_decide_eq_true hafter
    refine ⟨s, pubkey, i, snapshot, later, hs, hsent, hrevisions, ?_⟩
    rw [hrevisions]
    decide
  · exact Bool.noConfusion hafter

end ControlLoop

end Buzz.Audio
