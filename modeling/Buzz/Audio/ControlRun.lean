import Buzz.Audio.Control
import Buzz.Audio.RoomsRun

namespace Buzz.Audio

open Buzz.Lib Buzz.Nostr Buzz.Relay.Tunnel

namespace Room

variable {r r' r'' : Room} {peerId p : Uuid} {pubkey : String} {version : UInt8} {i : ℕ}
  {peer : AudioPeer}

theorem Evolves.trans (h : r.Evolves r') (h' : r'.Evolves r'') : r.Evolves r'' where
  key := h'.key.trans h.key
  sound hs := h'.sound (h.sound hs)
  delivers hs := (h.delivers hs).trans (h'.delivers (h.sound hs))

theorem lookup_addPeer (hadd : r.addPeer pubkey version peerId = .ok (i, r')) :
    r'.peers.lookup p = if p = peerId then some ⟨pubkey, i⟩ else r.peers.lookup p := by
  obtain ⟨-, -, pool, -, rfl⟩ := addPeer_eq_ok hadd
  exact Map.lookup_insert_eq

theorem lookup_addPeerAtIndex {index : Fin 256}
    (hadd : r.addPeerAtIndex pubkey version index peerId = .ok r') :
    r'.peers.lookup p = if p = peerId then some ⟨pubkey, index⟩ else r.peers.lookup p := by
  obtain ⟨-, -, -, rfl⟩ := addPeerAtIndex_eq_ok hadd
  exact Map.lookup_insert_eq

theorem lookup_removePeer :
    (r.removePeer peerId).peers.lookup p = if p = peerId then none else r.peers.lookup p := by
  rcases r.removePeer_cases peerId with ⟨hnone, heq⟩ | ⟨peer, -, heq⟩
  · rw [heq]
    split
    · next hp => rw [hp, hnone]
    · rfl
  · rw [heq]
    exact Map.lookup_erase_eq

theorem lookup_removePeerAndCheckEnded :
    (r.removePeerAndCheckEnded peerId).2.peers.lookup p =
      if p = peerId then none else r.peers.lookup p := by
  rcases r.removePeerAndCheckEnded_cases peerId with
    ⟨hnone, heq⟩ | ⟨peer, -, ⟨-, -, heq⟩ | ⟨-, heq⟩⟩
  · rw [heq]
    split
    · next hp => rw [hp, hnone]
    · rfl
  · rw [heq]
    exact Map.lookup_erase_eq
  · rw [heq]
    exact Map.lookup_erase_eq

theorem lookup_removePeers (peerIds : List Uuid) :
    (peerIds.foldl removePeer r).peers.lookup p =
      if p ∈ peerIds then none else r.peers.lookup p := by
  induction peerIds generalizing r with
  | nil => simp
  | cons q peerIds ih =>
    rw [List.foldl_cons, ih, lookup_removePeer]
    by_cases hp : p ∈ peerIds
    · simp [hp]
    · by_cases hq : p = q
      · simp [hq]
      · simp [hp, hq]

theorem evolves_removePeers (peerIds : List Uuid) :
    r.Evolves (peerIds.foldl removePeer r) := by
  induction peerIds generalizing r with
  | nil => exact .refl r
  | cons q peerIds ih => exact evolves_removePeer.trans ih

theorem ended_removePeers (peerIds : List Uuid) :
    (peerIds.foldl removePeer r).guard.ended = r.guard.ended := by
  induction peerIds generalizing r with
  | nil => rfl
  | cons q peerIds ih => exact ih.trans ended_removePeer

theorem isEmpty_removePeers (peerIds : List Uuid) (h : r.isEmpty = true) :
    (peerIds.foldl removePeer r).isEmpty = true := by
  induction peerIds generalizing r with
  | nil => exact h
  | cons q peerIds ih => exact ih (isEmpty_removePeer h)

end Room

namespace World

variable {w w' : World} {op : Op} {key : RoomKey} {conn id : ℕ} {p : Uuid}

def Has (w : World) (id : ℕ) (p : Uuid) : Prop := ((w.room id).peers.lookup p).isSome = true

instance (w : World) (id : ℕ) (p : Uuid) : Decidable (w.Has id p) :=
  inferInstanceAs (Decidable (_ = true))

theorem has_setRoom {r : Room} {other : ℕ} :
    (w.setRoom id r).Has other p ↔
      if other = id then (r.peers.lookup p).isSome = true else w.Has other p := by
  change ((Function.update w.room id r other).peers.lookup p).isSome = true ↔ _
  by_cases hother : other = id
  · rw [hother, if_pos rfl, Function.update_self]
  · rw [if_neg hother, Function.update_of_ne hother]
    rfl

theorem has_of_step (hinv : w.Inv) (hstep : w.step op = some w') (h : w'.Has id p) :
    w.Has id p ∨ (op.peerId? = some p ∧ id < w.next) := by
  cases op with
  | getOrCreate conn key =>
    rw [step] at hstep
    split_ifs at hstep
    cases hrooms : w.rooms key with
    | some found =>
      simp only [getOrCreate, hrooms] at hstep
      cases hstep
      exact .inl h
    | none =>
      simp only [getOrCreate, hrooms] at hstep
      cases hstep
      change ((Function.update w.room w.next (.new key.1 key.2) id).peers.lookup p).isSome = true at h
      by_cases hid : id = w.next
      · rw [hid, Function.update_self] at h
        exact Bool.noConfusion h
      · rw [Function.update_of_ne hid] at h
        exact .inl h
  | addPeer conn pubkey version peerId =>
    obtain ⟨found, hfound, hstep⟩ := Option.bind_eq_some_iff.mp hstep
    split at hstep
    · cases hstep
      cases hadd : (w.room found).addPeer pubkey version peerId with
      | error e =>
        rw [hadd] at h
        exact .inl h
      | ok slot =>
        rw [hadd] at h
        change (w.setRoom found slot.2).Has id p at h
        rw [has_setRoom, Room.lookup_addPeer hadd] at h
        split_ifs at h with hid hp
        · exact .inr ⟨congrArg some hp.symm, by rw [hid]; exact hinv.joining_lt _ _ hfound⟩
        · rw [hid]
          exact .inl h
        · exact .inl h
    · cases hstep
  | addPeerAtIndex conn pubkey version index peerId =>
    obtain ⟨found, hfound, hstep⟩ := Option.bind_eq_some_iff.mp hstep
    split at hstep
    · cases hstep
      cases hadd : (w.room found).addPeerAtIndex pubkey version index peerId with
      | error e =>
        rw [hadd] at h
        exact .inl h
      | ok r =>
        rw [hadd] at h
        change (w.setRoom found r).Has id p at h
        rw [has_setRoom, Room.lookup_addPeerAtIndex hadd] at h
        split_ifs at h with hid hp
        · exact .inr ⟨congrArg some hp.symm, by rw [hid]; exact hinv.joining_lt _ _ hfound⟩
        · rw [hid]
          exact .inl h
        · exact .inl h
    · cases hstep
  | giveUp conn =>
    cases hstep
    exact .inl h
  | removePeer found peerId =>
    rw [step] at hstep
    split_ifs at hstep
    cases hstep
    rw [has_setRoom, Room.lookup_removePeer] at h
    split_ifs at h with hid hp
    · exact Bool.noConfusion h
    · rw [hid]
      exact .inl h
    · exact .inl h
  | removePeerAndCheckEnded found peerId =>
    rw [step] at hstep
    split_ifs at hstep
    cases hstep
    have hroom : (w.removePeerAndCheckEnded found peerId).room =
        (w.setRoom found ((w.room found).removePeerAndCheckEnded peerId).2).room := by
      rw [removePeerAndCheckEnded]
      split <;> simp only [*]
    rw [Has, hroom] at h
    change (w.setRoom found _).Has id p at h
    rw [has_setRoom, Room.lookup_removePeerAndCheckEnded] at h
    split_ifs at h with hid hp
    · exact Bool.noConfusion h
    · rw [hid]
      exact .inl h
    · exact .inl h
  | markEnded found =>
    rw [step] at hstep
    split_ifs at hstep
    cases hstep
    change (w.setRoom found (w.room found).markEnded.2).Has id p at h
    rw [has_setRoom] at h
    split_ifs at h with hid
    · rw [hid]
      exact .inl h
    · exact .inl h
  | clearEnded found =>
    rw [step] at hstep
    split_ifs at hstep
    cases hstep
    change (w.setRoom found (w.room found).clearEnded).Has id p at h
    rw [has_setRoom] at h
    split_ifs at h with hid
    · rw [hid]
      exact .inl h
    · exact .inl h
  | checkEmpty key =>
    rw [step] at hstep
    split_ifs at hstep
    obtain ⟨found, -, hstep⟩ := Option.bind_eq_some_iff.mp hstep
    split_ifs at hstep
    · cases hstep
      exact .inl h
    · cases hstep
      exact .inl h
  | finishRemoval key =>
    obtain ⟨found, -, hstep⟩ := Option.bind_eq_some_iff.mp hstep
    cases hstep
    exact .inl h

theorem joining_enter_of_ne {other found : ℕ} {admission : Except AdmissionError Room}
    (hne : conn ≠ other) : (w.enter other found admission).joining conn = w.joining conn := by
  cases admission with
  | ok r => exact Function.update_of_ne hne ..
  | error e => rfl

/-- The operations of other connections do not touch what this one waits for. -/
theorem joining_of_step (hstep : w.step op = some w') (hconn : op.conn? ≠ some conn) :
    w'.joining conn = w.joining conn := by
  have hne {other : ℕ} (hother : some other ≠ some conn) : conn ≠ other :=
    fun heq ↦ hother (congrArg some heq.symm)
  cases op with
  | getOrCreate other key =>
    rw [step] at hstep
    split_ifs at hstep
    cases hrooms : w.rooms key with
    | some found =>
      simp only [getOrCreate, hrooms] at hstep
      cases hstep
      exact Function.update_of_ne (hne hconn) ..
    | none =>
      simp only [getOrCreate, hrooms] at hstep
      cases hstep
      exact Function.update_of_ne (hne hconn) ..
  | addPeer other pubkey version peerId =>
    obtain ⟨found, -, hstep⟩ := Option.bind_eq_some_iff.mp hstep
    split at hstep
    · cases hstep
      exact joining_enter_of_ne (hne hconn)
    · cases hstep
  | addPeerAtIndex other pubkey version index peerId =>
    obtain ⟨found, -, hstep⟩ := Option.bind_eq_some_iff.mp hstep
    split at hstep
    · cases hstep
      exact joining_enter_of_ne (hne hconn)
    · cases hstep
  | giveUp other =>
    cases hstep
    exact Function.update_of_ne (hne hconn) ..
  | removePeer found peerId =>
    rw [step] at hstep
    split_ifs at hstep
    cases hstep
    rfl
  | removePeerAndCheckEnded found peerId =>
    rw [step] at hstep
    split_ifs at hstep
    cases hstep
    rw [removePeerAndCheckEnded]
    split <;> rfl
  | markEnded found =>
    rw [step] at hstep
    split_ifs at hstep
    cases hstep
    rfl
  | clearEnded found =>
    rw [step] at hstep
    split_ifs at hstep
    cases hstep
    rfl
  | checkEmpty key =>
    rw [step] at hstep
    split_ifs at hstep
    obtain ⟨found, -, hstep⟩ := Option.bind_eq_some_iff.mp hstep
    split_ifs at hstep
    · cases hstep
      rfl
    · cases hstep
      rfl
  | finishRemoval key =>
    obtain ⟨found, -, hstep⟩ := Option.bind_eq_some_iff.mp hstep
    cases hstep
    rfl

theorem key_of_getOrCreate (hinv : w.Inv) (hstep : w.step (.getOrCreate conn key) = some w')
    (hjoining : w'.joining conn = some id) : (w'.room id).key = key := by
  rw [step] at hstep
  split_ifs at hstep
  cases hrooms : w.rooms key with
  | some found =>
    simp only [getOrCreate, hrooms] at hstep
    cases hstep
    change Function.update w.joining conn (some found) conn = some id at hjoining
    rw [Function.update_self] at hjoining
    cases hjoining
    exact (hinv.key_of key _ hrooms).1
  | none =>
    simp only [getOrCreate, hrooms] at hstep
    cases hstep
    change Function.update w.joining conn (some w.next) conn = some id at hjoining
    rw [Function.update_self] at hjoining
    cases hjoining
    change (Function.update w.room w.next (.new key.1 key.2) w.next).key = key
    rw [Function.update_self]
    rfl

theorem room_getOrCreate (hstep : w.step (.getOrCreate conn key) = some w') (hid : id < w.next) :
    w'.room id = w.room id := by
  rw [step] at hstep
  split_ifs at hstep
  cases hrooms : w.rooms key with
  | some found =>
    simp only [getOrCreate, hrooms] at hstep
    cases hstep
    rfl
  | none =>
    simp only [getOrCreate, hrooms] at hstep
    cases hstep
    exact Function.update_of_ne (Nat.ne_of_lt hid) ..

theorem key_of_moves (hmoves : w.Moves op w') (hid : id < w.next) :
    (w'.room id).key = (w.room id).key := by
  have hput {other : ℕ} {r : Room} (hkey : r.key = (w.room other).key) :
      (Function.update w.room other r id).key = (w.room id).key := by
    by_cases heq : id = other
    · rw [heq, Function.update_self, hkey]
    · rw [Function.update_of_ne heq]
  cases hmoves with
  | opened conn key =>
    change (Function.update w.room w.next (.new key.1 key.2) id).key = _
    rw [Function.update_of_ne (Nat.ne_of_lt hid)]
  | admitted _ conn other r _ _ _ hev => exact hput hev.key
  | left _ other r hev => exact hput hev.key
  | told _ other r hev => exact hput hev.key
  | marked other => exact hput rfl
  | cleared other => exact hput rfl
  | _ => rfl

theorem kept_setJoining {new : Option ℕ} : (w.setJoining conn new).Kept id ↔ w.Kept id := Iff.rfl

/-- Only a cleanup that finds the room empty takes it away from the manager. -/
theorem Kept.moves (h : w.Kept id) (hid : id < w.next) (hmoves : w.Moves op w') :
    w'.Kept id ∨ ∃ key, op = .checkEmpty key ∧ w.rooms key = some id ∧
      (w.room id).isEmpty = true := by
  have hput {other : ℕ} {r : Room} (hkey : r.key = (w.room other).key) :
      (w.setRoom other r).Kept id := by
    have hroom : (Function.update w.room other r id).key = (w.room id).key := by
      by_cases heq : id = other
      · rw [heq, Function.update_self, hkey]
      · rw [Function.update_of_ne heq]
    change w.rooms (Function.update w.room other r id).key = some id ∧
      w.removing (Function.update w.room other r id).key = none
    rw [hroom]
    exact h
  cases hmoves with
  | still => exact .inl h
  | found => exact .inl h
  | opened conn key hrooms hremoving =>
    refine .inl ?_
    rw [kept_setJoining]
    have hne : (w.room id).key ≠ key := fun hkey ↦ by
      rw [Kept, hkey, hrooms] at h
      cases h.1
    change Function.update w.rooms key (some w.next)
        (Function.update w.room w.next (.new key.1 key.2) id).key = some id ∧
      w.removing (Function.update w.room w.next (.new key.1 key.2) id).key = none
    rw [Function.update_of_ne (Nat.ne_of_lt hid), Function.update_of_ne hne]
    exact h
  | admitted _ conn other r _ _ _ hev => exact .inl (hput hev.key)
  | gaveUp conn => exact .inl h
  | left _ other r hev => exact .inl (hput hev.key)
  | told _ other r hev => exact .inl (hput hev.key)
  | marked other => exact .inl (hput rfl)
  | cleared other => exact .inl (hput rfl)
  | emptied key other hrooms hempty =>
    by_cases heq : other = id
    · rw [heq] at hrooms hempty
      exact .inr ⟨key, rfl, hrooms, hempty⟩
    · refine .inl ⟨h.1, ?_⟩
      have hne : (w.room id).key ≠ key := fun hkey ↦ by
        rw [Kept, hkey, hrooms] at h
        exact heq (Option.some.inj h.1)
      exact (Function.update_of_ne hne ..).trans h.2
  | removed key other hremoving =>
    have hne : (w.room id).key ≠ key := fun hkey ↦ by
      rw [Kept, hkey, hremoving] at h
      cases h.2
    exact .inl ⟨(Function.update_of_ne hne ..).trans h.1, (Function.update_of_ne hne ..).trans h.2⟩

end World

/-- Neither waiting for the directory nor returned. -/
def Phase.Open (p : Phase) : Prop :=
  (∀ pubkey version rx, p ≠ .validating pubkey version rx) ∧ ∀ result, p ≠ .returned result

namespace ControlLoop

variable {s s' : ControlLoop} {event : ControlEvent} {p : Uuid} {id : ℕ}

def key (s : ControlLoop) (communityId : CommunityId) : RoomKey :=
  (communityId, s.fenced.sessionId)

/-- Nothing changes but the place in the loop, what is sent and what is latched. -/
structure Quiet (s s' : ControlLoop) : Prop where
  world : s'.world = s.world
  conn : s'.conn = s.conn
  fenced : s'.fenced = s.fenced
  registered : s'.registered = s.registered
  added : s'.added = s.added
  latched : ∀ c, s.streamCommunity = some c → s'.streamCommunity = some c

inductive Does (s : ControlLoop) : ControlEvent → ControlLoop → Prop
  | other (op : Op) (w : World) : op.conn? ≠ some s.conn →
      (∀ a ∈ s.added, op.peerId? ≠ some a.2) → s.world.step op = some w →
      Does s (.other op) { s with world := w }
  | quiet (event : ControlEvent) (s' : ControlLoop) : s.Quiet s' → s.phase.Open → s'.phase.Open →
      (∀ op, event ≠ .other op) → Does s event s'
  | dropped (msg : HuddleControlMsg) : s.phase = .forwarding msg →
      Does s (.sendDone false) { s with phase := .returned (.error .send) }
  | registering (event : ControlEvent) (c : CommunityId) (pubkey : String) (version : UInt8)
      (w : World) (id : ℕ) : (∀ op, event ≠ .other op) → s.phase.Open →
      (∀ c', s.streamCommunity = some c' → c' = c) →
      s.world.step (.getOrCreate s.conn (s.key c)) = some w → w.joining s.conn = some id →
      Does s event { s with
        streamCommunity := some c
        world := w
        phase := .validating pubkey version (.subscribe w id) }
  | unregistered (event : ControlEvent) (pubkey : String) (peerId : Uuid) (room : Option ℕ) :
      (∀ op, event ≠ .other op) → s.phase.Open → s.registered.lookup pubkey = some peerId →
      s.roomId = some room →
      Does s event { s with
        registered := s.registered.erase pubkey
        world := room.elim s.world fun id ↦
          s.world.setRoom id ((s.world.room id).removePeer peerId) }
  | admitted (pubkey : String) (version : UInt8) (rx : RosterRx) (peerId : Uuid) (i : ℕ)
      (r : Room) : s.phase = .validating pubkey version rx → s.Fresh peerId →
      (s.world.room rx.room).addPeer pubkey version peerId = .ok (i, r) →
      Does s (.validated (.ok ()) peerId) { s with
        world := (s.world.setRoom rx.room r).setJoining s.conn none
        registered := AList.insert pubkey peerId s.registered
        added := (rx.room, peerId) :: s.added
        phase := .admitted pubkey i rx }
  | refused (event : ControlEvent) (s' : ControlLoop) :
      { s with world := s.world.setJoining s.conn none }.Quiet s' → s'.phase.Open →
      (∀ op, event ≠ .other op) → Does s event s'
  | tornDown (goodbyeSent : Bool) (result : Except ControlError Unit)
      (farewell : Option GoodbyeReason) (room : Option ℕ) : s.phase.Open →
      s.roomId = some room →
      Does s (.tornDown goodbyeSent) { s with
        farewell := farewell
        phase := .returned result
        world := room.elim s.world fun id ↦ s.world.setRoom id
          ((s.registered.entries.map Sigma.snd).foldl Room.removePeer (s.world.room id)) }

theorem Quiet.of_phase {phase : Phase} : s.Quiet { s with phase := phase } :=
  ⟨rfl, rfl, rfl, rfl, rfl, fun _ hc ↦ hc⟩

theorem quiet_onRosterEvent (event : Except RecvError RosterDelta) :
    s.Quiet (s.onRosterEvent event) ∧ (s.onRosterEvent event).phase.Open := by
  cases event with
  | ok delta => exact ⟨.of_phase, nofun, nofun⟩
  | error e =>
    cases e with
    | lagged => exact ⟨.of_phase, nofun, nofun⟩
    | closed => exact ⟨.of_phase, nofun, nofun⟩

theorem open_serving (h : s.phase = .serving) : s.phase.Open := by
  rw [h]
  exact ⟨nofun, nofun⟩

theorem does_onMessage {draining : Bool} {msg : HuddleControlMsg} (hopen : s.phase.Open)
    (hevent : ∀ op, event ≠ .other op) (h : s.onMessage draining msg = some s') :
    s.Does event s' := by
  cases msg with
  | registerPeer c pubkey version =>
    rw [onMessage, onRegisterPeer] at h
    split_ifs at h with hlatched hdraining
    · cases h
      exact .quiet _ _ .of_phase hopen ⟨nofun, nofun⟩ hevent
    · cases h
      refine .quiet _ _ ⟨rfl, rfl, rfl, rfl, rfl, fun c' hc' ↦ ?_⟩ hopen ⟨nofun, nofun⟩ hevent
      rw [hc'] at hlatched
      exact congrArg some (not_not.mp hlatched).symm
    · obtain ⟨w, hw, h⟩ := Option.bind_eq_some_iff.mp h
      obtain ⟨id, hid, rfl⟩ := Option.map_eq_some_iff.mp h
      refine .registering event c pubkey version w id hevent hopen (fun c' hc' ↦ ?_) hw hid
      rw [hc'] at hlatched
      exact not_not.mp hlatched
  | unregisterPeer pubkey =>
    rw [onMessage, onUnregisterPeer] at h
    split at h
    · cases h
      exact .quiet _ _ ⟨rfl, rfl, rfl, rfl, rfl, fun _ hc ↦ hc⟩ hopen hopen hevent
    · next peerId hpeer =>
      obtain ⟨room, hroom, rfl⟩ := Option.map_eq_some_iff.mp h
      have hdoes := Does.unregistered (s := s) event pubkey peerId room hevent hopen hpeer hroom
      cases room with
      | none => exact hdoes
      | some id => exact hdoes
  | rosterResync =>
    cases h
    exact .quiet _ _ .of_phase hopen ⟨nofun, nofun⟩ hevent
  | _ =>
    cases h
    exact .quiet _ _ .of_phase hopen ⟨nofun, nofun⟩ hevent

theorem step_does (h : s.step event = some s') : s.Does event s' := by
  cases event with
  | other op =>
    rw [step] at h
    split_ifs at h with hfree
    obtain ⟨w, hw, rfl⟩ := Option.map_eq_some_iff.mp h
    exact .other op w hfree.1 hfree.2 hw
  | drained =>
    rw [step] at h
    split_ifs at h with hserving
    cases h
    exact .quiet _ _ ⟨rfl, rfl, rfl, rfl, rfl, fun _ hc ↦ hc⟩ (open_serving hserving)
      ⟨nofun, nofun⟩ nofun
  | lost =>
    rw [step] at h
    split_ifs at h with hserving
    cases h
    exact .quiet _ _ ⟨rfl, rfl, rfl, rfl, rfl, fun _ hc ↦ hc⟩ (open_serving hserving)
      ⟨nofun, nofun⟩ nofun
  | rosterRecv =>
    rw [step] at h
    split_ifs at h with hserving
    obtain ⟨rx, -, h⟩ := Option.bind_eq_some_iff.mp h
    obtain ⟨⟨received, rx'⟩, -, h⟩ := Option.bind_eq_some_iff.mp h
    cases h
    obtain ⟨hquiet, hopen⟩ := quiet_onRosterEvent (s := { s with rosterRx := some rx' }) received
    exact .quiet _ _ ⟨hquiet.world, hquiet.conn, hquiet.fenced, hquiet.registered, hquiet.added,
      hquiet.latched⟩ (open_serving hserving) hopen nofun
  | rosterClosed =>
    rw [step] at h
    split_ifs at h with hserving
    cases h
    exact .quiet _ _ .of_phase (open_serving hserving.1) ⟨nofun, nofun⟩ nofun
  | captured =>
    rw [step] at h
    cases hphase : s.phase with
    | admitted pubkey peerIndex rx =>
      rw [hphase] at h
      cases h
      exact .quiet _ _ .of_phase (by rw [hphase]; exact ⟨nofun, nofun⟩) ⟨nofun, nofun⟩ nofun
    | capturing =>
      rw [hphase] at h
      obtain ⟨room, -, rfl⟩ := Option.map_eq_some_iff.mp h
      have hopen : s.phase.Open := by
        rw [hphase]
        exact ⟨nofun, nofun⟩
      cases room with
      | none => exact .quiet _ _ .of_phase hopen ⟨nofun, nofun⟩ nofun
      | some id => exact .quiet _ _ .of_phase hopen ⟨nofun, nofun⟩ nofun
    | _ =>
      rw [hphase] at h
      cases h
  | received frame draining =>
    rw [step] at h
    split_ifs at h with hserving
    have hopen := open_serving hserving
    cases frame with
    | data fenced payload =>
      simp only [onReceived] at h
      split_ifs at h with hfenced
      · cases h
        exact .quiet _ _ .of_phase hopen ⟨nofun, nofun⟩ nofun
      · cases payload with
        | none =>
          cases h
          exact .quiet _ _ .of_phase hopen ⟨nofun, nofun⟩ nofun
        | some msg => exact does_onMessage hopen nofun h
    | _ =>
      cases h
      exact .quiet _ _ .of_phase hopen ⟨nofun, nofun⟩ nofun
  | validated answer peerId =>
    rw [step] at h
    cases hphase : s.phase with
    | validating pubkey version rx =>
      rw [hphase] at h
      dsimp only at h
      split_ifs at h with hfresh
      cases h
      cases answer with
      | ok =>
        rw [onValidated, registerRemotePeer]
        cases hadd : (s.world.room rx.room).addPeer pubkey version peerId with
        | ok slot => exact .admitted pubkey version rx peerId slot.1 slot.2 hphase hfresh hadd
        | error e => exact .refused _ _ ⟨rfl, rfl, rfl, rfl, rfl, fun _ hc ↦ hc⟩ ⟨nofun, nofun⟩ nofun
      | error e =>
        rw [onValidated]
        dsimp only
        split
        · exact .refused _ _ .of_phase ⟨nofun, nofun⟩ nofun
        · exact .refused _ _ .of_phase ⟨nofun, nofun⟩ nofun
    | _ =>
      rw [hphase] at h
      cases h
  | sendDone ok =>
    rw [step] at h
    cases hphase : s.phase with
    | replying reply rx =>
      have hopen : s.phase.Open := by
        rw [hphase]
        exact ⟨nofun, nofun⟩
      rw [hphase] at h
      simp only [onSendDone] at h
      split_ifs at h
      · cases h
        exact .quiet _ _ ⟨rfl, rfl, rfl, rfl, rfl, fun _ hc ↦ hc⟩ hopen ⟨nofun, nofun⟩ nofun
      · cases h
        exact .quiet _ _ .of_phase hopen ⟨nofun, nofun⟩ nofun
    | forwarding msg =>
      have hopen : s.phase.Open := by
        rw [hphase]
        exact ⟨nofun, nofun⟩
      rw [hphase, onSendDone] at h
      cases ok with
      | true =>
        cases h
        exact .quiet _ _ ⟨rfl, rfl, rfl, rfl, rfl, fun _ hc ↦ hc⟩ hopen ⟨nofun, nofun⟩ nofun
      | false =>
        cases h
        exact .dropped msg hphase
    | _ =>
      rw [hphase] at h
      cases h
  | tornDown goodbyeSent =>
    rw [step] at h
    cases hphase : s.phase with
    | closing result =>
      have hopen : s.phase.Open := by
        rw [hphase]
        exact ⟨nofun, nofun⟩
      rw [hphase] at h
      obtain ⟨room, hroom, rfl⟩ := Option.map_eq_some_iff.mp h
      have hdoes := Does.tornDown (s := s) goodbyeSent result
        (if goodbyeSent then s.teardownReason else none) room hopen hroom
      cases room with
      | none => exact hdoes
      | some id => exact hdoes
    | _ =>
      rw [hphase] at h
      cases h

/-- What holds in every run: the ids the stream has given out are its own, and it has admitted
them to rooms of its huddle. -/
structure Base (s : ControlLoop) : Prop where
  inv : s.world.Inv
  blank : ∀ id, s.world.next ≤ id → ∀ p, ¬s.world.Has id p
  own : ∀ a ∈ s.added, ∀ id, s.world.Has id a.2 → id = a.1
  added_lt : ∀ a ∈ s.added, a.1 < s.world.next
  registered_added : ∀ pubkey p, s.registered.lookup pubkey = some p → ∃ id, (id, p) ∈ s.added
  waits : ∀ pubkey version rx, s.phase = .validating pubkey version rx →
    s.world.joining s.conn = some rx.room ∧
      ∃ c, s.streamCommunity = some c ∧ (s.world.room rx.room).key = s.key c
  home_key : ∀ a ∈ s.added,
    ∃ c, s.streamCommunity = some c ∧ (s.world.room a.1).key = s.key c

theorem base_start {conn : ℕ} {fenced : FencedHeader} {localRuntimeId : RuntimeId} :
    (start conn fenced localRuntimeId).Base where
  inv := World.inv_start
  blank _ _ _ h := Bool.noConfusion h
  own := nofun
  added_lt := nofun
  registered_added _ _ h := nomatch h
  waits := nofun
  home_key := nofun

theorem roomId_eq {c : CommunityId} (hc : s.streamCommunity = some c) {room : Option ℕ}
    (h : s.roomId = some room) :
    s.world.removing (s.key c) = none ∧ s.world.rooms (s.key c) = room := by
  rw [roomId, hc] at h
  dsimp only at h
  split_ifs at h with hremoving
  exact ⟨hremoving, Option.some.inj h⟩

def dropPeers (w : World) (id : ℕ) (peerIds : List Uuid) : World :=
  w.setRoom id (peerIds.foldl Room.removePeer (w.room id))

theorem moves_dropPeers {w : World} {peerIds : List Uuid} :
    w.Moves (.giveUp 0) (dropPeers w id peerIds) :=
  .left _ id _ (Room.evolves_removePeers peerIds) (Room.ended_removePeers peerIds)
    (Room.isEmpty_removePeers peerIds)

theorem has_dropPeers {w : World} {peerIds : List Uuid} {other : ℕ} :
    (dropPeers w id peerIds).Has other p ↔ w.Has other p ∧ ¬(other = id ∧ p ∈ peerIds) := by
  rw [dropPeers, World.has_setRoom, Room.lookup_removePeers]
  by_cases hother : other = id
  · rw [if_pos hother, hother]
    by_cases hp : p ∈ peerIds
    · simp [hp]
    · simp [hp, World.Has]
  · simp [hother]

/-- The removal of peers from the room of the stream, if the manager has one. -/
theorem moves_elim {w : World} (room : Option ℕ) (peerIds : List Uuid) :
    w.Moves (.giveUp 0) (room.elim w fun id ↦ dropPeers w id peerIds) := by
  cases room with
  | none => exact .still _
  | some id => exact moves_dropPeers

theorem has_of_elim {w : World} (room : Option ℕ) (peerIds : List Uuid)
    (h : (room.elim w fun id ↦ dropPeers w id peerIds).Has id p) : w.Has id p := by
  cases room with
  | none => exact h
  | some other => exact (has_dropPeers.mp h).1

theorem next_elim {w : World} {peerIds : List Uuid} (room : Option ℕ) :
    (room.elim w fun id ↦ dropPeers w id peerIds).next = w.next := by
  cases room <;> rfl

theorem Base.of_quiet (hs : s.Base) (h : s.Quiet s')
    (hphase : ∀ pubkey version rx, s'.phase ≠ .validating pubkey version rx) : s'.Base where
  inv := by
    rw [h.world]
    exact hs.inv
  blank := by
    rw [h.world]
    exact hs.blank
  own := by
    rw [h.world, h.added]
    exact hs.own
  added_lt := by
    rw [h.world, h.added]
    exact hs.added_lt
  registered_added := by
    rw [h.registered, h.added]
    exact hs.registered_added
  waits pubkey version rx hwaits := absurd hwaits (hphase pubkey version rx)
  home_key a ha := by
    rw [h.added] at ha
    obtain ⟨c, hc, hkey⟩ := hs.home_key a ha
    refine ⟨c, h.latched c hc, ?_⟩
    rw [h.world, hkey, key, key, h.fenced]

theorem Base.of_moves (hs : s.Base) {op : Op} {w : World} (hmoves : s.world.Moves op w)
    (hhas : ∀ id p, w.Has id p → s.world.Has id p ∨
      (id < s.world.next ∧ ∀ a ∈ s.added, p ≠ a.2))
    (hnext : s.world.next ≤ w.next)
    (hregistered : ∀ pubkey p, s'.registered.lookup pubkey = some p →
      ∃ pubkey, s.registered.lookup pubkey = some p)
    (hworld : s'.world = w) (hfenced : s'.fenced = s.fenced) (hadded : s'.added = s.added)
    (hlatched : ∀ c, s.streamCommunity = some c → s'.streamCommunity = some c)
    (hwaits : ∀ pubkey version rx, s'.phase = .validating pubkey version rx →
      w.joining s'.conn = some rx.room ∧
        ∃ c, s'.streamCommunity = some c ∧ (w.room rx.room).key = s'.key c) : s'.Base where
  inv := by
    rw [hworld]
    exact hs.inv.moves hmoves
  blank id hid p hhas' := by
    rw [hworld] at hid hhas'
    rcases hhas id p hhas' with hold | ⟨hlt, -⟩
    · exact hs.blank id (hnext.trans hid) p hold
    · exact absurd hlt (not_lt.mpr (hnext.trans hid))
  own a ha id hhas' := by
    rw [hworld] at hhas'
    rw [hadded] at ha
    rcases hhas id a.2 hhas' with hold | ⟨-, hne⟩
    · exact hs.own a ha id hold
    · exact absurd rfl (hne a ha)
  added_lt a ha := by
    rw [hworld]
    rw [hadded] at ha
    exact (hs.added_lt a ha).trans_le hnext
  registered_added pubkey p hp := by
    rw [hadded]
    obtain ⟨pubkey', hp'⟩ := hregistered pubkey p hp
    exact hs.registered_added pubkey' p hp'
  waits := by
    rw [hworld]
    exact hwaits
  home_key a ha := by
    rw [hadded] at ha
    obtain ⟨c, hc, hkey⟩ := hs.home_key a ha
    refine ⟨c, hlatched c hc, ?_⟩
    rw [hworld, World.key_of_moves hmoves (hs.added_lt a ha), hkey, key, key, hfenced]

theorem not_has_of_fresh (hs : s.Base) (hfresh : s.Fresh p) : ¬s.world.Has id p := by
  intro hhas
  by_cases hid : id < s.world.next
  · have hnone := hfresh.1 id (List.mem_range.mpr hid)
    rw [World.Has, hnone] at hhas
    exact Bool.noConfusion hhas
  · exact hs.blank id (not_lt.mp hid) p hhas

theorem moves_admission (hs : s.Base) {pubkey : String} {version : UInt8} {rx : RosterRx}
    {peerId : Uuid} {i : ℕ} {r : Room} (hphase : s.phase = .validating pubkey version rx)
    (hfresh : s.Fresh peerId)
    (hadd : (s.world.room rx.room).addPeer pubkey version peerId = .ok (i, r)) :
    s.world.Moves (.giveUp s.conn) ((s.world.setRoom rx.room r).setJoining s.conn none) := by
  have hjoining := (hs.waits _ _ _ hphase).1
  obtain ⟨hended, -, pool, -, hinsert⟩ := Room.addPeer_eq_ok hadd
  refine .admitted _ s.conn rx.room r hjoining hended (by rw [hinsert]; exact hended) ?_
  exact Room.evolves_addPeer
    (hfresh.1 _ (List.mem_range.mpr (hs.inv.joining_lt _ _ hjoining))) hadd

theorem has_admission {pubkey : String} {version : UInt8} {room : ℕ} {peerId : Uuid} {i : ℕ} {r : Room}
    (hadd : (s.world.room room).addPeer pubkey version peerId = .ok (i, r))
    (h : ((s.world.setRoom room r).setJoining s.conn none).Has id p) :
    s.world.Has id p ∨ (id = room ∧ p = peerId) := by
  change (s.world.setRoom room r).Has id p at h
  rw [World.has_setRoom, Room.lookup_addPeer hadd] at h
  split_ifs at h with hid hp
  · exact .inr ⟨hid, hp⟩
  · rw [hid]
    exact .inl h
  · exact .inl h

theorem Base.admission (hs : s.Base) {pubkey : String} {version : UInt8} {rx : RosterRx}
    {peerId : Uuid} {i : ℕ} {r : Room}
    (hphase : s.phase = .validating pubkey version rx) (hfresh : s.Fresh peerId)
    (hadd : (s.world.room rx.room).addPeer pubkey version peerId = .ok (i, r)) :
    Base { s with
      world := (s.world.setRoom rx.room r).setJoining s.conn none
      registered := AList.insert pubkey peerId s.registered
      added := (rx.room, peerId) :: s.added
      phase := .admitted pubkey i rx } := by
  have hmoves := moves_admission hs hphase hfresh hadd
  obtain ⟨hjoining, hkey⟩ := hs.waits _ _ _ hphase
  have hlt := hs.inv.joining_lt _ _ hjoining
  refine ⟨hs.inv.moves hmoves, fun id hid p hhas ↦ ?_, fun a ha id hhas ↦ ?_, fun a ha ↦ ?_,
    fun pubkey' p hp ↦ ?_, nofun, fun a ha ↦ ?_⟩
  · rcases has_admission hadd hhas with hold | ⟨rfl, -⟩
    · exact hs.blank id hid p hold
    · exact absurd hlt (not_lt.mpr hid)
  · rcases has_admission hadd hhas with hold | ⟨rfl, hp⟩
    · rcases List.mem_cons.mp ha with rfl | ha
      · exact absurd hold (not_has_of_fresh hs hfresh)
      · exact hs.own a ha id hold
    · rcases List.mem_cons.mp ha with rfl | ha
      · rfl
      · exact absurd hp (hfresh.2 a ha)
  · rcases List.mem_cons.mp ha with rfl | ha
    · exact hlt
    · exact hs.added_lt a ha
  · dsimp only at hp
    rw [Map.lookup_insert_eq] at hp
    split_ifs at hp
    · cases hp
      exact ⟨rx.room, List.mem_cons_self⟩
    · obtain ⟨id, hid⟩ := hs.registered_added pubkey' p hp
      exact ⟨id, List.mem_cons_of_mem _ hid⟩
  · have hold {id : ℕ} (hid : id < s.world.next)
        (hkey : ∃ c, s.streamCommunity = some c ∧ (s.world.room id).key = s.key c) :
        ∃ c, s.streamCommunity = some c ∧
          (((s.world.setRoom rx.room r).setJoining s.conn none).room id).key = s.key c := by
      rw [World.key_of_moves hmoves hid]
      exact hkey
    rcases List.mem_cons.mp ha with rfl | ha
    · exact hold hlt hkey
    · exact hold (hs.added_lt a ha) (hs.home_key a ha)

theorem Base.step (hs : s.Base) (hstep : s.step event = some s') : s'.Base := by
  cases step_does hstep with
  | other op w hconn hfree hw =>
    have hmoves := World.step_moves hw
    refine hs.of_moves hmoves (fun id p hhas ↦ ?_) (hs.inv.grows hmoves).1
      (fun pubkey p hp ↦ ⟨pubkey, hp⟩) rfl rfl rfl (fun _ hc ↦ hc) fun pubkey version rx hphase ↦ ?_
    · refine (World.has_of_step hs.inv hw hhas).imp_right fun hnew ↦ ⟨hnew.2, fun a ha heq ↦ ?_⟩
      exact hfree a ha (heq ▸ hnew.1)
    · obtain ⟨hjoining, c, hc, hkey⟩ := hs.waits pubkey version rx hphase
      refine ⟨(World.joining_of_step hw hconn).trans hjoining, c, hc, ?_⟩
      rw [World.key_of_moves hmoves (hs.inv.joining_lt _ _ hjoining)]
      exact hkey
  | quiet event s' hquiet _ hopen => exact hs.of_quiet hquiet hopen.1
  | dropped msg => exact hs.of_quiet .of_phase nofun
  | registering event c pubkey version w id _ _ hlatched hw hjoining =>
    have hmoves := World.step_moves hw
    refine hs.of_moves hmoves (fun id p hhas ↦ ?_) (hs.inv.grows hmoves).1
      (fun pubkey p hp ↦ ⟨pubkey, hp⟩) rfl rfl rfl (fun c' hc' ↦ congrArg some (hlatched c' hc').symm)
      fun pubkey' version' rx hphase ↦ ?_
    · exact .inl ((World.has_of_step hs.inv hw hhas).resolve_right fun hnew ↦ nomatch hnew.1)
    · cases hphase
      exact ⟨hjoining, c, rfl, World.key_of_getOrCreate hs.inv hw hjoining⟩
  | unregistered event pubkey peerId room _ hopen hpeer hroom =>
    refine hs.of_moves (moves_elim room [peerId]) (fun id p hhas ↦ .inl (has_of_elim _ _ hhas))
      (next_elim room).ge (fun pubkey' p hp ↦ ⟨pubkey', ?_⟩) rfl rfl rfl (fun _ hc ↦ hc)
      fun pubkey' version' rx hphase ↦ absurd hphase (hopen.1 pubkey' version' rx)
    rw [Map.lookup_erase_eq] at hp
    split_ifs at hp
    exact hp
  | admitted pubkey version rx peerId i r hphase hfresh hadd =>
    exact hs.admission hphase hfresh hadd
  | refused event s' hquiet hopen =>
    exact hs.of_moves (.gaveUp s.conn) (fun id p hhas ↦ .inl hhas) (Nat.le_refl _)
      (fun pubkey p hp ↦ ⟨pubkey, by rw [hquiet.registered] at hp; exact hp⟩) hquiet.world
      hquiet.fenced hquiet.added hquiet.latched
      fun pubkey version rx hphase ↦ absurd hphase (hopen.1 pubkey version rx)
  | tornDown goodbyeSent result farewell room hopen hroom =>
    exact hs.of_moves (moves_elim room _) (fun id p hhas ↦ .inl (has_of_elim _ _ hhas))
      (next_elim room).ge (fun pubkey p hp ↦ ⟨pubkey, hp⟩) rfl rfl rfl (fun _ hc ↦ hc) nofun

/-- What leaves a peer behind: it is admitted to a room that the manager no longer has, or under
a pubkey whose peer is still in a room, or a roster message cannot be sent while it is there. -/
def Allowed (s : ControlLoop) : ControlEvent → Prop
  | .validated (.ok ()) peerId => ∀ pubkey version rx i r,
      s.phase = .validating pubkey version rx →
      (s.world.room rx.room).addPeer pubkey version peerId = .ok (i, r) →
      s.world.Kept rx.room ∧
        ∀ p, s.registered.lookup pubkey = some p → ∀ id, ¬s.world.Has id p
  | .sendDone false => ∀ msg, s.phase = .forwarding msg → ∀ a ∈ s.added, ¬s.world.Has a.1 a.2
  | _ => True

/-- What holds in every run of allowed steps: the manager has the rooms of the stream's peers, and
the stream has those peers in its map. -/
structure Held (s : ControlLoop) : Prop where
  home : ∀ a ∈ s.added, s.world.Has a.1 a.2 → s.world.Kept a.1
  listed : ∀ a ∈ s.added, s.world.Has a.1 a.2 →
    ∃ pubkey, s.registered.lookup pubkey = some a.2
  clean : ∀ result, s.phase = .returned result → ∀ a ∈ s.added, ¬s.world.Has a.1 a.2

theorem held_start {conn : ℕ} {fenced : FencedHeader} {localRuntimeId : RuntimeId} :
    (start conn fenced localRuntimeId).Held where
  home := nofun
  listed := nofun
  clean := nofun

theorem not_isEmpty_of_has {w : World} (h : w.Has id p) : (w.room id).isEmpty ≠ true := by
  intro hempty
  rw [World.Has, Room.isEmpty_iff.mp hempty p] at h
  exact Bool.noConfusion h

theorem Held.of_quiet (hs : s.Held) (h : s.Quiet s')
    (hphase : ∀ result, s'.phase ≠ .returned result) : s'.Held where
  home := by
    rw [h.world, h.added]
    exact hs.home
  listed := by
    rw [h.world, h.added, h.registered]
    exact hs.listed
  clean result hresult := absurd hresult (hphase result)

/-- The rooms move on while the stream adds no peer and takes none off its map that is still
there. -/
theorem Held.of_moves (hs : s.Held) (hbase : s.Base) {op : Op} (hmoves : s.world.Moves op s'.world)
    (hadded : s'.added = s.added)
    (hhas : ∀ a ∈ s.added, s'.world.Has a.1 a.2 → s.world.Has a.1 a.2)
    (hlisted : ∀ a ∈ s.added, s'.world.Has a.1 a.2 →
      ∀ pubkey, s.registered.lookup pubkey = some a.2 → s'.registered.lookup pubkey = some a.2)
    (hclean : ∀ result, s'.phase = .returned result → ∀ a ∈ s.added, ¬s'.world.Has a.1 a.2) :
    s'.Held where
  home a ha hhas' := by
    rw [hadded] at ha
    have hold := hhas a ha hhas'
    refine ((hs.home a ha hold).moves (hbase.added_lt a ha) hmoves).resolve_right ?_
    rintro ⟨key, -, -, hempty⟩
    exact not_isEmpty_of_has hold hempty
  listed a ha hhas' := by
    rw [hadded] at ha
    obtain ⟨pubkey, hpubkey⟩ := hs.listed a ha (hhas a ha hhas')
    exact ⟨pubkey, hlisted a ha hhas' pubkey hpubkey⟩
  clean result hresult a ha := by
    rw [hadded] at ha
    exact hclean result hresult a ha

theorem roomId_of_has (hs : s.Held) (hbase : s.Base) {a : ℕ × Uuid} (ha : a ∈ s.added)
    (hhas : s.world.Has a.1 a.2) {room : Option ℕ} (hroom : s.roomId = some room) :
    room = some a.1 := by
  obtain ⟨c, hc, hkey⟩ := hbase.home_key a ha
  have hkept := hs.home a ha hhas
  rw [World.Kept, hkey] at hkept
  rw [← (roomId_eq hc hroom).2]
  exact hkept.1

theorem Held.admission (hs : s.Held) (hbase : s.Base) {pubkey : String} {version : UInt8}
    {rx : RosterRx} {peerId : Uuid} {i : ℕ} {r : Room}
    (hphase : s.phase = .validating pubkey version rx) (hfresh : s.Fresh peerId)
    (hadd : (s.world.room rx.room).addPeer pubkey version peerId = .ok (i, r))
    (hhome : s.world.Kept rx.room)
    (hgone : ∀ p, s.registered.lookup pubkey = some p → ∀ id, ¬s.world.Has id p) :
    Held { s with
      world := (s.world.setRoom rx.room r).setJoining s.conn none
      registered := AList.insert pubkey peerId s.registered
      added := (rx.room, peerId) :: s.added
      phase := .admitted pubkey i rx } := by
  have hmoves := moves_admission hbase hphase hfresh hadd
  have hlt := hbase.inv.joining_lt _ _ (hbase.waits _ _ _ hphase).1
  have hkept {id : ℕ} (hid : id < s.world.next) (h : s.world.Kept id) :
      ((s.world.setRoom rx.room r).setJoining s.conn none).Kept id := by
    refine (h.moves hid hmoves).resolve_right ?_
    rintro ⟨key, hop, -, -⟩
    cases hop
  refine ⟨fun a ha hhas ↦ ?_, fun a ha hhas ↦ ?_, nofun⟩
  · rcases List.mem_cons.mp ha with rfl | ha
    · exact hkept hlt hhome
    · rcases has_admission hadd hhas with hold | ⟨-, hp⟩
      · exact hkept (hbase.added_lt a ha) (hs.home a ha hold)
      · exact absurd hp (hfresh.2 a ha)
  · dsimp only
    rcases List.mem_cons.mp ha with rfl | ha
    · exact ⟨pubkey, by rw [Map.lookup_insert_eq, if_pos rfl]⟩
    · rcases has_admission hadd hhas with hold | ⟨-, hp⟩
      · obtain ⟨pubkey', hpubkey'⟩ := hs.listed a ha hold
        refine ⟨pubkey', ?_⟩
        rw [Map.lookup_insert_eq, if_neg, hpubkey']
        rintro rfl
        exact hgone a.2 hpubkey' a.1 hold
      · exact absurd hp (hfresh.2 a ha)

theorem Held.step (hs : s.Held) (hbase : s.Base) (hstep : s.step event = some s')
    (hallowed : s.Allowed event) : s'.Held := by
  cases step_does hstep with
  | other op w hconn hfree hw =>
    have hold : ∀ a ∈ s.added, w.Has a.1 a.2 → s.world.Has a.1 a.2 := fun a ha hhas ↦
      (World.has_of_step hbase.inv hw hhas).resolve_right fun hnew ↦ hfree a ha hnew.1
    exact hs.of_moves hbase (World.step_moves hw) rfl hold (fun a ha _ pubkey hpubkey ↦ hpubkey)
      fun result hresult a ha hhas ↦ hs.clean result hresult a ha (hold a ha hhas)
  | quiet event s' hquiet _ hopen => exact hs.of_quiet hquiet hopen.2
  | dropped msg hphase =>
    exact ⟨hs.home, hs.listed, fun _ _ ↦ hallowed msg hphase⟩
  | registering event c pubkey version w id _ _ hlatched hw hjoining =>
    refine hs.of_moves hbase (World.step_moves hw) rfl (fun a ha hhas ↦ ?_)
      (fun a ha _ pubkey hpubkey ↦ hpubkey) nofun
    exact (World.has_of_step hbase.inv hw hhas).resolve_right fun hnew ↦ nomatch hnew.1
  | unregistered event pubkey peerId room _ hopen hpeer hroom =>
    refine hs.of_moves hbase (moves_elim room [peerId]) rfl
      (fun a ha hhas ↦ has_of_elim room [peerId] hhas)
      (fun a ha hhas pubkey' hpubkey' ↦ ?_) fun result hresult ↦ absurd hresult (hopen.2 result)
    obtain rfl := roomId_of_has hs hbase ha (has_of_elim room [peerId] hhas) hroom
    have hleft : (dropPeers s.world a.1 [peerId]).Has a.1 a.2 := hhas
    have hne : a.2 ≠ peerId := fun heq ↦
      (has_dropPeers.mp hleft).2 ⟨rfl, List.mem_singleton.mpr heq⟩
    dsimp only
    rw [Map.lookup_erase_eq, if_neg, hpubkey']
    rintro rfl
    exact hne (Option.some.inj (hpubkey'.symm.trans hpeer))
  | admitted pubkey version rx peerId i r hphase hfresh hadd =>
    obtain ⟨hhome, hgone⟩ := hallowed pubkey version rx i r hphase hadd
    exact hs.admission hbase hphase hfresh hadd hhome hgone
  | refused event s' hquiet hopen =>
    have hmoves : s.world.Moves (.giveUp s.conn) s'.world := by
      rw [hquiet.world]
      exact .gaveUp s.conn
    refine hs.of_moves hbase hmoves hquiet.added (fun a ha hhas ↦ ?_)
      (fun a ha _ pubkey hpubkey ↦ ?_) fun result hresult ↦ absurd hresult (hopen.2 result)
    · rw [hquiet.world] at hhas
      exact hhas
    · rw [hquiet.registered]
      exact hpubkey
  | tornDown goodbyeSent result farewell room hopen hroom =>
    let peerIds := s.registered.entries.map Sigma.snd
    have hold : ∀ a ∈ s.added, (room.elim s.world fun id ↦ dropPeers s.world id peerIds).Has a.1 a.2 →
        s.world.Has a.1 a.2 := fun _ _ ↦ has_of_elim room peerIds
    refine hs.of_moves hbase (moves_elim room peerIds) rfl hold
      (fun a ha _ pubkey hpubkey ↦ hpubkey) fun _ _ a ha hhas ↦ ?_
    obtain rfl := roomId_of_has hs hbase ha (hold a ha hhas) hroom
    obtain ⟨pubkey, hpubkey⟩ := hs.listed a ha (hold a ha hhas)
    have hleft : (dropPeers s.world a.1 peerIds).Has a.1 a.2 := hhas
    refine (has_dropPeers.mp hleft).2 ⟨rfl, ?_⟩
    exact List.mem_map_of_mem (Map.mem_entries_iff.mpr hpubkey)

def Spares (s s' : ControlLoop) : Prop :=
  ∀ id p peer, (id, p) ∉ s.added → (s.world.room id).peers.lookup p = some peer →
    (s'.world.room id).peers.lookup p = some peer

theorem spares_of_room (h : s'.world.room = s.world.room) : s.Spares s' := by
  intro id p peer _ hpeer
  rw [h]
  exact hpeer

theorem spares_dropPeers (hbase : s.Base) (room : Option ℕ) (peerIds : List Uuid)
    (hown : ∀ p ∈ peerIds, ∃ id, (id, p) ∈ s.added)
    (h : s'.world = room.elim s.world fun id ↦ dropPeers s.world id peerIds) : s.Spares s' := by
  intro id p peer hother hpeer
  rw [h]
  cases room with
  | none => exact hpeer
  | some found =>
    change (Function.update s.world.room found _ id).peers.lookup p = some peer
    by_cases hid : id = found
    · rw [hid, Function.update_self, Room.lookup_removePeers, if_neg, ← hid, hpeer]
      intro hp
      obtain ⟨home, hadded⟩ := hown p hp
      have hhas : s.world.Has id p := by
        rw [World.Has, hpeer]
        rfl
      rw [hbase.own _ hadded id hhas] at hother
      exact hother hadded
    · rw [Function.update_of_ne hid]
      exact hpeer

theorem spares_of_step (hbase : s.Base) (hstep : s.step event = some s')
    (hevent : ∀ op, event ≠ .other op) : s.Spares s' := by
  cases step_does hstep with
  | other op => exact absurd rfl (hevent op)
  | quiet event s' hquiet => exact spares_of_room (congrArg World.room hquiet.world)
  | dropped msg => exact spares_of_room rfl
  | registering event c pubkey version w id _ _ _ hw hjoining =>
    intro home p peer _ hpeer
    have hlt : home < s.world.next := by
      by_contra hge
      refine hbase.blank home (not_lt.mp hge) p ?_
      rw [World.Has, hpeer]
      rfl
    rw [World.room_getOrCreate hw hlt]
    exact hpeer
  | unregistered event pubkey peerId room _ hopen hpeer hroom =>
    refine spares_dropPeers hbase room [peerId] (fun p hp ↦ ?_) rfl
    rw [List.mem_singleton.mp hp]
    exact hbase.registered_added pubkey peerId hpeer
  | admitted pubkey version rx peerId i r hphase hfresh hadd =>
    intro id p peer _ hpeer
    change (Function.update s.world.room rx.room r id).peers.lookup p = some peer
    by_cases hid : id = rx.room
    · rw [hid, Function.update_self, Room.lookup_addPeer hadd, if_neg, ← hid, hpeer]
      rintro rfl
      have hhas : s.world.Has id p := by
        rw [World.Has, hpeer]
        rfl
      exact not_has_of_fresh hbase hfresh hhas
    · rw [Function.update_of_ne hid]
      exact hpeer
  | refused event s' hquiet =>
    refine spares_of_room ?_
    rw [hquiet.world]
    rfl
  | tornDown goodbyeSent result farewell room hopen hroom =>
    refine spares_dropPeers hbase room _ (fun p hp ↦ ?_) rfl
    obtain ⟨⟨pubkey, q⟩, hentry, rfl⟩ := List.mem_map.mp hp
    exact hbase.registered_added pubkey q (Map.mem_entries_iff.mp hentry)

theorem base_run {conn : ℕ} {fenced : FencedHeader} {localRuntimeId : RuntimeId}
    {events : List ControlEvent} (hrun : (start conn fenced localRuntimeId).run events = some s) :
    s.Base :=
  foldlM_invariant base_start (fun _ _ _ hs hstep ↦ hs.step hstep) hrun

/-- A control stream that returns has taken back every peer it added, if no step of the run leaves
one behind; it never takes out a peer of anyone else. -/
theorem controlStream_takes_back (conn : ℕ) (fenced : FencedHeader) (localRuntimeId : RuntimeId)
    (events : List ControlEvent) (s : ControlLoop)
    (hrun : (start conn fenced localRuntimeId).run events = some s) :
    ((∀ pre event, pre ++ [event] <+: events →
        ∀ t, (start conn fenced localRuntimeId).run pre = some t → t.Allowed event) →
      ∀ result, s.phase = .returned result → ∀ a ∈ s.added, ¬s.world.Has a.1 a.2) ∧
    ∀ event s', s.step event = some s' → (∀ op, event ≠ .other op) → s.Spares s' := by
  refine ⟨fun hallowed ↦ ?_, fun event s' hstep hevent ↦ spares_of_step (base_run hrun) hstep hevent⟩
  have hinv : ∀ (t : ControlLoop) event t', t.Base ∧ t.Held → t.Allowed event → t.step event = some t' →
      t'.Base ∧ t'.Held := fun _ _ _ ht hok hstep ↦ ⟨ht.1.step hstep, ht.2.step ht.1 hstep hok⟩
  exact (foldlM_invariant_of_allowed ⟨base_start, held_start⟩ hinv hallowed hrun).2.clean

/-- The owner's own client talks; the stream registers Bob. -/
def bobJoins : List ControlEvent :=
  [.other (.getOrCreate 1 (1, 7)), .other (.addPeer 1 "ann" 2 10),
    .received (.data ⟨7, 3, 5⟩ (some (.registerPeer 1 "bob" 2))) false, .validated (.ok ()) 11,
    .captured, .sendDone true]

def bobLeaves : List ControlEvent := bobJoins ++ [.received .closed false, .tornDown false]

theorem bob_leaves_room :
    ∃ s, (start 0 ⟨7, 3, 5⟩ 5).run bobLeaves = some s ∧ s.phase = .returned (.ok ()) ∧
      s.added = [(0, 11)] ∧ s.world.Has 0 10 ∧ ∀ a ∈ s.added, ¬s.world.Has a.1 a.2 := by
  have hend : (((start 0 ⟨7, 3, 5⟩ 5).run bobLeaves).any fun s ↦
      decide (s.phase = .returned (.ok ()) ∧ s.added = [(0, 11)] ∧
        s.world.Has 0 10)) = true := by
    decide
  obtain ⟨s, hs, hafter⟩ := (Option.any_eq_true _ _).mp hend
  obtain ⟨hphase, hadded, hann⟩ := of_decide_eq_true hafter
  refine ⟨s, hs, hphase, hadded, hann, ?_⟩
  refine (controlStream_takes_back 0 ⟨7, 3, 5⟩ 5 bobLeaves s hs).1 ?_ _ hphase
  refine forall_step_of_lt fun n hn t ht ↦ ?_
  rcases n with _ | _ | _ | _ | _ | _ | _ | _ | n
  · trivial
  · trivial
  · trivial
  · have hregister : (((start 0 ⟨7, 3, 5⟩ 5).run (bobLeaves.take 3)).all fun t ↦
        decide (t.phase = .validating "bob" 2 ⟨0, 1⟩ ∧
          t.world.rooms (t.world.room 0).key = some 0 ∧
          t.world.removing (t.world.room 0).key = none ∧
          t.registered.lookup "bob" = none)) = true := by
      decide
    rw [ht, Option.all_some] at hregister
    obtain ⟨hphase, hrooms, hremoving, hnone⟩ := of_decide_eq_true hregister
    intro pubkey version rx i r hvalidating _
    rw [hphase] at hvalidating
    cases hvalidating
    exact ⟨⟨hrooms, hremoving⟩, fun p hp ↦ nomatch hnone.symm.trans hp⟩
  · trivial
  · trivial
  · trivial
  · trivial
  · exact absurd hn (by simp [bobLeaves, bobJoins])

/-- The stream is gone when Bob's roster is sent again. -/
def resyncFails : List ControlEvent :=
  bobJoins ++ [.received (.data ⟨7, 3, 5⟩ (some .rosterResync)) false, .captured, .sendDone false]

def bobTwice : List ControlEvent :=
  bobJoins ++ [.received (.data ⟨7, 3, 5⟩ (some (.registerPeer 1 "bob" 2))) false,
    .validated (.ok ()) 12, .captured, .sendDone true, .received .closed false, .tornDown false]

/-- Bob's first peer is still in the owner's room when either stream has returned. -/
theorem bob_stays_in_room :
    (∃ s, (start 0 ⟨7, 3, 5⟩ 5).run resyncFails = some s ∧ s.phase = .returned (.error .send) ∧
      (0, 11) ∈ s.added ∧ s.world.Has 0 11) ∧
    ∃ s, (start 0 ⟨7, 3, 5⟩ 5).run bobTwice = some s ∧ s.phase = .returned (.ok ()) ∧
      (0, 11) ∈ s.added ∧ s.world.Has 0 11 := by
  have hfails : (((start 0 ⟨7, 3, 5⟩ 5).run resyncFails).any fun s ↦
      decide (s.phase = .returned (.error .send) ∧ (0, 11) ∈ s.added ∧ s.world.Has 0 11)) = true := by
    decide
  have htwice : (((start 0 ⟨7, 3, 5⟩ 5).run bobTwice).any fun s ↦
      decide (s.phase = .returned (.ok ()) ∧ (0, 11) ∈ s.added ∧ s.world.Has 0 11)) = true := by
    decide
  obtain ⟨s, hs, hafter⟩ := (Option.any_eq_true _ _).mp hfails
  obtain ⟨s', hs', hafter'⟩ := (Option.any_eq_true _ _).mp htwice
  exact ⟨⟨s, hs, of_decide_eq_true hafter⟩, s', hs', of_decide_eq_true hafter'⟩

end ControlLoop

end Buzz.Audio
