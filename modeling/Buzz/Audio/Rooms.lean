import Buzz.Audio.Room

namespace Buzz.Audio

open Buzz.Lib Buzz.Nostr

def rosterOf (peers : List RosterPeer) : ℕ → Option String := fun i ↦
  (peers.find? fun p ↦ p.peerIndex = i).map RosterPeer.pubkey

@[ext]
structure RosterView where
  revision : UInt64
  roster : ℕ → Option String

def RosterSnapshot.view (s : RosterSnapshot) : RosterView := ⟨s.revision, rosterOf s.peers⟩

def RosterDelta.apply (d : RosterDelta) (roster : ℕ → Option String) : ℕ → Option String :=
  match d.joined, d.left with
  | some p, _ => Function.update roster p.peerIndex (some p.pubkey)
  | none, some p => Function.update roster p.peerIndex none
  | none, none => roster

/-- What `read_owner_control` does with a delta; at a gap it asks for a snapshot. -/
def RosterView.receive (v : RosterView) (d : RosterDelta) : Option RosterView :=
  if d.revision = v.revision + 1 then some ⟨d.revision, d.apply v.roster⟩
  else if d.revision ≤ v.revision then some v
  else none

theorem rosterOf_eq_some {peers : List RosterPeer} (h : (peers.map RosterPeer.peerIndex).Nodup)
    {i : ℕ} {pubkey : String} : rosterOf peers i = some pubkey ↔ ⟨pubkey, i⟩ ∈ peers := by
  rw [rosterOf, Option.map_eq_some_iff]
  constructor
  · rintro ⟨p, hp, rfl⟩
    have hpi : p.peerIndex = i := by simpa using List.find?_some hp
    rw [← hpi]
    exact List.mem_of_find?_eq_some hp
  · intro hmem
    cases hfind : peers.find? fun p ↦ p.peerIndex = i with
    | none => exact absurd (decide_eq_true rfl) (List.find?_eq_none.mp hfind _ hmem)
    | some p =>
      have hp := List.mem_of_find?_eq_some hfind
      have hpi : p.peerIndex = i := by simpa using List.find?_some hfind
      have heq := List.inj_on_of_nodup_map h hp hmem hpi
      exact ⟨p, rfl, by rw [heq]⟩

theorem rosterOf_perm {peers peers' : List RosterPeer}
    (h : (peers.map RosterPeer.peerIndex).Nodup) (hperm : peers.Perm peers') :
    rosterOf peers = rosterOf peers' := by
  funext i
  refine Option.ext fun pubkey ↦ ?_
  rw [rosterOf_eq_some h, rosterOf_eq_some ((hperm.map _).nodup_iff.mp h), hperm.mem_iff]

theorem rosterOf_cons (p : RosterPeer) (peers : List RosterPeer) :
    rosterOf (p :: peers) = Function.update (rosterOf peers) p.peerIndex (some p.pubkey) := by
  funext i
  rw [rosterOf, List.find?_cons]
  by_cases hi : p.peerIndex = i
  · rw [decide_eq_true hi, ← hi, Function.update_self]
    rfl
  · rw [decide_eq_false hi, Function.update_of_ne (Ne.symm hi)]
    rfl

theorem update_rosterOf_cons {p : RosterPeer} {peers : List RosterPeer}
    (h : ((p :: peers).map RosterPeer.peerIndex).Nodup) :
    Function.update (rosterOf (p :: peers)) p.peerIndex none = rosterOf peers := by
  have habsent : rosterOf peers p.peerIndex = none := by
    refine Option.map_eq_none_iff.mpr (List.find?_eq_none.mpr fun q hq hqi ↦ ?_)
    refine (List.nodup_cons.mp h).1 ?_
    rw [← of_decide_eq_true hqi]
    exact List.mem_map_of_mem hq
  rw [rosterOf_cons, Function.update_idem, ← habsent, Function.update_eq_self]

namespace Room

variable {r r' r'' : Room} {peerId : Uuid} {pubkey : String} {version : UInt8} {i : ℕ}

def view (r : Room) : RosterView := ⟨r.guard.rosterRevision, rosterOf r.rosterPeers⟩

theorem Sound.nodup_rosterPeers (h : r.Sound) :
    (r.rosterPeers.map RosterPeer.peerIndex).Nodup := by
  rw [rosterPeers, List.map_map]
  exact h.covers.used_nodup

theorem Sound.view_rosterSnapshot (h : r.Sound) : r.rosterSnapshot.view = r.view := by
  rw [RosterSnapshot.view, view, rosterSnapshot]
  rw [rosterOf_perm h.nodup_rosterPeers (List.mergeSort_perm _ _).symm]

/-- The deltas sent since bring a copy of the roster up to date. -/
def Delivers (r r' : Room) : Prop :=
  ∃ later, r'.rosterTx = r.rosterTx ++ later ∧ later.foldlM RosterView.receive r.view = some r'.view

theorem Delivers.refl (r : Room) : r.Delivers r := ⟨[], (List.append_nil _).symm, rfl⟩

theorem Delivers.trans (h : r.Delivers r') (h' : r'.Delivers r'') : r.Delivers r'' := by
  obtain ⟨later, htx, hview⟩ := h
  obtain ⟨later', htx', hview'⟩ := h'
  refine ⟨later ++ later', by rw [htx', htx, List.append_assoc], ?_⟩
  rw [List.foldlM_append, hview]
  exact hview'

theorem Delivers.of_eq (htx : r'.rosterTx = r.rosterTx) (hview : r'.view = r.view) :
    r.Delivers r' :=
  ⟨[], by rw [htx, List.append_nil], by rw [hview]; rfl⟩

theorem Delivers.of_delta {d : RosterDelta} (htx : r'.rosterTx = r.rosterTx ++ [d])
    (hrev : d.revision = r.guard.rosterRevision + 1) (hrev' : r'.guard.rosterRevision = d.revision)
    (hroster : d.apply (rosterOf r.rosterPeers) = rosterOf r'.rosterPeers) : r.Delivers r' := by
  have hreceive : r.view.receive d = some r'.view := by
    rw [RosterView.receive, if_pos (show d.revision = r.view.revision + 1 from hrev)]
    exact congrArg some (RosterView.ext hrev'.symm hroster)
  refine ⟨[d], htx, ?_⟩
  rw [List.foldlM_cons, hreceive]
  rfl

theorem rosterPeers_insertPeer (hfresh : r.peers.lookup peerId = none) {pool : SlotPool 255} :
    (r.insertPeer pool version peerId pubkey i).rosterPeers = ⟨pubkey, i⟩ :: r.rosterPeers := by
  rw [rosterPeers, entries_insertPeer hfresh, List.map_cons, rosterPeers]

theorem delivers_insertPeer (hfresh : r.peers.lookup peerId = none) {pool : SlotPool 255} :
    r.Delivers (r.insertPeer pool version peerId pubkey i) := by
  refine .of_delta rfl rfl rfl ?_
  rw [rosterPeers_insertPeer hfresh, rosterOf_cons]
  rfl

theorem delivers_addPeer (hfresh : r.peers.lookup peerId = none)
    (hadd : r.addPeer pubkey version peerId = .ok (i, r')) : r.Delivers r' := by
  obtain ⟨-, -, pool, -, rfl⟩ := addPeer_eq_ok hadd
  exact delivers_insertPeer hfresh

theorem delivers_addPeerAtIndex {index : Fin 256} (hfresh : r.peers.lookup peerId = none)
    (hadd : r.addPeerAtIndex pubkey version index peerId = .ok r') : r.Delivers r' := by
  obtain ⟨-, -, -, rfl⟩ := addPeerAtIndex_eq_ok hadd
  exact delivers_insertPeer hfresh

theorem Sound.delivers_takePeer (h : r.Sound) {peer : AudioPeer}
    (hpeer : r.peers.lookup peerId = some peer) : r.Delivers (r.takePeer peerId peer) := by
  have hperm : r.rosterPeers.Perm
      (⟨peer.pubkey, peer.peerIndex⟩ :: (r.takePeer peerId peer).rosterPeers) :=
    (Map.entries_perm_of_lookup hpeer).map _
  refine .of_delta rfl rfl rfl ?_
  rw [rosterOf_perm h.nodup_rosterPeers hperm]
  exact update_rosterOf_cons ((hperm.map _).nodup_iff.mp h.nodup_rosterPeers)

theorem Sound.delivers_removePeer (h : r.Sound) : r.Delivers (r.removePeer peerId) := by
  rcases r.removePeer_cases peerId with ⟨-, heq⟩ | ⟨peer, hpeer, heq⟩
  · rw [heq]
    exact .refl r
  · rw [heq]
    exact h.delivers_takePeer hpeer

theorem delivers_markEnded : r.Delivers r.markEnded.2 := .of_eq rfl rfl

theorem delivers_clearEnded : r.Delivers r.clearEnded := .of_eq rfl rfl

theorem Sound.delivers_removePeerAndCheckEnded (h : r.Sound) :
    r.Delivers (r.removePeerAndCheckEnded peerId).2 := by
  rcases r.removePeerAndCheckEnded_cases peerId with
    ⟨-, heq⟩ | ⟨peer, hpeer, ⟨-, -, heq⟩ | ⟨-, heq⟩⟩
  · rw [heq]
    exact .refl r
  · rw [heq]
    exact (h.delivers_takePeer hpeer).trans delivers_markEnded
  · rw [heq]
    exact h.delivers_takePeer hpeer

end Room

abbrev RoomKey := CommunityId × Uuid

/-- The manager and every room ever made. `removing` is a `remove_if` that has found the room
empty and still holds the lock of its key; `joining` is the room that a connection got from
`get_or_create` and has not been admitted to yet. Since a room was last open, `told` counts the
removers that were told to end it, and `marked` says whether it was ended by `mark_ended`. -/
structure World where
  next : ℕ
  room : ℕ → Room
  rooms : RoomKey → Option ℕ
  removing : RoomKey → Option ℕ
  joining : ℕ → Option ℕ
  told : ℕ → ℕ
  marked : ℕ → Bool

def Room.key (r : Room) : RoomKey := (r.communityId, r.channelId)

inductive Op
  | getOrCreate (conn : ℕ) (key : RoomKey)
  | addPeer (conn : ℕ) (pubkey : String) (version : UInt8) (peerId : Uuid)
  | addPeerAtIndex (conn : ℕ) (pubkey : String) (version : UInt8) (index : Fin 256) (peerId : Uuid)
  | giveUp (conn : ℕ)
  | removePeer (id : ℕ) (peerId : Uuid)
  | removePeerAndCheckEnded (id : ℕ) (peerId : Uuid)
  | markEnded (id : ℕ)
  | clearEnded (id : ℕ)
  | checkEmpty (key : RoomKey)
  | finishRemoval (key : RoomKey)
deriving DecidableEq

namespace World

def start : World where
  next := 0
  room _ := .new 0 0
  rooms _ := none
  removing _ := none
  joining _ := none
  told _ := 0
  marked _ := false

def setRoom (w : World) (id : ℕ) (r : Room) : World :=
  { w with room := Function.update w.room id r }

def setJoining (w : World) (conn : ℕ) (id : Option ℕ) : World :=
  { w with joining := Function.update w.joining conn id }

def create (w : World) (key : RoomKey) : World :=
  { w with
    next := w.next + 1
    room := Function.update w.room w.next (.new key.1 key.2)
    rooms := Function.update w.rooms key (some w.next)
    told := Function.update w.told w.next 0
    marked := Function.update w.marked w.next false }

def getOrCreate (w : World) (key : RoomKey) : ℕ × World :=
  match w.rooms key with
  | some id => (id, w)
  | none => (w.next, w.create key)

def enter (w : World) (conn id : ℕ) (admission : Except AdmissionError Room) : World :=
  match admission with
  | .ok r => (w.setRoom id r).setJoining conn none
  | .error _ => w

def removePeerAndCheckEnded (w : World) (id : ℕ) (peerId : Uuid) : World :=
  match (w.room id).removePeerAndCheckEnded peerId with
  | (some (_, true), r) => { w.setRoom id r with told := Function.update w.told id (w.told id + 1) }
  | (_, r) => w.setRoom id r

def markEnded (w : World) (id : ℕ) : World :=
  { w.setRoom id (w.room id).markEnded.2 with marked := Function.update w.marked id true }

def clearEnded (w : World) (id : ℕ) : World :=
  { w.setRoom id (w.room id).clearEnded with
    told := Function.update w.told id 0
    marked := Function.update w.marked id false }

def step (w : World) : Op → Option World
  | .getOrCreate conn key =>
    if w.joining conn = none ∧ w.removing key = none then
      let (id, w) := w.getOrCreate key
      some (w.setJoining conn (some id))
    else none
  | .addPeer conn pubkey version peerId => do
    let id ← w.joining conn
    if (w.room id).peers.lookup peerId = none then
      some (w.enter conn id (((w.room id).addPeer pubkey version peerId).map Prod.snd))
    else none
  | .addPeerAtIndex conn pubkey version index peerId => do
    let id ← w.joining conn
    if (w.room id).peers.lookup peerId = none then
      some (w.enter conn id ((w.room id).addPeerAtIndex pubkey version index peerId))
    else none
  | .giveUp conn => some (w.setJoining conn none)
  | .removePeer id peerId =>
    if id < w.next then some (w.setRoom id ((w.room id).removePeer peerId)) else none
  | .removePeerAndCheckEnded id peerId =>
    if id < w.next then some (w.removePeerAndCheckEnded id peerId) else none
  | .markEnded id => if id < w.next then some (w.markEnded id) else none
  | .clearEnded id => if id < w.next then some (w.clearEnded id) else none
  | .checkEmpty key =>
    if w.removing key = none then do
      let id ← w.rooms key
      some (if (w.room id).isEmpty then
        { w with removing := Function.update w.removing key (some id) } else w)
    else none
  | .finishRemoval key => do
    let _ ← w.removing key
    some { w with
      rooms := Function.update w.rooms key none
      removing := Function.update w.removing key none }

def run (w : World) (ops : List Op) : Option World := ops.foldlM step w

/-- Some connection still waits to be admitted to the room. -/
def Awaited (w : World) (id : ℕ) : Prop := ∃ conn, w.joining conn = some id

def Kept (w : World) (id : ℕ) : Prop :=
  w.rooms (w.room id).key = some id ∧ w.removing (w.room id).key = none

/-- A cleanup finds no open room empty that a connection waits for, and no such room is opened
again after it was removed. -/
def Considerate (w : World) : Op → Prop
  | .checkEmpty key => ∀ id, w.rooms key = some id → (w.room id).isEmpty = true →
      (w.room id).guard.ended = true ∨ ¬w.Awaited id
  | .clearEnded id => w.Kept id ∨ ¬w.Awaited id
  | _ => True

end World

structure Room.Evolves (r r' : Room) : Prop where
  key : r'.key = r.key
  sound : r.Sound → r'.Sound
  delivers : r.Sound → r.Delivers r'

namespace Room

variable {r r' : Room} {peerId : Uuid} {pubkey : String} {version : UInt8} {i : ℕ}

theorem Evolves.refl (r : Room) : r.Evolves r := ⟨rfl, id, fun _ ↦ .refl r⟩

theorem evolves_addPeer (hfresh : r.peers.lookup peerId = none)
    (hadd : r.addPeer pubkey version peerId = .ok (i, r')) : r.Evolves r' where
  key := by
    obtain ⟨-, -, pool, -, rfl⟩ := addPeer_eq_ok hadd
    rfl
  sound h := h.addPeer hfresh hadd
  delivers _ := delivers_addPeer hfresh hadd

theorem evolves_addPeerAtIndex {index : Fin 256} (hfresh : r.peers.lookup peerId = none)
    (hadd : r.addPeerAtIndex pubkey version index peerId = .ok r') : r.Evolves r' where
  key := by
    obtain ⟨-, -, -, rfl⟩ := addPeerAtIndex_eq_ok hadd
    rfl
  sound h := h.addPeerAtIndex hfresh hadd
  delivers _ := delivers_addPeerAtIndex hfresh hadd

theorem evolves_removePeer : r.Evolves (r.removePeer peerId) where
  key := by
    rcases r.removePeer_cases peerId with ⟨-, heq⟩ | ⟨peer, -, heq⟩
    · rw [heq]
    · rw [heq]
      rfl
  sound h := h.removePeer
  delivers h := h.delivers_removePeer

theorem evolves_removePeerAndCheckEnded : r.Evolves (r.removePeerAndCheckEnded peerId).2 where
  key := by
    rcases r.removePeerAndCheckEnded_cases peerId with ⟨-, heq⟩ | ⟨peer, -, ⟨-, -, heq⟩ | ⟨-, heq⟩⟩
    · rw [heq]
    · rw [heq]
      rfl
    · rw [heq]
      rfl
  sound h := h.removePeerAndCheckEnded
  delivers h := h.delivers_removePeerAndCheckEnded

theorem evolves_markEnded : r.Evolves r.markEnded.2 :=
  ⟨rfl, Sound.markEnded, fun _ ↦ delivers_markEnded⟩

theorem evolves_clearEnded : r.Evolves r.clearEnded :=
  ⟨rfl, Sound.clearEnded, fun _ ↦ delivers_clearEnded⟩

theorem isEmpty_erase {peer : AudioPeer} (h : r.isEmpty = true) :
    (r.takePeer peerId peer).isEmpty = true := by
  rw [isEmpty_iff] at h ⊢
  intro other
  rw [show (r.takePeer peerId peer).peers = r.peers.erase peerId from rfl, Map.lookup_erase_eq, h,
    ite_self]

theorem isEmpty_removePeer (h : r.isEmpty = true) : (r.removePeer peerId).isEmpty = true := by
  rcases r.removePeer_cases peerId with ⟨-, heq⟩ | ⟨peer, -, heq⟩
  · rw [heq]
    exact h
  · rw [heq]
    exact isEmpty_erase h

theorem ended_removePeer : (r.removePeer peerId).guard.ended = r.guard.ended := by
  rcases r.removePeer_cases peerId with ⟨-, heq⟩ | ⟨peer, -, heq⟩
  · rw [heq]
  · rw [heq]
    rfl

end Room

end Buzz.Audio
