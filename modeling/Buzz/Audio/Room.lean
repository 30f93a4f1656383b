import Buzz.Lib.Attempt
import Buzz.Lib.Collections
import Buzz.Lib.SlotPool
import Buzz.Nostr.Event

namespace Buzz.Audio

open Buzz.Lib Buzz.Nostr

structure AudioPeer where
  pubkey : String
  peerIndex : ℕ
deriving DecidableEq, Repr

def MAX_PEERS_PER_ROOM : ℕ := 25

structure RosterPeer where
  pubkey : String
  peerIndex : ℕ
deriving DecidableEq, Repr

structure RosterSnapshot where
  revision : UInt64
  peers : List RosterPeer
deriving DecidableEq

structure RosterDelta where
  revision : UInt64
  joined : Option RosterPeer
  left : Option RosterPeer
deriving DecidableEq

inductive AdmissionError
  | ended
  | full
  | versionMismatch (pinned requested : UInt8)
deriving DecidableEq

/-- The index allocator and the lifecycle gate of a room, under one lock. -/
structure AdmissionGuard extends SlotPool 255 where
  ended : Bool
  pinnedVersion : Option UInt8
  rosterRevision : UInt64

def AdmissionGuard.new : AdmissionGuard where
  toSlotPool := .new
  ended := false
  pinnedVersion := none
  rosterRevision := 0

def AdmissionGuard.checkVersion (g : AdmissionGuard) (requestedVersion : UInt8) :
    Except AdmissionError PUnit :=
  match g.pinnedVersion with
  | some pinned =>
    if pinned ≠ requestedVersion then .error (.versionMismatch pinned requestedVersion) else .ok ⟨⟩
  | none => .ok ⟨⟩

structure Room where
  communityId : CommunityId
  channelId : Uuid
  peers : Map Uuid AudioPeer
  guard : AdmissionGuard
  rosterTx : List RosterDelta

namespace Room

variable {r r' : Room} {peerId : Uuid} {pubkey : String} {version : UInt8} {i : ℕ}

def new (communityId : CommunityId) (channelId : Uuid) : Room where
  communityId := communityId
  channelId := channelId
  peers := ∅
  guard := .new
  rosterTx := []

def len (r : Room) : ℕ := r.peers.entries.length

def isEmpty (r : Room) : Bool := r.peers.entries.isEmpty

def markEnded (r : Room) : Bool × Room :=
  (r.isEmpty, { r with guard := { r.guard with ended := true } })

def clearEnded (r : Room) : Room := { r with guard := { r.guard with ended := false } }

def insertPeer (r : Room) (pool : SlotPool 255) (requestedVersion : UInt8) (peerId : Uuid)
    (pubkey : String) (peerIndex : ℕ) : Room :=
  { r with
    peers := AList.insert peerId ⟨pubkey, peerIndex⟩ r.peers
    guard := { r.guard with
      toSlotPool := pool
      pinnedVersion := some (r.guard.pinnedVersion.getD requestedVersion)
      rosterRevision := r.guard.rosterRevision + 1 }
    rosterTx := r.rosterTx ++ [⟨r.guard.rosterRevision + 1, some ⟨pubkey, peerIndex⟩, none⟩] }

def addPeer (r : Room) (pubkey : String) (requestedVersion : UInt8) (peerId : Uuid) :
    Except AdmissionError (ℕ × Room) := do
  require (r.guard.ended = false) .ended
  require (r.len < MAX_PEERS_PER_ROOM) .full
  r.guard.checkVersion requestedVersion
  let slot ← okOr r.guard.alloc .full
  return (slot.1, r.insertPeer slot.2 requestedVersion peerId pubkey slot.1)

def indices (r : Room) : List ℕ := r.peers.entries.map fun e ↦ e.2.peerIndex

def addPeerAtIndex (r : Room) (pubkey : String) (requestedVersion : UInt8) (peerIndex : Fin 256)
    (peerId : Uuid) : Except AdmissionError Room := do
  require (r.guard.ended = false) .ended
  require (r.len < MAX_PEERS_PER_ROOM ∧ peerIndex.val ∉ r.indices) .full
  r.guard.checkVersion requestedVersion
  return r.insertPeer (r.guard.reserve peerIndex) requestedVersion peerId pubkey peerIndex

def takePeer (r : Room) (peerId : Uuid) (peer : AudioPeer) : Room :=
  { r with
    peers := r.peers.erase peerId
    guard := { r.guard with
      toSlotPool := r.guard.release peer.peerIndex
      rosterRevision := r.guard.rosterRevision + 1 }
    rosterTx := r.rosterTx ++
      [⟨r.guard.rosterRevision + 1, none, some ⟨peer.pubkey, peer.peerIndex⟩⟩] }

def removePeer (r : Room) (peerId : Uuid) : Room :=
  match r.peers.lookup peerId with
  | some peer => r.takePeer peerId peer
  | none => r

def removePeerAndCheckEnded (r : Room) (peerId : Uuid) : Option (ℕ × Bool) × Room :=
  match r.peers.lookup peerId with
  | some peer =>
    let r := r.takePeer peerId peer
    if r.guard.ended = false ∧ r.isEmpty = true then
      (some (peer.peerIndex, true), r.markEnded.2)
    else (some (peer.peerIndex, false), r)
  | none => (none, r)

def rosterPeers (r : Room) : List RosterPeer :=
  r.peers.entries.map fun e ↦ ⟨e.2.pubkey, e.2.peerIndex⟩

def rosterSnapshot (r : Room) : RosterSnapshot where
  revision := r.guard.rosterRevision
  peers := r.rosterPeers.mergeSort fun a b ↦ a.peerIndex ≤ b.peerIndex

theorem addPeer_eq_ok (h : r.addPeer pubkey version peerId = .ok (i, r')) :
    r.guard.ended = false ∧ r.len < MAX_PEERS_PER_ROOM ∧ ∃ pool, r.guard.alloc = some (i, pool) ∧
      r' = r.insertPeer pool version peerId pubkey i := by
  obtain ⟨_, hended, h⟩ := bind_eq_ok.mp h
  obtain ⟨_, hlen, h⟩ := bind_eq_ok.mp h
  obtain ⟨_, _, h⟩ := bind_eq_ok.mp h
  obtain ⟨slot, halloc, h⟩ := bind_eq_ok.mp h
  obtain ⟨rfl, rfl⟩ := Prod.mk.injEq .. ▸ Except.ok.inj h
  exact ⟨require_eq_ok.mp hended, require_eq_ok.mp hlen, slot.2, okOr_eq_ok.mp halloc, rfl⟩

theorem addPeerAtIndex_eq_ok {index : Fin 256}
    (h : r.addPeerAtIndex pubkey version index peerId = .ok r') :
    r.guard.ended = false ∧ r.len < MAX_PEERS_PER_ROOM ∧ index.val ∉ r.indices ∧
      r' = r.insertPeer (r.guard.reserve index) version peerId pubkey index := by
  obtain ⟨_, hended, h⟩ := bind_eq_ok.mp h
  obtain ⟨_, hlen, h⟩ := bind_eq_ok.mp h
  obtain ⟨_, _, h⟩ := bind_eq_ok.mp h
  obtain ⟨hlen, hindex⟩ := require_eq_ok.mp hlen
  exact ⟨require_eq_ok.mp hended, hlen, hindex, (Except.ok.inj h).symm⟩

theorem removePeer_cases (r : Room) (peerId : Uuid) :
    (r.peers.lookup peerId = none ∧ r.removePeer peerId = r) ∨
      ∃ peer, r.peers.lookup peerId = some peer ∧ r.removePeer peerId = r.takePeer peerId peer := by
  rw [removePeer]
  cases hpeer : r.peers.lookup peerId with
  | none => exact .inl ⟨rfl, rfl⟩
  | some peer => exact .inr ⟨peer, rfl, rfl⟩

theorem removePeerAndCheckEnded_cases (r : Room) (peerId : Uuid) :
    (r.peers.lookup peerId = none ∧ r.removePeerAndCheckEnded peerId = (none, r)) ∨
      ∃ peer, r.peers.lookup peerId = some peer ∧
        ((r.guard.ended = false ∧ (r.takePeer peerId peer).isEmpty = true ∧
            r.removePeerAndCheckEnded peerId =
              (some (peer.peerIndex, true), (r.takePeer peerId peer).markEnded.2)) ∨
          ((r.guard.ended = true ∨ (r.takePeer peerId peer).isEmpty = false) ∧
            r.removePeerAndCheckEnded peerId =
              (some (peer.peerIndex, false), r.takePeer peerId peer))) := by
  rw [removePeerAndCheckEnded]
  cases hpeer : r.peers.lookup peerId with
  | none => exact .inl ⟨rfl, rfl⟩
  | some peer =>
    refine .inr ⟨peer, rfl, ?_⟩
    simp only
    split
    · next hlast => exact .inl ⟨hlast.1, hlast.2, rfl⟩
    · next hlast =>
      refine .inr ⟨?_, rfl⟩
      by_cases hended : r.guard.ended = true
      · exact .inl hended
      · exact .inr (Bool.eq_false_iff.mpr fun hempty ↦
          hlast ⟨Bool.eq_false_iff.mpr hended, hempty⟩)

theorem isEmpty_iff : r.isEmpty = true ↔ ∀ peerId, r.peers.lookup peerId = none := by
  rw [isEmpty, List.isEmpty_iff]
  constructor
  · intro h peerId
    refine Option.eq_none_iff_forall_not_mem.mpr fun peer hpeer ↦ ?_
    have hmem := Map.mem_entries_iff.mpr hpeer
    rw [h] at hmem
    exact List.not_mem_nil hmem
  · intro h
    refine List.eq_nil_iff_forall_not_mem.mpr fun e he ↦ ?_
    have hpeer := Map.mem_entries_iff.mp he
    rw [h] at hpeer
    nomatch hpeer

/-- The indices in use are distinct and none of them is free, and the room is not too full. -/
structure Sound (r : Room) : Prop where
  covers : r.guard.Covers r.indices
  le_max : r.len ≤ MAX_PEERS_PER_ROOM

theorem sound_new (communityId : CommunityId) (channelId : Uuid) :
    (new communityId channelId).Sound :=
  ⟨SlotPool.covers_new, Nat.zero_le _⟩

theorem entries_insertPeer (hfresh : r.peers.lookup peerId = none) {pool : SlotPool 255} :
    (r.insertPeer pool version peerId pubkey i).peers.entries =
      ⟨peerId, ⟨pubkey, i⟩⟩ :: r.peers.entries :=
  AList.entries_insert_of_notMem (AList.lookup_eq_none.mp hfresh)

theorem sound_insertPeer (hfresh : r.peers.lookup peerId = none)
    (hlen : r.len < MAX_PEERS_PER_ROOM) {pool : SlotPool 255}
    (hpool : pool.Covers (i :: r.indices)) :
    (r.insertPeer pool version peerId pubkey i).Sound where
  covers := by
    rw [indices, entries_insertPeer hfresh]
    exact hpool
  le_max := by
    rw [len, entries_insertPeer hfresh, List.length_cons]
    exact hlen

theorem Sound.addPeer (h : r.Sound) (hfresh : r.peers.lookup peerId = none)
    (hadd : r.addPeer pubkey version peerId = .ok (i, r')) : r'.Sound := by
  obtain ⟨-, hlen, pool, halloc, rfl⟩ := addPeer_eq_ok hadd
  exact sound_insertPeer hfresh hlen (h.covers.alloc halloc)

theorem Sound.addPeerAtIndex (h : r.Sound) (hfresh : r.peers.lookup peerId = none)
    {index : Fin 256} (hadd : r.addPeerAtIndex pubkey version index peerId = .ok r') :
    r'.Sound := by
  obtain ⟨-, hlen, hindex, rfl⟩ := addPeerAtIndex_eq_ok hadd
  exact sound_insertPeer hfresh hlen (h.covers.reserve (Nat.le_of_lt_succ index.isLt) hindex)

theorem Sound.takePeer (h : r.Sound) {peer : AudioPeer}
    (hpeer : r.peers.lookup peerId = some peer) : (r.takePeer peerId peer).Sound where
  covers := by
    have hperm := (Map.entries_perm_of_lookup hpeer).map fun e ↦ e.2.peerIndex
    exact (h.covers.perm hperm).release
  le_max := by
    have hlen := (Map.entries_perm_of_lookup hpeer).length_eq
    have hmax := h.le_max
    rw [len, hlen, List.length_cons] at hmax
    exact Nat.le_of_succ_le hmax

theorem Sound.markEnded (h : r.Sound) : r.markEnded.2.Sound := ⟨h.covers, h.le_max⟩

theorem Sound.clearEnded (h : r.Sound) : r.clearEnded.Sound := ⟨h.covers, h.le_max⟩

theorem Sound.removePeer (h : r.Sound) : (r.removePeer peerId).Sound := by
  rcases r.removePeer_cases peerId with ⟨-, heq⟩ | ⟨peer, hpeer, heq⟩
  · rw [heq]
    exact h
  · rw [heq]
    exact h.takePeer hpeer

theorem Sound.removePeerAndCheckEnded (h : r.Sound) :
    (r.removePeerAndCheckEnded peerId).2.Sound := by
  rcases r.removePeerAndCheckEnded_cases peerId with
    ⟨-, heq⟩ | ⟨peer, hpeer, ⟨-, -, heq⟩ | ⟨-, heq⟩⟩
  · rw [heq]
    exact h
  · rw [heq]
    exact (h.takePeer hpeer).markEnded
  · rw [heq]
    exact h.takePeer hpeer

theorem addPeer_of_ended (h : r.guard.ended = true) :
    r.addPeer pubkey version peerId = .error .ended := by
  rw [addPeer, require, if_neg (by rw [h]; exact Bool.noConfusion)]
  rfl

theorem addPeerAtIndex_of_ended {index : Fin 256} (h : r.guard.ended = true) :
    r.addPeerAtIndex pubkey version index peerId = .error .ended := by
  rw [addPeerAtIndex, require, if_neg (by rw [h]; exact Bool.noConfusion)]
  rfl

end Room

end Buzz.Audio
