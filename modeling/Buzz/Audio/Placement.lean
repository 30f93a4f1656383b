import Buzz.Audio.Media

namespace Buzz.Audio

open Buzz.Lib Buzz.Nostr Buzz.Relay.Tunnel

namespace Room

variable {r r' : Room} {peerId : Uuid} {pubkey : String} {version : UInt8} {i : ℕ}

theorem alloc_lt {pool pool' : SlotPool 255} {used : List ℕ} (hcovers : pool.Covers used)
    (hfree : ∀ j ∈ pool.free, j < 256) (h : pool.alloc = some (i, pool')) :
    i < 256 ∧ ∀ j ∈ pool'.free, j < 256 := by
  rw [SlotPool.alloc] at h
  split at h
  · next j hlast =>
    obtain ⟨rfl, rfl⟩ := Prod.mk.injEq .. ▸ Option.some.inj h
    exact ⟨hfree j (List.mem_of_getLast? hlast), fun k hk ↦ hfree k (List.mem_of_mem_dropLast hk)⟩
  · split at h
    · cases h
    · obtain ⟨rfl, rfl⟩ := Prod.mk.injEq .. ▸ Option.some.inj h
      exact ⟨Nat.lt_succ_of_le hcovers.le_cap, hfree⟩

theorem addPeer_lt (hsound : r.Sound) (hfree : ∀ j ∈ r.guard.free, j < 256)
    (hadd : r.addPeer pubkey version peerId = .ok (i, r')) :
    i < 256 ∧ ∀ j ∈ r'.guard.free, j < 256 := by
  obtain ⟨-, -, pool, halloc, rfl⟩ := addPeer_eq_ok hadd
  exact alloc_lt hsound.covers hfree halloc

theorem entries_addPeer (hfresh : r.peers.lookup peerId = none)
    (hadd : r.addPeer pubkey version peerId = .ok (i, r')) :
    r'.peers.entries = ⟨peerId, ⟨pubkey, i⟩⟩ :: r.peers.entries := by
  obtain ⟨-, -, pool, -, rfl⟩ := addPeer_eq_ok hadd
  exact entries_insertPeer hfresh

theorem entries_addPeerAtIndex {index : Fin 256} (hfresh : r.peers.lookup peerId = none)
    (hadd : r.addPeerAtIndex pubkey version index peerId = .ok r') :
    r'.peers.entries = ⟨peerId, ⟨pubkey, index⟩⟩ :: r.peers.entries := by
  obtain ⟨-, -, -, rfl⟩ := addPeerAtIndex_eq_ok hadd
  exact entries_insertPeer hfresh

theorem addPeerAtIndex_lt {index : Fin 256} (hfree : ∀ j ∈ r.guard.free, j < 256)
    (hadd : r.addPeerAtIndex pubkey version index peerId = .ok r') :
    ∀ j ∈ r'.guard.free, j < 256 := by
  obtain ⟨-, -, -, rfl⟩ := addPeerAtIndex_eq_ok hadd
  exact fun j hj ↦ hfree j (List.mem_of_mem_filter hj)

end Room

namespace Manager

variable {rooms : Manager} {key : RoomKey} {r : Room}

theorem seats_eq (rooms : Manager) (key : RoomKey) :
    rooms.seats key = (rooms.getOrCreate key).peers.entries := by
  rw [seats, getOrCreate]
  cases rooms.lookup key with
  | none => rfl
  | some r => rfl

theorem seats_insert : Manager.seats (AList.insert key r rooms) key = r.peers.entries := by
  rw [seats, Map.lookup_insert_eq, if_pos rfl]
  rfl

end Manager

namespace Huddle

variable {h : Huddle} {q : RuntimeId} {peerId : Uuid}

def roomAt (h : Huddle) (q : RuntimeId) : Room := (h.rooms q).getOrCreate h.key

theorem sound_roomAt : (h.roomAt q).Sound := by
  rw [roomAt, Manager.getOrCreate]
  cases hr : (h.rooms q).lookup h.key with
  | none => exact Room.sound_new _ _
  | some r => exact h.sound q r hr

theorem free_roomAt : ∀ i ∈ (h.roomAt q).guard.free, i < 256 := by
  rw [roomAt, Manager.getOrCreate]
  cases hr : (h.rooms q).lookup h.key with
  | none => exact nofun
  | some r => exact h.free_lt q r hr

theorem lookup_of_seats {l : List Participant} {id : Participant → Uuid}
    (hseats : ((h.rooms q).seats h.key).Perm (l.map (Participant.seatAt id)))
    (hfresh : ∀ z ∈ l, id z ≠ peerId) : (h.roomAt q).peers.lookup peerId = none := by
  rw [Manager.seats_eq] at hseats
  refine Option.eq_none_iff_forall_not_mem.mpr fun peer hpeer ↦ ?_
  have hmem := hseats.mem_iff.mp (Map.mem_entries_iff.mpr hpeer)
  obtain ⟨z, hz, heq⟩ := List.mem_map.mp hmem
  exact hfresh z hz (congrArg Sigma.fst heq)

def putRoom (h : Huddle) (q : RuntimeId) (r : Room) : RuntimeId → Manager :=
  Function.update h.rooms q (AList.insert h.key r (h.rooms q))

theorem lookup_putRoom {r r' : Room} {q' : RuntimeId}
    (hlookup : (h.putRoom q r q').lookup h.key = some r') :
    (q' = q ∧ r' = r) ∨ (q' ≠ q ∧ (h.rooms q').lookup h.key = some r') := by
  by_cases hq : q' = q
  · subst hq
    rw [putRoom, Function.update_self, Map.lookup_insert_eq, if_pos rfl] at hlookup
    exact .inl ⟨rfl, (Option.some.inj hlookup).symm⟩
  · rw [putRoom, Function.update_of_ne hq] at hlookup
    exact .inr ⟨hq, hlookup⟩

/-- No registration yet. -/
def empty (owner : RuntimeId) (key : RoomKey) (generation : UInt64) : Huddle where
  owner := owner
  key := key
  fenced := ⟨key.2, generation, owner⟩
  rooms _ := ∅
  floor _ := ∅
  participants := []
  session := rfl
  live _ _ hknown := nomatch hknown
  seats_owner := List.Perm.nil
  seats_host _ _ := List.Perm.nil
  local_id := nofun
  sound _ _ hr := nomatch hr
  free_lt _ _ hr := nomatch hr

def joinOwner (h : Huddle) (pubkey : String) (version : UInt8) (peerId : Uuid)
    (hfresh : ∀ z ∈ h.participants, z.ownerId ≠ peerId) : Except AdmissionError Huddle :=
  match hadd : (h.roomAt h.owner).addPeer pubkey version peerId with
  | .error e => .error e
  | .ok (i, r) =>
    have hnone : (h.roomAt h.owner).peers.lookup peerId = none :=
      lookup_of_seats h.seats_owner hfresh
    have hlt := Room.addPeer_lt sound_roomAt free_roomAt hadd
    .ok { h with
      rooms := h.putRoom h.owner r
      participants := ⟨pubkey, UInt8.ofNat i, h.owner, peerId, peerId⟩ :: h.participants
      seats_owner := by
        rw [putRoom, Function.update_self, Manager.seats_insert, Room.entries_addPeer hnone hadd,
          roomAt, ← Manager.seats_eq, List.map_cons, Participant.seatAt,
          UInt8.toNat_ofNat_of_lt' hlt.1]
        exact h.seats_owner.cons _
      seats_host := by
        intro q hq
        rw [putRoom, Function.update_of_ne hq, List.filter_cons_of_neg (by simpa using hq.symm)]
        exact h.seats_host q hq
      local_id := by
        intro z hz howner
        rcases List.mem_cons.mp hz with rfl | hz
        · rfl
        · exact h.local_id z hz howner
      sound := by
        intro q r' hr
        rcases lookup_putRoom hr with ⟨-, rfl⟩ | ⟨-, hr⟩
        · exact sound_roomAt.addPeer hnone hadd
        · exact h.sound q r' hr
      free_lt := by
        intro q r' hr
        rcases lookup_putRoom hr with ⟨-, rfl⟩ | ⟨-, hr⟩
        · exact hlt.2
        · exact h.free_lt q r' hr }

/-- The rooms after the owner has admitted a client to `r` and its own pod to `hosted`. -/
def putRooms (h : Huddle) (host : RuntimeId) (r hosted : Room) : RuntimeId → Manager :=
  Function.update (h.putRoom h.owner r) host (AList.insert h.key hosted (h.rooms host))

theorem lookup_putRooms {host : RuntimeId} {r hosted r' : Room} {q : RuntimeId}
    (hlookup : (h.putRooms host r hosted q).lookup h.key = some r') :
    r' = hosted ∨ r' = r ∨ (h.rooms q).lookup h.key = some r' := by
  by_cases hq : q = host
  · subst hq
    rw [putRooms, Function.update_self, Map.lookup_insert_eq, if_pos rfl] at hlookup
    exact .inl (Option.some.inj hlookup).symm
  · rw [putRooms, Function.update_of_ne hq] at hlookup
    rcases lookup_putRoom hlookup with ⟨-, rfl⟩ | ⟨-, hr⟩
    · exact .inr (.inl rfl)
    · exact .inr (.inr hr)

/-- A client of another pod joins: the owner registers it, and its own pod seats it under the index
the owner gave it. -/
def joinRemote (h : Huddle) (host : RuntimeId) (hhost : host ≠ h.owner) (pubkey : String)
    (version : UInt8) (ownerId localId : Uuid)
    (hfresh : ∀ z ∈ h.participants, z.ownerId ≠ ownerId)
    (hlocal : ∀ z ∈ h.participants, z.host = host → z.localId ≠ localId) :
    Except AdmissionError Huddle :=
  match hadd : (h.roomAt h.owner).addPeer pubkey version ownerId with
  | .error e => .error e
  | .ok (i, r) =>
    have hnone : (h.roomAt h.owner).peers.lookup ownerId = none :=
      lookup_of_seats h.seats_owner hfresh
    have hlt := Room.addPeer_lt sound_roomAt free_roomAt hadd
    match hadd' : (h.roomAt host).addPeerAtIndex pubkey version ⟨i, hlt.1⟩ localId with
    | .error e => .error e
    | .ok hosted =>
      have hnone' : (h.roomAt host).peers.lookup localId = none :=
        lookup_of_seats (h.seats_host host hhost) fun z hz ↦
          hlocal z (List.mem_filter.mp hz).1 (of_decide_eq_true (List.mem_filter.mp hz).2)
      .ok { h with
        rooms := h.putRooms host r hosted
        participants := ⟨pubkey, UInt8.ofNat i, host, localId, ownerId⟩ :: h.participants
        seats_owner := by
          rw [putRooms, Function.update_of_ne hhost.symm, putRoom, Function.update_self,
            Manager.seats_insert, Room.entries_addPeer hnone hadd, roomAt, ← Manager.seats_eq,
            List.map_cons, Participant.seatAt, UInt8.toNat_ofNat_of_lt' hlt.1]
          exact h.seats_owner.cons _
        seats_host := by
          intro q hq
          by_cases hqhost : q = host
          · subst hqhost
            rw [putRooms, Function.update_self, Manager.seats_insert,
              Room.entries_addPeerAtIndex hnone' hadd', roomAt, ← Manager.seats_eq,
              List.filter_cons_of_pos (by simp), List.map_cons, Participant.seatAt,
              UInt8.toNat_ofNat_of_lt' hlt.1]
            exact (h.seats_host q hq).cons _
          · rw [putRooms, Function.update_of_ne hqhost, putRoom, Function.update_of_ne hq,
              List.filter_cons_of_neg (by simpa using Ne.symm hqhost)]
            exact h.seats_host q hq
        local_id := by
          intro z hz howner
          rcases List.mem_cons.mp hz with rfl | hz
          · exact (hhost howner).elim
          · exact h.local_id z hz howner
        sound := by
          intro q r' hr
          rcases lookup_putRooms hr with rfl | rfl | hr
          · exact sound_roomAt.addPeerAtIndex hnone' hadd'
          · exact sound_roomAt.addPeer hnone hadd
          · exact h.sound q r' hr
        free_lt := by
          intro q r' hr
          rcases lookup_putRooms hr with rfl | rfl | hr
          · exact Room.addPeerAtIndex_lt free_roomAt hadd'
          · exact hlt.2
          · exact h.free_lt q r' hr }

/-- A registration, with the random ids of the peers it makes. -/
inductive Join
  | here (pubkey : String) (version : UInt8) (peerId : Uuid)
  | away (host : RuntimeId) (pubkey : String) (version : UInt8) (ownerId localId : Uuid)

def admitOne (h : Huddle) : Join → Option Huddle
  | .here pubkey version peerId =>
    if hfresh : ∀ z ∈ h.participants, z.ownerId ≠ peerId then
      (h.joinOwner pubkey version peerId hfresh).toOption
    else none
  | .away host pubkey version ownerId localId =>
    if hjoin : host ≠ h.owner ∧ (∀ z ∈ h.participants, z.ownerId ≠ ownerId) ∧
        ∀ z ∈ h.participants, z.host = host → z.localId ≠ localId then
      (h.joinRemote host hjoin.1 pubkey version ownerId localId hjoin.2.1 hjoin.2.2).toOption
    else none

def place (h : Huddle) (joins : List Join) : Option Huddle := joins.foldlM admitOne h

end Huddle

end Buzz.Audio
