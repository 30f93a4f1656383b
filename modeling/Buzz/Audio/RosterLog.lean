import Buzz.Audio.ControlRun

namespace Buzz.Audio

open Buzz.Lib Buzz.Nostr Buzz.Relay.Tunnel

variable {tx tx' : List RosterDelta} {d : RosterDelta} {n : ℕ}

def rosterAt (tx : List RosterDelta) (n : ℕ) : ℕ → Option String :=
  (tx.take n).foldl (fun roster d ↦ d.apply roster) fun _ ↦ none

def viewAt (tx : List RosterDelta) (n : ℕ) : RosterView := ⟨.ofNat n, rosterAt tx n⟩

theorem rosterAt_extend (h : tx <+: tx') (hn : n ≤ tx.length) :
    rosterAt tx' n = rosterAt tx n := by
  obtain ⟨later, rfl⟩ := h
  rw [rosterAt, rosterAt, List.take_append_of_le_length hn]

theorem viewAt_extend (h : tx <+: tx') (hn : n ≤ tx.length) : viewAt tx' n = viewAt tx n := by
  rw [viewAt, viewAt, rosterAt_extend h hn]

theorem rosterAt_succ (h : tx[n]? = some d) : rosterAt tx (n + 1) = d.apply (rosterAt tx n) := by
  rw [rosterAt, rosterAt, List.take_add_one, h, Option.toList_some, List.foldl_append]
  rfl

def RosterDelta.Tells (d : RosterDelta) : Prop := d.joined.isSome = true ∨ d.left.isSome = true

namespace Room

variable {r r' r'' : Room} {peerId : Uuid} {pubkey : String} {version : UInt8} {i : ℕ}

structure Logged (r : Room) : Prop where
  revision : r.guard.rosterRevision = .ofNat r.rosterTx.length
  delta : ∀ (n : ℕ) (d : RosterDelta), r.rosterTx[n]? = some d →
    d.revision = .ofNat (n + 1) ∧ d.Tells
  roster : rosterOf r.rosterPeers = rosterAt r.rosterTx r.rosterTx.length

theorem logged_new (communityId : CommunityId) (channelId : Uuid) :
    (new communityId channelId).Logged where
  revision := rfl
  delta _ _ h := nomatch h
  roster := rfl

theorem Logged.view_eq (h : r.Logged) : r.view = viewAt r.rosterTx r.rosterTx.length :=
  RosterView.ext h.revision h.roster

theorem Logged.of_delta (h : r.Logged) (htells : d.Tells) (htx : r'.rosterTx = r.rosterTx ++ [d])
    (hrev : d.revision = r.guard.rosterRevision + 1) (hrev' : r'.guard.rosterRevision = d.revision)
    (hroster : d.apply (rosterOf r.rosterPeers) = rosterOf r'.rosterPeers) : r'.Logged := by
  have hd : d.revision = .ofNat (r.rosterTx.length + 1) := by
    rw [hrev, h.revision, UInt64.ofNat_add]
    rfl
  refine ⟨?_, fun n d' hd' ↦ ?_, ?_⟩
  · rw [hrev', hd, htx, List.length_append, List.length_singleton]
  · rw [htx] at hd'
    rcases Nat.lt_trichotomy n r.rosterTx.length with hn | rfl | hn
    · rw [List.getElem?_append_left hn] at hd'
      exact h.delta n d' hd'
    · rw [List.getElem?_concat_length] at hd'
      cases hd'
      exact ⟨hd, htells⟩
    · have hlen : (r.rosterTx ++ [d]).length ≤ n := by
        rw [List.length_append, List.length_singleton]
        exact hn
      rw [List.getElem?_eq_none hlen] at hd'
      cases hd'
  · have hlast : r'.rosterTx[r.rosterTx.length]? = some d := by
      rw [htx, List.getElem?_concat_length]
    have hold : rosterAt r'.rosterTx r.rosterTx.length = rosterAt r.rosterTx r.rosterTx.length :=
      rosterAt_extend ⟨[d], htx.symm⟩ (Nat.le_refl _)
    rw [← hroster, h.roster, ← hold, ← rosterAt_succ hlast, htx, List.length_append,
      List.length_singleton]

theorem logged_insertPeer (h : r.Logged) (hfresh : r.peers.lookup peerId = none)
    {pool : SlotPool 255} : (r.insertPeer pool version peerId pubkey i).Logged := by
  refine h.of_delta (.inl rfl) rfl rfl rfl ?_
  rw [rosterPeers_insertPeer hfresh, rosterOf_cons]
  rfl

theorem Sound.logged_takePeer (hsound : r.Sound) (h : r.Logged) {peer : AudioPeer}
    (hpeer : r.peers.lookup peerId = some peer) : (r.takePeer peerId peer).Logged := by
  have hperm : r.rosterPeers.Perm
      (⟨peer.pubkey, peer.peerIndex⟩ :: (r.takePeer peerId peer).rosterPeers) :=
    (Map.entries_perm_of_lookup hpeer).map _
  refine h.of_delta (.inr rfl) rfl rfl rfl ?_
  rw [rosterOf_perm hsound.nodup_rosterPeers hperm]
  exact update_rosterOf_cons ((hperm.map _).nodup_iff.mp hsound.nodup_rosterPeers)

theorem Logged.gate (h : r.Logged) (ended : Bool) :
    Logged { r with guard := { r.guard with ended := ended } } := ⟨h.revision, h.delta, h.roster⟩

structure Records (r r' : Room) : Prop extends r.Evolves r' where
  logged : r.Sound → r.Logged → r'.Logged
  appends : r.rosterTx <+: r'.rosterTx

theorem Records.refl (r : Room) : r.Records r := ⟨.refl r, fun _ h ↦ h, List.prefix_refl _⟩

theorem Records.trans (h : r.Records r') (h' : r'.Records r'') : r.Records r'' where
  toEvolves := h.toEvolves.trans h'.toEvolves
  logged hsound hlogged := h'.logged (h.sound hsound) (h.logged hsound hlogged)
  appends := h.appends.trans h'.appends

theorem records_addPeer (hfresh : r.peers.lookup peerId = none)
    (hadd : r.addPeer pubkey version peerId = .ok (i, r')) : r.Records r' where
  toEvolves := evolves_addPeer hfresh hadd
  logged _ h := by
    obtain ⟨-, -, pool, -, rfl⟩ := addPeer_eq_ok hadd
    exact logged_insertPeer h hfresh
  appends := by
    obtain ⟨-, -, pool, -, rfl⟩ := addPeer_eq_ok hadd
    exact List.prefix_append _ _

theorem records_addPeerAtIndex {index : Fin 256} (hfresh : r.peers.lookup peerId = none)
    (hadd : r.addPeerAtIndex pubkey version index peerId = .ok r') : r.Records r' where
  toEvolves := evolves_addPeerAtIndex hfresh hadd
  logged _ h := by
    obtain ⟨-, -, -, rfl⟩ := addPeerAtIndex_eq_ok hadd
    exact logged_insertPeer h hfresh
  appends := by
    obtain ⟨-, -, -, rfl⟩ := addPeerAtIndex_eq_ok hadd
    exact List.prefix_append _ _

theorem records_removePeer : r.Records (r.removePeer peerId) where
  toEvolves := evolves_removePeer
  logged hsound h := by
    rcases r.removePeer_cases peerId with ⟨-, heq⟩ | ⟨peer, hpeer, heq⟩
    · rw [heq]
      exact h
    · rw [heq]
      exact hsound.logged_takePeer h hpeer
  appends := by
    rcases r.removePeer_cases peerId with ⟨-, heq⟩ | ⟨peer, -, heq⟩
    · rw [heq]
    · rw [heq]
      exact List.prefix_append _ _

theorem records_removePeerAndCheckEnded : r.Records (r.removePeerAndCheckEnded peerId).2 where
  toEvolves := evolves_removePeerAndCheckEnded
  logged hsound h := by
    rcases r.removePeerAndCheckEnded_cases peerId with
      ⟨-, heq⟩ | ⟨peer, hpeer, ⟨-, -, heq⟩ | ⟨-, heq⟩⟩
    · rw [heq]
      exact h
    · rw [heq]
      exact (hsound.logged_takePeer h hpeer).gate true
    · rw [heq]
      exact hsound.logged_takePeer h hpeer
  appends := by
    rcases r.removePeerAndCheckEnded_cases peerId with
      ⟨-, heq⟩ | ⟨peer, -, ⟨-, -, heq⟩ | ⟨-, heq⟩⟩
    · rw [heq]
    · rw [heq]
      exact List.prefix_append _ _
    · rw [heq]
      exact List.prefix_append _ _

theorem records_markEnded : r.Records r.markEnded.2 :=
  ⟨evolves_markEnded, fun _ h ↦ h.gate true, List.prefix_refl _⟩

theorem records_clearEnded : r.Records r.clearEnded :=
  ⟨evolves_clearEnded, fun _ h ↦ h.gate false, List.prefix_refl _⟩

theorem records_removePeers (peerIds : List Uuid) :
    r.Records (peerIds.foldl removePeer r) := by
  induction peerIds generalizing r with
  | nil => exact .refl r
  | cons q peerIds ih => exact records_removePeer.trans ih

end Room

namespace World

variable {w w' : World} {op : Op} {id : ℕ}

def Records (w w' : World) : Prop :=
  w.next ≤ w'.next ∧ ∀ id, (w.room id).Records (w'.room id) ∨
    (id = w.next ∧ ∃ key : RoomKey, w'.room id = .new key.1 key.2)

theorem Records.of_room (hnext : w'.next = w.next) (hroom : w'.room = w.room) : w.Records w' :=
  ⟨hnext.ge, fun _ ↦ .inl (hroom ▸ .refl _)⟩

theorem Records.put {other : ℕ} {r : Room} (h : (w.room other).Records r)
    (hnext : w'.next = w.next) (hroom : w'.room = (w.setRoom other r).room) : w.Records w' := by
  refine ⟨hnext.ge, fun id ↦ .inl ?_⟩
  rw [hroom]
  change (w.room id).Records (Function.update w.room other r id)
  by_cases hid : id = other
  · rw [hid, Function.update_self]
    exact h
  · rw [Function.update_of_ne hid]
    exact .refl _

theorem records_of_step (h : w.step op = some w') : w.Records w' := by
  cases op with
  | getOrCreate conn key =>
    rw [step] at h
    split_ifs at h
    cases hrooms : w.rooms key with
    | some found =>
      simp only [getOrCreate, hrooms] at h
      cases h
      exact .of_room rfl rfl
    | none =>
      simp only [getOrCreate, hrooms] at h
      cases h
      refine ⟨Nat.le_succ _, fun id ↦ ?_⟩
      change (w.room id).Records (Function.update w.room w.next (.new key.1 key.2) id) ∨
        (id = w.next ∧ ∃ key' : RoomKey,
          Function.update w.room w.next (.new key.1 key.2) id = .new key'.1 key'.2)
      by_cases hid : id = w.next
      · rw [hid, Function.update_self]
        exact .inr ⟨rfl, key, rfl⟩
      · rw [Function.update_of_ne hid]
        exact .inl (.refl _)
  | addPeer conn pubkey version peerId =>
    obtain ⟨found, -, h⟩ := Option.bind_eq_some_iff.mp h
    split at h
    · next hfresh =>
      cases h
      cases hadd : (w.room found).addPeer pubkey version peerId with
      | error e => exact .of_room rfl rfl
      | ok slot => exact .put (Room.records_addPeer hfresh hadd) rfl rfl
    · cases h
  | addPeerAtIndex conn pubkey version index peerId =>
    obtain ⟨found, -, h⟩ := Option.bind_eq_some_iff.mp h
    split at h
    · next hfresh =>
      cases h
      cases hadd : (w.room found).addPeerAtIndex pubkey version index peerId with
      | error e => exact .of_room rfl rfl
      | ok r => exact .put (Room.records_addPeerAtIndex hfresh hadd) rfl rfl
    · cases h
  | giveUp conn =>
    cases h
    exact .of_room rfl rfl
  | removePeer found peerId =>
    rw [step] at h
    split_ifs at h
    cases h
    exact .put Room.records_removePeer rfl rfl
  | removePeerAndCheckEnded found peerId =>
    rw [step] at h
    split_ifs at h
    cases h
    have hrecords : (w.room found).Records ((w.room found).removePeerAndCheckEnded peerId).2 :=
      Room.records_removePeerAndCheckEnded
    refine .put hrecords ?_ ?_
    · rw [removePeerAndCheckEnded]
      split <;> rfl
    · rw [removePeerAndCheckEnded]
      split <;> simp only [*]
  | markEnded found =>
    rw [step] at h
    split_ifs at h
    cases h
    exact .put Room.records_markEnded rfl rfl
  | clearEnded found =>
    rw [step] at h
    split_ifs at h
    cases h
    exact .put Room.records_clearEnded rfl rfl
  | checkEmpty key =>
    rw [step] at h
    split_ifs at h
    obtain ⟨found, -, h⟩ := Option.bind_eq_some_iff.mp h
    split_ifs at h
    · cases h
      exact .of_room rfl rfl
    · cases h
      exact .of_room rfl rfl
  | finishRemoval key =>
    obtain ⟨found, -, h⟩ := Option.bind_eq_some_iff.mp h
    cases h
    exact .of_room rfl rfl

theorem Records.logged (h : w.Records w') (hinv : w.Inv) (hlogged : ∀ id, (w.room id).Logged) :
    ∀ id, (w'.room id).Logged := by
  intro id
  rcases h.2 id with hold | ⟨-, key, hnew⟩
  · exact hold.logged (hinv.sound id) (hlogged id)
  · rw [hnew]
    exact Room.logged_new key.1 key.2

theorem Records.appends (h : w.Records w') (hid : id < w.next) :
    (w.room id).rosterTx <+: (w'.room id).rosterTx := by
  rcases h.2 id with hold | ⟨hnew, -⟩
  · exact hold.appends
  · exact absurd hnew (Nat.ne_of_lt hid)

end World

end Buzz.Audio
