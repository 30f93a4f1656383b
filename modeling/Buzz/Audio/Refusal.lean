import Buzz.Audio.Control

namespace Buzz.Audio

open Buzz.Lib Buzz.Nostr Buzz.Relay.Tunnel

namespace World

def getUnambiguousByChannel (w : World) (channelId : Uuid) : Option ℕ :=
  match (List.range w.next).filter fun id ↦
    decide ((w.room id).channelId = channelId ∧ w.rooms (w.room id).key = some id) with
  | [id] => some id
  | _ => none

structure SameRooms (w w' : World) : Prop where
  known : ∀ key, (w'.rooms key).isSome = (w.rooms key).isSome
  found : ∀ channelId, w'.getUnambiguousByChannel channelId = w.getUnambiguousByChannel channelId

theorem SameRooms.of_eq {w w' : World} (hnext : w'.next = w.next) (hroom : w'.room = w.room)
    (hrooms : w'.rooms = w.rooms) : w.SameRooms w' where
  known key := by rw [hrooms]
  found channelId := by
    rw [getUnambiguousByChannel, getUnambiguousByChannel, hnext, hroom, hrooms]

theorem sameRooms_getOrCreate_iff {w w' : World} {conn : ℕ} {key : RoomKey}
    (h : w.step (.getOrCreate conn key) = some w') {new : Option ℕ} :
    w.SameRooms (w'.setJoining conn new) ↔ (w.rooms key).isSome = true := by
  rw [step] at h
  split_ifs at h
  cases hrooms : w.rooms key with
  | some id =>
    simp only [getOrCreate, hrooms] at h
    cases h
    exact iff_of_true (.of_eq rfl rfl rfl) rfl
  | none =>
    simp only [getOrCreate, hrooms] at h
    cases h
    refine iff_of_false (fun hsame ↦ ?_) Bool.noConfusion
    have hknown := hsame.known key
    rw [hrooms] at hknown
    change (Function.update w.rooms key (some w.next) key).isSome = _ at hknown
    rw [Function.update_self] at hknown
    exact Bool.noConfusion hknown

end World

namespace ControlLoop

variable {s s' : ControlLoop} {fenced : FencedHeader} {communityId : CommunityId} {pubkey : String}
  {version : UInt8} {draining : Bool} {e : MeshError} {peerId : Uuid}

/-- A registration that the directory answers with an error, if it is asked. -/
def refuse (s : ControlLoop) (fenced : FencedHeader) (communityId : CommunityId)
    (pubkey : String) (version : UInt8) (draining : Bool) (e : MeshError) (peerId : Uuid) :
    Option ControlLoop :=
  (s.step (.received (.data fenced (some (.registerPeer communityId pubkey version))) draining)).bind
    fun s ↦
      match s.phase with
      | .validating .. => s.step (.validated (.error e) peerId)
      | _ => some s

/-- The frame is turned away before the room is looked up. -/
def Unheard (s : ControlLoop) (fenced : FencedHeader) (communityId : CommunityId)
    (draining : Bool) : Prop :=
  fenced ≠ s.fenced ∨ s.streamCommunity.getD communityId ≠ communityId ∨ draining = true

theorem world_onValidated_error {rx : RosterRx} :
    (s.onValidated pubkey version rx peerId (.error e)).world = s.world.setJoining s.conn none := by
  rw [onValidated]
  split <;> rfl

theorem onRegisterPeer_cases (h : s.onRegisterPeer communityId pubkey version draining = some s') :
    ((s.streamCommunity.getD communityId ≠ communityId ∨ draining = true) ∧
        s'.world = s.world ∧ ∃ result, s'.phase = .closing result) ∨
      (s.streamCommunity.getD communityId = communityId ∧ draining = false ∧
        ∃ w id, s.world.step (.getOrCreate s.conn (communityId, s.fenced.sessionId)) = some w ∧
          w.joining s.conn = some id ∧ s' = { s with
            streamCommunity := some communityId
            world := w
            phase := .validating pubkey version (.subscribe w id) }) := by
  rw [onRegisterPeer] at h
  split_ifs at h with hlatched hdraining
  · cases h
    exact .inl ⟨.inl hlatched, rfl, _, rfl⟩
  · cases h
    exact .inl ⟨.inr hdraining, rfl, _, rfl⟩
  · obtain ⟨w, hw, h⟩ := Option.bind_eq_some_iff.mp h
    obtain ⟨id, hid, rfl⟩ := Option.map_eq_some_iff.mp h
    exact .inr ⟨not_not.mp hlatched, Bool.eq_false_iff.mpr hdraining, w, id, hw, hid, rfl⟩

/-- A refused registration leaves the rooms as they were iff it did not get to make one. -/
theorem refuse_sameRooms_iff (s s' : ControlLoop) (fenced : FencedHeader)
    (communityId : CommunityId) (pubkey : String) (version : UInt8) (draining : Bool)
    (e : MeshError) (peerId : Uuid)
    (h : s.refuse fenced communityId pubkey version draining e peerId = some s') :
    s.world.SameRooms s'.world ↔ s.Unheard fenced communityId draining ∨
      (s.world.rooms (communityId, s.fenced.sessionId)).isSome = true := by
  obtain ⟨s₁, hreceived, h⟩ := Option.bind_eq_some_iff.mp h
  rw [step] at hreceived
  split_ifs at hreceived with hserving
  rw [onReceived] at hreceived
  split_ifs at hreceived with hfenced
  · cases hreceived
    cases h
    exact iff_of_true (.of_eq rfl rfl rfl) (.inl (.inl hfenced))
  · rcases onRegisterPeer_cases hreceived with ⟨hunheard, hworld, result, hphase⟩ |
      ⟨hlatched, hdraining, w, id, hw, hid, rfl⟩
    · rw [hphase] at h
      cases h
      rw [hworld]
      exact iff_of_true (.of_eq rfl rfl rfl) (.inl (.inr hunheard))
    · rw [step] at h
      dsimp only at h
      split_ifs at h
      cases h
      rw [world_onValidated_error]
      refine (World.sameRooms_getOrCreate_iff hw).trans ⟨.inr, fun hcond ↦ ?_⟩
      refine hcond.resolve_left fun hunheard ↦ ?_
      rcases hunheard with hne | hne | hdrain
      · exact hfenced hne
      · exact hne hlatched
      · rw [hdraining] at hdrain
        exact Bool.noConfusion hdrain

def liveRoom : List ControlEvent :=
  [.other (.getOrCreate 1 (1, 7)), .other (.addPeer 1 "ann" 2 10)]

def afterLiveRoom : Option ControlLoop := (start 0 ⟨7, 3, 5⟩ 5).run liveRoom

def noLease : MeshError := .noActiveLease 7 3 0 5

theorem refuse_known_room :
    ∃ s s', afterLiveRoom = some s ∧
      s.refuse ⟨7, 3, 5⟩ 1 "bob" 2 false noLease 11 = some s' ∧ s.world.SameRooms s'.world := by
  obtain ⟨s, hs⟩ : ∃ s, afterLiveRoom = some s := Option.isSome_iff_exists.mp (by decide)
  have hrefuse : ((afterLiveRoom.bind fun s ↦ s.refuse ⟨7, 3, 5⟩ 1 "bob" 2 false noLease 11).isSome &&
      afterLiveRoom.all fun s ↦ (s.world.rooms (1, s.fenced.sessionId)).isSome) = true := by
    decide
  rw [hs, Option.bind_some, Option.all_some, Bool.and_eq_true] at hrefuse
  obtain ⟨s', hs'⟩ := Option.isSome_iff_exists.mp hrefuse.1
  exact ⟨s, s', hs, hs', (refuse_sameRooms_iff s s' _ _ _ _ _ _ _ hs').mpr (.inr hrefuse.2)⟩

/-- A registration that names the community 2 is rejected, and Ann's room gets no more media. -/
theorem refused_frame_silences_room :
    ∃ s s', afterLiveRoom = some s ∧
      validateFencedHeader (.empty 0) 2 ⟨7, 3, 5⟩ = .error noLease ∧
      s.refuse ⟨7, 3, 5⟩ 2 "bob" 2 false noLease 11 = some s' ∧
      s.world.getUnambiguousByChannel 7 = some 0 ∧ s'.world.getUnambiguousByChannel 7 = none ∧
      ¬s.world.SameRooms s'.world := by
  obtain ⟨s, hs⟩ : ∃ s, afterLiveRoom = some s := Option.isSome_iff_exists.mp (by decide)
  have hrefuse : ((afterLiveRoom.bind fun s ↦
      s.refuse ⟨7, 3, 5⟩ 2 "bob" 2 false noLease 11).any fun s' ↦
        decide (s'.world.getUnambiguousByChannel 7 = none)) = true := by
    decide
  have hlive : (afterLiveRoom.all fun s ↦
      decide (s.world.getUnambiguousByChannel 7 = some 0)) = true := by
    decide
  rw [hs] at hrefuse hlive
  obtain ⟨s', hs', hnone⟩ := (Option.any_eq_true _ _).mp hrefuse
  have hfound : s.world.getUnambiguousByChannel 7 = some 0 := of_decide_eq_true hlive
  have hlost : s'.world.getUnambiguousByChannel 7 = none := of_decide_eq_true hnone
  refine ⟨s, s', hs, rfl, hs', hfound, hlost, fun hsame ↦ ?_⟩
  rw [hsame.found, hfound] at hlost
  cases hlost

end ControlLoop

end Buzz.Audio
