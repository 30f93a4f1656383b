import Buzz.Audio.Rooms
import Buzz.Lib.Runs

namespace Buzz.Audio

open Buzz.Lib Buzz.Nostr

namespace World

variable {w w' : World} {op : Op} {key : RoomKey} {conn id : ℕ} {r r' : Room}

inductive Moves (w : World) : Op → World → Prop
  | still (op : Op) : Moves w op w
  | found (conn : ℕ) (key : RoomKey) (id : ℕ) : w.rooms key = some id → w.removing key = none →
      Moves w (.getOrCreate conn key) (w.setJoining conn (some id))
  | opened (conn : ℕ) (key : RoomKey) : w.rooms key = none → w.removing key = none →
      Moves w (.getOrCreate conn key) ((w.create key).setJoining conn (some w.next))
  | admitted (op : Op) (conn id : ℕ) (r : Room) : w.joining conn = some id →
      (w.room id).guard.ended = false → r.guard.ended = false → (w.room id).Evolves r →
      Moves w op ((w.setRoom id r).setJoining conn none)
  | gaveUp (conn : ℕ) : Moves w (.giveUp conn) (w.setJoining conn none)
  | left (op : Op) (id : ℕ) (r : Room) : (w.room id).Evolves r →
      r.guard.ended = (w.room id).guard.ended →
      ((w.room id).isEmpty = true → r.isEmpty = true) → Moves w op (w.setRoom id r)
  | told (op : Op) (id : ℕ) (r : Room) : (w.room id).Evolves r →
      (w.room id).guard.ended = false → r.guard.ended = true → r.isEmpty = true →
      Moves w op { w.setRoom id r with told := Function.update w.told id (w.told id + 1) }
  | marked (id : ℕ) : Moves w (.markEnded id) (w.markEnded id)
  | cleared (id : ℕ) : Moves w (.clearEnded id) (w.clearEnded id)
  | emptied (key : RoomKey) (id : ℕ) : w.rooms key = some id → (w.room id).isEmpty = true →
      Moves w (.checkEmpty key) { w with removing := Function.update w.removing key (some id) }
  | removed (key : RoomKey) (id : ℕ) : w.removing key = some id →
      Moves w (.finishRemoval key) { w with
        rooms := Function.update w.rooms key none
        removing := Function.update w.removing key none }

theorem moves_enter (hjoining : w.joining conn = some id)
    {admission : Except AdmissionError Room}
    (h : ∀ r, admission = .ok r → (w.room id).guard.ended = false ∧ r.guard.ended = false ∧
      (w.room id).Evolves r) : w.Moves op (w.enter conn id admission) := by
  cases hadmission : admission with
  | error err => exact .still op
  | ok r =>
    obtain ⟨hended, hended', hev⟩ := h r hadmission
    exact .admitted op conn id r hjoining hended hended' hev

theorem moves_getOrCreate (hremoving : w.removing key = none) :
    w.Moves (.getOrCreate conn key)
      ((w.getOrCreate key).2.setJoining conn (some (w.getOrCreate key).1)) := by
  cases hrooms : w.rooms key with
  | some id =>
    have heq : w.getOrCreate key = (id, w) := by rw [getOrCreate, hrooms]
    rw [heq]
    exact .found conn key id hrooms hremoving
  | none =>
    have heq : w.getOrCreate key = (w.next, w.create key) := by rw [getOrCreate, hrooms]
    rw [heq]
    exact .opened conn key hrooms hremoving

theorem moves_removePeerAndCheckEnded (peerId : Uuid) :
    w.Moves op (w.removePeerAndCheckEnded id peerId) := by
  have hev : (w.room id).Evolves ((w.room id).removePeerAndCheckEnded peerId).2 :=
    Room.evolves_removePeerAndCheckEnded
  rw [removePeerAndCheckEnded]
  rcases (w.room id).removePeerAndCheckEnded_cases peerId with
    ⟨-, heq⟩ | ⟨peer, -, ⟨hended, hempty, heq⟩ | ⟨-, heq⟩⟩
  · rw [heq] at hev ⊢
    exact .left op id _ hev rfl fun h ↦ h
  · rw [heq] at hev ⊢
    exact .told op id _ hev hended rfl hempty
  · rw [heq] at hev ⊢
    exact .left op id _ hev rfl Room.isEmpty_erase

theorem step_moves (h : w.step op = some w') : w.Moves op w' := by
  cases op with
  | getOrCreate conn key =>
    simp only [step] at h
    split at h
    · next hfree =>
      cases h
      exact moves_getOrCreate hfree.2
    · nomatch h
  | addPeer conn pubkey version peerId =>
    obtain ⟨id, hjoining, h⟩ := Option.bind_eq_some_iff.mp h
    split at h
    · next hfresh =>
      cases h
      refine moves_enter hjoining fun r hr ↦ ?_
      cases hadd : (w.room id).addPeer pubkey version peerId with
      | error err =>
        rw [hadd] at hr
        nomatch hr
      | ok slot =>
        rw [hadd] at hr
        cases hr
        obtain ⟨hended, -, pool, -, hinsert⟩ := Room.addPeer_eq_ok hadd
        refine ⟨hended, ?_, Room.evolves_addPeer hfresh hadd⟩
        rw [hinsert]
        exact hended
    · nomatch h
  | addPeerAtIndex conn pubkey version index peerId =>
    obtain ⟨id, hjoining, h⟩ := Option.bind_eq_some_iff.mp h
    split at h
    · next hfresh =>
      cases h
      refine moves_enter hjoining fun r hadd ↦ ?_
      obtain ⟨hended, -, -, hinsert⟩ := Room.addPeerAtIndex_eq_ok hadd
      refine ⟨hended, ?_, Room.evolves_addPeerAtIndex hfresh hadd⟩
      rw [hinsert]
      exact hended
    · nomatch h
  | giveUp conn =>
    cases h
    exact .gaveUp conn
  | removePeer id peerId =>
    simp only [step] at h
    split at h
    · cases h
      exact .left _ id _ Room.evolves_removePeer Room.ended_removePeer Room.isEmpty_removePeer
    · nomatch h
  | removePeerAndCheckEnded id peerId =>
    simp only [step] at h
    split at h
    · cases h
      exact moves_removePeerAndCheckEnded peerId
    · nomatch h
  | markEnded id =>
    simp only [step] at h
    split at h
    · cases h
      exact .marked id
    · nomatch h
  | clearEnded id =>
    simp only [step] at h
    split at h
    · cases h
      exact .cleared id
    · nomatch h
  | checkEmpty key =>
    simp only [step] at h
    split at h
    · obtain ⟨id, hrooms, h⟩ := Option.bind_eq_some_iff.mp h
      cases hempty : (w.room id).isEmpty with
      | true =>
        rw [hempty, if_pos rfl] at h
        cases h
        exact .emptied key id hrooms hempty
      | false =>
        rw [hempty, if_neg Bool.false_ne_true] at h
        cases h
        exact .still _
    · nomatch h
  | finishRemoval key =>
    obtain ⟨id, hremoving, h⟩ := Option.bind_eq_some_iff.mp h
    cases h
    exact .removed key id hremoving

/-- What holds in every run. -/
structure Inv (w : World) : Prop where
  sound : ∀ id, (w.room id).Sound
  told_le : ∀ id, w.told id ≤ 1
  ended_iff : ∀ id, (w.room id).guard.ended = true ↔ w.marked id = true ∨ w.told id = 1
  key_of : ∀ key id, w.rooms key = some id → (w.room id).key = key ∧ id < w.next
  removing_rooms : ∀ key id, w.removing key = some id → w.rooms key = some id
  joining_lt : ∀ conn id, w.joining conn = some id → id < w.next

theorem inv_start : start.Inv where
  sound _ := Room.sound_new 0 0
  told_le _ := Nat.zero_le 1
  ended_iff _ := by simp [start, Room.new, AdmissionGuard.new]
  key_of _ _ h := nomatch h
  removing_rooms _ _ h := nomatch h
  joining_lt _ _ h := nomatch h

theorem Inv.setJoining (h : w.Inv) {new : Option ℕ} (hnew : ∀ id, new = some id → id < w.next) :
    (w.setJoining conn new).Inv where
  sound := h.sound
  told_le := h.told_le
  ended_iff := h.ended_iff
  key_of := h.key_of
  removing_rooms := h.removing_rooms
  joining_lt other id hjoining := by
    change Function.update w.joining conn new other = some id at hjoining
    by_cases hother : other = conn
    · rw [hother, Function.update_self] at hjoining
      exact hnew id hjoining
    · rw [Function.update_of_ne hother] at hjoining
      exact h.joining_lt other id hjoining

theorem Inv.putRoom (h : w.Inv) (hev : (w.room id).Evolves r) {told : ℕ → ℕ} {marked : ℕ → Bool}
    (htold : ∀ other, other ≠ id → told other = w.told other)
    (hmarked : ∀ other, other ≠ id → marked other = w.marked other) (hle : told id ≤ 1)
    (hended : r.guard.ended = true ↔ marked id = true ∨ told id = 1) :
    { w.setRoom id r with told := told, marked := marked }.Inv where
  sound other := by
    change (Function.update w.room id r other).Sound
    by_cases hother : other = id
    · rw [hother, Function.update_self]
      exact hev.sound (h.sound id)
    · rw [Function.update_of_ne hother]
      exact h.sound other
  told_le other := by
    by_cases hother : other = id
    · rw [hother]
      exact hle
    · simp only [htold other hother]
      exact h.told_le other
  ended_iff other := by
    change (Function.update w.room id r other).guard.ended = true ↔ marked other = true ∨ told other = 1
    by_cases hother : other = id
    · rw [hother, Function.update_self]
      exact hended
    · rw [Function.update_of_ne hother, htold other hother, hmarked other hother]
      exact h.ended_iff other
  key_of key other hrooms := by
    obtain ⟨hkey, hlt⟩ := h.key_of key other hrooms
    refine ⟨?_, hlt⟩
    change (Function.update w.room id r other).key = key
    by_cases hother : other = id
    · rw [hother] at hkey ⊢
      rw [Function.update_self, hev.key]
      exact hkey
    · rw [Function.update_of_ne hother]
      exact hkey
  removing_rooms := h.removing_rooms
  joining_lt := h.joining_lt

theorem Inv.create (h : w.Inv) (hremoving : w.removing key = none) : (w.create key).Inv where
  sound id := by
    change (Function.update w.room w.next (.new key.1 key.2) id).Sound
    by_cases hid : id = w.next
    · rw [hid, Function.update_self]
      exact Room.sound_new key.1 key.2
    · rw [Function.update_of_ne hid]
      exact h.sound id
  told_le id := by
    change Function.update w.told w.next 0 id ≤ 1
    by_cases hid : id = w.next
    · rw [hid, Function.update_self]
      exact Nat.zero_le 1
    · rw [Function.update_of_ne hid]
      exact h.told_le id
  ended_iff id := by
    change (Function.update w.room w.next (.new key.1 key.2) id).guard.ended = true ↔
      Function.update w.marked w.next false id = true ∨ Function.update w.told w.next 0 id = 1
    by_cases hid : id = w.next
    · rw [hid, Function.update_self, Function.update_self, Function.update_self]
      simp [Room.new, AdmissionGuard.new]
    · rw [Function.update_of_ne hid, Function.update_of_ne hid, Function.update_of_ne hid]
      exact h.ended_iff id
  key_of key' id hrooms := by
    change Function.update w.rooms key (some w.next) key' = some id at hrooms
    change (Function.update w.room w.next (.new key.1 key.2) id).key = key' ∧ id < w.next + 1
    by_cases hkey : key' = key
    · rw [hkey, Function.update_self] at hrooms
      cases hrooms
      rw [hkey, Function.update_self]
      exact ⟨rfl, Nat.lt_succ_self _⟩
    · rw [Function.update_of_ne hkey] at hrooms
      obtain ⟨hroom, hlt⟩ := h.key_of key' id hrooms
      rw [Function.update_of_ne (Nat.ne_of_lt hlt)]
      exact ⟨hroom, Nat.lt_succ_of_lt hlt⟩
  removing_rooms key' id hid := by
    change Function.update w.rooms key (some w.next) key' = some id
    by_cases hkey : key' = key
    · rw [hkey] at hid
      nomatch hremoving.symm.trans hid
    · rw [Function.update_of_ne hkey]
      exact h.removing_rooms key' id hid
  joining_lt conn id hid := Nat.lt_succ_of_lt (h.joining_lt conn id hid)

theorem Inv.moves (h : w.Inv) (hmoves : w.Moves op w') : w'.Inv := by
  cases hmoves with
  | still => exact h
  | found conn key id hrooms hremoving =>
    refine h.setJoining fun id' hid' ↦ ?_
    cases hid'
    exact (h.key_of key id hrooms).2
  | opened conn key hrooms hremoving =>
    refine (h.create hremoving).setJoining fun id' hid' ↦ ?_
    cases hid'
    exact Nat.lt_succ_self _
  | admitted _ conn id r hjoining hended hended' hev =>
    have hroom := h.ended_iff id
    rw [hended, ← hended'] at hroom
    have hput := h.putRoom hev (fun _ _ ↦ rfl) (fun _ _ ↦ rfl) (h.told_le id) hroom
    exact hput.setJoining fun _ hid' ↦ nomatch hid'
  | gaveUp conn => exact h.setJoining fun _ hid' ↦ nomatch hid'
  | left _ id r hev hended hempty =>
    have hroom := h.ended_iff id
    rw [← hended] at hroom
    exact h.putRoom hev (fun _ _ ↦ rfl) (fun _ _ ↦ rfl) (h.told_le id) hroom
  | told _ id r hev hended hended' hempty =>
    have htold : w.told id = 0 := by
      have hle := h.told_le id
      have hne : ¬w.told id = 1 := fun heq ↦ by
        rw [(h.ended_iff id).mpr (.inr heq)] at hended
        exact Bool.noConfusion hended
      omega
    refine h.putRoom hev (fun _ hne ↦ Function.update_of_ne hne ..) (fun _ _ ↦ rfl) ?_ ?_
    · rw [Function.update_self, htold]
    · rw [Function.update_self, htold]
      exact iff_of_true hended' (.inr rfl)
  | marked id =>
    refine h.putRoom Room.evolves_markEnded (fun _ _ ↦ rfl)
      (fun _ hne ↦ Function.update_of_ne hne ..) (h.told_le id) ?_
    rw [Function.update_self]
    exact iff_of_true rfl (.inl rfl)
  | cleared id =>
    refine h.putRoom Room.evolves_clearEnded (fun _ hne ↦ Function.update_of_ne hne ..)
      (fun _ hne ↦ Function.update_of_ne hne ..) ?_ ?_
    · rw [Function.update_self]
      exact Nat.zero_le 1
    · rw [Function.update_self, Function.update_self]
      simp [Room.clearEnded]
  | emptied key id hrooms hempty =>
    refine { h with removing_rooms := fun key' id' hid' ↦ ?_ }
    change Function.update w.removing key (some id) key' = some id' at hid'
    by_cases hkey : key' = key
    · rw [hkey, Function.update_self] at hid'
      cases hid'
      rw [hkey]
      exact hrooms
    · rw [Function.update_of_ne hkey] at hid'
      exact h.removing_rooms key' id' hid'
  | removed key id hremoving =>
    refine { h with key_of := fun key' id' hid' ↦ ?_, removing_rooms := fun key' id' hid' ↦ ?_ }
    · change Function.update w.rooms key none key' = some id' at hid'
      by_cases hkey : key' = key
      · rw [hkey, Function.update_self] at hid'
        nomatch hid'
      · rw [Function.update_of_ne hkey] at hid'
        exact h.key_of key' id' hid'
    · change Function.update w.removing key none key' = some id' at hid'
      change Function.update w.rooms key none key' = some id'
      by_cases hkey : key' = key
      · rw [hkey, Function.update_self] at hid'
        nomatch hid'
      · rw [Function.update_of_ne hkey] at hid' ⊢
        exact h.removing_rooms key' id' hid'

/-- No step loses a room, and its roster can be followed. -/
def Grows (w w' : World) : Prop :=
  w.next ≤ w'.next ∧ ∀ id < w.next, (w.room id).Delivers (w'.room id)

theorem Grows.refl (w : World) : w.Grows w := ⟨le_rfl, fun id _ ↦ .refl (w.room id)⟩

theorem Grows.trans {w'' : World} (h : w.Grows w') (h' : w'.Grows w'') : w.Grows w'' :=
  ⟨h.1.trans h'.1, fun id hid ↦ (h.2 id hid).trans (h'.2 id (hid.trans_le h.1))⟩

theorem Inv.grows_setRoom (h : w.Inv) (hev : (w.room id).Evolves r) : w.Grows (w.setRoom id r) := by
  refine ⟨le_rfl, fun other _ ↦ ?_⟩
  change (w.room other).Delivers (Function.update w.room id r other)
  by_cases hother : other = id
  · rw [hother, Function.update_self]
    exact hev.delivers (h.sound id)
  · rw [Function.update_of_ne hother]
    exact .refl _

theorem Inv.grows (h : w.Inv) (hmoves : w.Moves op w') : w.Grows w' := by
  cases hmoves with
  | still => exact .refl w
  | found => exact .refl w
  | opened conn key _ _ =>
    refine ⟨Nat.le_succ _, fun id hid ↦ ?_⟩
    change (w.room id).Delivers (Function.update w.room w.next (.new key.1 key.2) id)
    rw [Function.update_of_ne (Nat.ne_of_lt hid)]
    exact .refl _
  | admitted _ conn id r _ _ _ hev => exact h.grows_setRoom hev
  | gaveUp => exact .refl w
  | left _ id r hev _ _ => exact h.grows_setRoom hev
  | told _ id r hev _ _ _ => exact h.grows_setRoom hev
  | marked id => exact h.grows_setRoom Room.evolves_markEnded
  | cleared id => exact h.grows_setRoom Room.evolves_clearEnded
  | emptied => exact .refl w
  | removed => exact .refl w

/-- A room that the manager has given up is empty, and nobody can be admitted to it. -/
def Standing (w : World) : Prop :=
  ∀ id < w.next, w.Kept id ∨
    (w.room id).isEmpty = true ∧ ((w.room id).guard.ended = true ∨ ¬w.Awaited id)

theorem standing_start : start.Standing := fun _ h ↦ nomatch h

theorem Awaited.of_setJoining {new : Option ℕ} (h : (w.setJoining conn new).Awaited id) :
    new = some id ∨ w.Awaited id := by
  obtain ⟨conn', hconn'⟩ := h
  change Function.update w.joining conn new conn' = some id at hconn'
  by_cases heq : conn' = conn
  · rw [heq, Function.update_self] at hconn'
    exact .inl hconn'
  · rw [Function.update_of_ne heq] at hconn'
    exact .inr ⟨conn', hconn'⟩

theorem Standing.setJoining (h : w.Standing) {new : Option ℕ}
    (hnew : ∀ id, new = some id → w.Kept id) : (w.setJoining conn new).Standing := by
  intro id hid
  rcases h id hid with hkept | ⟨hempty, hgone⟩
  · exact .inl hkept
  by_cases hid' : new = some id
  · exact .inl (hnew id hid')
  · exact .inr ⟨hempty, hgone.imp_right fun hnot hawait ↦
      hnot (hawait.of_setJoining.resolve_left hid')⟩

theorem Standing.putRoom (h : w.Standing) (hev : (w.room id).Evolves r) {told : ℕ → ℕ}
    {marked : ℕ → Bool}
    (hroom : id < w.next →
      w.Kept id ∨ r.isEmpty = true ∧ (r.guard.ended = true ∨ ¬w.Awaited id)) :
    { w.setRoom id r with told := told, marked := marked }.Standing := by
  intro other hother
  change (w.rooms (Function.update w.room id r other).key = some other ∧
      w.removing (Function.update w.room id r other).key = none) ∨
    (Function.update w.room id r other).isEmpty = true ∧
      ((Function.update w.room id r other).guard.ended = true ∨ ¬w.Awaited other)
  by_cases heq : other = id
  · rw [heq] at hother ⊢
    rw [Function.update_self, hev.key]
    exact hroom hother
  · rw [Function.update_of_ne heq]
    exact h other hother

theorem Standing.create (h : w.Standing) (hrooms : w.rooms key = none)
    (hremoving : w.removing key = none) : (w.create key).Standing := by
  intro id hid
  change (Function.update w.rooms key (some w.next)
      (Function.update w.room w.next (.new key.1 key.2) id).key = some id ∧
      w.removing (Function.update w.room w.next (.new key.1 key.2) id).key = none) ∨
    (Function.update w.room w.next (.new key.1 key.2) id).isEmpty = true ∧
      ((Function.update w.room w.next (.new key.1 key.2) id).guard.ended = true ∨ ¬w.Awaited id)
  by_cases heq : id = w.next
  · rw [heq, Function.update_self]
    exact .inl ⟨Function.update_self .., hremoving⟩
  · rw [Function.update_of_ne heq]
    rcases h id (Nat.lt_of_le_of_ne (Nat.le_of_lt_succ hid) heq) with hkept | hgone
    · refine .inl ⟨?_, hkept.2⟩
      have hkey : (w.room id).key ≠ key := fun hkey ↦ by
        rw [Kept, hkey] at hkept
        nomatch hrooms.symm.trans hkept.1
      rw [Function.update_of_ne hkey]
      exact hkept.1
    · exact .inr hgone

theorem Standing.moves (h : w.Standing) (hinv : w.Inv) (hmoves : w.Moves op w')
    (hop : w.Considerate op) : w'.Standing := by
  cases hmoves with
  | still => exact h
  | found conn key id hrooms hremoving =>
    refine h.setJoining fun id' hid' ↦ ?_
    cases hid'
    obtain ⟨hkey, -⟩ := hinv.key_of key id hrooms
    rw [Kept, hkey]
    exact ⟨hrooms, hremoving⟩
  | opened conn key hrooms hremoving =>
    refine (h.create hrooms hremoving).setJoining fun id' hid' ↦ ?_
    cases hid'
    change Function.update w.rooms key (some w.next)
        (Function.update w.room w.next (.new key.1 key.2) w.next).key = some w.next ∧
      w.removing (Function.update w.room w.next (.new key.1 key.2) w.next).key = none
    rw [Function.update_self]
    exact ⟨Function.update_self .., hremoving⟩
  | admitted _ conn id r hjoining hended hended' hev =>
    have hkept : w.Kept id := by
      refine (h id (hinv.joining_lt conn id hjoining)).resolve_right fun hgone ↦ ?_
      rcases hgone.2 with hended'' | hnot
      · rw [hended''] at hended
        exact Bool.noConfusion hended
      · exact hnot ⟨conn, hjoining⟩
    have hput := @Standing.putRoom w id r h hev w.told w.marked fun _ ↦ .inl hkept
    exact hput.setJoining fun _ hid' ↦ nomatch hid'
  | gaveUp conn => exact h.setJoining fun _ hid' ↦ nomatch hid'
  | left _ id r hev hended hempty =>
    refine h.putRoom hev fun hid ↦ (h id hid).imp_right fun hgone ↦ ?_
    rw [hended]
    exact ⟨hempty hgone.1, hgone.2⟩
  | told _ id r hev hended hended' hempty =>
    exact h.putRoom hev fun hid ↦ (h id hid).imp_right fun _ ↦ ⟨hempty, .inl hended'⟩
  | marked id =>
    exact h.putRoom Room.evolves_markEnded fun hid ↦
      (h id hid).imp_right fun hgone ↦ ⟨hgone.1, .inl rfl⟩
  | cleared id =>
    refine h.putRoom Room.evolves_clearEnded fun hid ↦ ?_
    rcases hop with hkept | hnot
    · exact .inl hkept
    · exact (h id hid).imp_right fun hgone ↦ ⟨hgone.1, .inr hnot⟩
  | emptied key id hrooms hempty =>
    intro other hother
    by_cases heq : other = id
    · rw [heq]
      exact .inr ⟨hempty, hop id hrooms hempty⟩
    · refine (h other hother).imp_left fun hkept ↦ ⟨hkept.1, ?_⟩
      have hkey : (w.room other).key ≠ key := fun hkey ↦ by
        rw [Kept, hkey, hrooms] at hkept
        exact heq (Option.some.inj hkept.1).symm
      exact (Function.update_of_ne hkey ..).trans hkept.2
  | removed key id hremoving =>
    intro other hother
    refine (h other hother).imp_left fun hkept ↦ ?_
    have hkey : (w.room other).key ≠ key := fun hkey ↦ by
      rw [Kept, hkey, hremoving] at hkept
      nomatch hkept.2
    exact ⟨(Function.update_of_ne hkey ..).trans hkept.1,
      (Function.update_of_ne hkey ..).trans hkept.2⟩

theorem run_concat {ops : List Op} :
    start.run (ops ++ [op]) = some w' ↔ ∃ w, start.run ops = some w ∧ w.step op = some w' :=
  foldlM_concat_eq_some

theorem Inv.run {ops : List Op} (h : w.Inv) (hrun : w.run ops = some w') :
    w'.Inv ∧ w.Grows w' := by
  induction ops generalizing w with
  | nil =>
    cases hrun
    exact ⟨h, .refl _⟩
  | cons op ops ih =>
    obtain ⟨w₁, hstep, hrest⟩ := Option.bind_eq_some_iff.mp hrun
    have hmoves := step_moves hstep
    obtain ⟨hinv, hgrows⟩ := ih (h.moves hmoves) hrest
    exact ⟨hinv, (h.grows hmoves).trans hgrows⟩

theorem Standing.run {ops : List Op} (hrun : start.run ops = some w)
    (hconsiderate : ∀ pre op w₀, pre ++ [op] <+: ops → start.run pre = some w₀ →
      w₀.Considerate op) : w.Standing := by
  induction ops using List.reverseRecOn generalizing w with
  | nil =>
    cases hrun
    exact standing_start
  | append_singleton ops op ih =>
    obtain ⟨w₁, hpre, hstep⟩ := run_concat.mp hrun
    have hstanding := ih hpre fun pre op' w₀ hop' ↦
      hconsiderate pre op' w₀ (hop'.trans (List.prefix_append ops [op]))
    exact hstanding.moves (inv_start.run hpre).1 (step_moves hstep)
      (hconsiderate ops op w₁ (List.prefix_refl _) hpre)

end World

/-- Indices are distinct, the peers of a room are limited, an ended room admits nobody and was
ended by one remover, and the deltas replay onto a snapshot, in every run. As long as no open room
is removed while a connection waits for it, every peer is in the room that the manager has. -/
theorem rooms_coherent {ops : List Op} {w : World} (h : World.start.run ops = some w)
    (hconsiderate : ∀ pre op w₀, pre ++ [op] <+: ops → World.start.run pre = some w₀ →
      w₀.Considerate op) :
    (∀ id, (w.room id).indices.Nodup ∧ (w.room id).len ≤ MAX_PEERS_PER_ROOM) ∧
    (∀ id, (w.room id).guard.ended = true → ∀ pubkey version index peerId,
      (w.room id).addPeer pubkey version peerId = .error .ended ∧
        (w.room id).addPeerAtIndex pubkey version index peerId = .error .ended) ∧
    (∀ id, w.told id ≤ 1 ∧
      ((w.room id).guard.ended = true ↔ w.marked id = true ∨ w.told id = 1)) ∧
    (∀ ops' w', w.run ops' = some w' → ∀ id < w.next,
      ∃ later, (w'.room id).rosterTx = (w.room id).rosterTx ++ later ∧
        later.foldlM RosterView.receive (w.room id).rosterSnapshot.view =
          some (w'.room id).rosterSnapshot.view) ∧
    ∀ id < w.next, ∀ peerId peer, (w.room id).peers.lookup peerId = some peer →
      w.rooms (w.room id).key = some id := by
  have hinv := (World.inv_start.run h).1
  have hstanding := World.Standing.run h hconsiderate
  refine ⟨fun id ↦ ⟨(hinv.sound id).covers.used_nodup, (hinv.sound id).le_max⟩,
    fun id hended pubkey version index peerId ↦
      ⟨Room.addPeer_of_ended hended, Room.addPeerAtIndex_of_ended hended⟩,
    fun id ↦ ⟨hinv.told_le id, hinv.ended_iff id⟩, fun ops' w' hrun id hid ↦ ?_,
    fun id hid peerId peer hpeer ↦ ?_⟩
  · obtain ⟨hinv', hgrows⟩ := hinv.run hrun
    rw [(hinv.sound id).view_rosterSnapshot, (hinv'.sound id).view_rosterSnapshot]
    exact hgrows.2 id hid
  · rcases hstanding id hid with hkept | ⟨hempty, -⟩
    · exact hkept.1
    · nomatch (Room.isEmpty_iff.mp hempty peerId).symm.trans hpeer

/-- The last peer leaves, the room is removed, and somebody joins again. -/
def rejoin : List Op :=
  [.getOrCreate 0 (1, 2), .addPeer 0 "a" 2 10, .removePeerAndCheckEnded 0 10, .checkEmpty (1, 2),
    .finishRemoval (1, 2), .getOrCreate 1 (1, 2), .addPeer 1 "b" 1 11]

theorem rooms_coherent_rejoin :
    ∃ w, World.start.run rejoin = some w ∧ w.told 0 = 1 ∧ w.rooms (w.room 1).key = some 1 := by
  obtain ⟨w, hw⟩ : ∃ w, World.start.run rejoin = some w := Option.isSome_iff_exists.mp (by decide)
  have hend : (World.start.run rejoin).all fun w ↦ decide (w.told 0 = 1 ∧ 1 < w.next ∧
      (w.room 1).peers.lookup 11 = some ⟨"b", 0⟩) := by
    decide
  rw [hw] at hend
  obtain ⟨htold, hlt, hpeer⟩ := of_decide_eq_true hend
  refine ⟨w, hw, htold, (rooms_coherent hw fun pre op w₀ hpre hw₀ ↦ ?_).2.2.2.2 1 hlt 11 _ hpeer⟩
  have hop : rejoin[pre.length]? = some op := by
    obtain ⟨rest, hrest⟩ := hpre
    rw [← hrest]
    simp
  cases op with
  | checkEmpty key =>
    have hlen : pre.length = 3 := by
      have hlt : pre.length < 7 := (List.getElem?_eq_some_iff.mp hop).1
      interval_cases pre.length <;> first | rfl | cases hop
    obtain rfl : pre = rejoin.take 3 := by
      rw [← hlen]
      exact List.prefix_iff_eq_take.mp ((List.prefix_append pre [_]).trans hpre)
    rw [hlen] at hop
    cases hop
    have hended : (World.start.run (rejoin.take 3)).all fun w ↦
        decide (w.rooms (1, 2) = some 0 ∧ (w.room 0).guard.ended = true) := by
      decide
    rw [hw₀] at hended
    obtain ⟨hrooms, hended⟩ := of_decide_eq_true hended
    intro id hid _
    cases hrooms.symm.trans hid
    exact .inl hended
  | clearEnded id =>
    have hlt : pre.length < 7 := (List.getElem?_eq_some_iff.mp hop).1
    interval_cases pre.length <;> cases hop
  | _ => trivial

/-- A join that is turned away cleans up between the lookup and the admission of another. -/
def crossedCleanup : List Op :=
  [.getOrCreate 0 (1, 2), .getOrCreate 1 (1, 2), .giveUp 1, .checkEmpty (1, 2),
    .finishRemoval (1, 2), .addPeer 0 "a" 2 10, .getOrCreate 2 (1, 2), .addPeer 2 "c" 2 11]

/-- The first peer is left in a room that the manager no longer has, and the next one is in
another room of the same channel. -/
theorem crossed_cleanup_orphans_room :
    ∃ w, World.start.run crossedCleanup = some w ∧
      (w.room 0).peers.lookup 10 = some ⟨"a", 0⟩ ∧ (w.room 1).peers.lookup 11 = some ⟨"c", 0⟩ ∧
      (w.room 0).key = (1, 2) ∧ (w.room 1).key = (1, 2) ∧
      w.rooms (1, 2) = some 1 ∧
      ¬∀ id < w.next, ∀ peerId peer, (w.room id).peers.lookup peerId = some peer →
        w.rooms (w.room id).key = some id := by
  obtain ⟨w, hw⟩ : ∃ w, World.start.run crossedCleanup = some w :=
    Option.isSome_iff_exists.mp (by decide)
  have hend : (World.start.run crossedCleanup).all fun w ↦ decide (0 < w.next ∧
      (w.room 0).peers.lookup 10 = some ⟨"a", 0⟩ ∧ (w.room 1).peers.lookup 11 = some ⟨"c", 0⟩ ∧
      (w.room 0).key = (1, 2) ∧ (w.room 1).key = (1, 2) ∧ w.rooms (1, 2) = some 1) := by
    decide
  rw [hw] at hend
  obtain ⟨hlt, hpeer, hpeer', hkey, hkey', hrooms⟩ := of_decide_eq_true hend
  refine ⟨w, hw, hpeer, hpeer', hkey, hkey', hrooms, fun hmapped ↦ ?_⟩
  have hzero := hmapped 0 hlt 10 _ hpeer
  rw [hkey, hrooms] at hzero
  nomatch hzero

end Buzz.Audio
