import Buzz.Lib.Hex
import Buzz.Lib.LastWriterWins
import Buzz.Nostr.Event
import Mathlib.Order.Fin.Basic

namespace Buzz.Engram

open Buzz.Lib Buzz.Nostr

def later (a b : Event) : Event :=
  if a.createdAt < b.createdAt then b
  else if b.createdAt < a.createdAt then a
  else if hexEncode b.id < hexEncode a.id then b
  else a

def selectHead : List Event → Option Event
  | [] => none
  | e :: events => some (events.foldl later e)

def saturatingSucc (t : Timestamp) : Timestamp := if t.toNat + 1 < 2 ^ 64 then t + 1 else t

def monotonicCreatedAt (now : Timestamp) : Option Timestamp → Timestamp
  | some t => if now ≤ saturatingSucc t then saturatingSucc t else now
  | none => now

def rank (e : Event) : ℕ × EventId := (e.createdAt.toNat, e.id)

/-- A greater `created_at`, or the same one and a lower id. -/
def Newer (a b : ℕ × EventId) : Prop := b.1 < a.1 ∨ a.1 = b.1 ∧ a.2 < b.2

instance : DecidableRel Newer := fun _ _ ↦ inferInstanceAs (Decidable (_ ∨ _))

variable {a b c : ℕ × EventId} {e head : Event} {events events' : List Event}

theorem newer_trans (hab : Newer a b) (hbc : Newer b c) : Newer a c := by
  rcases hab with hab | ⟨hab, hab'⟩
  · rcases hbc with hbc | ⟨hbc, -⟩
    · exact .inl (hbc.trans hab)
    · exact .inl (hbc ▸ hab)
  · rcases hbc with hbc | ⟨hbc, hbc'⟩
    · exact .inl (hab ▸ hbc)
    · exact .inr ⟨hab.trans hbc, hab'.trans hbc'⟩

instance : IsTrans (ℕ × EventId) Newer := ⟨fun _ _ _ ↦ newer_trans⟩

theorem newer_asymm (h : Newer a b) : ¬Newer b a := by
  rintro (h' | ⟨heq', hlt'⟩)
  · rcases h with h | ⟨heq, -⟩
    · exact lt_asymm h h'
    · exact h'.ne heq
  · rcases h with h | ⟨-, hlt⟩
    · exact h.ne heq'
    · exact lt_asymm hlt hlt'

instance : Std.Asymm Newer := ⟨fun _ _ ↦ newer_asymm⟩

theorem hexEncode_lt_iff {x y : EventId} : hexEncode x < hexEncode y ↔ x < y := by
  have hpow : (16 : ℕ) ^ 64 = 2 ^ 256 := by norm_num
  rw [String.lt_iff_toList_lt, hexEncode, hexEncode, String.toList_ofList, String.toList_ofList]
  exact Hex.hexDigits_lt_iff (by rw [hpow]; exact x.isLt) (by rw [hpow]; exact y.isLt)

theorem later_eq_or (a b : Event) : later a b = a ∨ later a b = b := by
  rw [later]
  split_ifs <;> simp

/-- The comparison of two events is a delivery to a register. -/
theorem lwwStep_later (a b : Event) :
    ∃ accepted, LwwStep Newer (rank b) (some (rank a)) (some (rank (later a b))) accepted := by
  rw [later]
  simp only [UInt64.lt_iff_toNat_lt, hexEncode_lt_iff]
  split_ifs with hlt hgt hid
  · exact ⟨true, .accept fun x hx ↦ Option.some.inj hx ▸ .inl hlt⟩
  · exact ⟨false, .refuse (.inr (.inl hgt))⟩
  · have heq : (rank b).1 = (rank a).1 := le_antisymm (not_lt.mp hlt) (not_lt.mp hgt)
    exact ⟨true, .accept fun x hx ↦ Option.some.inj hx ▸ .inr ⟨heq, hid⟩⟩
  · have heq : (rank a).1 = (rank b).1 := le_antisymm (not_lt.mp hgt) (not_lt.mp hlt)
    rw [not_lt] at hid
    obtain hlt | hid := hid.lt_or_eq
    · exact ⟨false, .refuse (.inr (.inr ⟨heq, hlt⟩))⟩
    · exact ⟨false, .refuse (.inl (Prod.ext heq hid))⟩

theorem selectHead_newest (events : List Event) :
    Newest Newer (events.map rank) ((selectHead events).map rank) := by
  cases events with
  | nil => rfl
  | cons e events => exact newest_foldl lwwStep_later e events

theorem mem_of_selectHead (h : selectHead events = some head) : head ∈ events := by
  cases events with
  | nil => nomatch h
  | cons e events =>
    rw [← Option.some.inj h]
    clear h
    induction events using List.reverseRecOn with
    | nil => exact List.mem_singleton_self e
    | append_singleton events b ih =>
      rw [List.foldl_append, List.foldl_cons, List.foldl_nil, ← List.cons_append, List.mem_append]
      rcases later_eq_or (events.foldl later e) b with h | h <;> rw [h]
      · exact .inl ih
      · exact .inr (List.mem_singleton_self b)

theorem map_selectHead_perm {α : Type} {f : Event → α} (hperm : events.Perm events')
    (hid : ∀ a ∈ events, ∀ b ∈ events, a.id = b.id → f a = f b) :
    (selectHead events).map f = (selectHead events').map f := by
  have hrank := (selectHead_newest events).unique (selectHead_newest events') (hperm.map rank)
  cases hhead : selectHead events with
  | none =>
    rw [hhead, Option.map_none, eq_comm, Option.map_eq_none_iff] at hrank
    rw [hrank]
  | some head =>
    rw [hhead, Option.map_some, eq_comm, Option.map_eq_some_iff] at hrank
    obtain ⟨head', hhead', heq⟩ := hrank
    have hmem' := hperm.mem_iff.mpr (mem_of_selectHead hhead')
    rw [hhead', Option.map_some, Option.map_some,
      hid head (mem_of_selectHead hhead) head' hmem' (congrArg Prod.snd heq).symm]

theorem lt_monotonicCreatedAt (now : Timestamp) {t : Timestamp} (h : t.toNat + 1 < 2 ^ 64) :
    t.toNat < (monotonicCreatedAt now (some t)).toNat := by
  have hsucc : (t + 1).toNat = t.toNat + 1 := by
    rw [UInt64.toNat_add, UInt64.toNat_one]
    exact Nat.mod_eq_of_lt h
  rw [monotonicCreatedAt, saturatingSucc, if_pos h]
  split_ifs with hnow
  · omega
  · rw [UInt64.le_iff_toNat_le] at hnow
    omega

theorem createdAt_le_of_selectHead (h : selectHead events = some head) (he : e ∈ events) :
    e.createdAt.toNat ≤ head.createdAt.toNat := by
  have hnewest := selectHead_newest events
  rw [h] at hnewest
  rcases hnewest.2 (rank e) (List.mem_map_of_mem he) with heq | hlt | ⟨heq, -⟩
  · exact (congrArg Prod.fst heq).ge
  · exact hlt.le
  · exact heq.ge

theorem selectHead_of_later (he : e ∈ events)
    (h : ∀ a ∈ events, a ≠ e → a.createdAt.toNat < e.createdAt.toNat) :
    selectHead events = some e := by
  cases hhead : selectHead events with
  | none =>
    cases events with
    | nil => nomatch he
    | cons => nomatch hhead
  | some head =>
    by_contra hne
    have hlt := h head (mem_of_selectHead hhead) fun heq ↦ hne (congrArg some heq)
    exact absurd (createdAt_le_of_selectHead hhead he) (not_le.mpr hlt)

/-- The head is the newest event whatever the order, up to what the id leaves open, and a write
at the monotonic time becomes the head. -/
theorem selectHead_write {α : Type} (f : Event → α) (now : Timestamp)
    (hperm : events.Perm events') (hid : ∀ a ∈ events, ∀ b ∈ events, a.id = b.id → f a = f b) :
    (selectHead events).map f = (selectHead events').map f ∧
    Newest Newer (events.map rank) ((selectHead events).map rank) ∧
    ∀ head, selectHead events = some head → head.createdAt.toNat < 2 ^ 64 - 1 →
      ∀ e, e.createdAt = monotonicCreatedAt now (some head.createdAt) →
        ∀ extended, extended.Perm (e :: events) → selectHead extended = some e := by
  refine ⟨map_selectHead_perm hperm hid, selectHead_newest events, ?_⟩
  intro head hhead hmax e he extended hextended
  apply selectHead_of_later (hextended.mem_iff.mpr List.mem_cons_self)
  intro a ha hne
  have hmem := (List.mem_cons.mp (hextended.mem_iff.mp ha)).resolve_left hne
  rw [he]
  exact (createdAt_le_of_selectHead hhead hmem).trans_lt
    (lt_monotonicCreatedAt now (Nat.add_lt_of_lt_sub hmax))

def note (id : EventId) (createdAt : Timestamp) : Event := ⟨id, 5, createdAt, 30174, [], "", 0⟩

theorem selectHead_write_tied :
    (selectHead [note 1 7, note 2 7]).map Event.content =
      (selectHead [note 2 7, note 1 7]).map Event.content :=
  (selectHead_write Event.content 0 (.swap (note 2 7) (note 1 7) []) (by decide)).1

end Buzz.Engram
