import Mathlib.Data.Nat.Basic
import Mathlib.Data.List.Basic
import Mathlib.Algebra.BigOperators.Group.List.Basic
import Mathlib.Algebra.GroupWithZero.Nat

namespace Buzz.Lib.Utf8

def len (text : List Char) : ℕ := (text.map Char.utf8Size).sum

def encode (text : List Char) : List UInt8 := text.flatMap String.utf8EncodeChar

def isCharBoundary : List Char → ℕ → Bool
  | _, 0 => true
  | [], _ + 1 => false
  | c :: text, i + 1 => c.utf8Size ≤ i + 1 && isCharBoundary text (i + 1 - c.utf8Size)

def sliceTo : List Char → ℕ → List Char
  | [], _ => []
  | c :: text, i => if c.utf8Size ≤ i then c :: sliceTo text (i - c.utf8Size) else []

def sliceFrom : List Char → ℕ → List Char
  | [], _ => []
  | c :: text, i => if c.utf8Size ≤ i then sliceFrom text (i - c.utf8Size) else c :: text

variable {text text' : List Char} {i j : ℕ}

@[simp] theorem len_nil : len [] = 0 := rfl

@[simp] theorem len_cons (c : Char) (text : List Char) :
    len (c :: text) = c.utf8Size + len text := by
  simp [len]

@[simp] theorem len_append (text text' : List Char) :
    len (text ++ text') = len text + len text' := by
  simp [len]

theorem len_of_utf8Size {text : List Char} (h : ∀ c ∈ text, c.utf8Size = 1) :
    len text = text.length := by
  induction text with
  | nil => rfl
  | cons c text ih =>
    rw [len_cons, h c List.mem_cons_self, ih fun c hc ↦ h c (List.mem_cons_of_mem _ hc),
      List.length_cons, Nat.add_comm]

@[simp] theorem encode_nil : encode [] = [] := rfl

@[simp] theorem encode_cons (c : Char) (text : List Char) :
    encode (c :: text) = String.utf8EncodeChar c ++ encode text := rfl

@[simp] theorem encode_append (text text' : List Char) :
    encode (text ++ text') = encode text ++ encode text' := List.flatMap_append

theorem length_encode (text : List Char) : (encode text).length = len text := by
  induction text with
  | nil => rfl
  | cons c text ih => rw [encode_cons, List.length_append, String.length_utf8EncodeChar, ih, len_cons]

theorem encode_injective : Function.Injective encode := by
  intro text text' h
  induction text generalizing text' with
  | nil =>
    cases text' with
    | nil => rfl
    | cons c text' =>
      have hlen := congrArg List.length h
      have hpos := c.utf8Size_pos
      simp only [length_encode, len_nil, len_cons] at hlen
      omega
  | cons c text ih =>
    cases text' with
    | nil =>
      have hlen := congrArg List.length h
      have hpos := c.utf8Size_pos
      simp only [length_encode, len_nil, len_cons] at hlen
      omega
    | cons d text' =>
      have hfirst (c : Char) (text : List Char) :
          (encode (c :: text)).toByteArray.utf8DecodeChar? 0 = some c := by
        rw [encode_cons, List.toByteArray_append]
        exact ByteArray.utf8DecodeChar?_utf8EncodeChar_append
      obtain rfl : c = d := by
        have hc := hfirst c text
        rw [h, hfirst] at hc
        exact (Option.some.inj hc).symm
      rw [ih (List.append_cancel_left h)]

/-- The bytes of a character above an ASCII one are above it too. -/
theorem lt_of_mem_utf8EncodeChar {c : Char} {n : ℕ} (hn : n < 128) (hc : n < c.toNat) {b : UInt8}
    (hb : b ∈ String.utf8EncodeChar c) : n < b.toNat := by
  have hval : c.val.toNat = c.toNat := rfl
  simp only [String.utf8EncodeChar, hval] at hb
  split_ifs at hb with hone htwo hthree
  all_goals
    simp only [List.mem_cons, List.not_mem_nil, or_false] at hb
    rcases hb with rfl | rfl | rfl | rfl
  all_goals
    simp only [UInt8.toNat_ofNat']
    omega

theorem lt_of_mem_encode {n : ℕ} (hn : n < 128) (h : ∀ c ∈ text, n < c.toNat) {b : UInt8}
    (hb : b ∈ encode text) : n < b.toNat := by
  obtain ⟨c, hc, hb⟩ := List.mem_flatMap.mp hb
  exact lt_of_mem_utf8EncodeChar hn (h c hc) hb

theorem len_replicate (n : ℕ) (c : Char) : len (List.replicate n c) = n * c.utf8Size := by
  simp [len]

theorem isCharBoundary_succ (c : Char) (text : List Char) (i : ℕ) :
    isCharBoundary (c :: text) (i + 1) =
      (decide (c.utf8Size ≤ i + 1) && isCharBoundary text (i + 1 - c.utf8Size)) := rfl

theorem sliceTo_cons (c : Char) (text : List Char) (i : ℕ) : sliceTo (c :: text) i =
    if c.utf8Size ≤ i then c :: sliceTo text (i - c.utf8Size) else [] := rfl

theorem sliceFrom_cons (c : Char) (text : List Char) (i : ℕ) : sliceFrom (c :: text) i =
    if c.utf8Size ≤ i then sliceFrom text (i - c.utf8Size) else c :: text := rfl

theorem sliceTo_append_sliceFrom (text : List Char) (i : ℕ) :
    sliceTo text i ++ sliceFrom text i = text := by
  induction text generalizing i with
  | nil => rfl
  | cons c text ih =>
    rw [sliceTo_cons, sliceFrom_cons]
    split
    · rw [List.cons_append, ih]
    · rfl

@[simp] theorem isCharBoundary_zero (text : List Char) : isCharBoundary text 0 = true := by
  cases text <;> rfl

theorem isCharBoundary_cons (c : Char) (h : c.utf8Size ≤ i) :
    isCharBoundary (c :: text) i = isCharBoundary text (i - c.utf8Size) := by
  have hpos := c.utf8Size_pos
  obtain ⟨i, rfl⟩ := Nat.exists_eq_add_one_of_ne_zero (by omega : i ≠ 0)
  simp [isCharBoundary_succ, h]

theorem len_sliceTo (h : isCharBoundary text i = true) : len (sliceTo text i) = i := by
  induction text generalizing i with
  | nil =>
    cases i with
    | zero => rfl
    | succ i => nomatch h
  | cons c text ih =>
    rw [sliceTo_cons]
    split
    case isTrue hle =>
      rw [isCharBoundary_cons c hle] at h
      rw [len_cons, ih h]
      omega
    case isFalse hle =>
      cases i with
      | zero => rfl
      | succ i => simp [isCharBoundary_succ, hle] at h

theorem len_sliceFrom (h : isCharBoundary text i = true) :
    len (sliceFrom text i) = len text - i := by
  have hlen := congrArg len (sliceTo_append_sliceFrom text i)
  rw [len_append, len_sliceTo h] at hlen
  omega

theorem isCharBoundary_append (text text' : List Char) :
    isCharBoundary (text ++ text') (len text) = true := by
  induction text with
  | nil => exact isCharBoundary_zero text'
  | cons c text ih =>
    rw [List.cons_append, len_cons, isCharBoundary_cons c (Nat.le_add_right _ _),
      Nat.add_sub_cancel_left, ih]

theorem sliceTo_append (text text' : List Char) : sliceTo (text ++ text') (len text) = text := by
  induction text with
  | nil =>
    cases text' with
    | nil => rfl
    | cons c text' =>
      have hpos := c.utf8Size_pos
      simp [sliceTo_cons]
      omega
  | cons c text ih =>
    rw [List.cons_append, len_cons, sliceTo_cons, if_pos (Nat.le_add_right _ _),
      Nat.add_sub_cancel_left, ih]

theorem sliceFrom_append (text text' : List Char) :
    sliceFrom (text ++ text') (len text) = text' := by
  have hsplit := sliceTo_append_sliceFrom (text ++ text') (len text)
  rw [sliceTo_append] at hsplit
  exact List.append_cancel_left hsplit

/-- A text is cut in one way into a part of so many bytes and the rest. -/
theorem append_inj {rest rest' : List Char} (h : text ++ rest = text' ++ rest')
    (hlen : len text = len text') : text = text' ∧ rest = rest' := by
  have hto := sliceTo_append text rest
  have hfrom := sliceFrom_append text rest
  rw [h, hlen] at hto hfrom
  exact ⟨hto.symm.trans (sliceTo_append _ _), hfrom.symm.trans (sliceFrom_append _ _)⟩

theorem isCharBoundary_len (text : List Char) : isCharBoundary text (len text) = true := by
  simpa using isCharBoundary_append text []

theorem sliceTo_prefix (text : List Char) (hij : i ≤ j) : sliceTo text i <+: sliceTo text j := by
  induction text generalizing i j with
  | nil => exact List.prefix_rfl
  | cons c text ih =>
    rw [sliceTo_cons, sliceTo_cons]
    split
    case isTrue hle =>
      rw [if_pos (hle.trans hij)]
      exact (List.prefix_cons_inj c).mpr (ih (Nat.sub_le_sub_right hij _))
    case isFalse => exact List.nil_prefix

/-- Two boundaries cut a text in three. -/
theorem exists_middle (hi : isCharBoundary text i = true) (hj : isCharBoundary text j = true)
    (hij : i ≤ j) : ∃ mid, text = sliceTo text i ++ mid ++ sliceFrom text j ∧ len mid = j - i := by
  obtain ⟨mid, hmid⟩ := sliceTo_prefix text hij
  refine ⟨mid, by rw [hmid, sliceTo_append_sliceFrom], ?_⟩
  have hlen := congrArg len hmid
  rw [len_append, len_sliceTo hi, len_sliceTo hj] at hlen
  omega

def floorCharBoundary (text : List Char) : ℕ → ℕ
  | 0 => 0
  | i + 1 => if isCharBoundary text (i + 1) then i + 1 else floorCharBoundary text i

def ceilCharBoundary (text : List Char) (i : ℕ) : ℕ :=
  if i < len text ∧ isCharBoundary text i = false then ceilCharBoundary text (i + 1) else i
termination_by len text - i

theorem isCharBoundary_floor (text : List Char) (i : ℕ) :
    isCharBoundary text (floorCharBoundary text i) = true := by
  induction i with
  | zero => cases text <;> rfl
  | succ i ih =>
    rw [floorCharBoundary]
    split
    · assumption
    · exact ih

theorem floor_le (text : List Char) (i : ℕ) : floorCharBoundary text i ≤ i := by
  induction i with
  | zero => exact le_rfl
  | succ i ih =>
    rw [floorCharBoundary]
    split
    · exact le_rfl
    · omega

theorem floor_of_boundary (h : isCharBoundary text i = true) : floorCharBoundary text i = i := by
  cases i with
  | zero => rfl
  | succ i => rw [floorCharBoundary, if_pos h]

theorem ceil_next (hlt : i < len text) (hnext : isCharBoundary text i = false) :
    ceilCharBoundary text i = ceilCharBoundary text (i + 1) := by
  rw [ceilCharBoundary, if_pos ⟨hlt, hnext⟩]

theorem ceil_stop (h : ¬(i < len text ∧ isCharBoundary text i = false)) :
    ceilCharBoundary text i = i := by
  rw [ceilCharBoundary, if_neg h]

theorem le_ceil (text : List Char) (i : ℕ) : i ≤ ceilCharBoundary text i := by
  fun_induction ceilCharBoundary text i with
  | case1 i h ih => omega
  | case2 i h => exact le_rfl

theorem ceil_spec (h : i ≤ len text) :
    isCharBoundary text (ceilCharBoundary text i) = true ∧ ceilCharBoundary text i ≤ len text := by
  obtain ⟨n, hn⟩ := Nat.exists_eq_add_of_le h
  induction n generalizing i with
  | zero =>
    have hi : i = len text := hn.symm
    rw [ceil_stop (by omega), hi]
    exact ⟨isCharBoundary_len text, le_rfl⟩
  | succ n ih =>
    have hlt : i < len text := by omega
    cases hboundary : isCharBoundary text i with
    | true =>
      rw [ceil_stop (by simp [hboundary])]
      exact ⟨hboundary, h⟩
    | false =>
      rw [ceil_next hlt hboundary]
      exact ih (by omega) (by omega)

theorem isCharBoundary_ceil (h : i ≤ len text) :
    isCharBoundary text (ceilCharBoundary text i) = true := (ceil_spec h).1

theorem ceil_le (h : i ≤ len text) : ceilCharBoundary text i ≤ len text := (ceil_spec h).2

theorem ceil_of_boundary (h : isCharBoundary text i = true) : ceilCharBoundary text i = i :=
  ceil_stop (by simp [h])

end Buzz.Lib.Utf8
