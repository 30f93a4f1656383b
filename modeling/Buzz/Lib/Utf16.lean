import Buzz.Lib.Hex
import Mathlib.Data.Bool.AllAny
import Mathlib.Data.UInt

namespace Buzz.Lib.Utf16

/-- A string of UTF-16 code units, in which a surrogate may lack its partner. -/
abbrev Units := List UInt16

def ascii (text : List Char) : Units := text.map fun c ↦ UInt16.ofNat c.toNat

def isHigh (u : UInt16) : Bool := 0xD800 ≤ u && u < 0xDC00

def isLow (u : UInt16) : Bool := 0xDC00 ≤ u && u < 0xE000

def unitBytes (u : UInt16) : ℕ := if u < 0x80 then 1 else if u < 0x800 then 2 else 3

def encodedLength : Units → ℕ
  | [] => 0
  | [u] => unitBytes u
  | u :: v :: rest =>
    if isHigh u && isLow v then 4 + encodedLength rest
    else unitBytes u + encodedLength (v :: rest)

def unicodeEscape (u : UInt16) : Units := ascii ('\\' :: 'u' :: Hex.hexDigits 4 u.toNat)

def escapeUnit (u : UInt16) : Units :=
  if u = 0x22 ∨ u = 0x5C then [0x5C, u]
  else if u = 0x08 then ascii ['\\', 'b']
  else if u = 0x0C then ascii ['\\', 'f']
  else if u = 0x0A then ascii ['\\', 'n']
  else if u = 0x0D then ascii ['\\', 'r']
  else if u = 0x09 then ascii ['\\', 't']
  else if u < 0x20 || isHigh u || isLow u then unicodeEscape u
  else [u]

/-- The inside of `JSON.stringify` of a string. -/
def escape : Units → Units
  | [] => []
  | [u] => escapeUnit u
  | u :: v :: rest =>
    if isHigh u && isLow v then u :: v :: escape rest else escapeUnit u ++ escape (v :: rest)

def quote (text : Units) : Units := 0x22 :: (escape text ++ [0x22])

def Closed (text : Units) : Prop :=
  ∀ rest, encodedLength (text ++ rest) = encodedLength text + encodedLength rest

theorem Closed.nil : Closed [] := fun rest ↦ (Nat.zero_add (encodedLength rest)).symm

theorem Closed.append {a b : Units} (ha : Closed a) (hb : Closed b) : Closed (a ++ b) := by
  intro rest
  rw [List.append_assoc, ha, hb, ha, Nat.add_assoc]

theorem encodedLength_cons {u : UInt16} (h : isHigh u = false) (rest : Units) :
    encodedLength (u :: rest) = unitBytes u + encodedLength rest := by
  cases rest with
  | nil => rfl
  | cons v rest => simp [encodedLength, h]

theorem closed_singleton {u : UInt16} (h : isHigh u = false) : Closed [u] :=
  fun rest ↦ encodedLength_cons h rest

theorem closed_pair {u v : UInt16} (h : (isHigh u && isLow v) = true) : Closed [u, v] := by
  intro rest
  simp [encodedLength, h]

theorem isHigh_of_lt {u : UInt16} (h : u < 0x80) : isHigh u = false := by
  rw [isHigh, Bool.and_eq_false_iff, decide_eq_false_iff_not]
  rw [UInt16.lt_iff_toNat_lt] at h
  left
  rw [UInt16.le_iff_toNat_le]
  have hlit : (0x80 : UInt16).toNat = 128 := rfl
  have hlit' : (0xD800 : UInt16).toNat = 55296 := rfl
  omega

theorem ascii_spec {text : Units} (h : ∀ u ∈ text, u < 0x80) :
    Closed text ∧ encodedLength text = text.length := by
  induction text with
  | nil => exact ⟨.nil, rfl⟩
  | cons u text ih =>
    obtain ⟨hu, htext⟩ := List.forall_mem_cons.mp h
    obtain ⟨hclosed, hlength⟩ := ih htext
    refine ⟨(closed_singleton (isHigh_of_lt hu)).append hclosed, ?_⟩
    rw [encodedLength_cons (isHigh_of_lt hu), hlength, unitBytes, if_pos hu, List.length_cons,
      Nat.add_comm]

theorem ascii_lt {text : List Char} (h : ∀ c ∈ text, c.toNat < 128) :
    ∀ u ∈ ascii text, u < 0x80 := by
  intro u hu
  obtain ⟨c, hc, rfl⟩ := List.mem_map.mp hu
  have hlt := h c hc
  rw [UInt16.lt_iff_toNat_lt, UInt16.toNat_ofNat', Nat.mod_eq_of_lt (by omega)]
  exact hlt

theorem unicodeEscape_lt (u : UInt16) : ∀ v ∈ unicodeEscape u, v < 0x80 := by
  apply ascii_lt
  intro c hc
  rcases List.mem_cons.mp hc with rfl | hc
  · decide
  rcases List.mem_cons.mp hc with rfl | hc
  · decide
  obtain ⟨n, hn, -, rfl⟩ :=
    Hex.digitValue_of_isLowerHexDigit (Hex.isLowerHexDigit_of_mem_hexDigits hc)
  have key : ∀ x : Fin 16, (Nat.digitChar x).toNat < 128 := by decide
  exact key ⟨n, hn⟩

/-- An escaped unit needs no partner and is no shorter. -/
theorem escapeUnit_spec (u : UInt16) :
    Closed (escapeUnit u) ∧ 1 ≤ encodedLength (escapeUnit u) := by
  have hascii {text : Units} (h : text.all (· < 0x80) = true) (hne : text ≠ []) :
      Closed text ∧ 1 ≤ encodedLength text := by
    obtain ⟨hclosed, hlength⟩ := ascii_spec (List.all_iff_forall_prop.mp h)
    refine ⟨hclosed, ?_⟩
    rw [hlength]
    exact List.length_pos_iff.mpr hne
  rw [escapeUnit]
  split_ifs with hquote h8 hC hA hD h9 hcontrol
  · apply hascii _ (List.cons_ne_nil _ _)
    rcases hquote with rfl | rfl
    · decide
    · decide
  · exact hascii (by decide) (by decide)
  · exact hascii (by decide) (by decide)
  · exact hascii (by decide) (by decide)
  · exact hascii (by decide) (by decide)
  · exact hascii (by decide) (by decide)
  · apply hascii (List.all_iff_forall_prop.mpr (unicodeEscape_lt u))
    simp [unicodeEscape, ascii]
  · simp only [Bool.or_eq_true, not_or, Bool.not_eq_true] at hcontrol
    refine ⟨closed_singleton hcontrol.1.2, ?_⟩
    show 1 ≤ unitBytes u
    rw [unitBytes]
    split_ifs <;> decide

/-- An escaped text ends in no half of a pair, and no unit of a text takes less than a byte. -/
theorem escape_spec (text : Units) :
    Closed (escape text) ∧ text.length ≤ encodedLength (escape text) := by
  induction text using escape.induct with
  | case1 => exact ⟨.nil, le_rfl⟩
  | case2 u => exact escapeUnit_spec u
  | case3 u v rest hpair ih =>
    have hlength := closed_pair hpair (escape rest)
    have hfour : encodedLength [u, v] = 4 := by simp [encodedLength, hpair]
    rw [escape, if_pos hpair]
    refine ⟨(closed_pair hpair).append ih.1, ?_⟩
    rw [List.cons_append, List.singleton_append] at hlength
    rw [hlength, hfour, List.length_cons, List.length_cons]
    omega
  | case4 u v rest hpair ih =>
    obtain ⟨hclosed, hpos⟩ := escapeUnit_spec u
    rw [escape, if_neg hpair]
    refine ⟨hclosed.append ih.1, ?_⟩
    rw [hclosed, List.length_cons]
    have hrest := ih.2
    omega

theorem closed_quote (text : Units) : Closed (quote text) :=
  (closed_singleton (by decide)).append ((escape_spec text).1.append (closed_singleton (by decide)))

theorem length_le_quote (text : Units) : text.length + 2 ≤ encodedLength (quote text) := by
  have hopen : isHigh 0x22 = false := by decide
  have hone : unitBytes 0x22 = 1 := by decide
  have hlast : encodedLength [0x22] = 1 := by decide
  rw [quote, encodedLength_cons hopen, (escape_spec text).1, hone, hlast]
  have hlength := (escape_spec text).2
  omega

end Buzz.Lib.Utf16
