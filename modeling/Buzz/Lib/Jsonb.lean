import Buzz.Lib.Decimal
import Buzz.Lib.JsonNormal

namespace Buzz.Lib

/-- A character that neither a `TEXT` nor a `JSONB` column takes. -/
def hasNul (s : String) : Bool := s.toList.contains '\x00'

namespace Json

open Buzz.Lib.Decimal

/-- The `width` decimal digits of `n`, most significant first. -/
def padDigits : ℕ → ℕ → List Char
  | 0, _ => []
  | width + 1, n => padDigits width (n / 10) ++ [Nat.digitChar (n % 10)]

def exponentOf : List Char → ℤ
  | [] => 0
  | _ :: '-' :: digits => -(Nat.ofDigitChars 10 digits 0 : ℤ)
  | _ :: '+' :: digits => Nat.ofDigitChars 10 digits 0
  | _ :: digits => Nat.ofDigitChars 10 digits 0

/-- How a JSONB document writes a number: as a `numeric`, without exponent, with the
fraction digits the lexeme implies. -/
def numericText (lexeme : String) : String :=
  let neg := lexeme.toList.head? = some '-'
  let body := if neg then lexeme.toList.tail else lexeme.toList
  let whole := body.takeWhile Char.isDigit
  let rest := body.dropWhile Char.isDigit
  let point := rest.head? = some '.'
  let fraction := if point then rest.tail.takeWhile Char.isDigit else []
  let rest := if point then rest.tail.dropWhile Char.isDigit else rest
  let scale : ℤ := fraction.length - exponentOf rest
  let coefficient := Nat.ofDigitChars 10 (whole ++ fraction) 0
  let text :=
    if scale ≤ 0 then Nat.toDigits 10 (coefficient * 10 ^ (-scale).toNat)
    else Nat.toDigits 10 (coefficient / 10 ^ scale.toNat) ++
      '.' :: padDigits scale.toNat (coefficient % 10 ^ scale.toNat)
  String.ofList (if neg ∧ coefficient ≠ 0 then '-' :: text else text)

/-- The order in which a JSONB document keeps keys: by length, then by bytes. -/
def keyLe (a b : String) : Bool :=
  a.utf8ByteSize < b.utf8ByteSize ||
    (a.utf8ByteSize == b.utf8ByteSize && (a == b || keyLt a.toList b.toList))

def toJsonb (v : Json) : Json := (v.mapNumbers numericText).reorder keyLe

/-- A library's floating-point numbers, by the texts it writes for them. `reprint` reads a
number as a float and writes it again. -/
structure FloatText where
  isFloat : String → Bool
  reprint : String → Option String
  lexeme : ∀ t, isFloat t = true → NumberLexeme t
  reprint_isFloat : ∀ t t', reprint t = some t' → isFloat t' = true

namespace FloatText

variable (ft : FloatText)

/-- The number a parser reads, as it is written again: a 64-bit integer where the text is one,
else a float. -/
def readNumber (t : String) : Option String :=
  let neg := t.toList.head? = some '-'
  let body := if neg then t.toList.tail else t.toList
  let n := Nat.ofDigitChars 10 body 0
  if body ≠ [] ∧ body.all Char.isDigit = true then
    if neg then
      if 0 < n ∧ n ≤ 2 ^ 63 then some (toString (-(n : ℤ))) else ft.reprint t
    else if n < 2 ^ 64 then some (toString (n : ℤ)) else ft.reprint t
  else ft.reprint t

def maxNesting : ℕ := 127

def fromJsonb (v : Json) : Option Json :=
  if v.nestedWithin maxNesting = true ∧ ∀ t ∈ v.numbers, (ft.readNumber t).isSome = true then
    some (v.mapNumbers fun t ↦ (ft.readNumber t).getD t)
  else none

/-- The lexemes of numbers in memory. -/
def Written (t : String) : Prop :=
  (∃ n : ℤ, -2 ^ 63 ≤ n ∧ n < 2 ^ 64 ∧ t = toString n) ∨ ft.isFloat t = true

/-- Reading the column gives every number back in the same spelling. -/
def Survives (v : Json) : Prop :=
  v.nestedWithin maxNesting = true ∧
    ∀ t ∈ v.numbers, ft.readNumber (numericText t) = some t

instance (v : Json) : Decidable (ft.Survives v) := inferInstanceAs (Decidable (_ ∧ _))

end FloatText

section Integers

theorem toList_toString_int (n : ℤ) :
    (toString n).toList =
      if n < 0 then '-' :: Nat.toDigits 10 n.natAbs else Nat.toDigits 10 n.natAbs := by
  cases n with
  | ofNat n =>
    have hnonneg : ¬Int.ofNat n < 0 := (Int.natCast_nonneg n).not_gt
    rw [if_neg hnonneg]
    exact toList_toString n
  | negSucc n =>
    rw [if_pos (Int.negSucc_lt_zero n)]
    have htext : (toString (Int.negSucc n)).toList = "-".toList ++ (toString (n + 1)).toList :=
      String.toList_append
    rw [htext, toList_toString]
    rfl

theorem toDigits_head_ne (n : ℕ) : (Nat.toDigits 10 n).head? ≠ some '-' := by
  intro h
  have hmem := List.mem_of_head? h
  have := Nat.isDigit_of_mem_toDigits (by decide) (by decide) hmem
  exact absurd this (by decide)

theorem toString_int_lexeme (n : ℤ) : NumberLexeme (toString n) := by
  obtain ⟨c, cs, hcons, hdigit⟩ : ∃ c cs, Nat.toDigits 10 n.natAbs = c :: cs ∧
      c.isDigit = true := by
    cases hlist : Nat.toDigits 10 n.natAbs with
    | nil => exact absurd hlist Nat.toDigits_ne_nil
    | cons c cs =>
      have hall := List.all_eq_true.mp (all_isDigit_toDigits n.natAbs)
      exact ⟨c, cs, rfl, hall c (hlist ▸ List.mem_cons_self)⟩
  have hvalid := validNumber_toDigits n.natAbs
  have hchars : ∀ c ∈ Nat.toDigits 10 n.natAbs, isNumberChar c = true := by
    intro c hc
    rw [isNumberChar, List.all_eq_true.mp (all_isDigit_toDigits n.natAbs) c hc]
    rfl
  have hlist := toList_toString_int n
  by_cases hn : n < 0
  · rw [if_pos hn] at hlist
    refine ⟨⟨'-', _, hlist, .inr rfl⟩, ?_, ?_⟩
    · rw [hlist]
      intro c hc
      rcases List.mem_cons.mp hc with rfl | hc
      · rfl
      · exact hchars c hc
    · rw [hlist, ← hvalid]
      have hne : (Nat.toDigits 10 n.natAbs).head? ≠ some '-' := toDigits_head_ne _
      simp only [validNumber, dropInt, List.head?_cons, List.tail_cons, if_true, hne, if_false]
  · rw [if_neg hn] at hlist
    refine ⟨⟨c, cs, hlist.trans hcons, .inl hdigit⟩, ?_, ?_⟩
    · rw [hlist]
      exact hchars
    · rw [hlist]
      exact hvalid

end Integers

section Documents

variable (ft : FloatText)

theorem readNumber_lexeme {t t' : String} (h : ft.readNumber t = some t') : NumberLexeme t' := by
  have hfloat (h : ft.reprint t = some t') : NumberLexeme t' :=
    ft.lexeme t' (ft.reprint_isFloat t t' h)
  simp only [FloatText.readNumber] at h
  split at h
  · split at h
    · split at h
      · exact Option.some.inj h ▸ toString_int_lexeme _
      · exact hfloat h
    · exact hfloat h
  · split at h
    · split at h
      · exact Option.some.inj h ▸ toString_int_lexeme _
      · exact hfloat h
    · exact hfloat h

theorem FloatText.Written.lexeme {t : String} (h : ft.Written t) : NumberLexeme t := by
  rcases h with ⟨n, _, _, rfl⟩ | h
  · exact toString_int_lexeme n
  · exact ft.lexeme t h

theorem nestedWithin_mapNumbers (f : String → String) (n : ℕ) (v : Json) :
    (v.mapNumbers f).nestedWithin n = v.nestedWithin n := by
  induction n generalizing v with
  | zero => cases v <;> rw [Json.mapNumbers] <;> rfl
  | succ n ih =>
    cases v with
    | arr elems =>
      rw [Json.mapNumbers, nestedWithin, nestedWithin, List.all_map]
      exact congrArg (elems.all ·) (funext ih)
    | obj fields =>
      rw [Json.mapNumbers, nestedWithin, nestedWithin, List.all_map]
      exact congrArg (fields.all ·) (funext fun field ↦ ih field.2)
    | null => rw [Json.mapNumbers]
    | bool b => rw [Json.mapNumbers]
    | num lexeme => rw [Json.mapNumbers]; rfl
    | str s => rw [Json.mapNumbers]

theorem nestedWithin_reorder (le : String → String → Bool) (n : ℕ) (v : Json) :
    (v.reorder le).nestedWithin n = v.nestedWithin n := by
  induction n generalizing v with
  | zero => cases v <;> rw [reorder] <;> rfl
  | succ n ih =>
    cases v with
    | arr elems =>
      rw [reorder, nestedWithin, nestedWithin, List.all_map]
      exact congrArg (elems.all ·) (funext ih)
    | obj fields =>
      have hsort := List.perm_insertionSort (fun a b : String × Json ↦ le a.1 b.1)
        (fields.map fun field ↦ (field.1, reorder le field.2))
      rw [reorder, nestedWithin, nestedWithin, hsort.all_eq, List.all_map]
      exact congrArg (fields.all ·) (funext fun field ↦ ih field.2)
    | null => rw [reorder]
    | bool b => rw [reorder]
    | num lexeme => rw [reorder]
    | str s => rw [reorder]

theorem Keyed.reorder (le : String → String → Bool) {v : Json} (h : v.Keyed) :
    (v.reorder le).Keyed := by
  induction h with
  | null => rw [Json.reorder]; exact .null
  | bool b => rw [Json.reorder]; exact .bool b
  | num lexeme => rw [Json.reorder]; exact .num lexeme
  | str s => rw [Json.reorder]; exact .str s
  | @arr elems h ih =>
    rw [Json.reorder]
    refine .arr fun v hv ↦ ?_
    obtain ⟨w, hw, rfl⟩ := List.mem_map.mp hv
    exact ih w hw
  | @obj fields hkeys h ih =>
    have hsort := List.perm_insertionSort (fun a b : String × Json ↦ le a.1 b.1)
      (fields.map fun field ↦ (field.1, Json.reorder le field.2))
    rw [Json.reorder]
    refine .obj ?_ fun field hfield ↦ ?_
    · rw [(hsort.map Prod.fst).nodup_iff, keys_map]
      exact hkeys
    · obtain ⟨field', hfield', rfl⟩ := List.mem_map.mp (hsort.mem_iff.mp hfield)
      exact ih field' hfield'

theorem mem_numbers_toJsonb {v : Json} (h : v.Keyed) {t : String} :
    t ∈ v.toJsonb.numbers ↔ ∃ t' ∈ v.numbers, numericText t' = t := by
  have hkeyed := h.mapNumbers numericText
  rw [toJsonb, ← mem_numbers_canonical (hkeyed.reorder keyLe), canonical_reorder keyLe hkeyed,
    mem_numbers_canonical hkeyed, numbers_mapNumbers numericText h, List.mem_map]

/-- A document read back from its column, up to the order of the fields. -/
theorem canonical_fromJsonb {v w : Json} (h : v.Keyed) (hw : ft.fromJsonb v.toJsonb = some w) :
    w.Keyed ∧ (∀ t ∈ w.numbers, NumberLexeme t) ∧ v.nestedWithin FloatText.maxNesting = true ∧
      (∀ t ∈ v.numbers, (ft.readNumber (numericText t)).isSome = true) ∧
      w.canonical = v.canonical.mapNumbers
        fun t ↦ (ft.readNumber (numericText t)).getD (numericText t) := by
  have hkeyed := h.mapNumbers numericText
  have hstored : v.toJsonb.Keyed := hkeyed.reorder keyLe
  simp only [FloatText.fromJsonb] at hw
  split at hw
  · next hread =>
    obtain ⟨hnested, hread⟩ := hread
    cases hw
    refine ⟨hstored.mapNumbers _, fun t ht ↦ ?_, ?_, fun t ht ↦ ?_, ?_⟩
    · rw [numbers_mapNumbers _ hstored] at ht
      obtain ⟨t', ht', rfl⟩ := List.mem_map.mp ht
      obtain ⟨t'', ht''⟩ := Option.isSome_iff_exists.mp (hread t' ht')
      rw [ht'', Option.getD_some]
      exact readNumber_lexeme ft ht''
    · rw [toJsonb, nestedWithin_reorder, nestedWithin_mapNumbers] at hnested
      exact hnested
    · exact hread _ ((mem_numbers_toJsonb h).mpr ⟨t, ht, rfl⟩)
    · rw [canonical_mapNumbers _ hstored, toJsonb, canonical_reorder keyLe hkeyed,
        canonical_mapNumbers _ h, mapNumbers_mapNumbers h.canonical]
      rfl
  · cases hw

/-- The column gives a document back exactly when each of its numbers survives. -/
theorem fromJsonb_toJsonb_iff {v : Json} (h : v.Keyed) :
    (∃ w, ft.fromJsonb v.toJsonb = some w ∧ w.canonical = v.canonical) ↔ ft.Survives v := by
  constructor
  · intro ⟨w, hw, hcanonical⟩
    obtain ⟨_, _, hnested, hread, hmap⟩ := canonical_fromJsonb ft h hw
    refine ⟨hnested, fun t ht ↦ ?_⟩
    rw [hcanonical] at hmap
    have hfix := (mapNumbers_eq_self_iff h.canonical).mp hmap.symm t
      ((mem_numbers_canonical h).mpr ht)
    obtain ⟨t', ht'⟩ := Option.isSome_iff_exists.mp (hread t ht)
    rw [ht', Option.getD_some] at hfix
    rw [ht', hfix]
  · intro ⟨hnested, hread⟩
    have hcond : v.toJsonb.nestedWithin FloatText.maxNesting = true ∧
        ∀ t ∈ v.toJsonb.numbers, (ft.readNumber t).isSome = true := by
      refine ⟨?_, fun t ht ↦ ?_⟩
      · rw [toJsonb, nestedWithin_reorder, nestedWithin_mapNumbers]
        exact hnested
      · obtain ⟨t', ht', rfl⟩ := (mem_numbers_toJsonb h).mp ht
        rw [hread t' ht']
        rfl
    have hw : ft.fromJsonb v.toJsonb =
        some (v.toJsonb.mapNumbers fun t ↦ (ft.readNumber t).getD t) := if_pos hcond
    obtain ⟨_, _, _, _, hmap⟩ := canonical_fromJsonb ft h hw
    refine ⟨_, hw, ?_⟩
    rw [hmap]
    apply mapNumbers_eq_self h.canonical
    intro t ht
    rw [hread t ((mem_numbers_canonical h).mp ht)]
    rfl

end Documents

end Json

end Buzz.Lib
