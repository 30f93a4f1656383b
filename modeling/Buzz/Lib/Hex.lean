import Mathlib.Data.List.Induction
import Mathlib.Data.Nat.Digits.Defs
import Mathlib.Tactic.IntervalCases
import Mathlib.Data.List.Lex
import Mathlib.Data.String.Basic

namespace Buzz.Lib.Hex

def isHexDigit (c : Char) : Bool :=
  c.isDigit || ('a' ≤ c && c ≤ 'f') || ('A' ≤ c && c ≤ 'F')

def isLowerHexDigit (c : Char) : Bool := c.isDigit || ('a' ≤ c && c ≤ 'f')

def digitValue (c : Char) : Option ℕ :=
  if c.isDigit then some (c.toNat - '0'.toNat)
  else if 'a' ≤ c && c ≤ 'f' then some (c.toNat - 'a'.toNat + 10)
  else if 'A' ≤ c && c ≤ 'F' then some (c.toNat - 'A'.toNat + 10)
  else none

/-- The `width` lowercase hexadecimal digits of `n`, most significant first. -/
def hexDigits : ℕ → ℕ → List Char
  | 0, _ => []
  | width + 1, n => hexDigits width (n / 16) ++ [Nat.digitChar (n % 16)]

/-- The number that a string of hexadecimal digits of either case denotes. -/
def parseHex (cs : List Char) : Option ℕ :=
  cs.foldlM (fun n c ↦ (digitValue c).map (16 * n + ·)) 0

@[simp] theorem length_hexDigits (width n : ℕ) : (hexDigits width n).length = width := by
  induction width generalizing n with
  | zero => rfl
  | succ width ih => simp [hexDigits, ih]

theorem digitChar_injective {a b : ℕ} (ha : a < 16) (hb : b < 16)
    (h : Nat.digitChar a = Nat.digitChar b) : a = b := by
  have key : ∀ x y : Fin 16, Nat.digitChar x = Nat.digitChar y → x = y := by decide
  exact congrArg Fin.val (key ⟨a, ha⟩ ⟨b, hb⟩ h)

theorem isLowerHexDigit_digitChar {a : ℕ} (ha : a < 16) :
    isLowerHexDigit (Nat.digitChar a) = true := by
  have key : ∀ x : Fin 16, isLowerHexDigit (Nat.digitChar x) = true := by decide
  exact key ⟨a, ha⟩

theorem hexDigits_injective {width a b : ℕ} (ha : a < 16 ^ width) (hb : b < 16 ^ width)
    (h : hexDigits width a = hexDigits width b) : a = b := by
  induction width generalizing a b with
  | zero => omega
  | succ width ih =>
    obtain ⟨hinit, hlast⟩ := List.append_inj' h rfl
    rw [pow_succ] at ha hb
    have hdiv : a / 16 = b / 16 := ih (by omega) (by omega) hinit
    have hmod : a % 16 = b % 16 :=
      digitChar_injective (Nat.mod_lt _ (by decide)) (Nat.mod_lt _ (by decide))
        (List.singleton_inj.mp hlast)
    omega

theorem isLowerHexDigit_of_mem_hexDigits {width n : ℕ} {c : Char}
    (h : c ∈ hexDigits width n) : isLowerHexDigit c = true := by
  induction width generalizing n with
  | zero => simp [hexDigits] at h
  | succ width ih =>
    rcases List.mem_append.mp h with h | h
    · exact ih h
    · rw [List.mem_singleton.mp h]
      exact isLowerHexDigit_digitChar (Nat.mod_lt _ (by decide))

theorem digitValue_digitChar {a : ℕ} (ha : a < 16) : digitValue (Nat.digitChar a) = some a := by
  have key : ∀ x : Fin 16, digitValue (Nat.digitChar x) = some x.val := by decide
  exact key ⟨a, ha⟩

theorem parseHex_concat (cs : List Char) (c : Char) :
    parseHex (cs ++ [c]) = (parseHex cs).bind fun n ↦ (digitValue c).map (16 * n + ·) := by
  rw [parseHex, List.foldlM_append]
  simp only [List.foldlM_cons, List.foldlM_nil, bind_pure]
  rfl

theorem parseHex_hexDigits {width n : ℕ} (h : n < 16 ^ width) :
    parseHex (hexDigits width n) = some n := by
  induction width generalizing n with
  | zero =>
    have hn : n = 0 := by omega
    rw [hn]
    rfl
  | succ width ih =>
    rw [pow_succ] at h
    rw [hexDigits, parseHex_concat, ih (by omega), Option.bind_some,
      digitValue_digitChar (Nat.mod_lt _ (by decide)), Option.map_some, Nat.div_add_mod]

theorem digitValue_lt {c : Char} {n : ℕ} (h : digitValue c = some n) : n < 16 := by
  rw [digitValue] at h
  split_ifs at h with h₁ h₂ h₃
  · simp only [Char.isDigit, Bool.and_eq_true, decide_eq_true_eq] at h₁
    have hle : c.toNat ≤ 57 := h₁.2
    have hval := Option.some.inj h
    have h₀ : '0'.toNat = 48 := rfl
    omega
  · simp only [Bool.and_eq_true, decide_eq_true_eq] at h₂
    have hle : c.toNat ≤ 102 := h₂.2
    have hval := Option.some.inj h
    have ha : 'a'.toNat = 97 := rfl
    omega
  · simp only [Bool.and_eq_true, decide_eq_true_eq] at h₃
    have hle : c.toNat ≤ 70 := h₃.2
    have hval := Option.some.inj h
    have hA : 'A'.toNat = 65 := rfl
    omega

theorem digitValue_of_isLowerHexDigit {c : Char} (h : isLowerHexDigit c = true) :
    ∃ n, n < 16 ∧ digitValue c = some n ∧ c = Nat.digitChar n := by
  simp only [isLowerHexDigit, Char.isDigit, Bool.or_eq_true, Bool.and_eq_true,
    decide_eq_true_eq] at h
  obtain ⟨n, rfl, hn⟩ : ∃ n, c = Char.ofNat n ∧ (48 ≤ n ∧ n ≤ 57 ∨ 97 ≤ n ∧ n ≤ 102) :=
    ⟨c.toNat, (Char.ofNat_toNat c).symm, h⟩
  rcases hn with ⟨hlo, hhi⟩ | ⟨hlo, hhi⟩
  · interval_cases n <;> exact ⟨_, by decide, rfl, by decide⟩
  · interval_cases n <;> exact ⟨_, by decide, rfl, by decide⟩

/-- Lowercase digits are those of the number that they denote. -/
theorem hexDigits_of_parseHex {cs : List Char} {n : ℕ}
    (hlower : ∀ c ∈ cs, isLowerHexDigit c = true) (h : parseHex cs = some n) :
    hexDigits cs.length n = cs := by
  induction cs using List.reverseRecOn generalizing n with
  | nil => rfl
  | append_singleton cs d ih =>
    rw [parseHex_concat] at h
    obtain ⟨m, hm, hd⟩ := Option.bind_eq_some_iff.mp h
    obtain ⟨v, hv, rfl⟩ := Option.map_eq_some_iff.mp hd
    obtain ⟨v', hlt, hv', hdigit⟩ := digitValue_of_isLowerHexDigit (hlower d (by simp))
    obtain rfl : v = v' := Option.some.inj (hv.symm.trans hv')
    have hinit := ih (fun c hc ↦ hlower c (by simp [hc])) hm
    have hdiv : (16 * m + v) / 16 = m := by omega
    have hmod : (16 * m + v) % 16 = v := by omega
    rw [List.length_append, List.length_singleton, hexDigits, hdiv, hmod, hinit, hdigit]

theorem parseHex_lt {cs : List Char} {n : ℕ} (h : parseHex cs = some n) : n < 16 ^ cs.length := by
  induction cs using List.reverseRecOn generalizing n with
  | nil =>
    cases h
    exact Nat.one_pos
  | append_singleton cs d ih =>
    rw [parseHex_concat] at h
    obtain ⟨m, hm, hd⟩ := Option.bind_eq_some_iff.mp h
    obtain ⟨v, hv, rfl⟩ := Option.map_eq_some_iff.mp hd
    have hinit := ih hm
    have hlt := digitValue_lt hv
    rw [List.length_append, List.length_singleton, pow_succ]
    omega

/-- `hex::decode`: the bytes that pairs of digits of either case denote. -/
def decodeBytes : List Char → Option (List UInt8)
  | [] => some []
  | [_] => none
  | a :: b :: cs => do
    let hi ← digitValue a
    let lo ← digitValue b
    let rest ← decodeBytes cs
    return UInt8.ofNat (16 * hi + lo) :: rest

def encodeBytes (bytes : List UInt8) : List Char :=
  bytes.flatMap fun b ↦ [Nat.digitChar (b.toNat / 16), Nat.digitChar (b.toNat % 16)]

theorem length_encodeBytes (bytes : List UInt8) :
    (encodeBytes bytes).length = 2 * bytes.length := by
  rw [encodeBytes, List.length_flatMap]
  simp [Nat.mul_comm]

theorem decodeBytes_encodeBytes (bytes : List UInt8) :
    decodeBytes (encodeBytes bytes) = some bytes := by
  induction bytes with
  | nil => rfl
  | cons b bytes ih =>
    have hb := b.toNat_lt
    have hhi := digitValue_digitChar (a := b.toNat / 16) (by omega)
    have hlo := digitValue_digitChar (a := b.toNat % 16) (by omega)
    rw [encodeBytes] at ih
    simp only [encodeBytes, List.flatMap_cons, List.cons_append, List.nil_append, decodeBytes, hhi,
      hlo, ih, Option.bind_eq_bind, Option.bind_some, Option.pure_def, Nat.div_add_mod,
      UInt8.ofNat_toNat]

theorem isLowerHexDigit_of_mem_encodeBytes {bytes : List UInt8} {c : Char}
    (hc : c ∈ encodeBytes bytes) : isLowerHexDigit c = true := by
  obtain ⟨b, -, hc⟩ := List.mem_flatMap.mp hc
  have hb := b.toNat_lt
  simp only [List.mem_cons, List.not_mem_nil, or_false] at hc
  rcases hc with rfl | rfl
  · exact isLowerHexDigit_digitChar (by omega)
  · exact isLowerHexDigit_digitChar (by omega)

theorem decodeBytes_of_isLowerHexDigit {cs : List Char} (heven : cs.length % 2 = 0)
    (h : ∀ c ∈ cs, isLowerHexDigit c = true) :
    ∃ bytes, decodeBytes cs = some bytes ∧ 2 * bytes.length = cs.length := by
  induction cs using decodeBytes.induct with
  | case1 => exact ⟨[], rfl, rfl⟩
  | case2 c => simp at heven
  | case3 a b cs ih =>
    have heven' : cs.length % 2 = 0 := by
      simp only [List.length_cons] at heven
      omega
    obtain ⟨hi, -, hhi, -⟩ := digitValue_of_isLowerHexDigit (h a (by simp))
    obtain ⟨lo, -, hlo, -⟩ := digitValue_of_isLowerHexDigit (h b (by simp))
    obtain ⟨rest, hrest, hlen⟩ := ih heven' fun c hc ↦ h c (by simp [hc])
    refine ⟨UInt8.ofNat (16 * hi + lo) :: rest, ?_, ?_⟩
    · simp [decodeBytes, hhi, hlo, hrest]
    · simp only [List.length_cons]
      omega

/-- Two lowercase texts of the same bytes are one text. -/
theorem decodeBytes_injective_of_isLowerHexDigit {cs ds : List Char} {bytes : List UInt8}
    (hcs : ∀ c ∈ cs, isLowerHexDigit c = true) (hds : ∀ c ∈ ds, isLowerHexDigit c = true)
    (h : decodeBytes cs = some bytes) (h' : decodeBytes ds = some bytes) : cs = ds := by
  induction cs using decodeBytes.induct generalizing ds bytes with
  | case1 =>
    obtain rfl : [] = bytes := by simpa [decodeBytes] using h
    cases ds using decodeBytes.fun_cases with
    | case1 => rfl
    | case2 => simp [decodeBytes] at h'
    | case3 a b ds => simp [decodeBytes, Option.bind_eq_some_iff] at h'
  | case2 c => simp [decodeBytes] at h
  | case3 a b cs ih =>
    obtain ⟨hi, hhi, hva, ha⟩ := digitValue_of_isLowerHexDigit (hcs a (by simp))
    obtain ⟨lo, hlo, hvb, hb⟩ := digitValue_of_isLowerHexDigit (hcs b (by simp))
    simp only [decodeBytes, hva, hvb, Option.bind_eq_bind, Option.bind_some,
      Option.bind_eq_some_iff, Option.pure_def, Option.some.injEq] at h
    obtain ⟨rest, hrest, rfl⟩ := h
    cases ds using decodeBytes.fun_cases with
    | case1 => simp [decodeBytes] at h'
    | case2 => simp [decodeBytes] at h'
    | case3 a' b' ds =>
      obtain ⟨hi', hhi', hva', ha'⟩ := digitValue_of_isLowerHexDigit (hds a' (by simp))
      obtain ⟨lo', hlo', hvb', hb'⟩ := digitValue_of_isLowerHexDigit (hds b' (by simp))
      simp only [decodeBytes, hva', hvb', Option.bind_eq_bind, Option.bind_some,
        Option.bind_eq_some_iff, Option.pure_def, Option.some.injEq, List.cons.injEq] at h'
      obtain ⟨rest', hrest', hbyte, rfl⟩ := h'
      have hnat := congrArg UInt8.toNat hbyte
      rw [UInt8.toNat_ofNat', UInt8.toNat_ofNat', Nat.mod_eq_of_lt (by omega),
        Nat.mod_eq_of_lt (by omega)] at hnat
      have htail : cs = ds := ih (fun c hc ↦ hcs c (by simp [hc])) (fun c hc ↦ hds c (by simp [hc]))
        hrest hrest'
      rw [ha, hb, ha', hb', htail, show hi = hi' by omega, show lo = lo' by omega]

theorem digitChar_lt {a b : ℕ} (h : a < b) (hb : b < 16) : Nat.digitChar a < Nat.digitChar b := by
  have key : ∀ x y : Fin 16, x < y → Nat.digitChar x < Nat.digitChar y := by decide
  exact key ⟨a, h.trans hb⟩ ⟨b, hb⟩ h

theorem append_lt_append {α : Type*} [LT α] {xs ys : List α} (h : xs < ys)
    (hlen : xs.length = ys.length) (xs' ys' : List α) : xs ++ xs' < ys ++ ys' := by
  induction h with
  | nil => simp at hlen
  | rel h => exact .rel h
  | cons h ih => exact .cons (ih (by simpa using hlen))

theorem hexDigits_lt {width a b : ℕ} (h : a < b) (hb : b < 16 ^ width) :
    hexDigits width a < hexDigits width b := by
  induction width generalizing a b with
  | zero => omega
  | succ width ih =>
    rw [pow_succ] at hb
    rw [hexDigits, hexDigits]
    by_cases hdiv : a / 16 = b / 16
    · rw [hdiv]
      exact List.Lex.append_left _ (.rel (digitChar_lt (by omega) (Nat.mod_lt _ (by decide)))) _
    · exact append_lt_append (ih (by omega) (by omega)) (by simp) _ _

theorem hexDigits_lt_iff {width a b : ℕ} (ha : a < 16 ^ width) (hb : b < 16 ^ width) :
    hexDigits width a < hexDigits width b ↔ a < b := by
  constructor
  · intro h
    by_contra hle
    obtain hlt | rfl := (not_lt.mp hle).lt_or_eq
    · exact lt_asymm h (hexDigits_lt hlt ha)
    · exact lt_irrefl _ h
  · intro h
    exact hexDigits_lt h hb

end Buzz.Lib.Hex
