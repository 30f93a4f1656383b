import Buzz.Lib.Utf8
import Mathlib.Data.Nat.Log
import Mathlib.Tactic.Ring
import Mathlib.Tactic.Positivity

namespace Buzz.Lib.Decimal

def parseDigits (cs : List Char) : Option ℕ :=
  if cs ≠ [] ∧ cs.all Char.isDigit = true then some (Nat.ofDigitChars 10 cs 0) else none

def stripPlus : List Char → List Char
  | '+' :: cs => cs
  | cs => cs

def parseU64 (s : String) : Option UInt64 :=
  (parseDigits (stripPlus s.toList)).bind fun n ↦
    if n < 2 ^ 64 then some (UInt64.ofNat n) else none

def parseU32 (cs : List Char) : Option UInt32 :=
  (parseDigits (stripPlus cs)).bind fun n ↦ if n < 2 ^ 32 then some (UInt32.ofNat n) else none

def roundHalfEven (n d : ℕ) : ℕ :=
  if 2 * (n % d) < d ∨ (2 * (n % d) = d ∧ n / d % 2 = 0) then n / d else n / d + 1

/-- The binary64 number closest to `n`. -/
def toDouble (n : ℕ) : ℕ :=
  if n < 2 ^ 53 then n
  else roundHalfEven n (2 ^ (n.log2 - 52)) * 2 ^ (n.log2 - 52)

def stripZeros (cs : List Char) : List Char := (cs.reverse.dropWhile (· == '0')).reverse

def scientific (mantissa exponent : ℕ) : List Char :=
  let digits := Nat.toDigits 10 mantissa
  let fraction := stripZeros (digits.drop 1)
  digits.take 1 ++ (if fraction = [] then [] else '.' :: fraction) ++ 'e' :: '+' ::
    Nat.toDigits 10 exponent

/-- `tostring` of Lua 5.1 on an integral number: `%.14g`. -/
def luaToString (n : ℕ) : String :=
  let d := toDouble n
  if d < 10 ^ 14 then toString d
  else
    let exponent := Nat.log 10 d
    let mantissa := roundHalfEven d (10 ^ (exponent - 13))
    String.ofList (if mantissa < 10 ^ 14 then scientific mantissa exponent
      else scientific (mantissa / 10) (exponent + 1))

theorem toList_toString (n : ℕ) : (toString n).toList = Nat.toDigits 10 n := by
  rw [Nat.toString_eq_repr, Nat.toList_repr]

theorem all_isDigit_toDigits (n : ℕ) : (Nat.toDigits 10 n).all Char.isDigit = true :=
  List.all_eq_true.mpr fun _ hc ↦ Nat.isDigit_of_mem_toDigits (by decide) (by decide) hc

theorem utf8Size_of_isDigit {c : Char} (h : c.isDigit = true) : c.utf8Size = 1 := by
  rw [Char.isDigit, Bool.and_eq_true, decide_eq_true_eq, decide_eq_true_eq] at h
  have hle : c.val.toNat ≤ 57 := UInt32.le_iff_toNat_le.mp h.2
  exact Char.utf8Size_eq_one_iff.mpr (UInt32.le_iff_toNat_le.mpr (hle.trans (by decide)))

theorem len_toString (n : ℕ) :
    Utf8.len (toString n).toList = (Nat.toDigits 10 n).length := by
  rw [toList_toString]
  have hdigits := List.all_eq_true.mp (all_isDigit_toDigits n)
  generalize Nat.toDigits 10 n = cs at hdigits ⊢
  induction cs with
  | nil => rfl
  | cons c cs ih =>
    obtain ⟨hc, hcs⟩ := List.forall_mem_cons.mp hdigits
    rw [Utf8.len_cons, ih hcs, utf8Size_of_isDigit hc, List.length_cons, Nat.add_comm]

theorem len_toString_le {n k : ℕ} (hk : 0 < k) (h : n < 10 ^ k) :
    Utf8.len (toString n).toList ≤ k := by
  rw [len_toString]
  exact (Nat.length_toDigits_le_iff (by decide) hk).mpr h

theorem stripPlus_of_isDigit {cs : List Char} (h : cs.all Char.isDigit = true) :
    stripPlus cs = cs := by
  cases cs with
  | nil => rfl
  | cons c cs =>
    unfold stripPlus
    split
    · next heq =>
      cases heq
      simp at h
    · rfl

theorem parseDigits_toDigits (n : ℕ) : parseDigits (Nat.toDigits 10 n) = some n := by
  rw [parseDigits, if_pos ⟨Nat.toDigits_ne_nil, all_isDigit_toDigits n⟩,
    Nat.ofDigitChars_ten_toDigits]

theorem parseU64_toString {n : ℕ} :
    parseU64 (toString n) = if n < 2 ^ 64 then some (UInt64.ofNat n) else none := by
  rw [parseU64, toList_toString, stripPlus_of_isDigit (all_isDigit_toDigits n),
    parseDigits_toDigits, Option.bind_some]

theorem parseU64_eq_none_of_mem {s : String} {c : Char} (hc : c ∈ s.toList)
    (hdigit : c.isDigit = false) (hplus : c ≠ '+') : parseU64 s = none := by
  have hmem : c ∈ stripPlus s.toList := by
    unfold stripPlus
    split
    · next cs heq =>
      rw [heq] at hc
      exact (List.mem_cons.mp hc).resolve_left hplus
    · exact hc
  have hnone : parseDigits (stripPlus s.toList) = none := by
    apply if_neg
    intro h
    have hall := List.all_eq_true.mp h.2 c hmem
    rw [hdigit] at hall
    cases hall
  rw [parseU64, hnone, Option.bind_none]

theorem toDouble_of_lt {n : ℕ} (h : n < 2 ^ 53) : toDouble n = n := if_pos h

theorem le_roundHalfEven (n d : ℕ) : n / d ≤ roundHalfEven n d := by
  unfold roundHalfEven
  split <;> omega

theorem le_toDouble {n : ℕ} (h : 2 ^ 53 ≤ n) : 2 ^ 53 ≤ toDouble n := by
  have hn : n ≠ 0 := by omega
  have hlog : 53 ≤ n.log2 := (Nat.le_log2 hn).mpr h
  have hself : 2 ^ n.log2 ≤ n := (Nat.le_log2 hn).mp le_rfl
  have hpow : 2 ^ n.log2 = 2 ^ 52 * 2 ^ (n.log2 - 52) := by
    rw [← pow_add]
    congr 1
    omega
  have hquot : 2 ^ 52 ≤ roundHalfEven n (2 ^ (n.log2 - 52)) := by
    apply le_trans _ (le_roundHalfEven _ _)
    rw [Nat.le_div_iff_mul_le (by positivity), ← hpow]
    exact hself
  rw [toDouble, if_neg (by omega)]
  calc 2 ^ 53 = 2 ^ 52 * 2 := by norm_num
    _ ≤ roundHalfEven n (2 ^ (n.log2 - 52)) * 2 ^ (n.log2 - 52) := by
      apply Nat.mul_le_mul hquot
      exact Nat.le_self_pow (by omega) 2

theorem luaToString_of_lt {n : ℕ} (h : n < 10 ^ 14) : luaToString n = toString n := by
  have hd : toDouble n = n := toDouble_of_lt (by omega)
  rw [luaToString, hd, if_pos h]

theorem luaToString_of_le {n : ℕ} (h : 10 ^ 14 ≤ n) :
    ∃ mantissa exponent, luaToString n = String.ofList (scientific mantissa exponent) := by
  have hd : ¬toDouble n < 10 ^ 14 := by
    by_cases hn : n < 2 ^ 53
    · rw [toDouble_of_lt hn]
      omega
    · have := le_toDouble (not_lt.mp hn)
      omega
  simp only [luaToString, if_neg hd]
  split
  · exact ⟨_, _, rfl⟩
  · exact ⟨_, _, rfl⟩

theorem isDigit_of_mem_stripZeros {cs : List Char} (h : ∀ c ∈ cs, c.isDigit = true) {c : Char}
    (hc : c ∈ stripZeros cs) : c.isDigit = true := by
  apply h
  rw [stripZeros, List.mem_reverse] at hc
  exact List.mem_reverse.mp ((List.dropWhile_sublist _).subset hc)

theorem mem_scientific {mantissa exponent : ℕ} {c : Char}
    (hc : c ∈ scientific mantissa exponent) :
    c.isDigit = true ∨ c = '.' ∨ c = 'e' ∨ c = '+' := by
  have hdigits (n : ℕ) : ∀ c ∈ Nat.toDigits 10 n, c.isDigit = true := fun c hc ↦
    Nat.isDigit_of_mem_toDigits (by decide) (by decide) hc
  simp only [scientific, List.mem_append, List.mem_cons] at hc
  rcases hc with (hc | hc) | rfl | rfl | hc
  · exact .inl (hdigits _ c (List.mem_of_mem_take hc))
  · split at hc
    · cases hc
    · rcases List.mem_cons.mp hc with rfl | hc
      · exact .inr (.inl rfl)
      · refine .inl (isDigit_of_mem_stripZeros (fun c hc ↦ ?_) hc)
        exact hdigits _ c (List.mem_of_mem_drop hc)
  · exact .inr (.inr (.inl rfl))
  · exact .inr (.inr (.inr rfl))
  · exact .inl (hdigits _ c hc)

/-- `tostring` writes a number that `u64` reads, and then the same one, below 10^14 only. -/
theorem parseU64_luaToString (n : ℕ) :
    parseU64 (luaToString n) = if n < 10 ^ 14 then some (UInt64.ofNat n) else none := by
  by_cases h : n < 10 ^ 14
  · rw [luaToString_of_lt h, parseU64_toString, if_pos h, if_pos (by omega)]
  · obtain ⟨mantissa, exponent, heq⟩ := luaToString_of_le (not_lt.mp h)
    rw [if_neg h, heq]
    apply parseU64_eq_none_of_mem (c := 'e') _ rfl (by decide)
    rw [String.toList_ofList]
    simp [scientific]

theorem mem_luaToString {n : ℕ} {c : Char} (hc : c ∈ (luaToString n).toList) :
    c.isDigit = true ∨ c = '.' ∨ c = 'e' ∨ c = '+' := by
  by_cases h : n < 10 ^ 14
  · rw [luaToString_of_lt h, toList_toString] at hc
    exact .inl (Nat.isDigit_of_mem_toDigits (by decide) (by decide) hc)
  · obtain ⟨mantissa, exponent, heq⟩ := luaToString_of_le (not_lt.mp h)
    rw [heq, String.toList_ofList] at hc
    exact mem_scientific hc

theorem luaToString_ne_nil (n : ℕ) : (luaToString n).toList ≠ [] := by
  by_cases h : n < 10 ^ 14
  · rw [luaToString_of_lt h, toList_toString]
    exact Nat.toDigits_ne_nil
  · obtain ⟨mantissa, exponent, heq⟩ := luaToString_of_le (not_lt.mp h)
    rw [heq, String.toList_ofList]
    simp [scientific]

/-- Two numbers are written alike by `tostring` and by Rust only if they are equal. -/
theorem eq_of_luaToString_eq {n : ℕ} {g : UInt64} (h : luaToString n = toString g.toNat) :
    n = g.toNat ∧ n < 10 ^ 14 := by
  have hparse : parseU64 (luaToString n) = some g := by
    rw [h, parseU64_toString, if_pos g.toNat_lt, UInt64.ofNat_toNat]
  rw [parseU64_luaToString] at hparse
  split at hparse
  · next hn =>
    have hg := congrArg UInt64.toNat (Option.some.inj hparse)
    rw [UInt64.toNat_ofNat_of_lt' (lt_trans hn (by decide))] at hg
    exact ⟨hg, hn⟩
  · cases hparse

end Buzz.Lib.Decimal
