import Buzz.Lib.Hex
import Buzz.Lib.Utf8

namespace Buzz.Lib.Percent

open Hex

section Encoding

def isAlphanumeric (b : UInt8) : Bool :=
  (48 ≤ b && b ≤ 57) || (65 ≤ b && b ≤ 90) || (97 ≤ b && b ≤ 122)

def upperDigit (d : ℕ) : Char := (Nat.digitChar d).toUpper

def encodeByte (b : UInt8) : List Char :=
  if isAlphanumeric b then [Char.ofNat b.toNat]
  else ['%', upperDigit (b.toNat / 16), upperDigit (b.toNat % 16)]

def encode (text : List Char) : List Char := (Utf8.encode text).flatMap encodeByte

def byteDigit (b : UInt8) : Option ℕ := digitValue (Char.ofNat b.toNat)

/-- `percent_decode`: a `%` without two digits behind it stands for itself. -/
def decode : List UInt8 → List UInt8
  | 37 :: hi :: lo :: rest =>
    match byteDigit hi, byteDigit lo with
    | some h, some l => UInt8.ofNat (16 * h + l) :: decode rest
    | _, _ => 37 :: decode (hi :: lo :: rest)
  | b :: rest => b :: decode rest
  | [] => []

end Encoding

section Lossy

def isContinuation (b : UInt8) : Bool := b &&& 192 == 128

def allowsSecond (b x : UInt8) : Bool :=
  (b == 0xE0 && 0xA0 ≤ x && x ≤ 0xBF) || (0xE1 ≤ b && b ≤ 0xEC && 0x80 ≤ x && x ≤ 0xBF) ||
    (b == 0xED && 0x80 ≤ x && x ≤ 0x9F) || (0xEE ≤ b && b ≤ 0xEF && 0x80 ≤ x && x ≤ 0xBF) ||
    (b == 0xF0 && 0x90 ≤ x && x ≤ 0xBF) || (0xF1 ≤ b && b ≤ 0xF3 && 0x80 ≤ x && x ≤ 0xBF) ||
    (b == 0xF4 && 0x80 ≤ x && x ≤ 0x8F)

/-- How many bytes one replacement character stands for, where no character begins. -/
def invalidLen : List UInt8 → ℕ
  | b :: x :: y :: _ =>
    if allowsSecond b x then (if 0xF0 ≤ b && isContinuation y then 3 else 2) else 1
  | [b, x] => if allowsSecond b x then 2 else 1
  | _ => 1

def lossy : ℕ → List UInt8 → List Char
  | 0, _ => []
  | _ + 1, [] => []
  | n + 1, b :: rest =>
    match (b :: rest).toByteArray.utf8DecodeChar? 0 with
    | some c => c :: lossy n ((b :: rest).drop c.utf8Size)
    | none => '\uFFFD' :: lossy n ((b :: rest).drop (invalidLen (b :: rest)))

def fromUtf8Lossy (bytes : List UInt8) : List Char := lossy bytes.length bytes

end Lossy

theorem encode_upperDigit {d : ℕ} (h : d < 16) :
    String.utf8EncodeChar (upperDigit d) = [(upperDigit d).toUInt8] ∧
      byteDigit (upperDigit d).toUInt8 = some d ∧ (upperDigit d).isAlphanum = true := by
  have key : ∀ d : Fin 16, String.utf8EncodeChar (upperDigit d) = [(upperDigit d).toUInt8] ∧
      byteDigit (upperDigit d).toUInt8 = some d.val ∧ (upperDigit d).isAlphanum = true := by
    decide
  exact key ⟨d, h⟩

theorem encode_alphanumeric {b : UInt8} (h : isAlphanumeric b = true) :
    String.utf8EncodeChar (Char.ofNat b.toNat) = [b] ∧ b ≠ 37 ∧
      (Char.ofNat b.toNat).isAlphanum = true := by
  have key : ∀ n : Fin 256, isAlphanumeric (UInt8.ofNat n) = true →
      String.utf8EncodeChar (Char.ofNat n) = [UInt8.ofNat n] ∧ UInt8.ofNat n ≠ 37 ∧
        (Char.ofNat n).isAlphanum = true := by
    decide +kernel
  have hb := key ⟨b.toNat, b.toNat_lt⟩
  simp only [UInt8.ofNat_toNat] at hb
  exact hb h

theorem decode_cons_of_ne {b : UInt8} (h : b ≠ 37) (rest : List UInt8) :
    decode (b :: rest) = b :: decode rest := by
  rw [decode.eq_def]
  split
  · rename_i heq
    cases heq
    exact absurd rfl h
  · rename_i heq
    cases heq
    rfl
  · rename_i heq
    cases heq

theorem decode_encodeByte (b : UInt8) (rest : List UInt8) :
    decode (Utf8.encode (encodeByte b) ++ rest) = b :: decode rest := by
  rw [encodeByte]
  split
  · rename_i h
    obtain ⟨hutf8, hne, -⟩ := encode_alphanumeric h
    rw [Utf8.encode_cons, hutf8]
    exact decode_cons_of_ne hne rest
  · have hlt := b.toNat_lt
    obtain ⟨hhi, hhiDigit, -⟩ := encode_upperDigit (d := b.toNat / 16) (by omega)
    obtain ⟨hlo, hloDigit, -⟩ := encode_upperDigit (d := b.toNat % 16) (by omega)
    have hpercent : String.utf8EncodeChar '%' = [37] := by decide
    simp only [Utf8.encode_cons, Utf8.encode_nil, hpercent, hhi, hlo, List.cons_append,
      List.nil_append, decode,
      hhiDigit, hloDigit, Nat.div_add_mod, UInt8.ofNat_toNat]

theorem decode_encode (text : List Char) :
    decode (Utf8.encode (encode text)) = Utf8.encode text := by
  rw [encode]
  induction Utf8.encode text with
  | nil => rfl
  | cons b bytes ih => rw [List.flatMap_cons, Utf8.encode_append, decode_encodeByte, ih]

theorem mem_encode {text : List Char} {c : Char} (h : c ∈ encode text) :
    c.isAlphanum = true ∨ c = '%' := by
  obtain ⟨b, -, hc⟩ := List.mem_flatMap.mp h
  rw [encodeByte] at hc
  split at hc
  · rename_i hb
    rw [List.mem_singleton.mp hc]
    exact .inl (encode_alphanumeric hb).2.2
  · have hlt := b.toNat_lt
    simp only [List.mem_cons, List.not_mem_nil, or_false] at hc
    obtain rfl | rfl | rfl := hc
    · exact .inr rfl
    · exact .inl (encode_upperDigit (by omega)).2.2
    · exact .inl (encode_upperDigit (by omega)).2.2

theorem lossy_encode {text : List Char} {n : ℕ} (h : text.length ≤ n) :
    lossy n (Utf8.encode text) = text := by
  induction text generalizing n with
  | nil => cases n <;> rfl
  | cons c text ih =>
    obtain ⟨n, rfl⟩ : ∃ m, n = m + 1 := ⟨n - 1, by simp only [List.length_cons] at h; omega⟩
    obtain ⟨b, bytes, hbytes⟩ : ∃ b bytes, Utf8.encode (c :: text) = b :: bytes := by
      apply List.exists_cons_of_length_pos
      have hpos := c.utf8Size_pos
      rw [Utf8.encode_cons, List.length_append, String.length_utf8EncodeChar]
      omega
    have hchar : (Utf8.encode (c :: text)).toByteArray.utf8DecodeChar? 0 = some c := by
      rw [Utf8.encode_cons, List.toByteArray_append]
      exact ByteArray.utf8DecodeChar?_utf8EncodeChar_append
    have hdrop : (Utf8.encode (c :: text)).drop c.utf8Size = Utf8.encode text := by
      rw [Utf8.encode_cons, ← String.length_utf8EncodeChar, List.drop_left]
    rw [hbytes] at hchar hdrop ⊢
    simp only [lossy, hchar, hdrop]
    rw [ih (by simpa using h)]

theorem length_le_length_encode (text : List Char) : text.length ≤ (Utf8.encode text).length := by
  induction text with
  | nil => rfl
  | cons c text ih =>
    have hpos := c.utf8Size_pos
    rw [Utf8.encode_cons, List.length_append, String.length_utf8EncodeChar, List.length_cons]
    omega

theorem fromUtf8Lossy_encode (text : List Char) : fromUtf8Lossy (Utf8.encode text) = text :=
  lossy_encode (length_le_length_encode text)

/-- Encoded text comes back. -/
theorem fromUtf8Lossy_decode_encode (text : List Char) :
    fromUtf8Lossy (decode (Utf8.encode (encode text))) = text := by
  rw [decode_encode, fromUtf8Lossy_encode]

end Buzz.Lib.Percent
