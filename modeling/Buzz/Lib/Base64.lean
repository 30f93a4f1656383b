import Mathlib.Data.List.Basic
import Mathlib.Data.UInt
import Mathlib.Tactic.SplitIfs

namespace Buzz.Lib.Base64

def alphabet : List Char :=
  "ABCDEFGHIJKLMNOPQRSTUVWXYZabcdefghijklmnopqrstuvwxyz0123456789+/".toList

/-- The character of six bits. -/
def symbol (n : ℕ) : Char := alphabet.getD n '='

/-- The standard alphabet, with padding. -/
def encode : List UInt8 → List Char
  | [] => []
  | [a] => [symbol (a.toNat / 4), symbol (a.toNat % 4 * 16), '=', '=']
  | [a, b] =>
    [symbol (a.toNat / 4), symbol (a.toNat % 4 * 16 + b.toNat / 16), symbol (b.toNat % 16 * 4), '=']
  | a :: b :: c :: rest =>
    symbol (a.toNat / 4) :: symbol (a.toNat % 4 * 16 + b.toNat / 16) ::
      symbol (b.toNat % 16 * 4 + c.toNat / 64) :: symbol (c.toNat % 64) :: encode rest

/-- The six bits of a character. -/
def value (c : Char) : ℕ := alphabet.idxOf c

/-- The bytes of groups of four, whatever the bits beyond the last byte are. -/
def bytes : List Char → List UInt8
  | p :: q :: r :: s :: rest =>
    let a := UInt8.ofNat (value p * 4 + value q / 16)
    let b := UInt8.ofNat (value q % 16 * 16 + value r / 4)
    let c := UInt8.ofNat (value r % 4 * 64 + value s)
    if r = '=' then [a] else if s = '=' then [a, b] else a :: b :: c :: bytes rest
  | _ => []

def decode (text : List Char) : Option (List UInt8) :=
  if encode (bytes text) = text then some (bytes text) else none

/-- What is relied on of an encoder and a decoder: they are inverse to each other, and the code is
in the alphabet, with four characters for each three bytes begun. -/
structure Standard (encode : List UInt8 → List Char) (decode : List Char → Option (List UInt8)) :
    Prop where
  round_trip : ∀ data, decode (encode data) = some data
  canonical : ∀ text data, decode text = some data → text = encode data
  in_alphabet : ∀ data, ∀ c ∈ encode data, c ∈ alphabet ∨ c = '='
  length_encode : ∀ data, (encode data).length = 4 * ((data.length + 2) / 3)

set_option maxRecDepth 10000 in
theorem value_symbol {n : ℕ} (h : n < 64) : value (symbol n) = n := by
  have key : ∀ x : Fin 64, value (symbol x) = x := by decide
  exact key ⟨n, h⟩

set_option maxRecDepth 10000 in
theorem symbol_ne {n : ℕ} (h : n < 64) : symbol n ≠ '=' := by
  have key : ∀ x : Fin 64, symbol x ≠ '=' := by decide
  exact key ⟨n, h⟩

set_option maxRecDepth 10000 in
theorem symbol_mem {n : ℕ} (h : n < 64) : symbol n ∈ alphabet := by
  have key : ∀ x : Fin 64, symbol x ∈ alphabet := by decide
  exact key ⟨n, h⟩

/-- A byte is put together again from its upper and its lower bits. -/
theorem ofNat_div_mod (a : UInt8) {k : ℕ} : UInt8.ofNat (a.toNat / k * k + a.toNat % k) = a := by
  rw [Nat.div_add_mod', UInt8.ofNat_toNat]

theorem bytes_encode (data : List UInt8) : bytes (encode data) = data := by
  induction data using encode.induct with
  | case1 => rfl
  | case2 a =>
    have ha := a.toNat_lt
    rw [encode, bytes, if_pos rfl, value_symbol (by omega), value_symbol (by omega)]
    simp only [Nat.mul_div_cancel _ (show 0 < 16 by decide), ofNat_div_mod]
  | case3 a b =>
    have ha := a.toNat_lt
    have hb := b.toNat_lt
    have hhigh : (a.toNat % 4 * 16 + b.toNat / 16) / 16 = a.toNat % 4 := by omega
    have hlow : (a.toNat % 4 * 16 + b.toNat / 16) % 16 = b.toNat / 16 := by omega
    rw [encode, bytes, if_neg (symbol_ne (by omega)), if_pos rfl, value_symbol (by omega),
      value_symbol (by omega), value_symbol (by omega), hhigh, hlow]
    simp only [Nat.mul_div_cancel _ (show 0 < 4 by decide), ofNat_div_mod]
  | case4 a b c rest ih =>
    have ha := a.toNat_lt
    have hb := b.toNat_lt
    have hc := c.toNat_lt
    have hhigh : (a.toNat % 4 * 16 + b.toNat / 16) / 16 = a.toNat % 4 := by omega
    have hlow : (a.toNat % 4 * 16 + b.toNat / 16) % 16 = b.toNat / 16 := by omega
    have hhigh' : (b.toNat % 16 * 4 + c.toNat / 64) / 4 = b.toNat % 16 := by omega
    have hlow' : (b.toNat % 16 * 4 + c.toNat / 64) % 4 = c.toNat / 64 := by omega
    rw [encode, bytes, if_neg (symbol_ne (by omega)), if_neg (symbol_ne (by omega)),
      value_symbol (by omega), value_symbol (by omega), value_symbol (by omega),
      value_symbol (by omega), hhigh, hlow, hhigh', hlow', ih]
    simp only [ofNat_div_mod]

theorem mem_encode (data : List UInt8) : ∀ c ∈ encode data, c ∈ alphabet ∨ c = '=' := by
  induction data using encode.induct with
  | case1 => simp [encode]
  | case2 a =>
    have ha := a.toNat_lt
    have h₁ : symbol (a.toNat / 4) ∈ alphabet := symbol_mem (by omega)
    have h₂ : symbol (a.toNat % 4 * 16) ∈ alphabet := symbol_mem (by omega)
    simp [encode, h₁, h₂]
  | case3 a b =>
    have ha := a.toNat_lt
    have hb := b.toNat_lt
    have h₁ : symbol (a.toNat / 4) ∈ alphabet := symbol_mem (by omega)
    have h₂ : symbol (a.toNat % 4 * 16 + b.toNat / 16) ∈ alphabet := symbol_mem (by omega)
    have h₃ : symbol (b.toNat % 16 * 4) ∈ alphabet := symbol_mem (by omega)
    simp [encode, h₁, h₂, h₃]
  | case4 a b c rest ih =>
    have ha := a.toNat_lt
    have hb := b.toNat_lt
    have hc := c.toNat_lt
    have h₁ : symbol (a.toNat / 4) ∈ alphabet := symbol_mem (by omega)
    have h₂ : symbol (a.toNat % 4 * 16 + b.toNat / 16) ∈ alphabet := symbol_mem (by omega)
    have h₃ : symbol (b.toNat % 16 * 4 + c.toNat / 64) ∈ alphabet := symbol_mem (by omega)
    have h₄ : symbol (c.toNat % 64) ∈ alphabet := symbol_mem (by omega)
    simpa [encode, h₁, h₂, h₃, h₄] using ih

theorem length_encode (data : List UInt8) : (encode data).length = 4 * ((data.length + 2) / 3) := by
  induction data using encode.induct with
  | case1 => rfl
  | case2 a => simp [encode]
  | case3 a b => simp [encode]
  | case4 a b c rest ih =>
    simp only [encode, List.length_cons, ih]
    omega

theorem standard : Standard encode decode where
  round_trip data := by rw [decode, bytes_encode, if_pos rfl]
  canonical text data h := by
    rw [decode] at h
    split_ifs at h with heq
    cases h
    exact heq.symm
  in_alphabet := mem_encode
  length_encode := length_encode

end Buzz.Lib.Base64
