import Mathlib.Data.List.Induction
import Buzz.Lib.Sha256

namespace Buzz.Lib

section Numbers

open Sha256

theorem ofBytes_append_singleton (bytes : List UInt8) (byte : UInt8) :
    ofBytes (bytes ++ [byte]) = 256 * ofBytes bytes + byte.toNat := by
  simp [ofBytes]

theorem ofBytes_lt (bytes : List UInt8) : ofBytes bytes < 256 ^ bytes.length := by
  induction bytes using List.reverseRecOn with
  | nil => simp [ofBytes]
  | append_singleton bytes byte ih =>
    have hbyte := byte.toNat_lt
    rw [ofBytes_append_singleton, List.length_append, List.length_singleton, pow_succ]
    omega

theorem ofBytes_bigEndian {width n : ℕ} (h : n < 256 ^ width) :
    ofBytes (bigEndian width n) = n := by
  induction width generalizing n with
  | zero =>
    have hzero : n = 0 := by simpa using h
    simp [bigEndian, ofBytes, hzero]
  | succ width ih =>
    rw [pow_succ] at h
    have hlast : (UInt8.ofNat (n % 256)).toNat = n % 256 :=
      UInt8.toNat_ofNat_of_lt' (Nat.mod_lt _ (by decide))
    rw [bigEndian, ofBytes_append_singleton, ih (by omega), hlast]
    omega

theorem bigEndian_ofBytes (bytes : List UInt8) :
    bigEndian bytes.length (ofBytes bytes) = bytes := by
  induction bytes using List.reverseRecOn with
  | nil => rfl
  | append_singleton bytes byte ih =>
    have hbyte := byte.toNat_lt
    have hdiv : (256 * ofBytes bytes + byte.toNat) / 256 = ofBytes bytes := by omega
    have hmod : (256 * ofBytes bytes + byte.toNat) % 256 = byte.toNat := by omega
    rw [List.length_append, List.length_singleton, ofBytes_append_singleton, bigEndian, hdiv, hmod,
      ih, UInt8.ofNat_toNat]

end Numbers

section Chunks

variable {α : Type*}

/-- `slice::chunks`: runs of `size` elements, the last one maybe shorter. -/
def chunks (size : ℕ) (xs : List α) : List (List α) :=
  Sha256.groups size ((xs.length + size - 1) / size) xs

theorem flatten_groups (size n : ℕ) (xs : List α) :
    (Sha256.groups size n xs).flatten = xs.take (size * n) := by
  induction n generalizing xs with
  | zero => simp [Sha256.groups]
  | succ n ih => rw [Sha256.groups, List.flatten_cons, ih, ← List.take_add, Nat.mul_succ, Nat.add_comm]

theorem flatten_chunks {size : ℕ} (hsize : 0 < size) (xs : List α) :
    (chunks size xs).flatten = xs := by
  rw [chunks, flatten_groups, List.take_of_length_le]
  have hdiv := Nat.div_add_mod (xs.length + size - 1) size
  have hmod := Nat.mod_lt (xs.length + size - 1) hsize
  omega

end Chunks

end Buzz.Lib
