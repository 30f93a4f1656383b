import Mathlib.Data.Nat.Bitwise

namespace Buzz.Lib.Sha256

/-- The first 32 bits of the fractional parts of the cube roots of the first 64 primes. -/
def roundConstants : List ℕ :=
  [0x428a2f98, 0x71374491, 0xb5c0fbcf, 0xe9b5dba5, 0x3956c25b, 0x59f111f1, 0x923f82a4, 0xab1c5ed5,
   0xd807aa98, 0x12835b01, 0x243185be, 0x550c7dc3, 0x72be5d74, 0x80deb1fe, 0x9bdc06a7, 0xc19bf174,
   0xe49b69c1, 0xefbe4786, 0x0fc19dc6, 0x240ca1cc, 0x2de92c6f, 0x4a7484aa, 0x5cb0a9dc, 0x76f988da,
   0x983e5152, 0xa831c66d, 0xb00327c8, 0xbf597fc7, 0xc6e00bf3, 0xd5a79147, 0x06ca6351, 0x14292967,
   0x27b70a85, 0x2e1b2138, 0x4d2c6dfc, 0x53380d13, 0x650a7354, 0x766a0abb, 0x81c2c92e, 0x92722c85,
   0xa2bfe8a1, 0xa81a664b, 0xc24b8b70, 0xc76c51a3, 0xd192e819, 0xd6990624, 0xf40e3585, 0x106aa070,
   0x19a4c116, 0x1e376c08, 0x2748774c, 0x34b0bcb5, 0x391c0cb3, 0x4ed8aa4a, 0x5b9cca4f, 0x682e6ff3,
   0x748f82ee, 0x78a5636f, 0x84c87814, 0x8cc70208, 0x90befffa, 0xa4506ceb, 0xbef9a3f7, 0xc67178f2]

/-- The first 32 bits of the fractional parts of the square roots of the first 8 primes. -/
def initialHash : List ℕ :=
  [0x6a09e667, 0xbb67ae85, 0x3c6ef372, 0xa54ff53a, 0x510e527f, 0x9b05688c, 0x1f83d9ab, 0x5be0cd19]

def rotr (x n : ℕ) : ℕ := (x >>> n ||| x <<< (32 - n)) % 2 ^ 32

/-- The `width` base-256 digits of `n`, most significant first. -/
def bigEndian : ℕ → ℕ → List UInt8
  | 0, _ => []
  | width + 1, n => bigEndian width (n / 256) ++ [UInt8.ofNat (n % 256)]

def ofBytes (bytes : List UInt8) : ℕ := bytes.foldl (fun n b ↦ 256 * n + b.toNat) 0

def pad (message : List UInt8) : List UInt8 :=
  message ++ 0x80 :: List.replicate ((119 - message.length % 64) % 64) 0 ++
    bigEndian 8 (8 * message.length % 2 ^ 64)

/-- One more word in front of the message schedule, which is kept newest first. -/
def extend (schedule : List ℕ) : List ℕ :=
  let w2 := schedule.getD 1 0
  let w7 := schedule.getD 6 0
  let w15 := schedule.getD 14 0
  let w16 := schedule.getD 15 0
  let s0 := rotr w15 7 ^^^ rotr w15 18 ^^^ w15 >>> 3
  let s1 := rotr w2 17 ^^^ rotr w2 19 ^^^ w2 >>> 10
  (w16 + s0 + w7 + s1) % 2 ^ 32 :: schedule

def extendBy : ℕ → List ℕ → List ℕ
  | 0, schedule => schedule
  | n + 1, schedule => extendBy n (extend schedule)

def round (state : List ℕ) (kw : ℕ × ℕ) : List ℕ :=
  match state with
  | [a, b, c, d, e, f, g, h] =>
    let s1 := rotr e 6 ^^^ rotr e 11 ^^^ rotr e 25
    let ch := (e &&& f) ^^^ ((2 ^ 32 - 1 - e) &&& g)
    let temp1 := h + s1 + ch + kw.1 + kw.2
    let s0 := rotr a 2 ^^^ rotr a 13 ^^^ rotr a 22
    let maj := (a &&& b) ^^^ (a &&& c) ^^^ (b &&& c)
    [(temp1 + s0 + maj) % 2 ^ 32, a, b, c, (d + temp1) % 2 ^ 32, e, f, g]
  | state => state

def compress (hash block : List ℕ) : List ℕ :=
  let schedule := (extendBy 48 block.reverse).reverse
  List.zipWith (fun x y ↦ (x + y) % 2 ^ 32) hash
    ((roundConstants.zip schedule).foldl round hash)

def groups {α : Type*} (size : ℕ) : ℕ → List α → List (List α)
  | 0, _ => []
  | n + 1, xs => xs.take size :: groups size n (xs.drop size)

def digest (message : List UInt8) : List UInt8 :=
  let padded := pad message
  let words := (groups 4 (padded.length / 4) padded).map ofBytes
  let hash := (groups 16 (words.length / 16) words).foldl compress initialHash
  (hash.take 8).flatMap (bigEndian 4)

@[simp] theorem length_bigEndian (width n : ℕ) : (bigEndian width n).length = width := by
  induction width generalizing n with
  | zero => rfl
  | succ width ih => rw [bigEndian, List.length_append, ih, List.length_singleton]

theorem bigEndian_injective {width a b : ℕ} (ha : a < 256 ^ width) (hb : b < 256 ^ width)
    (h : bigEndian width a = bigEndian width b) : a = b := by
  induction width generalizing a b with
  | zero => omega
  | succ width ih =>
    obtain ⟨hinit, hlast⟩ := List.append_inj' h rfl
    rw [pow_succ] at ha hb
    have hdiv : a / 256 = b / 256 := ih (by omega) (by omega) hinit
    have hmod : a % 256 = b % 256 := by
      have hbyte := congrArg UInt8.toNat (List.singleton_inj.mp hlast)
      rwa [UInt8.toNat_ofNat_of_lt' (Nat.mod_lt _ (by decide)),
        UInt8.toNat_ofNat_of_lt' (Nat.mod_lt _ (by decide))] at hbyte
    omega

theorem length_round (state : List ℕ) (kw : ℕ × ℕ) : (round state kw).length = state.length := by
  unfold round
  split <;> rfl

theorem length_compress {hash : List ℕ} (block : List ℕ) :
    (compress hash block).length = hash.length := by
  have hrounds (kws : List (ℕ × ℕ)) : (kws.foldl round hash).length = hash.length :=
    List.foldlRecOn (motive := fun state ↦ state.length = hash.length) kws round rfl
      fun state hstate kw _ ↦ (length_round state kw).trans hstate
  rw [compress, List.length_zipWith, hrounds, min_self]

theorem length_digest (message : List UInt8) : (digest message).length = 32 := by
  have hhash (blocks : List (List ℕ)) : (blocks.foldl compress initialHash).length = 8 :=
    List.foldlRecOn (motive := fun hash ↦ hash.length = 8) blocks compress rfl
      fun hash hlen block _ ↦ (length_compress block).trans hlen
  have hwords (ws : List ℕ) : (ws.flatMap (bigEndian 4)).length = 4 * ws.length := by
    induction ws with
    | nil => rfl
    | cons w ws ih =>
      rw [List.flatMap_cons, List.length_append, ih, length_bigEndian, List.length_cons]
      omega
  rw [digest, hwords, List.length_take, hhash]
  rfl

def hmac (key message : List UInt8) : List UInt8 :=
  let short := if 64 < key.length then digest key else key
  let padded := short ++ List.replicate (64 - short.length) 0
  digest (padded.map (· ^^^ 0x5c) ++ digest (padded.map (· ^^^ 0x36) ++ message))

theorem length_hmac (key message : List UInt8) : (hmac key message).length = 32 := length_digest _

example : digest [0x61, 0x62, 0x63] =
    bigEndian 32 0xba7816bf8f01cfea414140de5dae2223b00361a396177a9cb410ff61f20015ad := by
  decide +kernel

end Buzz.Lib.Sha256
