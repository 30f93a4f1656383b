import Buzz.Lib.Attempt
import Buzz.Lib.Decimal
import Buzz.Lib.Json
import Buzz.Nostr.Event

namespace Buzz.PairRelay

open Buzz.Lib Buzz.Nostr

def kindPair : ℕ := 24134
def freshnessSecs : ℕ := 120

section Values

def asObject : Json → Option (List (String × Json))
  | .obj fields => some fields
  | _ => none

def asArray : Json → Option (List Json)
  | .arr elems => some elems
  | _ => none

def asStr : Json → Option String
  | .str s => some s
  | _ => none

def asU64 : Json → Option ℕ
  | .num lexeme => (Decimal.parseDigits lexeme.toList).filter (· < 2 ^ 64)
  | _ => none

/-- An integer in decimal; `-0` is none. -/
def parseInt : List Char → Option ℤ
  | '-' :: digits => ((Decimal.parseDigits digits).filter (0 < ·)).map fun n ↦ -(n : ℤ)
  | digits => (Decimal.parseDigits digits).map Int.ofNat

def asI64 : Json → Option ℤ
  | .num lexeme => (parseInt lexeme.toList).filter fun n ↦ -2 ^ 63 ≤ n && n < 2 ^ 63
  | _ => none

end Values

section Messages

def makeOk (id : String) (ok : Bool) (msg : String) : Json :=
  .arr [.str "OK", .str id, .bool ok, .str msg]

def makeClosed (subId msg : String) : Json := .arr [.str "CLOSED", .str subId, .str msg]

def makeEose (subId : String) : Json := .arr [.str "EOSE", .str subId]

def makeNotice (msg : String) : Json := .arr [.str "NOTICE", .str msg]

def makeEvent (subId : String) (event : Json) : Json := .arr [.str "EVENT", .str subId, event]

end Messages

def isLowerHex (s : String) (len : ℕ) : Bool :=
  s.utf8ByteSize == len && s.toList.all Hex.isLowerHexDigit

/-- The number of `bits` bits that a lowercase hexadecimal text of its width denotes. -/
def decodeHex (bits : ℕ) (s : String) : Option (Fin (2 ^ bits)) :=
  if isLowerHex s (bits / 4) then
    (Hex.parseHex s.toList).bind fun n ↦ if h : n < 2 ^ bits then some ⟨n, h⟩ else none
  else none

def decodeHex32 (s : String) : Option (Fin (2 ^ 256)) := decodeHex 256 s

def decodeHex64 (s : String) : Option Signature := decodeHex 512 s

def validateFilter (filter : Json) : Except String PublicKey := do
  let obj ← okOr (asObject filter) "filter must be an object"
  require (∀ field ∈ obj, field.1 = "kinds" ∨ field.1 = "#p") "unsupported filter field"
  match obj.lookup "kinds" with
  | some kinds =>
    let arr ← okOr (asArray kinds) "kinds must be an array"
    require (arr.map asU64 = [some kindPair]) "kinds must be [24134]"
  | none => pure ()
  let pArr ← okOr ((obj.lookup "#p").bind asArray) "#p filter required"
  match pArr with
  | [p] =>
    let pStr ← okOr (asStr p) "#p value must be a string"
    okOr (decodeHex32 pStr) "#p value must be 64 lowercase hex chars"
  | _ => .error "#p must have exactly one value"

section Nip44

def isBase64 (b : UInt8) : Bool :=
  let n := b.toNat
  (65 ≤ n && n ≤ 90) || (97 ≤ n && n ≤ 122) || (48 ≤ n && n ≤ 57) || n == 43 || n == 47

def b64Val (b : UInt8) : Option ℕ :=
  let n := b.toNat
  if 65 ≤ n ∧ n ≤ 90 then some (n - 65)
  else if 97 ≤ n ∧ n ≤ 122 then some (n - 97 + 26)
  else if 48 ≤ n ∧ n ≤ 57 then some (n - 48 + 52)
  else if n = 43 then some 62
  else if n = 47 then some 63
  else none

def countPadding (len : ℕ) : List UInt8 → ℕ → ℕ → Except String ℕ
  | [], _, padCount => .ok padCount
  | b :: bytes, i, padCount =>
    if isBase64 b then
      if 0 < padCount then .error "content is not valid base64"
      else countPadding len bytes (i + 1) padCount
    else if b.toNat = 61 then
      if i < len - 2 || 2 < padCount + 1 then .error "content is not valid base64"
      else countPadding len bytes (i + 1) (padCount + 1)
    else .error "content is not valid base64"

def validateNip44Content (content : String) : Except String Unit := do
  require (content ≠ "") "content must not be empty"
  let bytes := content.toUTF8.toList
  let len := bytes.length
  require (len % 4 = 0) "content is not valid base64"
  let padCount ← countPadding len bytes 0 0
  require (99 ≤ len / 4 * 3 - padCount) "content too short for NIP-44 v2"
  let v0 ← okOr ((bytes[0]?).bind b64Val) "content is not valid base64"
  let v1 ← okOr ((bytes[1]?).bind b64Val) "content is not valid base64"
  require (v0 * 4 + v1 / 16 = 2) "content is not NIP-44 v2 (expected 0x02 prefix)"

end Nip44

def allowedKeys : List String :=
  ["id", "pubkey", "created_at", "kind", "tags", "content", "sig"]

/-- `created_at` is within the window around the wall clock's second. -/
def Fresh (createdAt wallSecs : ℤ) : Prop := (createdAt - wallSecs).natAbs ≤ freshnessSecs

instance (createdAt wallSecs : ℤ) : Decidable (Fresh createdAt wallSecs) :=
  inferInstanceAs (Decidable (_ ≤ _))

def eventCreatedAt (ev : Json) : Option ℤ :=
  (asObject ev).bind fun obj ↦ (obj.lookup "created_at").bind asI64

def recipient (tags : List Json) : Except String PublicKey :=
  match tags with
  | [tag] => do
    let tag ← okOr (asArray tag) "tag must be an array"
    match tag with
    | [name, value] =>
      require (asStr name = some "p") "event must have exactly one p tag"
      let pStr ← okOr (asStr value) "p tag value must be a string"
      okOr (decodeHex32 pStr) "p tag value must be 64 lowercase hex chars"
    | _ => .error "p tag must have exactly 2 elements"
  | _ => .error "event must have exactly one p tag"

/-- The checks of the tightenings, in their order, on the second of the wall clock. -/
def validateEvent (wallSecs : ℤ) (ev : Json) : Except String (String × EventId × PublicKey) := do
  let obj ← okOr (asObject ev) "event must be an object"
  require (∀ field ∈ obj, field.1 ∈ allowedKeys) "unknown top-level field"
  let id ← okOr ((obj.lookup "id").bind asStr) "missing id"
  require (isLowerHex id 64 = true) "id must be 64 lowercase hex chars"
  let idBytes ← okOr (decodeHex32 id) "id must be 64 lowercase hex chars"
  let pubkey ← okOr ((obj.lookup "pubkey").bind asStr) "missing pubkey"
  require (isLowerHex pubkey 64 = true) "pubkey must be 64 lowercase hex chars"
  require ((obj.lookup "kind").bind asU64 = some kindPair) "kind must be 24134"
  let createdAt ← okOr ((obj.lookup "created_at").bind asI64) "missing created_at"
  require (Fresh createdAt wallSecs) "created_at outside freshness window"
  let content ← okOr ((obj.lookup "content").bind asStr) "missing content"
  validateNip44Content content
  let sig ← okOr ((obj.lookup "sig").bind asStr) "missing sig"
  require (isLowerHex sig 128 = true) "sig must be 128 lowercase hex chars"
  let tags ← okOr ((obj.lookup "tags").bind asArray) "missing tags"
  let pBytes ← recipient tags
  .ok (id, idBytes, pBytes)

def safeEventId (ev : Json) : String :=
  (((asObject ev).bind fun obj ↦ (obj.lookup "id").bind asStr).filter (isLowerHex · 64)).getD ""

/-- The hash and the signature scheme: SHA-256 of a commitment's compact text, and BIP-340. -/
structure Crypto where
  digest : Json → EventId
  isXOnlyKey : PublicKey → Bool
  verifySchnorr : Signature → EventId → PublicKey → Bool

def commitment (ev : Json) : Except String Json := do
  let obj ← okOr (asObject ev) "event must be an object"
  let pubkey ← okOr ((obj.lookup "pubkey").bind asStr) "missing pubkey"
  let createdAt ← okOr ((obj.lookup "created_at").bind asI64) "missing created_at"
  let kind ← okOr ((obj.lookup "kind").bind asU64) "missing kind"
  let tags ← okOr (obj.lookup "tags") "missing tags"
  let content ← okOr ((obj.lookup "content").bind asStr) "missing content"
  .ok (.arr [.num "0", .str pubkey, .num (toString createdAt), .num (toString kind), tags,
    .str content])

def verifyEventSig (crypto : Crypto) (ev : Json) : Except String Unit := do
  let hashed ← commitment ev
  let obj ← okOr (asObject ev) "event must be an object"
  let pubkey ← okOr ((obj.lookup "pubkey").bind asStr) "missing pubkey"
  let id ← okOr ((obj.lookup "id").bind asStr) "missing id"
  let sig ← okOr ((obj.lookup "sig").bind asStr) "missing sig"
  let idBytes ← okOr (decodeHex32 id) "id must be 64 lowercase hex chars"
  require (crypto.digest hashed = idBytes) "invalid: event id mismatch"
  let pubkeyBytes ← okOr (decodeHex32 pubkey) "pubkey must be 64 lowercase hex chars"
  require (crypto.isXOnlyKey pubkeyBytes = true) "invalid: bad pubkey"
  let sigBytes ← okOr (decodeHex64 sig) "sig must be 128 lowercase hex chars"
  require (crypto.verifySchnorr sigBytes (crypto.digest hashed) pubkeyBytes = true)
    "invalid: signature verification failed"

theorem eventCreatedAt_eq {ev : Json} {obj : List (String × Json)} (h : asObject ev = some obj) :
    eventCreatedAt ev = (obj.lookup "created_at").bind asI64 := by
  rw [eventCreatedAt, h, Option.bind_some]

theorem of_validateEvent {wallSecs : ℤ} {ev : Json} {id : String} {idBytes : EventId}
    {p : PublicKey} (h : validateEvent wallSecs ev = .ok (id, idBytes, p)) :
    (∃ obj, asObject ev = some obj ∧ (obj.lookup "id").bind asStr = some id ∧
      ∃ tags, (obj.lookup "tags").bind asArray = some tags ∧ recipient tags = .ok p) ∧
    decodeHex32 id = some idBytes ∧ ∃ c, eventCreatedAt ev = some c ∧ Fresh c wallSecs := by
  simp only [validateEvent, bind_eq_ok, okOr_eq_ok, require_eq_ok] at h
  obtain ⟨obj, hobj, _, -, id', hid, _, -, idBytes', hbytes, _, -, _, -, _, -, c, hc, _, hfresh, _,
    -, _, -, _, -, _, -, tags, htags, p', hp, heq⟩ := h
  cases heq
  exact ⟨⟨obj, hobj, hid, tags, htags, hp⟩, hbytes, c, (eventCreatedAt_eq hobj).trans hc, hfresh⟩

theorem of_verifyEventSig {crypto : Crypto} {ev : Json} (h : verifyEventSig crypto ev = .ok ()) :
    ∃ hashed, commitment ev = .ok hashed ∧ ∃ obj id, asObject ev = some obj ∧
      (obj.lookup "id").bind asStr = some id ∧ decodeHex32 id = some (crypto.digest hashed) := by
  simp only [verifyEventSig, bind_eq_ok, okOr_eq_ok, require_eq_ok] at h
  obtain ⟨hashed, hhashed, obj, hobj, _, -, id, hid, _, -, idBytes, hbytes, _, rfl, -⟩ := h
  exact ⟨hashed, hhashed, obj, id, hobj, hid, hbytes⟩

theorem digest_eq_of_accepted {crypto : Crypto} {wallSecs : ℤ} {ev : Json} {id : String}
    {idBytes : EventId} {p : PublicKey} (h : validateEvent wallSecs ev = .ok (id, idBytes, p))
    (hsig : verifyEventSig crypto ev = .ok ()) :
    ∃ hashed, commitment ev = .ok hashed ∧ crypto.digest hashed = idBytes := by
  obtain ⟨⟨obj, hobj, hid, -⟩, hbytes, -⟩ := of_validateEvent h
  obtain ⟨hashed, hhashed, obj', id', hobj', hid', hbytes'⟩ := of_verifyEventSig hsig
  cases hobj.symm.trans hobj'
  cases hid.symm.trans hid'
  exact ⟨hashed, hhashed, Option.some.inj (hbytes'.symm.trans hbytes)⟩

theorem repr_toList_head {n : ℕ} {c : Char} {cs : List Char} (h : (Nat.repr n).toList = c :: cs) :
    c.isDigit = true := by
  rw [Nat.toList_repr] at h
  exact Nat.isDigit_of_mem_toDigits (by decide) (by decide) (h ▸ List.mem_cons_self)

theorem repr_injective : Function.Injective Nat.repr := by
  intro a b h
  have hlist := congrArg String.toList h
  rw [Nat.toList_repr, Nat.toList_repr] at hlist
  have hparse := congrArg (fun cs ↦ Nat.ofDigitChars 10 cs 0) hlist
  simpa using hparse

/-- Different integers are written differently. -/
theorem toString_int_injective : Function.Injective (toString : ℤ → String) := by
  have hminus (a b : ℕ) : Nat.repr a ≠ "-" ++ Nat.repr b := by
    intro h
    have hlist := congrArg String.toList h
    rw [String.toList_append] at hlist
    exact absurd (repr_toList_head hlist) (by decide)
  intro a b h
  cases a with
  | ofNat a =>
    cases b with
    | ofNat b => exact congrArg Int.ofNat (repr_injective h)
    | negSucc b => exact (hminus a (b + 1) h).elim
  | negSucc a =>
    cases b with
    | ofNat b => exact (hminus b (a + 1) h.symm).elim
    | negSucc b =>
      have hlist : ("-" ++ Nat.repr (a + 1)).toList = ("-" ++ Nat.repr (b + 1)).toList :=
        congrArg String.toList h
      rw [String.toList_append, String.toList_append] at hlist
      have hsucc := repr_injective (String.toList_inj.mp (List.append_cancel_left hlist))
      exact congrArg Int.negSucc (Nat.succ.inj hsucc)

theorem eventCreatedAt_eq_of_commitment {ev ev' hashed : Json} (h : commitment ev = .ok hashed)
    (h' : commitment ev' = .ok hashed) : eventCreatedAt ev = eventCreatedAt ev' := by
  simp only [commitment, bind_eq_ok, okOr_eq_ok] at h h'
  obtain ⟨obj, hobj, _, -, c, hc, _, -, _, -, _, -, heq⟩ := h
  obtain ⟨obj', hobj', _, -, c', hc', _, -, _, -, _, -, heq'⟩ := h'
  rw [eventCreatedAt_eq hobj, eventCreatedAt_eq hobj', hc, hc']
  have hfields := heq.trans heq'.symm
  simp only [Except.ok.injEq, Json.arr.injEq, List.cons.injEq, Json.num.injEq] at hfields
  exact congrArg some (toString_int_injective hfields.2.2.1)

end Buzz.PairRelay
