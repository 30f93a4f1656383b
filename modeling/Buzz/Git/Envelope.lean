import Buzz.Git.Signature
import Buzz.Lib.Attempt
import Buzz.Lib.Base64
import Buzz.Lib.JsonLeaves
import Buzz.Lib.JsonSplice
import Buzz.PairRelay.Validate

namespace Buzz.GitSign

open Buzz.Audit Buzz.Lib Buzz.PairRelay

def armorBegin : String := "-----BEGIN SIGNED MESSAGE-----"

def armorEnd : String := "-----END SIGNED MESSAGE-----"

def maxSigFile : ℕ := 8 * 1024

def maxJsonDecoded : ℕ := 2048

def maxBase64Line : ℕ := 4096

def maxAuthTag : ℕ := 1024

/-- What the program has from its crates: the base64 engine, whether `PublicKey::from_hex` takes a
key, and the check of a signature. -/
structure Crates where
  encode : Bytes → List Char
  decode : List Char → Option Bytes
  publicKey : String → Bool
  schnorr : Schnorr

def fromUtf8 (bytes : Bytes) : Option String := String.fromUTF8? ⟨bytes.toArray⟩

section Sign

inductive AuthTagError
  | config
  | tooLong
  | notJson
  | notArray
  | length
  | notAuth
  | notString (i : ℕ)
  | conditions
  | owner
  | signature
deriving DecidableEq, Repr

def checked {ε : Type} (p : String → Bool) (err : ε) (val : String) :
    Except ε {s : String // p s = true} :=
  if h : p val = true then .ok ⟨val, h⟩ else .error err

def parseAuthTag (json : String) : Except AuthTagError OwnerAttestation := do
  require (json.utf8ByteSize ≤ maxAuthTag) AuthTagError.tooLong
  let val ← okOr (Json.parse json) .notJson
  let arr ← okOr (asArray val) .notArray
  require (arr.length = 4) AuthTagError.length
  require (asStr (arr.getD 0 .null) = some "auth") AuthTagError.notAuth
  let owner ← okOr (asStr (arr.getD 1 .null)) (.notString 1)
  let conditions ← okOr (asStr (arr.getD 2 .null)) (.notString 2)
  let sig ← okOr (asStr (arr.getD 3 .null)) (.notString 3)
  let conditions ← checked validateConditions .conditions conditions
  let owner ← checked (validateHexField · 64) .owner owner
  let sig ← checked (validateHexField · 128) .signature sig
  return ⟨owner, conditions, sig, owner.2, conditions.2, sig.2⟩

def loadAuthTag (env : Option String) (config : Except AuthTagError (Option String)) :
    Except AuthTagError (Option OwnerAttestation) := do
  let jsonStr ← (env.filter (!·.isEmpty)).elim config (.ok ∘ some)
  jsonStr.elim (.ok none) fun json ↦ (parseAuthTag json).map some

def enforceClause (t : ℕ) (clause : List Char) : Bool :=
  match stripPrefix "created_at<".toList clause with
  | some val => (parseDecimalU32 val).all fun limit ↦ decide (t < limit)
  | none =>
    match stripPrefix "created_at>".toList clause with
    | some val => (parseDecimalU32 val).all fun limit ↦ decide (limit < t)
    | none => true

def enforceConditions (conditions : String) (t : ℕ) : Bool :=
  conditions.isEmpty || (conditions.toList.splitOn '&').all (enforceClause t)

def authPreimage (agentPk conditions : String) : Bytes :=
  utf8 ("nostr:agent-auth:" ++ agentPk ++ ":" ++ conditions)

def verifyOa (C : Crates) (agentPk : String) (oa : OwnerAttestation) : Bool :=
  C.publicKey oa.owner &&
    C.schnorr oa.owner oa.sig (Sha256.digest (authPreimage agentPk oa.conditions))

/-- The canonical envelope: fixed field order, no white space and no escapes. -/
def buildEnvelope (pk sig : String) (t : UInt64) (oa : Option OwnerAttestation) : String :=
  match oa with
  | some oa =>
    "\x7b\"v\":1,\"pk\":\"" ++ pk ++ "\",\"sig\":\"" ++ sig ++ "\",\"t\":" ++ toString t.toNat ++
      ",\"oa\":[\"" ++ oa.owner ++ "\",\"" ++ oa.conditions ++ "\",\"" ++ oa.sig ++ "\"]\x7d"
  | none =>
    "\x7b\"v\":1,\"pk\":\"" ++ pk ++ "\",\"sig\":\"" ++ sig ++ "\",\"t\":" ++ toString t.toNat ++
      "\x7d"

def armor (C : Crates) (json : Bytes) : String :=
  armorBegin ++ "\n" ++ String.ofList (C.encode json) ++ "\n" ++ armorEnd ++ "\n"

/-- A key pair: the x-only public key, and `sign_schnorr` of a message. -/
structure Signer where
  pk : Bytes
  sign : Bytes → Bytes
  length_pk : pk.length = 32
  length_sign : ∀ message, (sign message).length = 64

def Signer.pkHex (k : Signer) : String := String.ofList (Hex.encodeBytes k.pk)

def Signer.sigHex (k : Signer) (message : Bytes) : String :=
  String.ofList (Hex.encodeBytes (k.sign message))

inductive SignError
  | payloadTooLong
  | timestamp
  | authTag (err : AuthTagError)
  | ownerKey
  | selfAttestation
  | ownerSignature
  | conditions
deriving DecidableEq, Repr

/-- What `do_sign` asks of an auth tag before it embeds it. -/
def embeddable (C : Crates) (pk : String) (t : UInt64) : Option OwnerAttestation →
    Except SignError Unit
  | none => .ok ()
  | some oa => do
    require (C.publicKey oa.owner = true) SignError.ownerKey
    require (oa.owner ≠ pk) SignError.selfAttestation
    require (verifyOa C pk oa = true) SignError.ownerSignature
    require (enforceConditions oa.conditions t.toNat = true) SignError.conditions

/-- `do_sign` with a loaded key that the argument allows: the text it writes to its output. -/
def doSign (C : Crates) (k : Signer) (payload : Bytes) (t : UInt64) (env : Option String)
    (config : Except AuthTagError (Option String)) : Except SignError String := do
  require (payload.length ≤ maxPayload) SignError.payloadTooLong
  require (t.toNat ≤ 4294967295) SignError.timestamp
  let oa ← (loadAuthTag env config).mapError .authTag
  embeddable C k.pkHex t oa
  let sig := k.sigHex (computeSigningHash ⟨t, oa, payload⟩)
  return armor C (utf8 (buildEnvelope k.pkHex sig t oa))

end Sign

section Verify

inductive ArmorError
  | noNewline
  | lines (got : ℕ)
  | beginMarker
  | endMarker
  | trailingWhitespace (line : ℕ)
deriving DecidableEq, Repr

def endsBlank (line : List Char) : Bool :=
  line.getLast?.any fun c ↦ c == ' ' || c == '\t' || c == '\r'

def parseArmor (content : List Char) : Except ArmorError (List Char) :=
  if content.getLast? ≠ some '\n' then .error .noNewline
  else
    match content.dropLast.splitOn '\n' with
    | [first, b64, last] =>
      if first ≠ armorBegin.toList then .error .beginMarker
      else if last ≠ armorEnd.toList then .error .endMarker
      else
        match [first, b64, last].findIdx? endsBlank with
        | some i => .error (.trailingWhitespace (i + 1))
        | none => .ok b64
    | lines => .error (.lines lines.length)

def isAsciiWhitespace (c : Char) : Bool :=
  c == ' ' || c == '\t' || c == '\n' || c == '\x0c' || c == '\r'

/-- Whether the rest of a text has white space outside its strings, from inside a string or not,
and after a backslash or not. -/
def hasNonStringWhitespace (inString escape : Bool) : List Char → Bool
  | [] => false
  | c :: cs =>
    if escape then hasNonStringWhitespace inString false cs
    else if inString then
      if c = '\\' then hasNonStringWhitespace true true cs
      else if c = '"' then hasNonStringWhitespace false false cs
      else hasNonStringWhitespace true false cs
    else if c = '"' then hasNonStringWhitespace true false cs
    else if isAsciiWhitespace c then true
    else hasNonStringWhitespace false false cs

/-- The key for an `ERRSIG` line, when the text seems to have one. -/
def extractPkBestEffort (json : String) : Option String := do
  let (_, rest) ← splitOnceStr "\"pk\":\"".toList json.toList
  let candidate := rest.take 64
  if candidate.length = 64 ∧ candidate.all Hex.isLowerHexDigit then
    return String.ofList candidate
  else none

inductive EnvelopeError
  | notJson
  | notObject
  | unknownKey (key : String)
  | missing (field : String)
  | notInteger (field : String)
  | version (v : ℕ)
  | notString (field : String)
  | hexLength (field : String) (expected got : ℕ)
  | notLowerHex (field : String)
  | float
  | outOfRange (t : ℕ)
  | oaNotArray
  | oaLength (got : ℕ)
  | conditions
  | ownerKey
  | selfAttestation
deriving DecidableEq, Repr

def allowedKeys : List String := ["v", "pk", "sig", "t", "oa"]

def hexField (val : String) (expectedLen : ℕ) (field : String) :
    Except EnvelopeError {s : String // validateHexField s expectedLen = true} :=
  checked (validateHexField · expectedLen)
    (if val.utf8ByteSize ≠ expectedLen then .hexLength field expectedLen val.utf8ByteSize
      else .notLowerHex field) val

/-- `Value::is_f64`: a number that is no integer of 64 bits. -/
def isF64 (v : Json) : Bool :=
  match v with
  | .num _ => (asU64 v).isNone && (asI64 v).isNone
  | _ => false

def parseOa (C : Crates) (pk : String) (v : Json) : Except EnvelopeError OwnerAttestation := do
  let arr ← okOr (asArray v) .oaNotArray
  require (arr.length = 3) (EnvelopeError.oaLength arr.length)
  let owner ← okOr (asStr (arr.getD 0 .null)) (.notString "oa[0]")
  let conditions ← okOr (asStr (arr.getD 1 .null)) (.notString "oa[1]")
  let ownerSig ← okOr (asStr (arr.getD 2 .null)) (.notString "oa[2]")
  let owner ← hexField owner 64 "oa[0]"
  let ownerSig ← hexField ownerSig 128 "oa[2]"
  let conditions ← checked validateConditions .conditions conditions
  require (C.publicKey owner = true) EnvelopeError.ownerKey
  require (owner.val ≠ pk) EnvelopeError.selfAttestation
  return ⟨owner, conditions, ownerSig, owner.2, conditions.2, ownerSig.2⟩

def hexMember (obj : List (String × Json)) (field : String) (expectedLen : ℕ) :
    Except EnvelopeError {s : String // validateHexField s expectedLen = true} := do
  let v ← okOr (obj.lookup field) (.missing field)
  let val ← okOr (asStr v) (.notString field)
  hexField val expectedLen field

/-- The timestamp, of 32 bits. -/
def parseT (v : Json) : Except EnvelopeError {t : UInt64 // t.toNat ≤ 4294967295} := do
  require (isF64 v = false) EnvelopeError.float
  let t ← okOr (asU64 v) (.notInteger "t")
  if h : t ≤ 4294967295 then
    .ok ⟨.ofNat t, by rw [UInt64.toNat_ofNat', Nat.mod_eq_of_lt (by omega)]; exact h⟩
  else .error (.outOfRange t)

def parseEnvelope (C : Crates) (json : String) : Except EnvelopeError Envelope := do
  let val ← okOr (Json.parse json) .notJson
  let obj ← okOr (asObject val) .notObject
  (obj.map Prod.fst).forM fun key ↦ require (key ∈ allowedKeys) (EnvelopeError.unknownKey key)
  let v ← okOr (obj.lookup "v") (.missing "v")
  let v ← okOr (asU64 v) (.notInteger "v")
  require (v = 1) (EnvelopeError.version v)
  let pk ← hexMember obj "pk" 64
  let sig ← hexMember obj "sig" 128
  let t ← okOr (obj.lookup "t") (.missing "t")
  let t ← parseT t
  let oa ← match obj.lookup "oa" with
    | some v => (parseOa C pk v).map some
    | none => .ok none
  return ⟨pk, sig, t, oa, pk.2, sig.2, t.2⟩

inductive VerifyError
  | fileTooLong
  | fileNotUtf8
  | armor (err : ArmorError)
  | lineTooLong
  | base64
  | jsonTooLong
  | notUtf8
  | whitespace
  | envelope (err : EnvelopeError)
  | notCanonical
  | publicKey
  | payloadTooLong
  | signature
deriving DecidableEq, Repr

/-- An error, with the key in the `ERRSIG` line that goes with it. -/
structure Refusal where
  pk : Option String
  err : VerifyError
deriving DecidableEq, Repr

/-- `do_verify` on the bytes of a signature file, up to the canonical form. -/
def readEnvelope (C : Crates) (file : Bytes) : Except Refusal Envelope := do
  require (file.length ≤ maxSigFile) (Refusal.mk none .fileTooLong)
  let content ← okOr (fromUtf8 file) ⟨none, .fileNotUtf8⟩
  let b64 ← (parseArmor content.toList).mapError fun err ↦ ⟨none, .armor err⟩
  require (Utf8.len b64 ≤ maxBase64Line) (Refusal.mk none .lineTooLong)
  let decoded ← okOr (C.decode b64) ⟨none, .base64⟩
  require (decoded.length ≤ maxJsonDecoded) (Refusal.mk none .jsonTooLong)
  let json ← okOr (fromUtf8 decoded) ⟨none, .notUtf8⟩
  let earlyPk := extractPkBestEffort json
  require (hasNonStringWhitespace false false json.toList = false) (Refusal.mk earlyPk .whitespace)
  let e ← (parseEnvelope C json).mapError fun err ↦ ⟨earlyPk, .envelope err⟩
  require (buildEnvelope e.pk e.sig e.t e.oa = json) (Refusal.mk (some e.pk) .notCanonical)
  return e

def reachSchnorr (C : Crates) (file payload : Bytes) : Except Refusal Envelope := do
  let e ← readEnvelope C file
  require (C.publicKey e.pk = true) (Refusal.mk (some e.pk) .publicKey)
  require (payload.length ≤ maxPayload) (Refusal.mk (some e.pk) .payloadTooLong)
  let sig ← okOr (Hex.decodeBytes e.sig.toList) ⟨some e.pk, .signature⟩
  require (sig.length = 64) (Refusal.mk (some e.pk) .signature)
  return e

end Verify

theorem fromUtf8_eq_some {bytes : Bytes} {s : String} :
    fromUtf8 bytes = some s ↔ utf8 s = bytes := by
  rw [fromUtf8, String.fromUTF8?]
  constructor
  · intro h
    split_ifs at h
    cases h
    rfl
  · rintro rfl
    have hbytes : (⟨(utf8 s).toArray⟩ : ByteArray) = s.toByteArray := by
      rw [utf8, Array.toArray_toList]
    rw [hbytes, dif_pos s.isValidUTF8]
    rfl

theorem length_utf8_eq (s : String) : (utf8 s).length = s.utf8ByteSize := rfl

section Clean

open Json

theorem cleanChar_of_isDigit {c : Char} (h : c.isDigit = true) : CleanChar c := by
  simp only [Char.isDigit, Bool.and_eq_true, decide_eq_true_eq] at h
  have hlo : 48 ≤ c.toNat := h.1
  have hhi : c.toNat ≤ 57 := h.2
  refine ⟨?_, ?_, by omega⟩
  · rintro rfl
    exact absurd hlo (by decide)
  · rintro rfl
    exact absurd hhi (by decide)

theorem cleanChar_of_isLowerHexDigit {c : Char} (h : Hex.isLowerHexDigit c = true) :
    CleanChar c := by
  obtain ⟨n, hn, -, rfl⟩ := Hex.digitValue_of_isLowerHexDigit h
  have key : ∀ x : Fin 16, CleanChar (Nat.digitChar x) := by decide
  exact key ⟨n, hn⟩

theorem clean_of_validateHexField {val : String} {expectedLen : ℕ}
    (h : validateHexField val expectedLen = true) : Clean val.toList := by
  intro c hc
  rw [validateHexField, Bool.and_eq_true, List.all_eq_true] at h
  exact cleanChar_of_isLowerHexDigit (h.2 c hc)

theorem OwnerAttestation.clean_conditions (oa : OwnerAttestation) : Clean oa.conditions.toList :=
  forall_of_validateConditions (fun _ ↦ cleanChar_of_isDigit)
    (List.all_iff_forall_prop.mp (by decide)) oa.conditions_valid

theorem parses_clean {s : String} (h : Clean s.toList) :
    Parses Json.ofFields (.str s) ('"' :: (s.toList ++ ['"'])) := by
  rw [← renderStr_of_clean h]
  exact parses_str s

theorem hasNonStringWhitespace_clean {text : List Char} (h : Clean text) (rest : List Char) :
    hasNonStringWhitespace true false (text ++ rest) = hasNonStringWhitespace true false rest := by
  induction text with
  | nil => rfl
  | cons c text ih =>
    obtain ⟨hquote, hbackslash, -⟩ := h c List.mem_cons_self
    simp only [List.cons_append, hasNonStringWhitespace, Bool.false_eq_true, if_false, if_true,
      hquote, hbackslash]
    exact ih fun c hc ↦ h c (List.mem_cons_of_mem _ hc)

theorem hasNonStringWhitespace_digits {text : List Char} (h : ∀ c ∈ text, c.isDigit = true)
    (rest : List Char) : hasNonStringWhitespace false false (text ++ rest) =
      hasNonStringWhitespace false false rest := by
  induction text with
  | nil => rfl
  | cons c text ih =>
    have hdigit := h c List.mem_cons_self
    have hquote := (cleanChar_of_isDigit hdigit).1
    have hspace : isAsciiWhitespace c = false := by
      simp only [isAsciiWhitespace, Bool.or_eq_false_iff, beq_eq_false_iff_ne]
      refine ⟨⟨⟨⟨?_, ?_⟩, ?_⟩, ?_⟩, ?_⟩ <;>
      · rintro rfl
        exact absurd hdigit (by decide)
    simp only [List.cons_append, hasNonStringWhitespace, Bool.false_eq_true, if_false, hquote,
      hspace]
    exact ih fun c hc ↦ h c (List.mem_cons_of_mem _ hc)

end Clean

namespace Envelope

def text (e : Envelope) : String := buildEnvelope e.pk e.sig e.t e.oa

def openPk : List Char := ['\x7b', '"', 'v', '"', ':', '1', ',', '"', 'p', 'k', '"', ':', '"']

def openSig : List Char := ['"', ',', '"', 's', 'i', 'g', '"', ':', '"']

def openT : List Char := ['"', ',', '"', 't', '"', ':']

def openOa : List Char := [',', '"', 'o', 'a', '"', ':', '[', '"']

def comma : List Char := ['"', ',', '"']

def closeOa : List Char := ['"', ']', '\x7d']

/-- The end of an envelope, from behind its timestamp. -/
def tail : Option OwnerAttestation → List Char
  | some oa => openOa ++ (oa.owner.toList ++ (comma ++ (oa.conditions.toList ++ (comma ++
      (oa.sig.toList ++ closeOa)))))
  | none => ['\x7d']

theorem toList_text (e : Envelope) : e.text.toList =
    openPk ++ (e.pk.toList ++ (openSig ++ (e.sig.toList ++ (openT ++
      ((toString e.t.toNat).toList ++ tail e.oa))))) := by
  have hpk : "\x7b\"v\":1,\"pk\":\"".toList = openPk := by decide
  have hsig : "\",\"sig\":\"".toList = openSig := by decide
  have ht : "\",\"t\":".toList = openT := by decide
  obtain ⟨pk, sig, t, oa, hpk', hsig', ht'⟩ := e
  cases oa with
  | none =>
    have htext : (Envelope.mk pk sig t none hpk' hsig' ht').text =
        "\x7b\"v\":1,\"pk\":\"" ++ pk ++ "\",\"sig\":\"" ++ sig ++ "\",\"t\":" ++
          toString t.toNat ++ "\x7d" := rfl
    have hend : "\x7d".toList = tail none := by decide
    rw [htext]
    simp only [String.toList_append, List.append_assoc, hpk, hsig, ht, hend]
  | some oa =>
    have htext : (Envelope.mk pk sig t (some oa) hpk' hsig' ht').text =
        "\x7b\"v\":1,\"pk\":\"" ++ pk ++ "\",\"sig\":\"" ++ sig ++ "\",\"t\":" ++
          toString t.toNat ++ ",\"oa\":[\"" ++ oa.owner ++ "\",\"" ++ oa.conditions ++ "\",\"" ++
          oa.sig ++ "\"]\x7d" := rfl
    have hoa : ",\"oa\":[\"".toList = openOa := by decide
    have hcomma : "\",\"".toList = comma := by decide
    have hend : "\"]\x7d".toList = closeOa := by decide
    rw [htext]
    simp only [String.toList_append, List.append_assoc, hpk, hsig, ht, hoa, hcomma, hend, tail]

theorem isDigit_of_mem_toString {n : ℕ} : ∀ c ∈ (toString n).toList, c.isDigit = true := by
  rw [Decimal.toList_toString]
  exact fun c hc ↦ Nat.isDigit_of_mem_toDigits (by decide) (by decide) hc

theorem no_whitespace (e : Envelope) :
    hasNonStringWhitespace false false e.text.toList = false := by
  have hopen (rest : List Char) : hasNonStringWhitespace false false (openPk ++ rest) =
      hasNonStringWhitespace true false rest := rfl
  have hsig (rest : List Char) : hasNonStringWhitespace true false (openSig ++ rest) =
      hasNonStringWhitespace true false rest := rfl
  have ht (rest : List Char) : hasNonStringWhitespace true false (openT ++ rest) =
      hasNonStringWhitespace false false rest := rfl
  rw [toList_text, hopen, hasNonStringWhitespace_clean (clean_of_validateHexField e.pk_hex), hsig,
    hasNonStringWhitespace_clean (clean_of_validateHexField e.sig_hex), ht,
    hasNonStringWhitespace_digits isDigit_of_mem_toString]
  cases e.oa with
  | none => rfl
  | some oa =>
    have hoa (rest : List Char) : hasNonStringWhitespace false false (openOa ++ rest) =
        hasNonStringWhitespace true false rest := rfl
    have hcomma (rest : List Char) : hasNonStringWhitespace true false (comma ++ rest) =
        hasNonStringWhitespace true false rest := rfl
    rw [tail, hoa, hasNonStringWhitespace_clean (clean_of_validateHexField oa.owner_hex), hcomma,
      hasNonStringWhitespace_clean oa.clean_conditions, hcomma,
      hasNonStringWhitespace_clean (clean_of_validateHexField oa.sig_hex)]
    rfl

def members (e : Envelope) : List (String × Json) :=
  ("v", .num "1") :: ("pk", .str e.pk) :: ("sig", .str e.sig) ::
    ("t", .num (toString e.t.toNat)) ::
      match e.oa with
      | some oa => [("oa", .arr [.str oa.owner, .str oa.conditions, .str oa.sig])]
      | none => []

theorem parse_text (e : Envelope) : Json.parse e.text = some (Json.ofFields e.members) := by
  apply Json.Parses.parse
  have hkeyPk (v : List Char) :
      '"' :: 'p' :: 'k' :: '"' :: ':' :: v = Json.renderField "pk" v := rfl
  have hkeySig (v : List Char) :
      '"' :: 's' :: 'i' :: 'g' :: '"' :: ':' :: v = Json.renderField "sig" v := rfl
  have hkeyT (v : List Char) : '"' :: 't' :: '"' :: ':' :: v = Json.renderField "t" v := rfl
  have hkeyOa (v : List Char) :
      '"' :: 'o' :: 'a' :: '"' :: ':' :: v = Json.renderField "oa" v := rfl
  have hv : Json.ParsesField Json.ofFields ("v", .num "1") ['"', 'v', '"', ':', '1'] :=
    ⟨['1'], rfl, Json.parses_nat 1⟩
  have hpk : Json.ParsesField Json.ofFields ("pk", .str e.pk)
      ('"' :: 'p' :: 'k' :: '"' :: ':' :: '"' :: (e.pk.toList ++ ['"'])) :=
    ⟨_, hkeyPk _, parses_clean (clean_of_validateHexField e.pk_hex)⟩
  have hsig : Json.ParsesField Json.ofFields ("sig", .str e.sig)
      ('"' :: 's' :: 'i' :: 'g' :: '"' :: ':' :: '"' :: (e.sig.toList ++ ['"'])) :=
    ⟨_, hkeySig _, parses_clean (clean_of_validateHexField e.sig_hex)⟩
  have ht : Json.ParsesField Json.ofFields ("t", .num (toString e.t.toNat))
      ('"' :: 't' :: '"' :: ':' :: (toString e.t.toNat).toList) :=
    ⟨_, hkeyT _, Json.parses_nat _⟩
  rw [toList_text, members]
  cases e.oa with
  | none =>
    have hobj := Json.parses_obj (.cons hv (.cons hpk (.cons hsig (.cons ht .nil))))
    simpa only [Json.renderObj, Json.joinComma, openPk, openSig, openT, tail, List.cons_append,
      List.append_assoc, List.nil_append] using hobj
  | some oa =>
    have helems := Json.parses_arr (.cons (parses_clean (clean_of_validateHexField oa.owner_hex))
      (.cons (parses_clean oa.clean_conditions)
        (.cons (parses_clean (clean_of_validateHexField oa.sig_hex)) .nil)))
    have hoa : Json.ParsesField Json.ofFields
        ("oa", .arr [.str oa.owner, .str oa.conditions, .str oa.sig]) _ :=
      ⟨_, hkeyOa _, helems⟩
    have hobj := Json.parses_obj (.cons hv (.cons hpk (.cons hsig (.cons ht (.cons hoa .nil)))))
    simpa only [Json.renderObj, Json.renderArr, Json.joinComma, openPk, openSig, openT, openOa,
      comma, closeOa, tail, List.cons_append, List.append_assoc, List.nil_append] using hobj

/-- The same, in the order of the parser's map. -/
def sorted (e : Envelope) : List (String × Json) :=
  match e.oa with
  | some oa =>
    [("oa", .arr [.str oa.owner, .str oa.conditions, .str oa.sig]), ("pk", .str e.pk),
      ("sig", .str e.sig), ("t", .num (toString e.t.toNat)), ("v", .num "1")]
  | none =>
    [("pk", .str e.pk), ("sig", .str e.sig), ("t", .num (toString e.t.toNat)), ("v", .num "1")]

theorem ofFields_members (e : Envelope) : Json.ofFields e.members = .obj e.sorted := by
  obtain ⟨pk, sig, t, oa, hpk, hsig, ht⟩ := e
  cases oa with
  | none => simp [members, sorted, Json.ofFields, Json.insertField, Json.keyLt]
  | some oa => simp [members, sorted, Json.ofFields, Json.insertField, Json.keyLt]

theorem keys_sorted (e : Envelope) :
    e.sorted.map Prod.fst =
      if e.oa.isSome then ["oa", "pk", "sig", "t", "v"] else ["pk", "sig", "t", "v"] := by
  obtain ⟨pk, sig, t, oa, hpk, hsig, ht⟩ := e
  cases oa with
  | none => rfl
  | some oa => rfl

theorem lookup_oa (e : Envelope) : e.sorted.lookup "oa" =
    e.oa.map fun oa ↦ .arr [.str oa.owner, .str oa.conditions, .str oa.sig] := by
  obtain ⟨pk, sig, t, oa, hpk, hsig, ht⟩ := e
  cases oa with
  | none => rfl
  | some oa => rfl

theorem lookup_required (e : Envelope) :
    e.sorted.lookup "v" = some (.num (toString 1)) ∧ e.sorted.lookup "pk" = some (.str e.pk) ∧
      e.sorted.lookup "sig" = some (.str e.sig) ∧
        e.sorted.lookup "t" = some (.num (toString e.t.toNat)) := by
  obtain ⟨pk, sig, t, oa, hpk, hsig, ht⟩ := e
  cases oa with
  | none => exact ⟨rfl, rfl, rfl, rfl⟩
  | some oa => exact ⟨rfl, rfl, rfl, rfl⟩

end Envelope

theorem checked_eq_ok {ε : Type} {p : String → Bool} {err : ε} {val : String}
    (h : p val = true) : checked p err val = .ok ⟨val, h⟩ := dif_pos h

theorem hexMember_eq_ok {obj : List (String × Json)} {field val : String} {expectedLen : ℕ}
    (hval : obj.lookup field = some (.str val)) (h : validateHexField val expectedLen = true) :
    hexMember obj field expectedLen = .ok ⟨val, h⟩ := by
  simp only [hexMember, bind_eq_ok, okOr_eq_ok]
  exact ⟨_, hval, val, rfl, checked_eq_ok h⟩

theorem asU64_toString {n : ℕ} (h : n < 2 ^ 64) : asU64 (.num (toString n)) = some n := by
  rw [asU64, Decimal.toList_toString, Decimal.parseDigits_toDigits]
  exact Option.filter_eq_some_iff.mpr ⟨rfl, decide_eq_true h⟩

theorem parseT_toString {t : UInt64} (h : t.toNat ≤ 4294967295) :
    parseT (.num (toString t.toNat)) = .ok ⟨t, h⟩ := by
  have hval := asU64_toString t.toNat_lt
  simp only [parseT, bind_eq_ok, okOr_eq_ok, require_eq_ok]
  refine ⟨⟨⟩, ?_, t.toNat, hval, ?_⟩
  · simp only [isF64, hval, Option.isNone_some, Bool.false_and]
  · rw [dif_pos h]
    simp only [UInt64.ofNat_toNat]

theorem parseOa_eq_ok {C : Crates} {pk : String} {oa : OwnerAttestation}
    (hkey : C.publicKey oa.owner = true) (hne : oa.owner ≠ pk) :
    parseOa C pk (.arr [.str oa.owner, .str oa.conditions, .str oa.sig]) = .ok oa := by
  simp only [parseOa, bind_eq_ok, okOr_eq_ok, require_eq_ok]
  exact ⟨_, rfl, ⟨⟩, rfl, oa.owner, rfl, oa.conditions, rfl, oa.sig, rfl, _,
    checked_eq_ok oa.owner_hex, _, checked_eq_ok oa.sig_hex, _, checked_eq_ok oa.conditions_valid,
    ⟨⟩, hkey, ⟨⟩, hne, rfl⟩

/-- What `parse_envelope` asks of the owner. -/
def Attestable (C : Crates) (pk : String) (oa : Option OwnerAttestation) : Prop :=
  ∀ a, oa = some a → C.publicKey a.owner = true ∧ a.owner ≠ pk

theorem parseEnvelope_text {C : Crates} {e : Envelope} (h : Attestable C e.pk e.oa) :
    parseEnvelope C e.text = .ok e := by
  have hkeys : ∀ key ∈ e.sorted.map Prod.fst, key ∈ allowedKeys := by
    rw [e.keys_sorted]
    split_ifs <;> decide
  obtain ⟨hv, hpk, hsig, ht⟩ := e.lookup_required
  have hoa : (match e.sorted.lookup "oa" with
      | some v => (parseOa C e.pk v).map some
      | none => .ok none) = .ok e.oa := by
    rw [e.lookup_oa]
    cases hoa : e.oa with
    | none => rfl
    | some oa =>
      obtain ⟨hkey, hne⟩ := h oa hoa
      show (parseOa C e.pk (.arr [.str oa.owner, .str oa.conditions, .str oa.sig])).map some = _
      rw [parseOa_eq_ok hkey hne]
      rfl
  simp only [parseEnvelope, bind_eq_ok, okOr_eq_ok, require_eq_ok, forM_eq_ok]
  refine ⟨_, e.parse_text, e.sorted, by rw [e.ofFields_members]; rfl, ⟨⟩, hkeys, _, hv, 1,
    asU64_toString (by decide), ⟨⟩, rfl, _, hexMember_eq_ok hpk e.pk_hex, _,
    hexMember_eq_ok hsig e.sig_hex, _, ht, _, parseT_toString e.t_le, ?_⟩
  rw [e.lookup_oa]
  obtain ⟨pk, sig, t, oa, hpk', hsig', ht'⟩ := e
  cases oa with
  | none => rfl
  | some oa =>
    obtain ⟨hkey, hne⟩ := h oa rfl
    have hparse : parseOa C pk (.arr [.str oa.owner, .str oa.conditions, .str oa.sig]) = .ok oa :=
      parseOa_eq_ok hkey hne
    simp only [Option.map_some, hparse]
    rfl

section Sizes

theorem utf8Size_of_toNat {c : Char} (h : c.toNat < 128) : c.utf8Size = 1 := by
  have hval : c.val ≤ 0x7f := UInt32.le_iff_toNat_le.mpr (Nat.le_of_lt_succ h)
  rw [Char.utf8Size]
  exact if_pos hval

theorem utf8Size_of_isDigit {c : Char} (h : c.isDigit = true) : c.utf8Size = 1 := by
  simp only [Char.isDigit, Bool.and_eq_true, decide_eq_true_eq] at h
  have hhi : c.toNat ≤ 57 := h.2
  exact utf8Size_of_toNat (by omega)

theorem utf8Size_of_isLowerHexDigit {c : Char} (h : Hex.isLowerHexDigit c = true) :
    c.utf8Size = 1 := by
  obtain ⟨n, hn, -, rfl⟩ := Hex.digitValue_of_isLowerHexDigit h
  have key : ∀ x : Fin 16, (Nat.digitChar x).utf8Size = 1 := by decide
  exact key ⟨n, hn⟩

theorem len_of_validateHexField {val : String} {expectedLen : ℕ}
    (h : validateHexField val expectedLen = true) : Utf8.len val.toList = expectedLen := by
  rw [validateHexField, Bool.and_eq_true, List.all_eq_true, decide_eq_true_eq] at h
  rw [Utf8.len_of_utf8Size fun c hc ↦ utf8Size_of_isLowerHexDigit (h.2 c hc), h.1]

theorem OwnerAttestation.len_conditions (oa : OwnerAttestation) :
    Utf8.len oa.conditions.toList = oa.conditions.toList.length :=
  Utf8.len_of_utf8Size (forall_of_validateConditions (fun _ ↦ utf8Size_of_isDigit)
    (List.all_iff_forall_prop.mp (by decide)) oa.conditions_valid)

def FromTag (oa : Option OwnerAttestation) : Prop :=
  ∀ a, oa = some a → a.conditions.toList.length ≤ maxAuthTag

theorem Envelope.len_tail {oa : Option OwnerAttestation} (h : FromTag oa) :
    Utf8.len (Envelope.tail oa) ≤ 1234 := by
  cases oa with
  | none => decide
  | some oa =>
    have hconditions : oa.conditions.toList.length ≤ 1024 := h oa rfl
    have hopen : Utf8.len openOa = 8 := by decide
    have hcomma : Utf8.len comma = 3 := by decide
    have hclose : Utf8.len closeOa = 3 := by decide
    simp only [Envelope.tail, Utf8.len_append, hopen, hcomma, hclose,
      len_of_validateHexField oa.owner_hex, len_of_validateHexField oa.sig_hex, oa.len_conditions]
    omega

theorem Envelope.length_text {e : Envelope} (h : FromTag e.oa) : (utf8 e.text).length ≤ 1500 := by
  have ht : e.t.toNat < 10 ^ 10 := by
    have hle := e.t_le
    omega
  have hdigits := Decimal.len_toString_le (by decide) ht
  have htail := Envelope.len_tail h
  have hpk : Utf8.len openPk = 13 := by decide
  have hsig : Utf8.len openSig = 9 := by decide
  have hopenT : Utf8.len openT = 6 := by decide
  rw [length_utf8_eq, ← Utf8.len_toList, toList_text]
  simp only [Utf8.len_append, hpk, hsig, hopenT, len_of_validateHexField e.pk_hex,
    len_of_validateHexField e.sig_hex]
  omega

theorem mem_leaves_of_asStr {v : Json} {s : String} (h : asStr v = some s) : s ∈ Json.leaves v := by
  unfold asStr at h
  split at h
  · cases h
    exact List.mem_singleton_self _
  · cases h

theorem checked_ok {ε : Type} {p : String → Bool} {err : ε} {val : String} {x : {s // p s = true}}
    (h : checked p err val = .ok x) : x.val = val := by
  rw [checked] at h
  split_ifs at h
  cases h
  rfl

theorem length_conditions_of_parseAuthTag {json : String} {oa : OwnerAttestation}
    (h : parseAuthTag json = .ok oa) : oa.conditions.toList.length ≤ maxAuthTag := by
  simp only [parseAuthTag, bind_eq_ok, okOr_eq_ok, require_eq_ok] at h
  obtain ⟨-, hsize, val, hval, arr, harr, -, hlength, -, -, owner, -, conditions, hconditions, sig,
    -, conditions', hchecked, owner', -, sig', -, hoa⟩ := h
  cases hoa
  have hleaf : conditions ∈ Json.leaves val := by
    unfold asArray at harr
    split at harr
    · cases harr
      rw [Json.leaves]
      refine Json.mem_elemLeaves ?_ (mem_leaves_of_asStr hconditions)
      rw [List.getD_eq_getElem _ _ (by omega)]
      exact List.getElem_mem _
    · cases harr
  calc conditions'.val.toList.length
      = conditions.toList.length := by rw [checked_ok hchecked]
    _ ≤ json.toList.length := Json.length_le_of_parse hval hleaf
    _ ≤ json.utf8ByteSize := by
      rw [← String.ofList_toList (s := json)]
      simpa using length_le_utf8ByteSize json.toList
    _ ≤ maxAuthTag := hsize

theorem fromTag_of_loadAuthTag {env : Option String}
    {config : Except AuthTagError (Option String)} {oa : Option OwnerAttestation}
    (h : loadAuthTag env config = .ok oa) : FromTag oa := by
  rintro a rfl
  obtain ⟨jsonStr, -, htag⟩ := bind_eq_ok.mp h
  cases jsonStr with
  | none => cases htag
  | some json =>
    obtain ⟨a', hparse, heq⟩ := map_eq_ok.mp htag
    cases heq
    exact length_conditions_of_parseAuthTag hparse

end Sizes

section Armor

theorem toList_armor (C : Crates) (json : Bytes) :
    (armor C json).toList =
      armorBegin.toList ++ [C.encode json, armorEnd.toList].flatMap ('\n' :: ·) ++ ['\n'] := by
  have hnewline : "\n".toList = ['\n'] := by decide
  simp only [armor, String.toList_append, String.toList_ofList, hnewline, List.flatMap_cons,
    List.flatMap_nil, List.append_assoc, List.cons_append, List.nil_append]

theorem parseArmor_lines {b64 : List Char} (hline : '\n' ∉ b64) (hblank : endsBlank b64 = false) :
    parseArmor (armorBegin.toList ++ [b64, armorEnd.toList].flatMap ('\n' :: ·) ++ ['\n']) =
      .ok b64 := by
  have hlines : (armorBegin.toList ++ [b64, armorEnd.toList].flatMap ('\n' :: ·)).splitOn '\n' =
      [armorBegin.toList, b64, armorEnd.toList] := by
    apply splitOn_append_flatMap
    · decide
    · intro other hother
      rcases List.mem_pair.mp hother with rfl | rfl
      · exact hline
      · decide
  have hfind : [armorBegin.toList, b64, armorEnd.toList].findIdx? endsBlank = none := by
    rw [List.findIdx?_eq_none_iff]
    intro line hmem
    simp only [List.mem_cons, List.not_mem_nil, or_false] at hmem
    rcases hmem with rfl | rfl | rfl
    · decide
    · exact hblank
    · decide
  rw [parseArmor, List.getLast?_concat, if_neg (by simp), List.dropLast_concat, hlines]
  simp only [ne_eq, not_true_eq_false, if_false, hfind]

theorem eq_of_parseArmor {content b64 : List Char} (h : parseArmor content = .ok b64) :
    content = armorBegin.toList ++ [b64, armorEnd.toList].flatMap ('\n' :: ·) ++ ['\n'] := by
  rw [parseArmor] at h
  split_ifs at h with hlast
  split at h
  · next first line last hsplit =>
    split_ifs at h with hfirst hend
    split at h
    · cases h
    · cases h
      have hbody : content.dropLast = ['\n'].intercalate [first, b64, last] := by
        rw [← hsplit, List.intercalate_splitOn]
      have hwhole : content = content.dropLast ++ ['\n'] :=
        (List.dropLast_append_getLast? '\n' (not_not.mp hlast)).symm
      rw [hwhole, hbody, not_not.mp hfirst, not_not.mp hend]
      simp
  · cases h

theorem clean_line {c : Char} (h : c ∈ Base64.alphabet ∨ c = '=') :
    c ≠ '\n' ∧ c ≠ ' ' ∧ c ≠ '\t' ∧ c ≠ '\r' ∧ c.utf8Size = 1 := by
  rcases h with h | rfl
  · have key : ∀ c ∈ Base64.alphabet,
        c ≠ '\n' ∧ c ≠ ' ' ∧ c ≠ '\t' ∧ c ≠ '\r' ∧ c.utf8Size = 1 :=
      List.all_iff_forall_prop.mp (by decide)
    exact key c h
  · decide

variable {C : Crates} (hC : Base64.Standard C.encode C.decode)
include hC

theorem parseArmor_armor (json : Bytes) :
    parseArmor (armor C json).toList = .ok (C.encode json) := by
  have hclean := fun c hc ↦ clean_line (hC.in_alphabet json c hc)
  rw [toList_armor]
  apply parseArmor_lines
  · exact fun hc ↦ (hclean _ hc).1 rfl
  · rw [endsBlank]
    cases hlast : (C.encode json).getLast? with
    | none => rfl
    | some c =>
      obtain ⟨-, hspace, htab, hreturn, -⟩ := hclean c (List.mem_of_getLast? hlast)
      simp [hspace, htab, hreturn]

theorem len_encode (json : Bytes) : Utf8.len (C.encode json) = 4 * ((json.length + 2) / 3) := by
  rw [Utf8.len_of_utf8Size fun c hc ↦ (clean_line (hC.in_alphabet json c hc)).2.2.2.2,
    hC.length_encode]

theorem length_armor (json : Bytes) :
    (utf8 (armor C json)).length = 4 * ((json.length + 2) / 3) + 61 := by
  have hbegin : Utf8.len armorBegin.toList = 30 := by decide
  have hend : Utf8.len armorEnd.toList = 28 := by decide
  have hnewline : Char.utf8Size '\n' = 1 := by decide
  rw [length_utf8_eq, ← Utf8.len_toList, toList_armor]
  simp only [List.flatMap_cons, List.flatMap_nil, Utf8.len_append, Utf8.len_cons, Utf8.len_nil,
    List.cons_append, hbegin, hend, hnewline, len_encode hC]
  omega

theorem readEnvelope_armor {e : Envelope} (hoa : Attestable C e.pk e.oa) (htag : FromTag e.oa) :
    readEnvelope C (utf8 (armor C (utf8 e.text))) = .ok e := by
  have hlength := Envelope.length_text htag
  have hfile := length_armor hC (utf8 e.text)
  have hline := len_encode hC (utf8 e.text)
  simp only [readEnvelope, bind_eq_ok, okOr_eq_ok, require_eq_ok]
  refine ⟨⟨⟩, ?_, _, fromUtf8_eq_some.mpr rfl, C.encode (utf8 e.text), ?_, ⟨⟩, ?_, _,
    hC.round_trip _, ⟨⟩, ?_, _, fromUtf8_eq_some.mpr rfl, ⟨⟩, e.no_whitespace, e, ?_, ⟨⟩, rfl, rfl⟩
  · rw [hfile, maxSigFile]
    omega
  · rw [parseArmor_armor hC]
    rfl
  · rw [hline, maxBase64Line]
    omega
  · exact hlength.trans (by decide)
  · rw [parseEnvelope_text hoa]
    rfl

theorem eq_of_readEnvelope {file : Bytes} {e : Envelope} (h : readEnvelope C file = .ok e) :
    file = utf8 (armor C (utf8 e.text)) := by
  simp only [readEnvelope, bind_eq_ok, okOr_eq_ok, require_eq_ok] at h
  obtain ⟨-, -, content, hcontent, b64, hb64, -, -, decoded, hdecoded, -, -, json, hjson, -, -, e',
    -, -, hcanonical, heq⟩ := h
  cases heq
  have htext : e.text = json := hcanonical
  have hline := hC.canonical b64 decoded hdecoded
  rw [← fromUtf8_eq_some.mp hcontent, htext, fromUtf8_eq_some.mp hjson]
  congr 1
  rw [← String.toList_inj, toList_armor, ← hline]
  exact eq_of_parseArmor (mapError_eq_ok.mp hb64)

end Armor

section Signed

variable {C : Crates} {k : Signer} {payload : Bytes} {t : UInt64} {env : Option String}
  {config : Except AuthTagError (Option String)} {oa : Option OwnerAttestation} {text : String}

theorem attestable_of_embeddable {pk : String} {u : Unit} (h : embeddable C pk t oa = .ok u) :
    Attestable C pk oa := by
  rintro a rfl
  simp only [embeddable, bind_eq_ok, require_eq_ok] at h
  obtain ⟨-, hkey, -, hne, -⟩ := h
  exact ⟨hkey, hne⟩

theorem validateHexField_encodeBytes {bytes : Bytes} {n : ℕ} (h : bytes.length = n) :
    validateHexField (String.ofList (Hex.encodeBytes bytes)) (2 * n) = true := by
  rw [validateHexField, String.toList_ofList, Bool.and_eq_true, decide_eq_true_eq,
    List.all_eq_true]
  exact ⟨by rw [Hex.length_encodeBytes, h], fun c hc ↦ Hex.isLowerHexDigit_of_mem_encodeBytes hc⟩

def Signer.envelope (k : Signer) (t : UInt64) (oa : Option OwnerAttestation) (payload : Bytes)
    (ht : t.toNat ≤ 4294967295) : Envelope where
  pk := k.pkHex
  sig := k.sigHex (computeSigningHash ⟨t, oa, payload⟩)
  t := t
  oa := oa
  pk_hex := validateHexField_encodeBytes k.length_pk
  sig_hex := validateHexField_encodeBytes (k.length_sign _)
  t_le := ht

theorem exists_of_doSign (hoa : loadAuthTag env config = .ok oa)
    (h : doSign C k payload t env config = .ok text) :
    ∃ ht, Attestable C k.pkHex oa ∧
      text = armor C (utf8 (k.envelope t oa payload ht).text) := by
  simp only [doSign, bind_eq_ok, require_eq_ok, mapError_eq_ok] at h
  obtain ⟨-, -, -, ht, oa', hoa', u, hembed, htext⟩ := h
  cases hoa.symm.trans hoa'
  cases htext
  exact ⟨ht, attestable_of_embeddable hembed, rfl⟩

/-- What `do_sign` writes is read back as it was, and each file that is read is the one text of its
fields. -/
theorem envelope_canonical (C : Crates) (hC : Base64.Standard C.encode C.decode) :
    (∀ (k : Signer) (payload : Bytes) (t : UInt64) env config oa text,
      loadAuthTag env config = .ok oa → doSign C k payload t env config = .ok text →
        ∃ e, readEnvelope C (utf8 text) = .ok e ∧ e.pk = k.pkHex ∧
          e.sig = k.sigHex (computeSigningHash ⟨t, oa, payload⟩) ∧ e.t = t ∧ e.oa = oa) ∧
    (∀ file payload e, reachSchnorr C file payload = .ok e →
      file = utf8 (armor C (utf8 (buildEnvelope e.pk e.sig e.t e.oa)))) ∧
    (∀ file file' payload payload' e e', reachSchnorr C file payload = .ok e →
      reachSchnorr C file' payload' = .ok e' →
        e.pk = e'.pk → e.sig = e'.sig → e.t = e'.t → e.oa = e'.oa → file = file') := by
  have hread {file payload : Bytes} {e : Envelope} (h : reachSchnorr C file payload = .ok e) :
      file = utf8 (armor C (utf8 (buildEnvelope e.pk e.sig e.t e.oa))) := by
    simp only [reachSchnorr, bind_eq_ok, require_eq_ok] at h
    obtain ⟨e', he, -, -, -, -, -, -, -, -, heq⟩ := h
    cases heq
    exact eq_of_readEnvelope hC he
  refine ⟨?_, fun file payload e h ↦ hread h, ?_⟩
  · intro k payload t env config oa text hoa hsign
    obtain ⟨ht, hatt, rfl⟩ := exists_of_doSign hoa hsign
    exact ⟨k.envelope t oa payload ht,
      readEnvelope_armor hC hatt (fromTag_of_loadAuthTag hoa), rfl, rfl, rfl, rfl⟩
  · intro file file' payload payload' e e' h h' hpk hsig ht hoa
    rw [hread h, hread h', hpk, hsig, ht, hoa]

def sampleCrates : Crates := ⟨Base64.encode, Base64.decode, fun _ ↦ true, fun _ _ _ ↦ true⟩

def sampleSigner : Signer where
  pk := List.replicate 32 1
  sign _ := List.replicate 64 2
  length_pk := List.length_replicate
  length_sign _ := List.length_replicate

def ownerTag : String :=
  "[\"auth\",\"" ++ ownerOfMain.owner ++ "\",\"kind=1\",\"" ++ ownerOfMain.sig ++ "\"]"

theorem loadAuthTag_ownerTag :
    loadAuthTag (some ownerTag) (.ok none) = .ok (some ownerOfMain) := by
  have hloaded : (loadAuthTag (some ownerTag) (.ok none)).toOption = some (some ownerOfMain) := by
    decide +kernel
  cases hload : loadAuthTag (some ownerTag) (.ok none) with
  | error err =>
    rw [hload] at hloaded
    cases hloaded
  | ok oa =>
    rw [hload] at hloaded
    cases hloaded
    rfl

theorem sampleSignature_read :
    ∃ text e, doSign sampleCrates sampleSigner (utf8 "tree") 1700000000 (some ownerTag)
        (.ok none) = .ok text ∧
      readEnvelope sampleCrates (utf8 text) = .ok e ∧ e.t = 1700000000 ∧
        e.oa = some ownerOfMain := by
  have hsign : ∃ text, doSign sampleCrates sampleSigner (utf8 "tree") 1700000000 (some ownerTag)
      (.ok none) = .ok text := by
    rw [doSign, loadAuthTag_ownerTag]
    exact ⟨_, rfl⟩
  obtain ⟨text, hsign⟩ := hsign
  obtain ⟨e, he, -, -, ht, hoa⟩ := (envelope_canonical sampleCrates Base64.standard).1 sampleSigner
    _ _ _ _ _ _ loadAuthTag_ownerTag hsign
  exact ⟨_, e, hsign, he, ht, hoa⟩

end Signed

end Buzz.GitSign
