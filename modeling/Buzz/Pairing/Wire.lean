import Buzz.Lib.Decimal
import Buzz.Lib.Texts
import Buzz.Pairing.Honest

namespace Buzz.Pairing

open Buzz.Lib Buzz.Lib.Json Buzz.Nostr

def PayloadType.text : PayloadType → String
  | .nsec => "nsec"
  | .bunker => "bunker"
  | .connect => "connect"
  | .custom => "custom"

def PayloadType.ofText (s : String) : Option PayloadType :=
  [PayloadType.nsec, .bunker, .connect, .custom].find? fun t ↦ t.text == s

def AbortReason.text : AbortReason → String
  | .sasMismatch => "sas_mismatch"
  | .userDenied => "user_denied"
  | .timeout => "timeout"
  | .protocolError => "protocol_error"
  | .unknown => "unknown"

def AbortReason.ofText (s : String) : AbortReason :=
  ([AbortReason.sasMismatch, .userDenied, .timeout, .protocolError].find? fun r ↦
    r.text == s).getD .unknown

namespace PairingMessage

def fields : PairingMessage → List (String × Json)
  | .offer sessionId version =>
    [("type", .str "offer"), ("session_id", .str sessionId),
      ("version", .num (toString version.toNat))]
  | .sasConfirm hash => [("type", .str "sas-confirm"), ("transcript_hash", .str hash)]
  | .payload t p => [("type", .str "payload"), ("payload_type", .str t.text), ("payload", .str p)]
  | .complete success => [("type", .str "complete"), ("success", .bool success)]
  | .abort reason => [("type", .str "abort"), ("reason", .str reason.text)]

def toText (m : PairingMessage) : String := String.ofList (Json.obj m.fields).render

def decodeVersion : Option Json → Option UInt32
  | none => some 1
  | some (.num lexeme) =>
    (Decimal.parseDigits lexeme.toList).bind fun n ↦
      if n < 2 ^ 32 then some (UInt32.ofNat n) else none
  | some _ => none

/-- A document with a `type` field and the fields of that type, each once; others are ignored. -/
def decode : Json → Option PairingMessage
  | .obj fields =>
    let once (names : List String) := noDuplicateField ("type" :: names) fields
    match fields.lookup "type" with
    | some (.str "offer") =>
      match once ["session_id", "version"], fields.lookup "session_id" with
      | true, some (.str sessionId) =>
        (decodeVersion (fields.lookup "version")).map (.offer sessionId)
      | _, _ => none
    | some (.str "sas-confirm") =>
      match once ["transcript_hash"], fields.lookup "transcript_hash" with
      | true, some (.str hash) => some (.sasConfirm hash)
      | _, _ => none
    | some (.str "payload") =>
      match once ["payload_type", "payload"], fields.lookup "payload_type",
        fields.lookup "payload" with
      | true, some (.str t), some (.str p) => (PayloadType.ofText t).map (.payload · p)
      | _, _, _ => none
    | some (.str "complete") =>
      match once ["success"], fields.lookup "success" with
      | true, some (.bool success) => some (.complete success)
      | _, _ => none
    | some (.str "abort") =>
      match once ["reason"], fields.lookup "reason" with
      | true, some (.str reason) => some (.abort (.ofText reason))
      | _, _ => none
    | _ => none
  | _ => none

def ofText (text : String) : Except String PairingMessage :=
  match (Json.parseRaw text).bind decode with
  | some m => .ok m
  | none => .error "invalid message"

theorem canonical_fields {m : PairingMessage} {field : String × Json} (h : field ∈ m.fields) :
    field.2.Canonical := by
  cases m <;> simp only [fields, List.mem_cons, List.not_mem_nil, or_false] at h
  case offer sid version =>
    rcases h with rfl | rfl | rfl
    · exact .str _
    · exact .str _
    · exact .nat _
  case sasConfirm hash =>
    rcases h with rfl | rfl
    · exact .str _
    · exact .str _
  case payload t p =>
    rcases h with rfl | rfl | rfl
    · exact .str _
    · exact .str _
    · exact .str _
  case complete success =>
    rcases h with rfl | rfl
    · exact .str _
    · exact .bool _
  case abort reason =>
    rcases h with rfl | rfl
    · exact .str _
    · exact .str _

theorem parseRaw_toText (m : PairingMessage) : Json.parseRaw m.toText = some (.obj m.fields) := by
  apply Parses.parseRaw
  rw [toText, String.toList_ofList, render]
  refine parses_obj (List.forall₂_map_right_iff.mpr (List.forall₂_same.mpr ?_))
  intro field hfield
  exact ⟨_, rfl, (canonical_fields hfield).parses fun _ _ ↦ rfl⟩

theorem decodeVersion_toNat (version : UInt32) :
    decodeVersion (some (.num (toString version.toNat))) = some version := by
  rw [decodeVersion, Decimal.toList_toString, Decimal.parseDigits_toDigits, Option.bind_some,
    if_pos version.toNat_lt, UInt32.ofNat_toNat]

theorem ofText_text (t : PayloadType) : PayloadType.ofText t.text = some t := by
  cases t <;> decide

theorem ofText_reason (r : AbortReason) : AbortReason.ofText r.text = r := by
  cases r <;> decide

theorem decode_fields (m : PairingMessage) : decode (.obj m.fields) = some m := by
  cases m with
  | offer sid version =>
    simp [fields, decode, noDuplicateField, List.lookup_cons]
    exact decodeVersion_toNat version
  | sasConfirm hash => simp [fields, decode, noDuplicateField, List.lookup_cons]
  | payload t p =>
    simp [fields, decode, noDuplicateField, List.lookup_cons, ofText_text]
  | complete success => simp [fields, decode, noDuplicateField, List.lookup_cons]
  | abort reason =>
    simp [fields, decode, noDuplicateField, List.lookup_cons, ofText_reason]

/-- A message survives serialization. -/
theorem ofText_toText (m : PairingMessage) : ofText m.toText = .ok m := by
  rw [ofText, parseRaw_toText, Option.bind_some, decode_fields]

end PairingMessage

theorem length_flatMap_escapeChar (s : List Char) :
    (s.flatMap escapeChar).length ≤ 6 * s.length := by
  induction s with
  | nil => exact Nat.zero_le _
  | cons c s ih =>
    have hone : (escapeChar c).length ≤ 6 := by
      rcases escapeChar_cases c with ⟨_, _, _, hescape⟩ | ⟨_, _, _, hescape⟩ | ⟨_, _, _, hescape⟩
      all_goals simp [hescape]
    rw [List.flatMap_cons, List.length_append, List.length_cons]
    omega

theorem length_hexEncode (b : Bytes32) : (hexEncode b).toList.length = 64 := by
  rw [hexEncode, String.toList_ofList, Hex.length_hexDigits]

theorem utf8ByteSize_offer (b : Bytes32) :
    (PairingMessage.offer (hexEncode b) 1).toText.utf8ByteSize ≤ 65535 := by
  have hlen := length_flatMap_escapeChar (hexEncode b).toList
  rw [length_hexEncode] at hlen
  have htext : (Json.obj (PairingMessage.offer (hexEncode b) 1).fields).render.length ≤ 16383 := by
    simp only [PairingMessage.fields, render, renderObj, joinComma, renderField, renderStr,
      List.map_cons, List.map_nil, List.length_cons, List.length_append, List.length_nil]
    have hversion : (toString (1 : UInt32).toNat).toList.length = 1 := by decide
    have hkeys : ("type".toList.flatMap escapeChar).length = 4 ∧
        ("offer".toList.flatMap escapeChar).length = 5 ∧
        ("session_id".toList.flatMap escapeChar).length = 10 ∧
        ("version".toList.flatMap escapeChar).length = 7 := by decide
    omega
  exact (utf8ByteSize_le_mul_length _).trans (by omega)

theorem utf8ByteSize_sasConfirm (b : Bytes32) :
    (PairingMessage.sasConfirm (hexEncode b)).toText.utf8ByteSize ≤ 65535 := by
  have hlen := length_flatMap_escapeChar (hexEncode b).toList
  rw [length_hexEncode] at hlen
  have htext : (Json.obj (PairingMessage.sasConfirm (hexEncode b)).fields).render.length ≤ 16383 := by
    simp only [PairingMessage.fields, render, renderObj, joinComma, renderField, renderStr,
      List.map_cons, List.map_nil, List.length_cons, List.length_append, List.length_nil]
    have hkeys : ("type".toList.flatMap escapeChar).length = 4 ∧
        ("sas-confirm".toList.flatMap escapeChar).length = 11 ∧
        ("transcript_hash".toList.flatMap escapeChar).length = 15 := by decide
    omega
  exact (utf8ByteSize_le_mul_length _).trans (by omega)

theorem utf8ByteSize_short {m : PairingMessage} {n : ℕ} (hn : n ≤ 16383)
    (h : (Json.obj m.fields).render.length = n) : m.toText.utf8ByteSize ≤ 65535 := by
  refine (utf8ByteSize_le_mul_length _).trans ?_
  omega

section Example

def generator : PublicKey := 0x79be667ef9dcbbac55a06295ce870b07029bfcdb2dce28d959f2815b16f81798

def double : PublicKey := 0xc6047f9441ed7d6d3045406e95c07cd85c778e4b8cef3ca7abac09b95c709ee5

def triple : PublicKey := 0xf9308a019258c31049344f85f89d5229b531c845836f99b08601f113bce036f9

def hmac (key message : List UInt8) : List UInt8 :=
  let padded := key ++ List.replicate (64 - key.length) 0
  Sha256.digest (padded.map (· ^^^ 0x5c) ++ Sha256.digest (padded.map (· ^^^ 0x36) ++ message))

def publicKeyOf (keys : SecretKey) : PublicKey :=
  if keys = 1 then generator else if keys = 2 then double else if keys = 3 then triple else 0

def sharedKeyOf (keys : SecretKey) (peer : PublicKey) : Except String Bytes32 :=
  if keys = 1 ∧ peer = double ∨ keys = 2 ∧ peer = generator then .ok double
  else .error "malformed public key"

theorem publicKeyOf_eq_generator {keys : SecretKey} : publicKeyOf keys = generator ↔ keys = 1 := by
  unfold publicKeyOf
  split_ifs with h₁ h₂ h₃
  · simp only [h₁]
  · rw [h₂]
    decide
  · rw [h₃]
    decide
  · simp only [h₁, iff_false]
    decide

theorem publicKeyOf_eq_double {keys : SecretKey} : publicKeyOf keys = double ↔ keys = 2 := by
  unfold publicKeyOf
  split_ifs with h₁ h₂ h₃
  · rw [h₁]
    decide
  · simp only [h₂]
  · rw [h₃]
    decide
  · simp only [h₂, iff_false]
    decide

theorem sharedKeyOf_comm (a b : SecretKey) :
    sharedKeyOf a (publicKeyOf b) = sharedKeyOf b (publicKeyOf a) := by
  have hswap : (a = 1 ∧ b = 2 ∨ a = 2 ∧ b = 1) ↔ (b = 1 ∧ a = 2 ∨ b = 2 ∧ a = 1) := by
    constructor <;> rintro (⟨ha, hb⟩ | ⟨ha, hb⟩) <;> simp [ha, hb]
  simp only [sharedKeyOf, publicKeyOf_eq_generator, publicKeyOf_eq_double, hswap]

/-- HKDF-SHA256 and the serializer, with secp256k1's keys 1 to 3 and the agreement of the first two,
and a ciphertext's nonce as the id of its event. -/
def smallKeys : Primitives where
  publicKey := publicKeyOf
  sharedKey := sharedKeyOf
  extract salt ikm := Fin.ofNat _ (Sha256.ofBytes (hmac salt ikm))
  expand prk info len := (hmac (Primitives.toBytes prk) (info ++ [1])).take len
  eventId body :=
    match body.content with
    | .sealed box => Fin.ofNat _ box.nonce
    | .text _ => 0
  verifyError _ := "Invalid signature"
  signError _ := none
  encryptError _ := none
  decryptError _ := "Invalid MAC"
  sealedLen plain := if plain.utf8ByteSize ≤ 64 then 176 else 260
  toJson := PairingMessage.toText
  fromJson := PairingMessage.ofText
  sharedKey_comm := sharedKeyOf_comm
  fromJson_toJson := PairingMessage.ofText_toText

theorem fits_smallKeys {m : PairingMessage} (h : m.toText.utf8ByteSize ≤ 65535) :
    Fits smallKeys m := by
  refine ⟨rfl, ?_, Nat.not_lt.mpr h⟩
  dsimp only [smallKeys]
  split_ifs <;> decide

theorem sharedKey_smallKeys : smallKeys.sharedKey 2 (smallKeys.publicKey 1) = .ok double := by
  have hpublic : smallKeys.publicKey 1 = generator := publicKeyOf_eq_generator.mpr rfl
  rw [hpublic]
  show sharedKeyOf 2 generator = .ok double
  exact if_pos (Or.inr ⟨rfl, rfl⟩)

def smallSetup : Setup smallKeys :=
  { sourceKeys := 1
    targetKeys := 2
    secret := 7
    relayUrl := "wss://relay.example"
    sourceStart := 0
    targetStart := 0
    rand := ⟨0, 0, 0⟩
    target := _
    offer := _
    joined := newTarget_ok (fun _ ↦ rfl) sharedKey_smallKeys (fits_smallKeys (utf8ByteSize_offer _)) }

/-- Somebody who has the key 3 and knows a value that is not the session id. -/
def forger : Intruder PublicKey Bytes32 := ⟨fun k ↦ k = triple, fun v ↦ v = 5⟩

theorem sessionId_smallSetup : smallSetup.sessionId ≠ 5 := by
  decide +kernel

theorem hidden_forger : smallSetup.Hidden forger where
  source := by
    show ¬publicKeyOf 1 = triple
    decide
  target := by
    show ¬publicKeyOf 2 = triple
    decide
  sessionId := sessionId_smallSetup

def wrongOffer : Event :=
  sealedEvent smallKeys 3 smallSetup.sourcePubkey (.offer (hexEncode 5) 1) ⟨0, 0, 4⟩

theorem canDeliver_wrongOffer (published : List Event) :
    CanDeliver smallKeys forger published wrongOffer := by
  refine ⟨.inr ⟨⟨triple, rfl, ?_⟩, fun v hv ↦ .inl ?_⟩, .inl rfl⟩
  · exact Sym2.mem_mk_left _ _
  · obtain ⟨m, hm, hspells⟩ := hv
    have hread : smallKeys.fromJson (smallKeys.toJson (.offer (hexEncode 5) 1)) =
        .ok (.offer (hexEncode 5) 1) := PairingMessage.ofText_toText _
    obtain rfl := Except.ok.inj (hread.symm.trans hm)
    rw [PairingMessage.spells, hexDecode_hexEncode] at hspells
    exact (Option.some.inj hspells).symm

theorem refused_wrongOffer : smallSetup.Runs forger
    [(⟨.source, 60000, .handleOffer wrongOffer⟩, .error .invalidSessionId)] smallSetup.init := by
  have hstart : smallSetup.Runs forger []
      ⟨smallSetup.source, smallSetup.target, [smallSetup.offer]⟩ := .nil
  refine Setup.Runs.source smallSetup hstart (.handleOffer wrongOffer)
    (canDeliver_wrongOffer _) (Setup.handleOffer_wrong (by decide)
      (fits_smallKeys (utf8ByteSize_offer _)) ?_)
  rw [hexDecode_hexEncode]
  exact fun h ↦ sessionId_smallSetup (Option.some.inj h).symm

theorem clear_smallSetup :
    smallSetup.Clear 60000 .custom "nsec1" fun n ↦ ⟨n, 0, 0⟩ where
  sign _ := rfl
  offer := fits_smallKeys (utf8ByteSize_offer _)
  sasConfirm _ := fits_smallKeys (utf8ByteSize_sasConfirm _)
  payload := fits_smallKeys (utf8ByteSize_short (n := 60) (by decide) (by
    simp only [PairingMessage.fields, render, List.map_cons, List.map_nil]
    decide))
  complete := fits_smallKeys (utf8ByteSize_short (n := 34) (by decide) (by
    simp only [PairingMessage.fields, render, List.map_cons, List.map_nil]
    decide))
  inTime := by decide
  newComplete := by
    show (Fin.ofNat (2 ^ 256) 3 : EventId) ≠ Fin.ofNat (2 ^ 256) 0
    decide
  newPayload _ := by
    show (Fin.ofNat (2 ^ 256) 2 : EventId) ≠ Fin.ofNat (2 ^ 256) 1
    decide
  first := rfl

/-- An offer with a made-up session id comes first. -/
theorem pairing_agrees_wrong_offer : ∃ tr s, smallSetup.Runs forger tr s ∧
    (⟨.source, 60000, .handleOffer wrongOffer⟩, .error .invalidSessionId) ∈ tr ∧
    (s.source.state = .completed → PayloadAccepted tr) ∧ s.source.state = .completed ∧
    PayloadSent tr .custom "nsec1" := by
  obtain ⟨pre, rest, e, s, hpre, hrun, hsource, -⟩ := clear_smallSetup.completes refused_wrongOffer
  obtain ⟨haccepted, -, hcompleted, -⟩ := Setup.pairing_agrees smallSetup hidden_forger hrun
  obtain ⟨-, ⟨now, rand, e', hsent⟩, -⟩ := haccepted pre rest _ _ _ rfl
  refine ⟨_, s, hrun, List.mem_append_left _ (hpre.subset (List.mem_singleton_self _)), hcompleted,
    hsource, now, rand, e', List.mem_append_left _ hsent⟩

end Example

end Buzz.Pairing
