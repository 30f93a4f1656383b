import Mathlib.Data.Finset.Basic
import Buzz.Lib.Intruder
import Buzz.Lib.Sha256
import Buzz.Nostr.Event

namespace Buzz.Pairing

open Buzz.Lib Buzz.Nostr

abbrev Bytes32 := Fin (2 ^ 256)
abbrev SecretKey := Fin (2 ^ 256)

inductive PayloadType
  | nsec
  | bunker
  | connect
  | custom
deriving DecidableEq, Repr

inductive AbortReason
  | sasMismatch
  | userDenied
  | timeout
  | protocolError
  | unknown
deriving DecidableEq, Repr

inductive PairingMessage
  | offer (sessionId : String) (version : UInt32)
  | sasConfirm (transcriptHash : String)
  | payload (payloadType : PayloadType) (payload : String)
  | complete (success : Bool)
  | abort (reason : AbortReason)
deriving DecidableEq, Repr

def PairingMessage.name : PairingMessage → String
  | .offer _ _ => "offer"
  | .sasConfirm _ => "sas-confirm"
  | .payload _ _ => "payload"
  | .complete _ => "complete"
  | .abort _ => "abort"

inductive PairingError
  | invalidQr (text : String)
  | invalidSessionId
  | sasMismatch
  | transcriptMismatch
  | unexpectedMessage (expected got : String)
  | sessionExpired
  | nip44 (text : String)
  | json (text : String)
  | invalidPubkey (text : String)
  | signingError (text : String)
deriving DecidableEq, Repr

def unexpected (expected : String) (got : PairingMessage) : PairingError :=
  .unexpectedMessage expected got.name

inductive Content
  | sealed (box : Box PublicKey String)
  | text (s : String)
deriving DecidableEq

/-- What the author of an event signs. -/
structure Body where
  pubkey : PublicKey
  createdAt : Timestamp
  kind : Kind
  tags : List Tag
  content : Content
deriving DecidableEq

inductive Sig
  | signed (signer : PublicKey) (body : Body)
  | other (bytes : Signature)
deriving DecidableEq

structure Event extends Body where
  id : EventId
  sig : Sig
deriving DecidableEq

/-- The third-party functions under the pairing code: secp256k1, HKDF, NIP-44 and serde. The two
laws are the symmetry of ECDH and that a message survives serialization. -/
structure Primitives where
  publicKey : SecretKey → PublicKey
  sharedKey : SecretKey → PublicKey → Except String Bytes32
  extract : List UInt8 → List UInt8 → Bytes32
  expand : Bytes32 → List UInt8 → ℕ → List UInt8
  eventId : Body → EventId
  verifyError : Event → String
  signError : Body → Option String
  encryptError : String → Option String
  decryptError : Content → String
  sealedLen : String → ℕ
  toJson : PairingMessage → String
  fromJson : String → Except String PairingMessage
  sharedKey_comm : ∀ a b, sharedKey a (publicKey b) = sharedKey b (publicKey a)
  fromJson_toJson : ∀ m, fromJson (toJson m) = .ok m

namespace Primitives

variable (P : Primitives)

def toBytes (b : Bytes32) : List UInt8 := Sha256.bigEndian 32 b.val

def utf8 (s : String) : List UInt8 := s.toUTF8.toList

def infoSessionId : List UInt8 := utf8 "nostr-pair-session-id"

def infoSas : List UInt8 := utf8 "nostr-pair-sas-v1"

def infoTranscript : List UInt8 := utf8 "nostr-pair-transcript-v1"

def hkdf32 (salt ikm info : List UInt8) : Bytes32 :=
  Fin.ofNat (2 ^ 256) (Sha256.ofBytes ((P.expand (P.extract salt ikm) info 32).take 32))

def deriveSessionId (sessionSecret : Bytes32) : Bytes32 :=
  P.hkdf32 [] (toBytes sessionSecret) infoSessionId

def deriveSas (ecdhShared sessionSecret : Bytes32) : ℕ × Bytes32 :=
  let sasInput := P.hkdf32 (toBytes sessionSecret) (toBytes ecdhShared) infoSas
  (sasInput.val / 2 ^ 224 % 1000000, sasInput)

def deriveTranscriptHash (sessionId sourcePubkey targetPubkey sasInput sessionSecret : Bytes32) :
    Bytes32 :=
  P.hkdf32 (toBytes sessionSecret)
    (toBytes sessionId ++ toBytes sourcePubkey ++ toBytes targetPubkey ++ toBytes sasInput)
    infoTranscript

def formatSas (code : ℕ) : String :=
  let digits := (toString code).toList
  String.ofList (List.replicate (6 - digits.length) '0' ++ digits)

def contentLen : Content → ℕ
  | .sealed box => P.sealedLen box.plain
  | .text s => s.utf8ByteSize

end Primitives

end Buzz.Pairing
