import Buzz.Lib.Attempt
import Buzz.Pairing.Types

namespace Buzz.Pairing

open Buzz.Lib Buzz.Nostr

def defaultTimeout : ℕ := 120000

def pairingKind : Kind := 24134

inductive Role
  | source
  | target
deriving DecidableEq, Repr

def Role.debug : Role → String
  | .source => "Source"
  | .target => "Target"

inductive SessionState
  | waiting
  | confirming
  | awaitingConfirmation
  | transferring
  | payloadExchanged
  | completed
  | aborted
deriving DecidableEq, Repr

namespace SessionState

def debug : SessionState → String
  | .waiting => "Waiting"
  | .confirming => "Confirming"
  | .awaitingConfirmation => "AwaitingConfirmation"
  | .transferring => "Transferring"
  | .payloadExchanged => "PayloadExchanged"
  | .completed => "Completed"
  | .aborted => "Aborted"

def Terminal (state : SessionState) : Prop := state = .completed ∨ state = .aborted

instance (state : SessionState) : Decidable state.Terminal := inferInstanceAs (Decidable (_ ∨ _))

end SessionState

structure QrPayload where
  version : ℕ
  sourcePubkey : PublicKey
  sessionSecret : Bytes32
  relays : List String

structure PairingSession where
  role : Role
  state : SessionState
  keys : SecretKey
  sessionSecret : Bytes32
  relayUrls : List String
  peerPubkey : Option PublicKey
  sessionId : Bytes32
  sasCode : Option ℕ
  sasInput : Option Bytes32
  processedIds : Finset EventId
  createdAt : ℕ
  timeout : ℕ

/-- What `build_event` draws and reads off the wall clock. -/
structure Rand where
  nonce : ℕ
  now : ℕ
  jitter : ℕ

structure EventBuilder where
  createdAt : Timestamp
  kind : Kind
  tags : List Tag
  content : Content

def signWithKeys (P : Primitives) (keys : SecretKey) (b : EventBuilder) :
    Except PairingError Event :=
  let body : Body := ⟨P.publicKey keys, b.createdAt, b.kind, b.tags, b.content⟩
  match P.signError body with
  | some text => .error (.signingError text)
  | none => .ok { body with id := P.eventId body, sig := .signed (P.publicKey keys) body }

def verify (P : Primitives) (e : Event) : Except String Unit :=
  if e.id = P.eventId e.toBody ∧ e.sig = .signed e.pubkey e.toBody then .ok ()
  else .error (P.verifyError e)

def encrypt (P : Primitives) (keys : SecretKey) (peer : PublicKey) (plain : String) (nonce : ℕ) :
    Except PairingError Content :=
  match P.encryptError plain with
  | some text => .error (.nip44 text)
  | none => .ok (.sealed ⟨s(P.publicKey keys, peer), plain, nonce⟩)

def decrypt (P : Primitives) (keys : SecretKey) (author : PublicKey) :
    Content → Except PairingError String
  | .sealed box =>
    if box.ends = s(P.publicKey keys, author) then .ok box.plain
    else .error (.nip44 (P.decryptError (.sealed box)))
  | .text s => .error (.nip44 (P.decryptError (.text s)))

namespace PairingSession

variable (P : Primitives) (s : PairingSession)

def pubkey : PublicKey := P.publicKey s.keys

def isExpired (now : ℕ) : Bool := s.timeout < now - s.createdAt

def checkExpired (now : ℕ) : Except PairingError Unit :=
  if s.isExpired now then .error .sessionExpired else .ok ()

def expectState (expected : SessionState) : Except PairingError Unit :=
  if s.state ≠ expected then
    .error (.unexpectedMessage ("state " ++ expected.debug) ("state " ++ s.state.debug))
  else .ok ()

def expectRole (expected : Role) : Except PairingError Unit :=
  if s.role ≠ expected then
    .error (.unexpectedMessage ("role " ++ expected.debug) ("role " ++ s.role.debug))
  else .ok ()

def buildEvent (message : PairingMessage) (rand : Rand) : Except PairingError Event := do
  let peer ← okOr s.peerPubkey (.invalidPubkey "no peer pubkey set")
  let encrypted ← encrypt P s.keys peer (P.toJson message) rand.nonce
  signWithKeys P s.keys ⟨.ofNat (rand.now - rand.jitter % 31), pairingKind,
    [⟨"p", [hexEncode peer]⟩], encrypted⟩

def decryptMessage (e : Event) : Except PairingError PairingMessage :=
  let len := P.contentLen e.content
  if len < 132 ∨ 87472 < len then
    .error (.unexpectedMessage "NIP-44 content (132–87472 chars)" (toString len ++ " chars"))
  else do
    let decrypted ← decrypt P s.keys e.pubkey e.content
    if 65535 < decrypted.utf8ByteSize then
      .error (.unexpectedMessage "plaintext ≤ 65535 bytes"
        (toString decrypted.utf8ByteSize ++ " bytes"))
    else
      match P.fromJson decrypted with
      | .error text => .error (.json text)
      | .ok message => .ok message

def hasPTag (e : Event) : Bool :=
  e.tags.any fun t ↦ t.name == "p" && t.content == some (hexEncode (s.pubkey P))

def validateEventBasics (e : Event) : Except PairingError Unit :=
  match verify P e with
  | .error text => .error (.invalidPubkey ("event verification failed: " ++ text))
  | .ok () =>
    if e.id ∈ s.processedIds then .error (.unexpectedMessage "new event" "duplicate event id")
    else if e.kind ≠ pairingKind then
      .error (.unexpectedMessage ("kind " ++ toString pairingKind.val)
        ("kind " ++ toString e.kind.val))
    else if s.hasPTag P e then .ok ()
    else .error (.invalidPubkey "event p-tag does not match our ephemeral pubkey")

def validateEventFromPeer (e : Event) : Except PairingError Unit := do
  s.validateEventBasics P e
  match s.peerPubkey with
  | some expected =>
    if e.pubkey ≠ expected then
      .error (.invalidPubkey
        ("event from " ++ hexEncode e.pubkey ++ " but expected " ++ hexEncode expected))
    else .ok ()
  | none => .ok ()

def recordEvent (e : Event) : PairingSession :=
  { s with processedIds := insert e.id s.processedIds }

def readOffer (now : ℕ) (e : Event) : Except PairingError Unit := do
  s.checkExpired now
  s.expectState .waiting
  s.expectRole .source
  s.validateEventBasics P e
  match ← s.decryptMessage P e with
  | .offer sessionIdHex version =>
    if version ≠ 1 then
      .error (.unexpectedMessage "version 1" ("version " ++ toString version.toNat))
    else if hexDecode sessionIdHex = some s.sessionId then .ok ()
    else .error .invalidSessionId
  | other => .error (unexpected "offer" other)

def handleOffer (now : ℕ) (e : Event) : Except PairingError String × PairingSession :=
  attempt s (s.readOffer P now e) fun _ ↦
    let locked := { s with peerPubkey := some e.pubkey }
    match P.sharedKey s.keys e.pubkey with
    | .error text => (.error (.signingError text), locked)
    | .ok ecdh =>
      let sas := P.deriveSas ecdh s.sessionSecret
      (.ok (Primitives.formatSas sas.1),
        { locked with
          sasCode := some sas.1
          sasInput := some sas.2
          state := .confirming
          processedIds := insert e.id s.processedIds })

def confirmSas (now : ℕ) (rand : Rand) : Except PairingError Event × PairingSession :=
  attempt s (do
    s.checkExpired now
    s.expectState .confirming
    s.expectRole .source
    let sasInput ← okOr s.sasInput .sasMismatch
    let peer ← okOr s.peerPubkey (.invalidPubkey "no peer")
    let transcriptHash :=
      P.deriveTranscriptHash s.sessionId (s.pubkey P) peer sasInput s.sessionSecret
    s.buildEvent P (.sasConfirm (hexEncode transcriptHash)) rand) fun event ↦
      (.ok event, { s with state := .transferring })

def sendPayload (now : ℕ) (payloadType : PayloadType) (payload : String) (rand : Rand) :
    Except PairingError Event × PairingSession :=
  attempt s (do
    s.checkExpired now
    s.expectState .transferring
    s.expectRole .source
    s.buildEvent P (.payload payloadType payload) rand) fun event ↦
      (.ok event, { s with state := .payloadExchanged })

def handleComplete (now : ℕ) (e : Event) : Except PairingError Unit × PairingSession :=
  attempt s (do
    s.checkExpired now
    s.expectState .payloadExchanged
    s.expectRole .source
    s.validateEventFromPeer P e
    s.decryptMessage P e) fun
      | .complete true => (.ok (), { s.recordEvent e with state := .completed })
      | .complete false =>
        (.error (.unexpectedMessage "complete(success=true)" "complete(success=false)"),
          { s with state := .aborted })
      | other => (.error (unexpected "complete" other), s)

def handleSasConfirm (now : ℕ) (e : Event) : Except PairingError String × PairingSession :=
  attempt s (do
    s.checkExpired now
    s.expectState .confirming
    s.expectRole .target
    s.validateEventFromPeer P e
    let message ← s.decryptMessage P e
    let receivedHash ← match message with
      | .sasConfirm transcriptHash => .ok transcriptHash
      | other => .error (unexpected "sas-confirm" other)
    let sasInput ← okOr s.sasInput .sasMismatch
    let peer ← okOr s.peerPubkey (.invalidPubkey "no peer")
    let expectedHash :=
      P.deriveTranscriptHash s.sessionId peer (s.pubkey P) sasInput s.sessionSecret
    .ok (hexDecode receivedHash == some expectedHash)) fun
      | false => (.error .transcriptMismatch, { s with state := .aborted })
      | true =>
        let approved := { s.recordEvent e with state := .awaitingConfirmation }
        match s.sasCode with
        | some code => (.ok (Primitives.formatSas code), approved)
        | none => (.error .sasMismatch, approved)

def confirmTargetSas (now : ℕ) : Except PairingError Unit × PairingSession :=
  attempt s (do
    s.checkExpired now
    s.expectState .awaitingConfirmation
    s.expectRole .target) fun _ ↦
      (.ok (), { s with state := .transferring })

def handlePayload (now : ℕ) (e : Event) :
    Except PairingError (PayloadType × String) × PairingSession :=
  attempt s (do
    s.checkExpired now
    s.expectState .transferring
    s.expectRole .target
    s.validateEventFromPeer P e
    s.decryptMessage P e) fun
      | .payload payloadType payload =>
        (.ok (payloadType, payload), { s.recordEvent e with state := .payloadExchanged })
      | other => (.error (unexpected "payload" other), s)

def sendComplete (now : ℕ) (rand : Rand) : Except PairingError Event × PairingSession :=
  attempt s (do
    s.checkExpired now
    s.expectState .payloadExchanged
    s.expectRole .target
    s.buildEvent P (.complete true) rand) fun event ↦
      (.ok event, { s with state := .completed })

def terminalError : PairingError :=
  .unexpectedMessage "non-terminal state" ("state " ++ s.state.debug)

def abort (reason : AbortReason) (rand : Rand) :
    Except PairingError (Option Event) × PairingSession :=
  if s.state.Terminal then (.error s.terminalError, s)
  else if s.peerPubkey = none then (.ok none, { s with state := .aborted })
  else attempt s (s.buildEvent P (.abort reason) rand) fun event ↦
    (.ok (some event), { s with state := .aborted })

def handleAbort (e : Event) : Except PairingError AbortReason × PairingSession :=
  if s.state.Terminal then (.error s.terminalError, s)
  else if s.peerPubkey = none then
    (.error (.invalidPubkey "cannot accept abort before peer is known"), s)
  else attempt s (do
    s.validateEventFromPeer P e
    s.decryptMessage P e) fun
      | .abort reason => (.ok reason, { s.recordEvent e with state := .aborted })
      | other => (.error (unexpected "abort" other), s)

def signEvent (b : EventBuilder) : Except PairingError Event := signWithKeys P s.keys b

end PairingSession

def newSource (P : Primitives) (keys : SecretKey) (sessionSecret : Bytes32) (relayUrl : String)
    (now : ℕ) : PairingSession × QrPayload :=
  ({ role := .source
     state := .waiting
     keys := keys
     sessionSecret := sessionSecret
     relayUrls := [relayUrl]
     peerPubkey := none
     sessionId := P.deriveSessionId sessionSecret
     sasCode := none
     sasInput := none
     processedIds := ∅
     createdAt := now
     timeout := defaultTimeout },
    ⟨1, P.publicKey keys, sessionSecret, [relayUrl]⟩)

def newTarget (P : Primitives) (keys : SecretKey) (qr : QrPayload) (now : ℕ) (rand : Rand) :
    Except PairingError (PairingSession × Event) := do
  let sessionId := P.deriveSessionId qr.sessionSecret
  let ecdh ← match P.sharedKey keys qr.sourcePubkey with
    | .error text => .error (.signingError text)
    | .ok ecdh => .ok ecdh
  let sas := P.deriveSas ecdh qr.sessionSecret
  let session : PairingSession :=
    { role := .target
      state := .waiting
      keys := keys
      sessionSecret := qr.sessionSecret
      relayUrls := qr.relays
      peerPubkey := some qr.sourcePubkey
      sessionId := sessionId
      sasCode := some sas.1
      sasInput := some sas.2
      processedIds := ∅
      createdAt := now
      timeout := defaultTimeout }
  let event ← session.buildEvent P (.offer (hexEncode sessionId) 1) rand
  return ({ session with state := .confirming }, event)

end Buzz.Pairing
