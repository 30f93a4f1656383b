import Buzz.Lib.Runs
import Buzz.Pairing.Moves

namespace Buzz.Pairing

open Buzz.Lib Buzz.Nostr

structure System where
  source : PairingSession
  target : PairingSession
  published : List Event

structure Call where
  party : Role
  now : ℕ
  method : Method

def publishes : Except PairingError Answer → List Event
  | .ok (.event e) => [e]
  | .ok (.aborted (some e)) => [e]
  | _ => []

namespace System

def session (s : System) : Role → PairingSession
  | .source => s.source
  | .target => s.target

def put (s : System) (party : Role) (session : PairingSession) : System :=
  match party with
  | .source => { s with source := session }
  | .target => { s with target := session }

def step (P : Primitives) (s : System) (c : Call) : Except PairingError Answer × System :=
  let r := (s.session c.party).call P c.now c.method
  (r.1, { s.put c.party r.2 with published := s.published ++ publishes r.1 })

end System

def PairingMessage.spells : PairingMessage → Option Bytes32
  | .offer sessionId _ => hexDecode sessionId
  | .sasConfirm transcriptHash => hexDecode transcriptHash
  | .payload _ text => hexDecode text
  | .complete _ => none
  | .abort _ => none

def Mentions (P : Primitives) (plain : String) (v : Bytes32) : Prop :=
  ∃ m, P.fromJson plain = .ok m ∧ m.spells = some v

section Adversary

variable (P : Primitives) (I : Intruder PublicKey Bytes32) (published : List Event)

def SeenBox (b : Box PublicKey String) : Prop := ∃ e ∈ published, e.content = .sealed b

def CanWrite : Content → Prop
  | .sealed b => I.CanSend (Mentions P) (SeenBox published) b
  | .text _ => True

def CanSign : Sig → Prop
  | .signed signer body => I.owns signer ∨ ∃ e ∈ published, e.sig = .signed signer body
  | .other _ => True

/-- The relay hands over whatever the adversary can put together, old events among it. -/
def CanDeliver (e : Event) : Prop := CanWrite P I published e.content ∧ CanSign I published e.sig

/-- The events that a method is handed come from the relay, and so may the contents that it is
asked to sign. -/
def Admissible (P : Primitives) (I : Intruder PublicKey Bytes32) (s : System) (c : Call) : Prop :=
  match c.method with
  | .handleOffer e => CanDeliver P I s.published e
  | .handleComplete e => CanDeliver P I s.published e
  | .handleSasConfirm e => CanDeliver P I s.published e
  | .handlePayload e => CanDeliver P I s.published e
  | .handleAbort e => CanDeliver P I s.published e
  | .signEvent b => CanWrite P I s.published b.content
  | _ => True

end Adversary

/-- A source session and a target session created from its QR payload. The target's clock reading
is free, so the source may have been called any number of times before. -/
structure Setup (P : Primitives) where
  sourceKeys : SecretKey
  targetKeys : SecretKey
  secret : Bytes32
  relayUrl : String
  sourceStart : ℕ
  targetStart : ℕ
  rand : Rand
  target : PairingSession
  offer : Event
  joined : newTarget P targetKeys (newSource P sourceKeys secret relayUrl sourceStart).2 targetStart
    rand = .ok (target, offer)

namespace Setup

variable {P : Primitives} (X : Setup P)

def source : PairingSession := (newSource P X.sourceKeys X.secret X.relayUrl X.sourceStart).1

def sourcePubkey : PublicKey := P.publicKey X.sourceKeys

def targetPubkey : PublicKey := P.publicKey X.targetKeys

def sessionId : Bytes32 := P.deriveSessionId X.secret

def init : System := ⟨X.source, X.target, [X.offer]⟩

/-- The adversary has neither private key, and cannot write down the session id, which is a hash of
the secret. -/
structure Hidden (I : Intruder PublicKey Bytes32) : Prop where
  source : ¬I.owns X.sourcePubkey
  target : ¬I.owns X.targetPubkey
  sessionId : ¬I.knows X.sessionId

abbrev Entry := Call × Except PairingError Answer

def Runs (I : Intruder PublicKey Bytes32) : List Entry → System → Prop :=
  Answers (Admissible P I) (System.step P) X.init

end Setup

def SasConfirmed (tr : List Setup.Entry) : Prop :=
  ∃ now rand e, (⟨.source, now, .confirmSas rand⟩, .ok (.event e)) ∈ tr

def PayloadSent (tr : List Setup.Entry) (t : PayloadType) (p : String) : Prop :=
  ∃ now rand e, (⟨.source, now, .sendPayload t p rand⟩, .ok (.event e)) ∈ tr

def TargetConfirmed (tr : List Setup.Entry) : Prop :=
  ∃ now, (⟨.target, now, .confirmTargetSas⟩, .ok .unit) ∈ tr

def PayloadAccepted (tr : List Setup.Entry) : Prop :=
  ∃ now e t p, (⟨.target, now, .handlePayload e⟩, .ok (.payload t p)) ∈ tr

def isAcceptance (entry : Setup.Entry) : Bool :=
  match entry.2 with
  | .ok (.payload _ _) => true
  | _ => false

def PairingSession.transcript (P : Primitives) (s : PairingSession) :
    Option (Bytes32 × PublicKey × PublicKey × Bytes32) :=
  s.sasInput.bind fun sasInput ↦ s.peerPubkey.map fun peer ↦
    match s.role with
    | .source => (s.sessionId, s.pubkey P, peer, sasInput)
    | .target => (s.sessionId, peer, s.pubkey P, sasInput)

end Buzz.Pairing
