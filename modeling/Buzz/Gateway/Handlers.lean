import Buzz.Gateway.PostgresSpec

namespace Buzz.Gateway

open Buzz.Lib Buzz.Nostr

structure Enrollment where
  appAttestKeyId : List UInt8
  appAttestPublicKey : List UInt8
  profile : AppProfile
  tokenCiphertext : List UInt8
  tokenFingerprint : Bytes32
  expiresAt : ℤ
deriving DecidableEq, Repr

def Enrollment.installation (n : Enrollment) (id : Uuid) : NewInstallation where
  id := id
  appAttestKeyId := n.appAttestKeyId
  appAttestPublicKey := n.appAttestPublicKey
  assertionCounter := 0
  profile := n.profile
  tokenCiphertext := n.tokenCiphertext
  tokenFingerprint := n.tokenFingerprint
  endpointEpoch := 1
  expiresAt := n.expiresAt

inductive Mutation
  | delegate (relayPubkey : String) (endpointEpoch generation notBefore expiresAt : ℤ)
  | rotate (expected new : ℤ) (ciphertext : List UInt8) (fingerprint : Bytes32)
  | revokeDelegation (relayPubkey : String) (generation : ℤ)
  | revokeInstallation (expected new : ℤ)
deriving DecidableEq, Repr

structure SignedRequest where
  installationId : Uuid
  challengeId : Uuid
  challenge : Bytes32
  now : ℤ
  mutation : Mutation
deriving DecidableEq, Repr

def saturatingAdd (a b : ℤ) : ℤ := max i64Min (min i64Max (a + b))

/-- What the handlers check of a request before they call the store. -/
def Mutation.valid (now maxGrantLifetime : ℤ) : Mutation → Bool
  | delegate relayPubkey endpointEpoch generation notBefore expiresAt =>
    validRelayPubkey relayPubkey && 1 ≤ endpointEpoch && 1 ≤ generation &&
      notBefore ≤ now + 300 && notBefore < expiresAt && expiresAt ≤ now + maxGrantLifetime
  | rotate expected new _ _ => 1 ≤ expected && new = saturatingAdd expected 1
  | revokeDelegation relayPubkey generation => validRelayPubkey relayPubkey && 1 ≤ generation
  | revokeInstallation expected new => 1 ≤ expected && new = saturatingAdd expected 1

inductive Handler
  | enrolling (challengeId : Uuid) (challenge : Bytes32) (now : ℤ) (enrollment : Enrollment)
  | creating (challengeId : Uuid) (enrollment : Enrollment)
  | reading (r : SignedRequest)
  | consuming (r : SignedRequest) (previous next : UInt32)
  | advancing (r : SignedRequest) (previous next : UInt32)
  | mutating (r : SignedRequest)
deriving DecidableEq, Repr

def Handler.consumed : Handler → Option Uuid
  | creating challengeId _ => some challengeId
  | advancing r _ _ => some r.challengeId
  | mutating r => some r.challengeId
  | _ => none

/-- A store call that succeeded, as far as authority goes. -/
inductive Accepted
  | created (challenge id : Uuid)
  | counter (id : Uuid) (next : UInt32)
  | delegated (challenge id : Uuid) (relay : List UInt8) (generation : ℤ)
  | rotated (challenge id : Uuid) (epoch : ℤ)
  | delegationRevoked (challenge id : Uuid) (relay : List UInt8) (generation : ℤ)
  | installationRevoked (challenge id : Uuid) (epoch : ℤ)
deriving DecidableEq, Repr

namespace Accepted

def installation : Accepted → Uuid
  | created _ id => id
  | counter id _ => id
  | delegated _ id _ _ => id
  | rotated _ id _ => id
  | delegationRevoked _ id _ _ => id
  | installationRevoked _ id _ => id

def challenge : Accepted → Option Uuid
  | created challenge _ => some challenge
  | counter _ _ => none
  | delegated challenge _ _ _ => some challenge
  | rotated challenge _ _ => some challenge
  | delegationRevoked challenge _ _ _ => some challenge
  | installationRevoked challenge _ _ => some challenge

def counterOf (id : Uuid) : Accepted → Option UInt32
  | counter id' next => if id' = id then some next else none
  | _ => none

def epochOf (id : Uuid) : Accepted → Option ℤ
  | created _ id' => if id' = id then some 1 else none
  | rotated _ id' epoch => if id' = id then some epoch else none
  | installationRevoked _ id' epoch => if id' = id then some epoch else none
  | _ => none

def generationOf (id : Uuid) (relay : List UInt8) : Accepted → Option ℤ
  | delegated _ id' relay' generation =>
    if id' = id ∧ relay' = relay then some generation else none
  | delegationRevoked _ id' relay' generation =>
    if id' = id ∧ relay' = relay then some generation else none
  | _ => none

end Accepted

/-- The gateway: its tables, the handlers under way, the random ids drawn and what the store has
accepted, newest first. -/
structure Server where
  tables : Tables
  handlers : Map ℕ Handler
  drawn : List Uuid
  log : List Accepted

/-- A step of the gateway. `proceed` is the next store call of a handler, with the counter that the
assertion verifies to, the random id that the handler draws and the server's time. -/
inductive GatewayOp
  | challenge (c : Challenge)
  | enroll (t : ℕ) (challengeId : Uuid) (challenge : Bytes32) (now : ℤ) (enrollment : Enrollment)
  | request (t : ℕ) (r : SignedRequest) (maxGrantLifetime : ℤ)
  | proceed (t : ℕ) (verified : UInt32) (fresh : Uuid) (dbNow : DateTime)
  | abort (t : ℕ)
  | reap (now : ℤ)
deriving DecidableEq, Repr

namespace Server

def enter (g : Server) (t : ℕ) (h : Handler) : Server :=
  { g with handlers := AList.insert t h g.handlers }

def leave (g : Server) (t : ℕ) : Server := { g with handlers := g.handlers.erase t }

def mutate (s : Tables) (r : SignedRequest) (fresh : Uuid) (dbNow : DateTime) :
    Except AuthorityError (Tables × Accepted) :=
  match r.mutation with
  | .delegate relayPubkey endpointEpoch generation notBefore expiresAt => do
    let relay ← okOr (hexDecode relayPubkey) .rejected
    let s ← s.upsertDelegation ⟨fresh, r.installationId, relayPubkey, endpointEpoch, generation,
      notBefore, expiresAt, false⟩
    return (s, .delegated r.challengeId r.installationId relay generation)
  | .rotate expected new ciphertext fingerprint => do
    let s ← s.rotateEndpoint r.installationId expected new ciphertext fingerprint
    return (s, .rotated r.challengeId r.installationId new)
  | .revokeDelegation relayPubkey generation => do
    let relay ← okOr (hexDecode relayPubkey) .rejected
    let s ← s.revokeDelegation dbNow r.installationId relayPubkey generation
    return (s, .delegationRevoked r.challengeId r.installationId relay generation)
  | .revokeInstallation expected new => do
    let s ← s.revokeInstallation dbNow r.installationId expected new
    return (s, .installationRevoked r.challengeId r.installationId new)

def proceed (g : Server) (t : ℕ) (verified : UInt32) (fresh : Uuid) (dbNow : DateTime) :
    Handler → Server
  | .enrolling challengeId challenge now enrollment =>
    match g.tables.consumeChallenge challengeId challenge now with
    | .error _ => g.leave t
    | .ok tables => enter { g with tables := tables } t (.creating challengeId enrollment)
  | .creating challengeId enrollment =>
    match g.tables.createInstallation (enrollment.installation fresh) with
    | .error _ => g.leave t
    | .ok tables =>
      leave { g with tables := tables, log := .created challengeId fresh :: g.log } t
  | .reading r =>
    match g.tables.installation r.installationId r.now with
    | .error _ => g.leave t
    | .ok i => g.enter t (.consuming r i.assertionCounter verified)
  | .consuming r previous next =>
    match g.tables.consumeChallenge r.challengeId r.challenge r.now with
    | .error _ => g.leave t
    | .ok tables => enter { g with tables := tables } t (.advancing r previous next)
  | .advancing r previous next =>
    match g.tables.advanceAssertionCounter r.installationId previous next with
    | .error _ => g.leave t
    | .ok tables =>
      enter { g with tables := tables, log := .counter r.installationId next :: g.log } t
        (.mutating r)
  | .mutating r =>
    match mutate g.tables r fresh dbNow with
    | .error _ => g.leave t
    | .ok (tables, accepted) => leave { g with tables := tables, log := accepted :: g.log } t

def step (g : Server) : GatewayOp → Server
  | .challenge c =>
    if c.id ∈ g.drawn then g
    else match g.tables.putChallenge c with
      | .error _ => g
      | .ok tables => { g with tables := tables, drawn := c.id :: g.drawn }
  | .enroll t challengeId challenge now enrollment =>
    if t ∈ g.handlers then g else g.enter t (.enrolling challengeId challenge now enrollment)
  | .request t r maxGrantLifetime =>
    if t ∈ g.handlers ∨ r.mutation.valid r.now maxGrantLifetime = false then g
    else g.enter t (.reading r)
  | .proceed t verified fresh dbNow =>
    match g.handlers.lookup t with
    | none => g
    | some h =>
      if fresh ∈ g.drawn then g
      else { g.proceed t verified fresh dbNow h with drawn := fresh :: g.drawn }
  | .abort t => g.leave t
  | .reap now =>
    match g.tables.reapExpired now with
    | .error _ => g
    | .ok tables => { g with tables := tables }

def empty : Server := ⟨Tables.empty, ∅, [], []⟩

end Server

end Buzz.Gateway
