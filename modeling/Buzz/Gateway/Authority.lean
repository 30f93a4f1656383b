import Buzz.Nostr.Event
import Buzz.Lib.Collections

namespace Buzz.Gateway

open Buzz.Lib Buzz.Lib.Hex Buzz.Nostr

abbrev Bytes32 := {bytes : List UInt8 // bytes.length = 32}

theorem length_replicate32 (b : UInt8) : (List.replicate 32 b).length = 32 := List.length_replicate

inductive AppProfile
  | buzzIosProduction
  | buzzIosSandbox
deriving DecidableEq, Repr

def AppProfile.asStr : AppProfile → String
  | buzzIosProduction => "buzz-ios-production"
  | buzzIosSandbox => "buzz-ios-sandbox"

structure Challenge where
  id : Uuid
  value : Bytes32
  expiresAt : ℤ
deriving DecidableEq, Repr

structure NewInstallation where
  id : Uuid
  appAttestKeyId : List UInt8
  appAttestPublicKey : List UInt8
  assertionCounter : UInt32
  profile : AppProfile
  tokenCiphertext : List UInt8
  tokenFingerprint : Bytes32
  endpointEpoch : ℤ
  expiresAt : ℤ
deriving DecidableEq, Repr

structure Installation where
  id : Uuid
  appAttestKeyId : List UInt8
  appAttestPublicKey : List UInt8
  assertionCounter : UInt32
  profile : AppProfile
  tokenCiphertext : List UInt8
  tokenFingerprint : Bytes32
  endpointEpoch : ℤ
  expiresAt : ℤ
  revoked : Bool
deriving DecidableEq, Repr

structure Delegation where
  id : Uuid
  installationId : Uuid
  relayPubkey : String
  endpointEpoch : ℤ
  generation : ℤ
  notBefore : ℤ
  expiresAt : ℤ
  revoked : Bool
deriving DecidableEq, Repr

structure DeliveryAuthority where
  delegationId : Uuid
  installationId : Uuid
  relayPubkey : String
  profile : AppProfile
  tokenCiphertext : List UInt8
  endpointEpoch : ℤ
  generation : ℤ
  expiresAt : ℤ
deriving DecidableEq, Repr

structure DeliveryPermit where
  authority : DeliveryAuthority
  relayPubkey : String
  requestId : Uuid
deriving DecidableEq, Repr

inductive DeliveryDisposition
  | terminal
  | retryable
deriving DecidableEq, Repr

inductive AuthorityError
  | rejected
  | unavailable
deriving DecidableEq, Repr

structure Delivery where
  delegationId : Uuid
  relay : String
  epoch : ℤ
  generation : ℤ
  eventId : String
  requestId : Uuid
  requestExpiresAt : ℤ
  quotaWindowSeconds : ℤ
  quotaMaxDeliveries : ℤ
  now : ℤ
deriving DecidableEq, Repr

/-- The mutating and reading methods of `AuthorityStore` that take part in a request. -/
inductive Call
  | putChallenge (challenge : Challenge)
  | consumeChallenge (id : Uuid) (value : Bytes32) (now : ℤ)
  | createInstallation (installation : NewInstallation)
  | installation (id : Uuid) (now : ℤ)
  | advanceAssertionCounter (id : Uuid) (previous next : UInt32)
  | upsertDelegation (delegation : Delegation)
  | rotateEndpoint (id : Uuid) (expected new : ℤ) (ciphertext : List UInt8) (fingerprint : Bytes32)
  | revokeDelegation (id : Uuid) (relay : String) (generation : ℤ)
  | revokeInstallation (id : Uuid) (expected new : ℤ)
  | authorizeDelivery (delivery : Delivery)
  | finishDelivery (permit : DeliveryPermit) (disposition : DeliveryDisposition)
deriving DecidableEq, Repr

inductive Answer
  | done
  | installation (installation : Installation)
  | permit (permit : DeliveryPermit)
deriving DecidableEq, Repr

def i64Max : ℤ := 2 ^ 63 - 1

def i64Min : ℤ := -2 ^ 63

def saturatingSub (a b : ℤ) : ℤ := max i64Min (min i64Max (a - b))

def checkedAdd (a b : ℤ) :
    Option ℤ := if i64Min ≤ a + b ∧ a + b ≤ i64Max then some (a + b) else none

def IsNextEpoch (expected new : ℤ) : Prop := checkedAdd expected 1 = some new

instance (expected new : ℤ) : Decidable (IsNextEpoch expected new) :=
  inferInstanceAs (Decidable (_ = _))

/-- Also the form of the event id that a delivery carries. -/
def validRelayPubkey (v : String) : Bool := v.toList.length = 64 && v.toList.all isLowerHexDigit

def hexDecode (v : String) : Option (List UInt8) := decodeBytes v.toList

theorem hexDecode_of_validRelayPubkey {v : String} (h : validRelayPubkey v = true) :
    ∃ bytes, hexDecode v = some bytes ∧ bytes.length = 32 := by
  simp only [validRelayPubkey, Bool.and_eq_true, decide_eq_true_eq, List.all_eq_true] at h
  obtain ⟨bytes, hbytes, hlen⟩ := decodeBytes_of_isLowerHexDigit (by omega) h.2
  exact ⟨bytes, hbytes, by omega⟩

theorem hexDecode_injective {v w : String} {bytes : List UInt8} (hv : validRelayPubkey v = true)
    (hw : validRelayPubkey w = true) (h : hexDecode v = some bytes) (h' : hexDecode w = some bytes) :
    v = w := by
  simp only [validRelayPubkey, Bool.and_eq_true, List.all_eq_true] at hv hw
  exact String.toList_injective
    (decodeBytes_injective_of_isLowerHexDigit hv.2 hw.2 h h')

theorem isNextEpoch_iff {expected new : ℤ} :
    IsNextEpoch expected new ↔ new = expected + 1 ∧ i64Min ≤ new ∧ new ≤ i64Max := by
  rw [IsNextEpoch, checkedAdd]
  split
  · next h =>
    constructor
    · intro heq
      cases heq
      exact ⟨rfl, h⟩
    · rintro ⟨rfl, -⟩
      rfl
  · next h =>
    constructor
    · nofun
    · rintro ⟨rfl, hrange⟩
      exact (h hrange).elim

end Buzz.Gateway
