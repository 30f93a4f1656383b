import Buzz.Lib.Framing
import Buzz.Relay.Directory
import Mathlib.Logic.Function.Basic

namespace Buzz.Relay.Tunnel

open Buzz.Lib Buzz.Lib.Sha256 Buzz.Nostr

def maxReliablePayloadBytes : ℕ := 1024 * 1024

inductive GoodbyeReason
  | sessionEnded
  | draining
  | staleGeneration
deriving DecidableEq, Repr

/-- The variants of `ReliableStreamError` that sending and receiving frames return. -/
inductive ReliableFrameError
  | mesh (error : MeshError)
  | malformedReliableFrame (what : String)
  | frameFenceMismatch (expected actual : FencedHeader)
  | communityMismatch (expected actual : CommunityId)
  | unexpectedFrame (kind : String)
deriving DecidableEq, Repr

def uuidAsBytes (u : Uuid) : List UInt8 := bigEndian 16 u

def uuidFromBytes (bytes : List UInt8) : Uuid := Fin.ofNat _ (ofBytes bytes)

@[simp] theorem length_uuidAsBytes (u : Uuid) : (uuidAsBytes u).length = 16 := length_bigEndian _ _

@[simp] theorem uuidFromBytes_uuidAsBytes (u : Uuid) : uuidFromBytes (uuidAsBytes u) = u := by
  apply Fin.ext
  rw [uuidFromBytes, uuidAsBytes, ofBytes_bigEndian (by simp), Fin.val_ofNat]
  exact Nat.mod_eq_of_lt u.isLt

theorem uuidAsBytes_uuidFromBytes {bytes : List UInt8} (h : bytes.length = 16) :
    uuidAsBytes (uuidFromBytes bytes) = bytes := by
  have hlt : ofBytes bytes < 2 ^ 128 := by simpa [h] using ofBytes_lt bytes
  rw [uuidAsBytes, uuidFromBytes, Fin.val_ofNat, Nat.mod_eq_of_lt hlt, ← h, bigEndian_ofBytes]

namespace GoodbyeReason

def toWireByte : GoodbyeReason → UInt8
  | sessionEnded => 1
  | draining => 2
  | staleGeneration => 3

def fromWireByte (byte : UInt8) : Except ReliableFrameError GoodbyeReason :=
  if byte = 1 then .ok sessionEnded
  else if byte = 2 then .ok draining
  else if byte = 3 then .ok staleGeneration
  else .error (.malformedReliableFrame "unknown goodbye reason")

theorem fromWireByte_eq_ok {byte : UInt8} {reason : GoodbyeReason} :
    fromWireByte byte = .ok reason ↔ byte = reason.toWireByte := by
  simp only [fromWireByte]
  split
  · next h => cases reason <;> simp [h, toWireByte]
  split
  · next h => cases reason <;> simp [h, toWireByte]
  split
  · next h => cases reason <;> simp [h, toWireByte]
  · cases reason <;> simp_all [toWireByte]

end GoodbyeReason

inductive ReliableWireFrame
  | data (communityId : CommunityId) (payload : List UInt8)
  | goodbye (communityId : CommunityId) (reason : GoodbyeReason)
deriving DecidableEq, Repr

namespace ReliableWireFrame

def wireVersion : UInt8 := 1
def dataKind : UInt8 := 1
def goodbyeKind : UInt8 := 2

def communityId : ReliableWireFrame → CommunityId
  | data communityId _ => communityId
  | goodbye communityId _ => communityId

def encode : ReliableWireFrame → List UInt8
  | data communityId payload => wireVersion :: dataKind :: (uuidAsBytes communityId ++ payload)
  | goodbye communityId reason =>
    wireVersion :: goodbyeKind :: (uuidAsBytes communityId ++ [reason.toWireByte])

def decode (bytes : List UInt8) : Except ReliableFrameError ReliableWireFrame :=
  if bytes.length < 18 then .error (.malformedReliableFrame "too short")
  else if bytes.getD 0 0 ≠ wireVersion then .error (.malformedReliableFrame "unknown version")
  else
    let communityId := uuidFromBytes ((bytes.drop 2).take 16)
    if bytes.getD 1 0 = dataKind then .ok (.data communityId (bytes.drop 18))
    else if bytes.getD 1 0 = goodbyeKind then
      if bytes.length ≠ 19 then .error (.malformedReliableFrame "bad goodbye length")
      else (GoodbyeReason.fromWireByte (bytes.getD 18 0)).map (.goodbye communityId)
    else .error (.malformedReliableFrame "unknown kind")

section RoundTrip

variable {bytes : List UInt8}

/-- What `decode` sees of a frame whose first two bytes and community are given. -/
theorem decode_cons (kind : UInt8) (communityId : CommunityId) (rest : List UInt8) :
    decode (wireVersion :: kind :: (uuidAsBytes communityId ++ rest)) =
      if kind = dataKind then .ok (.data communityId rest)
      else if kind = goodbyeKind then
        if rest.length ≠ 1 then .error (.malformedReliableFrame "bad goodbye length")
        else (GoodbyeReason.fromWireByte (rest.getD 0 0)).map (.goodbye communityId)
      else .error (.malformedReliableFrame "unknown kind") := by
  have hlength : ¬(16 + rest.length + 1 + 1 < 18) := by omega
  have hgoodbye : 16 + rest.length + 1 + 1 = 19 ↔ rest.length = 1 := by omega
  have hlast : (uuidAsBytes communityId ++ rest)[16]?.getD 0 = rest[0]?.getD 0 := by
    rw [List.getElem?_append_right (by simp), length_uuidAsBytes]
  have hpayload : (uuidAsBytes communityId ++ rest).drop 16 = rest := by
    rw [List.drop_append_of_le_length (by simp), List.drop_of_length_le (by simp), List.nil_append]
  have hcommunity : (uuidAsBytes communityId ++ rest).take 16 = uuidAsBytes communityId := by
    rw [List.take_append_of_le_length (by simp), List.take_of_length_le (by simp)]
  simp [decode, hlength, hgoodbye, hlast, hpayload, hcommunity]

theorem decode_encode (frame : ReliableWireFrame) : decode frame.encode = .ok frame := by
  cases frame with
  | data communityId payload => simp [encode, decode_cons]
  | goodbye communityId reason =>
    have hreason := GoodbyeReason.fromWireByte_eq_ok.mpr (Eq.refl reason.toWireByte)
    simp [encode, decode_cons, goodbyeKind, dataKind, hreason, Except.map]

theorem eq_cons_of_length (h : 18 ≤ bytes.length) :
    ∃ version kind communityId, ∃ rest : List UInt8,
      bytes = version :: kind :: (uuidAsBytes communityId ++ rest) := by
  obtain _ | ⟨version, _ | ⟨kind, bytes⟩⟩ := bytes
  · simp at h
  · simp at h
  · simp only [List.length_cons] at h
    refine ⟨version, kind, uuidFromBytes (bytes.take 16), bytes.drop 16, ?_⟩
    rw [uuidAsBytes_uuidFromBytes (by simp; omega), List.take_append_drop]

/-- Nothing but the encoding of a frame is accepted as that frame. -/
theorem encode_of_decode {frame : ReliableWireFrame} (h : decode bytes = .ok frame) :
    frame.encode = bytes := by
  have hlength : 18 ≤ bytes.length := by
    by_contra hshort
    rw [decode, if_pos (by omega)] at h
    cases h
  obtain ⟨version, kind, communityId, rest, rfl⟩ := eq_cons_of_length hlength
  have hversion : version = wireVersion := by
    by_contra hversion
    rw [decode, if_neg (by omega), List.getD_cons_zero, if_pos hversion] at h
    cases h
  subst hversion
  rw [decode_cons] at h
  split at h
  · next hkind =>
    cases h
    rw [encode, hkind]
  split at h
  · next hkind =>
    split at h
    · cases h
    next hrest =>
    obtain ⟨byte, rfl⟩ := List.length_eq_one_iff.mp (not_not.mp hrest)
    cases hreason : GoodbyeReason.fromWireByte byte with
    | error e => simp [hreason, Except.map] at h
    | ok reason =>
      simp only [List.getD_cons_zero, hreason, Except.map] at h
      cases h
      rw [encode, hkind, GoodbyeReason.fromWireByte_eq_ok.mp hreason]
  · cases h

end RoundTrip

end ReliableWireFrame

inductive MeshStreamFrame
  | hello (hello : StreamHello)
  | data (fenced : FencedHeader) (payload : List UInt8)
  | goodbye (fenced : FencedHeader) (reason : GoodbyeReason)
  | gossip (payload : List UInt8)
deriving DecidableEq, Repr

inductive ReliableFrame
  | data (payload : List UInt8)
  | goodbye (reason : GoodbyeReason)
deriving DecidableEq, Repr

structure ReliableMeshStream where
  fenced : FencedHeader
  communityId : Option CommunityId
deriving DecidableEq, Repr

namespace ReliableMeshStream

variable (s : ReliableMeshStream)

def ensureOutboundCommunity (communityId : CommunityId) :
    Except ReliableFrameError ReliableMeshStream :=
  match s.communityId with
  | some expected =>
    if expected ≠ communityId then .error (.communityMismatch expected communityId) else .ok s
  | none => .ok { s with communityId := some communityId }

/-- The frames the transport took before its first refusal; `answers` is what it says to each. -/
def sendFrames (answers : ℕ → Except MeshError Unit) :
    ℕ → List MeshStreamFrame → List MeshStreamFrame × Except ReliableFrameError Unit
  | _, [] => ([], .ok ())
  | i, frame :: frames =>
    match answers i with
    | .error e => ([], .error (.mesh e))
    | .ok () =>
      let (taken, result) := sendFrames answers (i + 1) frames
      (frame :: taken, result)

def dataFrame (communityId : CommunityId) (chunk : List UInt8) : MeshStreamFrame :=
  .data s.fenced (ReliableWireFrame.data communityId chunk).encode

def sendBytes (answers : ℕ → Except MeshError Unit) (communityId : CommunityId)
    (bytes : List UInt8) :
    ReliableMeshStream × List MeshStreamFrame × Except ReliableFrameError Unit :=
  match s.ensureOutboundCommunity communityId with
  | .error e => (s, [], .error e)
  | .ok s' =>
    (s', sendFrames answers 0
      ((chunks maxReliablePayloadBytes bytes).map (s'.dataFrame communityId)))

def sendGoodbye (answers : ℕ → Except MeshError Unit) (communityId : CommunityId)
    (reason : GoodbyeReason) :
    ReliableMeshStream × List MeshStreamFrame × Except ReliableFrameError Unit :=
  match s.ensureOutboundCommunity communityId with
  | .error e => (s, [], .error e)
  | .ok s' =>
    (s', sendFrames answers 0
      [.data s'.fenced (ReliableWireFrame.goodbye communityId reason).encode])

def validateFrameFence (r : Redis) (communityId : CommunityId) (fenced : FencedHeader) :
    Except ReliableFrameError ReliableMeshStream :=
  if fenced ≠ s.fenced then .error (.frameFenceMismatch s.fenced fenced)
  else
    match s.communityId with
    | some expected =>
      if expected ≠ communityId then .error (.communityMismatch expected communityId)
      else
        match validateFencedHeader r communityId fenced with
        | .error e => .error (.mesh e)
        | .ok () => .ok s
    | none =>
      match validateFencedHeader r communityId fenced with
      | .error e => .error (.mesh e)
      | .ok () => .ok { s with communityId := some communityId }

def recvValidated (r : Redis) :
    MeshStreamFrame → Except ReliableFrameError (ReliableMeshStream × ReliableFrame)
  | .data fenced payload =>
    match ReliableWireFrame.decode payload with
    | .error e => .error e
    | .ok frame =>
      match s.validateFrameFence r frame.communityId fenced with
      | .error e => .error e
      | .ok s' =>
        match frame with
        | .data _ payload => .ok (s', .data payload)
        | .goodbye _ reason => .ok (s', .goodbye reason)
  | .goodbye _ _ => .error (.unexpectedFrame "goodbye")
  | .hello _ => .error (.unexpectedFrame "hello")
  | .gossip _ => .error (.unexpectedFrame "gossip")

end ReliableMeshStream

end Buzz.Relay.Tunnel
