import Buzz.Audio.Rooms
import Buzz.Relay.Directory

namespace Buzz.Audio

open Buzz.Lib Buzz.Nostr Buzz.Relay.Tunnel

inductive FenceRejection
  | staleGeneration
  | noActiveLease
  | ownerMismatch
  | futureGeneration
deriving DecidableEq, Repr

namespace FenceRejection

def fromMeshError : MeshError → Option FenceRejection
  | .staleGeneration .. => some staleGeneration
  | .noActiveLease .. => some noActiveLease
  | .ownerMismatch .. => some ownerMismatch
  | .futureGeneration .. => some futureGeneration
  | .transport _ => none

end FenceRejection

inductive RegisterRejection
  | roomFull
  | roomEnded
  | versionMismatch (pinned requested : UInt8)
  | fenced (reason : FenceRejection)
deriving DecidableEq

def admissionToRejection : AdmissionError → RegisterRejection
  | .full => .roomFull
  | .ended => .roomEnded
  | .versionMismatch pinned requested => .versionMismatch pinned requested

inductive HuddleControlMsg
  | registerPeer (communityId : CommunityId) (pubkey : String) (protocolVersion : UInt8)
  | peerRegistered (pubkey : String) (peerIndex : ℕ) (roster : RosterSnapshot)
  | rosterSnapshot (roster : RosterSnapshot)
  | rosterDelta (delta : RosterDelta)
  | rosterResync
  | registerRejected (pubkey : String) (reason : RegisterRejection)
  | unregisterPeer (pubkey : String)
deriving DecidableEq

inductive GoodbyeReason
  | sessionEnded
  | draining
  | staleGeneration
deriving DecidableEq, Repr

/-- How `serve_control_loop` fails. -/
inductive ControlError
  | ownerMismatch (sessionId : Uuid) (generation : UInt64)
      (frameOwnerRuntimeId currentOwnerRuntimeId : RuntimeId)
  | decode
  | unexpectedFrame
  | communityChanged (latched named : CommunityId)
  | ownerGotReply
  | directory (error : MeshError)
  | recv
  | send
deriving DecidableEq

/-- What `recv_frame` gives; the payload of a `Data` frame may not decode. -/
inductive Received
  | data (fenced : FencedHeader) (payload : Option HuddleControlMsg)
  | goodbye
  | closed
  | other
  | failed
deriving DecidableEq

/-- A receiver of the roster channel of a room, and how many deltas it has passed. -/
structure RosterRx where
  room : ℕ
  pos : ℕ
deriving DecidableEq

def ROSTER_CAPACITY : ℕ := 64

inductive RecvError
  | lagged
  | closed
deriving DecidableEq

namespace RosterRx

def subscribe (w : World) (room : ℕ) : RosterRx := ⟨room, (w.room room).rosterTx.length⟩

/-- `broadcast::Receiver::recv`: a receiver that is more than the capacity behind is moved to the
oldest delta that is kept. -/
def recv (rx : RosterRx) (w : World) : Option (Except RecvError RosterDelta × RosterRx) :=
  let tx := (w.room rx.room).rosterTx
  if ROSTER_CAPACITY < tx.length - rx.pos then
    some (.error .lagged, { rx with pos := tx.length - ROSTER_CAPACITY })
  else tx[rx.pos]?.map fun delta ↦ (.ok delta, { rx with pos := rx.pos + 1 })

end RosterRx

/-- Where `serve_control_loop` waits, or has paused between two accesses to the rooms. -/
inductive Phase
  | serving
  | validating (pubkey : String) (protocolVersion : UInt8) (rx : RosterRx)
  | admitted (pubkey : String) (peerIndex : ℕ) (rx : RosterRx)
  | replying (reply : HuddleControlMsg) (rx : RosterRx)
  | capturing
  | forwarding (msg : HuddleControlMsg)
  | closing (result : Except ControlError Unit)
  | returned (result : Except ControlError Unit)
deriving DecidableEq

/-- One `serve_control_loop` among the tasks that use the rooms of the pod, under the connection
number `conn`. `added` are the rooms and ids of the peers that it has admitted. -/
structure ControlLoop where
  world : World
  conn : ℕ
  fenced : FencedHeader
  localRuntimeId : RuntimeId
  registered : Map String Uuid
  streamCommunity : Option CommunityId
  rosterRx : Option RosterRx
  teardownReason : Option GoodbyeReason
  phase : Phase
  sent : List HuddleControlMsg
  farewell : Option GoodbyeReason
  added : List (ℕ × Uuid)

inductive ControlEvent
  | other (op : Op)
  | drained
  | lost
  | rosterRecv
  | rosterClosed
  | captured
  | received (frame : Received) (draining : Bool)
  | validated (answer : Except MeshError Unit) (peerId : Uuid)
  | sendDone (ok : Bool)
  | tornDown (goodbyeSent : Bool)

namespace Op

/-- The connection and the fresh id of an operation that has them. -/
def conn? : Op → Option ℕ
  | .getOrCreate conn _ | .addPeer conn .. | .addPeerAtIndex conn .. | .giveUp conn => some conn
  | _ => none

def peerId? : Op → Option Uuid
  | .addPeer _ _ _ peerId | .addPeerAtIndex _ _ _ _ peerId => some peerId
  | _ => none

end Op

namespace ControlLoop

def start (conn : ℕ) (fenced : FencedHeader) (localRuntimeId : RuntimeId) : ControlLoop where
  world := .start
  conn := conn
  fenced := fenced
  localRuntimeId := localRuntimeId
  registered := ∅
  streamCommunity := none
  rosterRx := none
  teardownReason := none
  phase := .serving
  sent := []
  farewell := none
  added := []

/-- `break`. -/
def close (s : ControlLoop) (result : Except ControlError Unit) : ControlLoop :=
  { s with phase := .closing result }

def teardown (s : ControlLoop) (reason : GoodbyeReason) : ControlLoop :=
  { s.close (.ok ()) with teardownReason := some reason }

def roomId (s : ControlLoop) : Option (Option ℕ) :=
  match s.streamCommunity with
  | none => some none
  | some communityId =>
    if s.world.removing (communityId, s.fenced.sessionId) = none then
      some (s.world.rooms (communityId, s.fenced.sessionId))
    else none

def rosterSnapshotMsg (s : ControlLoop) (id : ℕ) : HuddleControlMsg :=
  .rosterSnapshot (s.world.room id).rosterSnapshot

def onRosterEvent (s : ControlLoop) : Except RecvError RosterDelta → ControlLoop
  | .ok delta => { s with phase := .forwarding (.rosterDelta delta) }
  | .error .lagged => { s with phase := .capturing }
  | .error .closed => s.close (.ok ())

def onRegisterPeer (s : ControlLoop) (communityId : CommunityId) (pubkey : String)
    (protocolVersion : UInt8) (draining : Bool) : Option ControlLoop :=
  let latched := s.streamCommunity.getD communityId
  if latched ≠ communityId then
    some (s.close (.error (.communityChanged latched communityId)))
  else
    let s := { s with streamCommunity := some communityId }
    if draining then some (s.teardown .draining)
    else
      let key := (communityId, s.fenced.sessionId)
      (s.world.step (.getOrCreate s.conn key)).bind fun w ↦ (w.joining s.conn).map fun id ↦
        { s with
          world := w
          phase := .validating pubkey protocolVersion (.subscribe w id) }

def onUnregisterPeer (s : ControlLoop) (pubkey : String) : Option ControlLoop :=
  match s.registered.lookup pubkey with
  | none => some s
  | some peerId =>
    s.roomId.map fun room ↦
      let s := { s with registered := s.registered.erase pubkey }
      match room with
      | none => s
      | some id => { s with world := s.world.setRoom id ((s.world.room id).removePeer peerId) }

def onMessage (s : ControlLoop) (draining : Bool) : HuddleControlMsg → Option ControlLoop
  | .registerPeer communityId pubkey protocolVersion =>
    s.onRegisterPeer communityId pubkey protocolVersion draining
  | .unregisterPeer pubkey => s.onUnregisterPeer pubkey
  | .rosterResync => some { s with phase := .capturing }
  | .peerRegistered .. | .rosterSnapshot _ | .rosterDelta _ | .registerRejected .. =>
    some (s.close (.error .ownerGotReply))

def onReceived (s : ControlLoop) (draining : Bool) : Received → Option ControlLoop
  | .data fenced payload =>
    if fenced ≠ s.fenced then
      some (s.close (.error (.ownerMismatch s.fenced.sessionId fenced.generation
        fenced.ownerRuntimeId s.localRuntimeId)))
    else
      match payload with
      | none => some (s.close (.error .decode))
      | some msg => s.onMessage draining msg
  | .goodbye | .closed => some (s.close (.ok ()))
  | .other => some (s.close (.error .unexpectedFrame))
  | .failed => some (s.close (.error .recv))

def Fresh (s : ControlLoop) (peerId : Uuid) : Prop :=
  (∀ id ∈ List.range s.world.next, (s.world.room id).peers.lookup peerId = none) ∧
    ∀ a ∈ s.added, a.2 ≠ peerId

instance (s : ControlLoop) (peerId : Uuid) : Decidable (s.Fresh peerId) :=
  haveI : Decidable (∀ id ∈ List.range s.world.next,
      (s.world.room id).peers.lookup peerId = none) := List.decidableBAll _ _
  haveI : Decidable (∀ a ∈ s.added, a.2 ≠ peerId) := List.decidableBAll _ _
  inferInstanceAs (Decidable (_ ∧ _))

def registerRemotePeer (s : ControlLoop) (pubkey : String) (protocolVersion : UInt8)
    (rx : RosterRx) (peerId : Uuid) : ControlLoop :=
  match (s.world.room rx.room).addPeer pubkey protocolVersion peerId with
  | .ok (peerIndex, r) =>
    { s with
      world := (s.world.setRoom rx.room r).setJoining s.conn none
      registered := AList.insert pubkey peerId s.registered
      added := (rx.room, peerId) :: s.added
      phase := .admitted pubkey peerIndex rx }
  | .error e =>
    { s with
      world := s.world.setJoining s.conn none
      phase := .replying (.registerRejected pubkey (admissionToRejection e)) rx }

def onValidated (s : ControlLoop) (pubkey : String) (protocolVersion : UInt8) (rx : RosterRx)
    (peerId : Uuid) : Except MeshError Unit → ControlLoop
  | .ok () => s.registerRemotePeer pubkey protocolVersion rx peerId
  | .error e =>
    let s := { s with world := s.world.setJoining s.conn none }
    match FenceRejection.fromMeshError e with
    | some reason =>
      { s with phase := .replying (.registerRejected pubkey (.fenced reason)) rx }
    | none => s.close (.error (.directory e))

def onCaptured (s : ControlLoop) : Phase → Option ControlLoop
  | .admitted pubkey peerIndex rx =>
    let reply := .peerRegistered pubkey peerIndex (s.world.room rx.room).rosterSnapshot
    some { s with phase := .replying reply rx }
  | .capturing =>
    s.roomId.map fun room ↦
      match room with
      | none => s.close (.ok ())
      | some id => { s with phase := .forwarding (s.rosterSnapshotMsg id) }
  | _ => none

def onSendDone (s : ControlLoop) (ok : Bool) : Phase → Option ControlLoop
  | .replying reply rx =>
    if ok then
      some { s with
        sent := s.sent ++ [reply]
        rosterRx := match reply with
          | .peerRegistered .. => some rx
          | _ => s.rosterRx
        phase := .serving }
    else some (s.close (.error .send))
  | .forwarding msg =>
    if ok then some { s with sent := s.sent ++ [msg], phase := .serving }
    else some { s with phase := .returned (.error .send) }
  | _ => none

def onTornDown (s : ControlLoop) (goodbyeSent : Bool) (result : Except ControlError Unit) :
    Option ControlLoop :=
  s.roomId.map fun room ↦
    let s := { s with
      farewell := if goodbyeSent then s.teardownReason else none
      phase := .returned result }
    match room with
    | none => s
    | some id =>
      let peerIds := s.registered.entries.map Sigma.snd
      { s with world := s.world.setRoom id (peerIds.foldl Room.removePeer (s.world.room id)) }

def step (s : ControlLoop) : ControlEvent → Option ControlLoop
  | .other op =>
    if op.conn? ≠ some s.conn ∧ ∀ a ∈ s.added, op.peerId? ≠ some a.2 then
      (s.world.step op).map fun w ↦ { s with world := w }
    else none
  | .drained => if s.phase = .serving then some (s.teardown .draining) else none
  | .lost => if s.phase = .serving then some (s.teardown .staleGeneration) else none
  | .rosterRecv =>
    if s.phase = .serving then do
      let rx ← s.rosterRx
      let (event, rx) ← rx.recv s.world
      some ({ s with rosterRx := some rx }.onRosterEvent event)
    else none
  | .rosterClosed =>
    if s.phase = .serving ∧ s.rosterRx.isSome then some (s.onRosterEvent (.error .closed))
    else none
  | .captured => s.onCaptured s.phase
  | .received frame draining => if s.phase = .serving then s.onReceived draining frame else none
  | .validated answer peerId =>
    match s.phase with
    | .validating pubkey protocolVersion rx =>
      if s.Fresh peerId then some (s.onValidated pubkey protocolVersion rx peerId answer) else none
    | _ => none
  | .sendDone ok => s.onSendDone ok s.phase
  | .tornDown goodbyeSent =>
    match s.phase with
    | .closing result => s.onTornDown goodbyeSent result
    | _ => none

def run (s : ControlLoop) (events : List ControlEvent) : Option ControlLoop :=
  events.foldlM step s

end ControlLoop

end Buzz.Audio
