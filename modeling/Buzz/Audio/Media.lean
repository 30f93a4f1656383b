import Buzz.Audio.Rooms
import Buzz.Relay.Directory

namespace Buzz.Audio

open Buzz.Lib Buzz.Nostr Buzz.Relay.Tunnel

abbrev Frame := List UInt8

/-- A frame behind the index of its author. -/
abbrev Prefixed := List UInt8

structure MeshDatagram where
  fenced : FencedHeader
  seq : UInt64
  payload : Prefixed
deriving DecidableEq

/-- What `audio_tx.try_send` puts into the channels of peers. -/
abbrev Puts := List (Uuid × Prefixed)

namespace Room

def broadcastFrame (r : Room) (senderId : Uuid) (frame : Frame) : Puts :=
  match r.peers.lookup senderId with
  | some sender =>
    (r.peers.entries.filter fun e ↦ e.1 ≠ senderId).map fun e ↦
      (e.1, UInt8.ofNat sender.peerIndex :: frame)
  | none => []

def deliverPrefixed (r : Room) (authorIndex : UInt8) (prefixed : Prefixed) : Puts :=
  (r.peers.entries.filter fun e ↦ e.2.peerIndex ≠ authorIndex.toNat).map fun e ↦ (e.1, prefixed)

end Room

abbrev GenerationFloor := Map Uuid UInt64

inductive FenceVerdict
  | accept (advanced : Bool)
  | rejectStale (known : UInt64)
deriving DecidableEq

def GenerationFloor.check (seen : GenerationFloor) (sessionId : Uuid) (generation : UInt64) :
    FenceVerdict × GenerationFloor :=
  match seen.lookup sessionId with
  | some known =>
    if generation < known then (.rejectStale known, seen)
    else if known < generation then (.accept true, AList.insert sessionId generation seen)
    else (.accept false, seen)
  | none => (.accept false, AList.insert sessionId generation seen)

abbrev Manager := Map RoomKey Room

namespace Manager

def getOrCreate (rooms : Manager) (key : RoomKey) : Room :=
  (rooms.lookup key).getD (.new key.1 key.2)

def getUnambiguousByChannel (rooms : Manager) (channelId : Uuid) : Option Room :=
  match rooms.entries.filter fun e ↦ e.1.2 = channelId with
  | [e] => some e.2
  | _ => none

def onMediaDatagram (rooms : Manager) (seen : GenerationFloor) (dgram : MeshDatagram) :
    Puts × GenerationFloor :=
  match seen.check dgram.fenced.sessionId dgram.fenced.generation with
  | (.rejectStale _, seen) => ([], seen)
  | (.accept _, seen) =>
    match rooms.getUnambiguousByChannel dgram.fenced.sessionId with
    | none => ([], seen)
    | some room =>
      match dgram.payload with
      | [] => ([], seen)
      | authorIndex :: rest => (room.deliverPrefixed authorIndex (authorIndex :: rest), seen)

end Manager

def mediaDatagram (peerIndex : UInt8) (fenced : FencedHeader) (seq : UInt64)
    (clientFrame : Frame) : MeshDatagram :=
  ⟨fenced, seq, peerIndex :: clientFrame⟩

/-- A client: its pod, its peer in the room of its pod and its peer in the room of the owner. -/
structure Participant where
  pubkey : String
  index : UInt8
  host : RuntimeId
  localId : Uuid
  ownerId : Uuid
deriving DecidableEq

namespace Participant

def seatAt (peerId : Participant → Uuid) (z : Participant) : Sigma fun _ : Uuid ↦ AudioPeer :=
  ⟨peerId z, ⟨z.pubkey, z.index.toNat⟩⟩

def channel (z : Participant) : RuntimeId × Uuid := (z.host, z.localId)

end Participant

def Manager.seats (rooms : Manager) (key : RoomKey) : List (Sigma fun _ : Uuid ↦ AudioPeer) :=
  ((rooms.lookup key).map fun r ↦ r.peers.entries).getD []

/-- One huddle with its registrations done: the room of the owner seats every participant, the room
of another pod the clients of that pod, under the same index. -/
structure Huddle where
  owner : RuntimeId
  key : RoomKey
  fenced : FencedHeader
  rooms : RuntimeId → Manager
  floor : RuntimeId → GenerationFloor
  participants : List Participant
  session : fenced.sessionId = key.2
  live : ∀ q known, (floor q).lookup key.2 = some known → known ≤ fenced.generation
  seats_owner : ((rooms owner).seats key).Perm (participants.map (Participant.seatAt (·.ownerId)))
  seats_host : ∀ q, q ≠ owner → ((rooms q).seats key).Perm
    ((participants.filter fun z ↦ z.host = q).map (Participant.seatAt (·.localId)))
  local_id : ∀ z ∈ participants, z.host = owner → z.localId = z.ownerId
  sound : ∀ q r, (rooms q).lookup key = some r → r.Sound
  free_lt : ∀ q r, (rooms q).lookup key = some r → ∀ i ∈ r.guard.free, i < 256

namespace Huddle

variable (h : Huddle)

abbrev Remote := {q : RuntimeId // q ≠ h.owner}

/-- The task that drains the channel of a peer of the owner's room ships to this pod. -/
def sink (peerId : Uuid) : Option h.Remote :=
  (h.participants.find? fun z ↦ z.ownerId = peerId).bind fun z ↦
    if hz : z.host ≠ h.owner then some ⟨z.host, hz⟩ else none

end Huddle

/-- `heard` is what was put into the channels of clients; `queued` waits in the channel of a remote
peer for its sink. -/
structure Traffic (h : Huddle) where
  heard : List ((RuntimeId × Uuid) × Prefixed)
  queued : List ((Uuid × h.Remote) × Prefixed)
  inFlight : List (RuntimeId × MeshDatagram)
  sessionSeq : Uuid → UInt64
  sinkSeq : Uuid → UInt64
  floor : RuntimeId → GenerationFloor

/-- A participant sends a frame, a sink task ships what is next, a datagram arrives. -/
inductive MediaOp
  | speak (z : Participant) (frame : Frame)
  | ship (peerId : Uuid)
  | arrive (i : ℕ)

namespace Traffic

variable {h : Huddle}

def start (h : Huddle) : Traffic h where
  heard := []
  queued := []
  inFlight := []
  sessionSeq _ := 0
  sinkSeq _ := 0
  floor := h.floor

def routeOwner (t : Traffic h) (puts : Puts) : Traffic h :=
  { t with
    heard := t.heard ++ puts.filterMap fun put ↦
      if (h.sink put.1).isNone then some ((h.owner, put.1), put.2) else none
    queued := t.queued ++ puts.filterMap fun put ↦
      (h.sink put.1).map fun pod ↦ ((put.1, pod), put.2) }

def route (t : Traffic h) (q : RuntimeId) (puts : Puts) : Traffic h :=
  if q = h.owner then t.routeOwner puts
  else { t with heard := t.heard ++ puts.map fun put ↦ ((q, put.1), put.2) }

def forwardMedia (t : Traffic h) (z : Participant) (clientFrame : Frame) : Traffic h :=
  { t with
    inFlight := t.inFlight ++
      [(h.owner, mediaDatagram z.index h.fenced (t.sessionSeq z.ownerId) clientFrame)]
    sessionSeq := Function.update t.sessionSeq z.ownerId (t.sessionSeq z.ownerId + 1) }

/-- One turn of the task of `spawn_remote_peer_sink`. -/
def shipNext (t : Traffic h) (next : (Uuid × h.Remote) × Prefixed) : Traffic h :=
  { t with
    queued := t.queued.eraseP fun e ↦ e.1.1 = next.1.1
    inFlight := t.inFlight ++
      [(next.1.2.val, ⟨h.fenced, t.sinkSeq next.1.1, next.2⟩)]
    sinkSeq := Function.update t.sinkSeq next.1.1 (t.sinkSeq next.1.1 + 1) }

def land (t : Traffic h) (q : RuntimeId) (dgram : MeshDatagram) : Traffic h :=
  let (puts, seen) := (h.rooms q).onMediaDatagram (t.floor q) dgram
  { t with floor := Function.update t.floor q seen }.route q puts

def step (t : Traffic h) : MediaOp → Option (Traffic h)
  | .speak z frame =>
    if z ∈ h.participants then
      if z.host = h.owner then
        ((h.rooms h.owner).lookup h.key).map fun r ↦
          t.routeOwner (r.broadcastFrame z.ownerId frame)
      else some (t.forwardMedia z frame)
    else none
  | .ship peerId => (t.queued.find? fun e ↦ e.1.1 = peerId).map t.shipNext
  | .arrive i => t.inFlight[i]?.map fun e ↦
      { t with inFlight := t.inFlight.eraseIdx i }.land e.1 e.2

def run (t : Traffic h) (ops : List MediaOp) : Option (Traffic h) := ops.foldlM step t

/-- Nothing is under way. -/
def Quiet (t : Traffic h) : Prop := t.queued = [] ∧ t.inFlight = []

end Traffic

namespace Huddle

/-- How often `z` sends `frame` in a run. -/
def spoken (z : Participant) (frame : Frame) (ops : List MediaOp) : ℕ :=
  ops.countP fun op ↦
    match op with
    | .speak x f => decide (x = z ∧ f = frame)
    | _ => false

/-- Once nothing is under way, every other client has got each frame of `x` as often as `x` has
sent it, and `x` itself never. -/
def HeardOnce (h : Huddle) (x : Participant) : Prop :=
  ∀ ops t, (Traffic.start h).run ops = some t → t.Quiet → ∀ frame,
    (∀ y ∈ h.participants, y ≠ x →
      t.heard.count (y.channel, x.index :: frame) = spoken x frame ops) ∧
    t.heard.count (x.channel, x.index :: frame) = 0

def Unambiguous (h : Huddle) (q : RuntimeId) : Prop :=
  ((h.rooms q).getUnambiguousByChannel h.key.2).isSome = true

/-- No pod but the owner's has two clients other than `x`, and every pod that a datagram has to
cross finds the room. -/
structure Separate (h : Huddle) (x : Participant) : Prop where
  single : ∀ y ∈ h.participants, ∀ z ∈ h.participants, y ≠ x → z ≠ x → y.host = z.host →
    y.host ≠ h.owner → y = z
  finds : ∀ y ∈ h.participants, y ≠ x → y.host ≠ h.owner → h.Unambiguous y.host
  finds_owner : ∀ y ∈ h.participants, y ≠ x → x.host ≠ h.owner → h.Unambiguous h.owner

end Huddle

end Buzz.Audio
