import Buzz.Push.Fenced

namespace Buzz.Push

open Buzz.Lib Buzz.Nostr Buzz.Db

def claimSecs : ℤ := 30

def maxAttempts : ℕ := 8

def second : ℤ := 1000000

/-- The body of a gateway's answer, where it parses. -/
inductive DeliveryResponse
  | accepted
  | invalidEndpoint (generation : ℤ) (invalidAt : Option ℤ)
  | retry (retryAfterSeconds : Option ℤ)
deriving DecidableEq, Repr

/-- What a request to the gateway ends with. -/
inductive SendResult
  | response (status : ℕ) (body : Option DeliveryResponse)
  | timeout
  | connect
  | otherError
deriving DecidableEq, Repr

inductive Settlement
  | complete
  | retry (seconds : ℤ)
  | fail
deriving DecidableEq, Repr

def retryOrFail (attempt : ℕ) (delay : ℤ) : Settlement :=
  if maxAttempts ≤ attempt then .fail else .retry (delay * 2 ^ min (attempt - 1) 6)

namespace SendResult

def isSuccess (status : ℕ) : Bool := 200 ≤ status && status < 300

def settlement (attempt : ℕ) : SendResult → Settlement
  | .response status body =>
    if isSuccess status then if body = some .accepted then .complete else .fail
    else if status = 410 then .fail
    else if status = 503 then
      match body with
      | some (.retry (some seconds)) => retryOrFail attempt (if 0 < seconds then seconds else 2)
      | _ => retryOrFail attempt 2
    else if status = 429 then retryOrFail attempt 2
    else if status = 404 ∧ 1 < attempt then .complete
    else .fail
  | .timeout => retryOrFail attempt 2
  | .connect => retryOrFail attempt 2
  | .otherError => .fail

def goneGeneration : SendResult → Option ℤ
  | .response 410 (some (.invalidEndpoint generation _)) => some generation
  | _ => none

end SendResult

/-- Why a worker settles a wake, before it does. -/
inductive Reason
  | suppressed
  | notMember
  | membershipError
  | answered (result : SendResult)
deriving DecidableEq, Repr

def Reason.settlement (attempt : ℕ) : Reason → Settlement
  | .suppressed => .fail
  | .notMember => .fail
  | .membershipError => .retry 2
  | .answered result => result.settlement attempt

/-- Where a delivery worker is: at the start of `deliver_one` for the first of its batch, or further in
it with the rest of the batch waiting. -/
inductive Phase
  | batch (wakes : List ClaimedWake)
  | member (wake : ClaimedWake) (rest : List ClaimedWake)
  | recheck (wake : ClaimedWake) (rest : List ClaimedWake)
  | send (wake : ClaimedWake) (rest : List ClaimedWake)
  | disable (wake : ClaimedWake) (generation : ℤ) (result : SendResult) (rest : List ClaimedWake)
  | settle (wake : ClaimedWake) (reason : Reason) (rest : List ClaimedWake)
deriving DecidableEq

/-- The wake pipeline with its delivery workers and the members of the channels. -/
structure Deliveries where
  world : World
  members : List (Uuid × PublicKey)
  phase : ℕ → Phase

/-- A step of one worker, or of what runs beside them. A statement may fail, with `ok` false; `relayNow`
is the clock of the worker's relay. -/
inductive DeliveryOp
  | pipeline (op : Op)
  | addMember (channel : Uuid) (author : PublicKey)
  | removeMember (channel : Uuid) (author : PublicKey)
  | claim (worker : ℕ) (claimId : Uuid) (relayNow now : Timestamptz) (locked : List Uuid)
  | revalidate (worker : ℕ) (now : Timestamptz) (ok : Bool)
  | checkMember (worker : ℕ) (ok : Bool)
  | post (worker : ℕ) (result : Option SendResult)
  | disable (worker : ℕ) (ok : Bool)
  | settle (worker : ℕ) (relayNow : Timestamptz) (ok : Bool)
  | crash (worker : ℕ)

def Op.isDelivery : Op → Bool
  | .claimWakes .. => true
  | .completeWake .. => true
  | .retryWake .. => true
  | .failWake .. => true
  | _ => false

namespace Deliveries

def setPhase (d : Deliveries) (worker : ℕ) (phase : Phase) : Deliveries :=
  { d with phase := Function.update d.phase worker phase }

def claim (d : Deliveries) (worker : ℕ) (claimId : Uuid) (relayNow now : Timestamptz)
    (locked : List Uuid) : Deliveries :=
  let leaseUntil := relayNow + claimSecs * second
  let op : Op := .claimWakes 16 claimId leaseUntil now locked
  if d.phase worker = .batch [] ∧ d.world.Allowed op then
    let wakes := (d.world.tables.claimDueWakes 16 claimId leaseUntil now locked).1
    setPhase { d with world := d.world.step op } worker (.batch wakes)
  else d

/-- The revalidation at the start of `deliver_one`, and the one before the request is sent. -/
def revalidate (d : Deliveries) (worker : ℕ) (now : Timestamptz) (ok : Bool) : Deliveries :=
  match d.phase worker with
  | .batch (claimed :: rest) =>
    if ok then
      match d.world.tables.revalidateWakeForSend claimed.id claimed.claimId now with
      | .deliver wake =>
        d.setPhase worker (if wake.channelId.isSome then .member wake rest else .recheck wake rest)
      | .suppressed => d.setPhase worker (.settle claimed .suppressed rest)
    else d.setPhase worker (.batch rest)
  | .recheck claimed rest =>
    if ok then
      match d.world.tables.revalidateWakeForSend claimed.id claimed.claimId now with
      | .deliver wake => d.setPhase worker (.send wake rest)
      | .suppressed => d.setPhase worker (.settle claimed .suppressed rest)
    else d.setPhase worker (.batch rest)
  | _ => d

def isMember (d : Deliveries) (wake : ClaimedWake) : Bool :=
  wake.channelId.any fun channel ↦ (channel, wake.address.1) ∈ d.members

def checkMember (d : Deliveries) (worker : ℕ) (ok : Bool) : Deliveries :=
  match d.phase worker with
  | .member wake rest =>
    if ok then
      if d.isMember wake then d.setPhase worker (.recheck wake rest)
      else d.setPhase worker (.settle wake .notMember rest)
    else d.setPhase worker (.settle wake .membershipError rest)
  | _ => d

/-- The request to the gateway; `none` is a return before it, without a gateway or a signature. -/
def post (d : Deliveries) (worker : ℕ) (result : Option SendResult) : Deliveries :=
  match d.phase worker, result with
  | .send _ rest, none => d.setPhase worker (.batch rest)
  | .send wake rest, some result =>
    match result.goneGeneration with
    | some generation =>
      if generation = wake.leaseGeneration then
        d.setPhase worker (.disable wake generation result rest)
      else d.setPhase worker (.settle wake (.answered result) rest)
    | none => d.setPhase worker (.settle wake (.answered result) rest)
  | _, _ => d

def disable (d : Deliveries) (worker : ℕ) (ok : Bool) : Deliveries :=
  match d.phase worker with
  | .disable wake generation result rest =>
    let world := if ok then d.world.step (.disableEndpoint wake.address generation) else d.world
    setPhase { d with world := world } worker (.settle wake (.answered result) rest)
  | _ => d

def settleOp (wake : ClaimedWake) (relayNow : Timestamptz) : Settlement → Op
  | .complete => .completeWake wake.id wake.claimId
  | .retry seconds => .retryWake wake.id wake.claimId (relayNow + seconds * second)
  | .fail => .failWake wake.id wake.claimId

def settle (d : Deliveries) (worker : ℕ) (relayNow : Timestamptz) (ok : Bool) : Deliveries :=
  match d.phase worker with
  | .settle wake reason rest =>
    let op := settleOp wake relayNow (reason.settlement wake.attempt)
    setPhase { d with world := if ok then d.world.step op else d.world } worker (.batch rest)
  | _ => d

def step (d : Deliveries) : DeliveryOp → Deliveries
  | .pipeline op => if op.isDelivery then d else { d with world := d.world.step op }
  | .addMember channel author => { d with members := (channel, author) :: d.members }
  | .removeMember channel author =>
    { d with members := d.members.filter fun m ↦ m ≠ (channel, author) }
  | .claim worker claimId relayNow now locked => d.claim worker claimId relayNow now locked
  | .revalidate worker now ok => if now ≤ d.world.clock then d.revalidate worker now ok else d
  | .checkMember worker ok => d.checkMember worker ok
  | .post worker result => d.post worker result
  | .disable worker ok => d.disable worker ok
  | .settle worker relayNow ok => d.settle worker relayNow ok
  | .crash worker => d.setPhase worker (.batch [])

/-- Before the first wake; the workers have nothing claimed. -/
def start (events : EventsTable) (clock : Timestamptz) (members : List (Uuid × PublicKey)) :
    Deliveries :=
  ⟨World.start events clock, members, fun _ ↦ .batch []⟩

end Deliveries

end Buzz.Push
