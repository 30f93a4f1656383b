import Buzz.Lib.Collections
import Buzz.Lib.Runs
import Buzz.PairRelay.Validate

namespace Buzz.PairRelay

open Buzz.Lib Buzz.Nostr

def maxConns : ℕ := 128
def channelCap : ℕ := 4
def rateMsgMax : ℕ := 20
def rateEventMax : ℕ := 10
def subIdMax : ℕ := 64
def maxEventsPerConn : ℕ := 6
def maxDeliveredPerP : ℕ := 12
def dedupCap : ℕ := 1024
def deliveredMapCap : ℕ := 4096

/-- Instants are in nanoseconds of the monotonic clock. -/
def nanos (secs : ℕ) : ℕ := secs * 1000000000

def rateWindow : ℕ := nanos 10
def entryTtl : ℕ := nanos 300

inductive OutMsg
  | text (json : Json)
  | pong (data : List UInt8)
  | close

structure Sub where
  connId : ℕ
  subId : String
  pValue : PublicKey
deriving DecidableEq

structure Relay where
  subs : List Sub := []
  connCount : ℕ := 0
  nextConnId : ℕ := 0
  seenIds : List (EventId × ℕ) := []
  delivered : Map PublicKey (ℕ × ℕ) := ∅

namespace Relay

/-- With the readings of the clock at the eviction and at the new entry. -/
def reserveId (r : Relay) (id : EventId) (now stamp : ℕ) : Except Unit Bool × Relay :=
  let seen := r.seenIds.filter fun e ↦ now - e.2 < entryTtl
  if seen.any fun e ↦ e.1 = id then (.ok true, { r with seenIds := seen })
  else if dedupCap ≤ seen.length then (.error (), { r with seenIds := seen })
  else (.ok false, { r with seenIds := seen ++ [(id, stamp)] })

def swapRemove {α : Type} (l : List α) (i : ℕ) : List α :=
  match l.getLast? with
  | none => l
  | some last => (l.set i last).dropLast

def unreserveId (r : Relay) (id : EventId) : Relay :=
  match r.seenIds.findIdx? fun e ↦ e.1 = id with
  | none => r
  | some i => { r with seenIds := swapRemove r.seenIds i }

/-- Reservations change the reserved ids only. -/
theorem reserveId_eq (r : Relay) (id : EventId) (now stamp : ℕ) : (r.reserveId id now stamp).2 =
    { r with seenIds := (r.reserveId id now stamp).2.seenIds } := by
  unfold reserveId
  dsimp only
  split
  · rfl
  · split
    · rfl
    · rfl

theorem unreserveId_eq (r : Relay) (id : EventId) :
    r.unreserveId id = { r with seenIds := (r.unreserveId id).seenIds } := by
  unfold unreserveId
  split
  · rfl
  · rfl

def removeSub (r : Relay) (connId : ℕ) : Relay :=
  { r with subs := r.subs.filter fun sub ↦ sub.connId ≠ connId }

def matching (r : Relay) (p : PublicKey) : List Sub := r.subs.filter fun sub ↦ sub.pValue = p

end Relay

structure RateWindow where
  count : ℕ
  windowStart : ℕ

def RateWindow.start (now : ℕ) : RateWindow := ⟨0, now⟩

def RateWindow.tick (w : RateWindow) (now : ℕ) : ℕ × RateWindow :=
  let w := if rateWindow ≤ now - w.windowStart then ⟨0, now⟩ else w
  (w.count + 1, { w with count := w.count + 1 })

structure Channel where
  queue : List OutMsg := []
  receiving : Bool := true

def Channel.trySend (ch : Channel) (m : OutMsg) : Option Channel :=
  if ch.receiving && ch.queue.length < channelCap then some { ch with queue := ch.queue ++ [m] }
  else none

/-- An event that has passed the checks, on its way to its recipient. -/
structure Pending where
  event : Json
  eventId : String
  id : EventId
  pValue : PublicKey

/-- Where the task of a connection is: before, between and after the locked sections. -/
inductive Stage
  | upgrading
  | reading
  | verified (p : Pending)
  | reserved (p : Pending)
  | undelivered (p : Pending) (reason : String)
  | leaving
  | draining
  | uncounted
  | closed

structure Conn where
  stage : Stage := .upgrading
  subId : Option String := none
  msgRate : RateWindow := .start 0
  eventRate : RateWindow := .start 0
  eventsAttempted : ℕ := 0
  channel : Channel := {}

/-- What was handed to a connection. -/
structure Delivery where
  pending : Pending
  connId : ℕ
  subId : String
  time : ℕ

/-- The relay and the tasks of its connections, by their ids; `deliveries` is for statements only. -/
structure Server where
  relay : Relay := {}
  conns : List Conn := []
  rejecting : ℕ := 0
  clock : ℕ := 0
  deliveries : List Delivery := []

inductive Frame
  | text (text : String)
  | binary
  | ping (data : List UInt8)
  | pong
  | close
  | error

namespace Server

def modify (s : Server) (c : ℕ) (f : Conn → Conn) : Server :=
  { s with conns := s.conns.modify c f }

def setStage (s : Server) (c : ℕ) (stage : Stage) : Server :=
  s.modify c fun conn ↦ { conn with stage }

def accepts (s : Server) (c : ℕ) (m : OutMsg) : Option Channel :=
  s.conns[c]?.bind fun conn ↦ conn.channel.trySend m

def send (s : Server) (c : ℕ) (m : OutMsg) : Server :=
  s.modify c fun conn ↦ { conn with channel := (conn.channel.trySend m).getD conn.channel }

def reply (s : Server) (c : ℕ) (json : Json) : Server := s.send c (.text json)

/-- `deliver_single`: the answer, with the clock read at the eviction and at the new entry. -/
def deliverSingle (s : Server) (p : Pending) (now stamp : ℕ) : Except String Bool × Server :=
  match s.relay.matching p.pValue with
  | [] => (.error "no live subscriber", s)
  | _ :: _ :: _ => (.error "ambiguous recipient", s)
  | [sub] =>
    let delivered := Map.keepEntries (fun _ e ↦ now - e.2 < entryTtl) s.relay.delivered
    let s := { s with relay := { s.relay with delivered } }
    let count := ((delivered.lookup p.pValue).map Prod.fst).getD 0
    if maxDeliveredPerP ≤ count then (.error "recipient session budget exhausted", s)
    else if deliveredMapCap ≤ delivered.entries.length ∧ p.pValue ∉ delivered then
      (.error "relay at capacity", s)
    else
      match s.accepts sub.connId (.text (makeEvent sub.subId p.event)) with
      | none => (.ok false, s)
      | some channel =>
        (.ok true,
          { s.modify sub.connId (fun conn ↦ { conn with channel }) with
            relay := { s.relay with delivered := delivered.insert p.pValue (count + 1, stamp) }
            deliveries := ⟨p, sub.connId, sub.subId, stamp⟩ :: s.deliveries })

def handleReq (s : Server) (c : ℕ) (conn : Conn) (arr : List Json) : Server :=
  match arr[1]?.bind asStr with
  | none => s.reply c (makeNotice "error: invalid REQ")
  | some clientSubId =>
    if arr.length < 3 then s.reply c (makeNotice "error: invalid REQ")
    else if subIdMax < clientSubId.utf8ByteSize then
      s.reply c (makeClosed "" "error: sub_id too long")
    else if 3 < arr.length then
      s.reply c (makeClosed clientSubId "error: multiple filters not supported")
    else if (arr[2]?.bind asObject).isNone then
      s.reply c (makeClosed clientSubId "error: invalid filter")
    else if conn.subId.isSome then
      s.reply c (makeClosed clientSubId "error: already subscribed, send CLOSE first")
    else
      match validateFilter (arr[2]?.getD .null) with
      | .error reason => s.reply c (makeClosed clientSubId ("error: " ++ reason))
      | .ok pValue =>
        if s.relay.subs.any fun sub ↦ sub.pValue = pValue then
          s.reply c (makeClosed clientSubId "error: #p already has a live subscriber")
        else
          match s.accepts c (.text (makeEose clientSubId)) with
          | none => s.setStage c .leaving
          | some channel =>
            { s.modify c (fun conn ↦ { conn with channel, subId := some clientSubId }) with
              relay := { s.relay with subs := s.relay.subs ++ [⟨c, clientSubId, pValue⟩] } }

def handleEvent (crypto : Crypto) (wallSecs : ℤ) (s : Server) (c : ℕ) (conn : Conn)
    (arr : List Json) (now : ℕ) : Server :=
  match arr with
  | [_, ev] =>
    let (count, eventRate) := conn.eventRate.tick now
    let s := s.modify c fun conn ↦ { conn with eventRate }
    if rateEventMax < count then s.reply c (makeOk (safeEventId ev) false "rate-limited")
    else if maxEventsPerConn ≤ conn.eventsAttempted then
      s.reply c (makeOk (safeEventId ev) false "error: session event limit reached")
    else if (asObject ev).isNone then s.reply c (makeOk "" false "invalid: malformed event")
    else
      match validateEvent wallSecs ev with
      | .error reason => s.reply c (makeOk (safeEventId ev) false ("invalid: " ++ reason))
      | .ok (eventId, id, pValue) =>
        match verifyEventSig crypto ev with
        | .error reason => s.reply c (makeOk eventId false reason)
        | .ok () => s.modify c fun conn ↦
          { conn with
            eventsAttempted := conn.eventsAttempted + 1
            stage := .verified ⟨ev, eventId, id, pValue⟩ }
  | _ => s.reply c (makeNotice "error: invalid EVENT")

def handleClose (s : Server) (c : ℕ) (conn : Conn) (arr : List Json) : Server :=
  match arr with
  | [_, .str sid] =>
    if conn.subId = some sid then
      { s.modify c (fun conn ↦ { conn with subId := none }) with relay := s.relay.removeSub c }
    else s
  | _ => s.reply c (makeNotice "error: invalid CLOSE")

def handleText (crypto : Crypto) (wallSecs : ℤ) (s : Server) (c : ℕ) (conn : Conn) (text : String)
    (now : ℕ) : Server :=
  match Json.parse text with
  | some (.arr (.str verb :: rest)) =>
    let arr := .str verb :: rest
    if verb = "REQ" then s.handleReq c conn arr
    else if verb = "EVENT" then s.handleEvent crypto wallSecs c conn arr now
    else if verb = "CLOSE" then s.handleClose c conn arr
    else s.reply c (makeNotice "error: unsupported message")
  | _ => s.reply c (makeNotice "error: invalid message")

def handleFrame (crypto : Crypto) (wallSecs : ℤ) (s : Server) (c : ℕ) (conn : Conn) (frame : Frame)
    (now : ℕ) : Server :=
  let (count, msgRate) := conn.msgRate.tick now
  let s := s.modify c fun conn ↦ { conn with msgRate }
  if rateMsgMax < count then s.setStage c .leaving
  else
    match frame with
    | .error | .binary => s.setStage c .leaving
    | .ping data =>
      match s.accepts c (.pong data) with
      | none => s.setStage c .leaving
      | some _ => s.send c (.pong data)
    | .pong => s
    | .close => (s.send c .close).setStage c .leaving
    | .text text => s.handleText crypto wallSecs c conn text now

end Server

inductive Op
  | request
  | reject
  | upgraded (c now : ℕ)
  | upgradeFailed (c : ℕ)
  | frame (c : ℕ) (frame : Frame) (now : ℕ)
  | reserve (c now stamp : ℕ)
  | deliver (c now stamp : ℕ)
  | unreserve (c : ℕ)
  | stop (c : ℕ)
  | removeSub (c : ℕ)
  | dropSub (c : ℕ)
  | dropCount (c : ℕ)
  | written (c : ℕ)
  | writerGone (c : ℕ)

/-- The signature scheme, and the wall clock at the start of the monotonic one, in nanoseconds. -/
structure Setup where
  crypto : Crypto
  epoch : ℕ

def Setup.wallSecs (setup : Setup) (now : ℕ) : ℤ := ((setup.epoch + now) / nanos 1 : ℕ)

def Server.stageOf (s : Server) (c : ℕ) : Option Stage := s.conns[c]?.map Conn.stage

/-- One atomic section of one task. -/
def step (setup : Setup) (s : Server) : Op → Option Server
  | .request =>
    let relay := { s.relay with connCount := s.relay.connCount + 1 }
    if maxConns ≤ s.relay.connCount then some { s with relay, rejecting := s.rejecting + 1 }
    else
      some { s with
        relay := { relay with nextConnId := s.relay.nextConnId + 1 }
        conns := s.conns ++ [{}] }
  | .reject =>
    if 0 < s.rejecting then
      some { s with
        relay := { s.relay with connCount := s.relay.connCount - 1 }
        rejecting := s.rejecting - 1 }
    else none
  | .upgraded c now =>
    match s.stageOf c with
    | some .upgrading =>
      if s.clock ≤ now then
        some { s.modify c (fun conn ↦
          { conn with stage := .reading, msgRate := .start now, eventRate := .start now }) with
          clock := now }
      else none
    | _ => none
  | .upgradeFailed c =>
    match s.stageOf c with
    | some .upgrading =>
      some { s.setStage c .closed with
        relay := { s.relay with connCount := s.relay.connCount - 1 } }
    | _ => none
  | .frame c frame now =>
    match s.conns[c]? with
    | some conn =>
      match conn.stage with
      | .reading =>
        if s.clock ≤ now then
          some { s.handleFrame setup.crypto (setup.wallSecs now) c conn frame now with clock := now }
        else none
      | _ => none
    | none => none
  | .reserve c now stamp =>
    match s.stageOf c with
    | some (.verified p) =>
      if s.clock ≤ now ∧ now ≤ stamp then
        let (answer, relay) := s.relay.reserveId p.id now stamp
        let s := { s with relay, clock := stamp }
        match answer with
        | .ok true =>
          some ((s.reply c (makeOk p.eventId false "duplicate: already seen")).setStage c .reading)
        | .error () =>
          some ((s.reply c (makeOk p.eventId false "relay at capacity")).setStage c .reading)
        | .ok false => some (s.setStage c (.reserved p))
      else none
    | _ => none
  | .deliver c now stamp =>
    match s.stageOf c with
    | some (.reserved p) =>
      if s.clock ≤ now ∧ now ≤ stamp then
        let (answer, s) := s.deliverSingle p now stamp
        let s := { s with clock := stamp }
        match answer with
        | .ok true => some ((s.reply c (makeOk p.eventId true "")).setStage c .reading)
        | .ok false => some (s.setStage c (.undelivered p "delivery failed"))
        | .error reason => some (s.setStage c (.undelivered p reason))
      else none
    | _ => none
  | .unreserve c =>
    match s.stageOf c with
    | some (.undelivered p reason) =>
      let s := { s with relay := s.relay.unreserveId p.id }
      some ((s.reply c (makeOk p.eventId false reason)).setStage c .reading)
    | _ => none
  | .stop c =>
    match s.stageOf c with
    | some .reading => some (s.setStage c .leaving)
    | _ => none
  | .removeSub c =>
    match s.stageOf c with
    | some .leaving =>
      some (({ s with relay := s.relay.removeSub c }.send c .close).setStage c .draining)
    | _ => none
  | .dropSub c =>
    match s.stageOf c with
    | some .reading | some .draining =>
      some ({ s with relay := s.relay.removeSub c }.setStage c .uncounted)
    | _ => none
  | .dropCount c =>
    match s.stageOf c with
    | some .uncounted =>
      some { s.setStage c .closed with
        relay := { s.relay with connCount := s.relay.connCount - 1 } }
    | _ => none
  | .written c =>
    some (s.modify c fun conn ↦ { conn with channel.queue := conn.channel.queue.tail })
  | .writerGone c => some (s.modify c fun conn ↦ { conn with channel := ⟨[], false⟩ })

def run (setup : Setup) (ops : List Op) : Option Server := ops.foldlM (step setup) {}

end Buzz.PairRelay
