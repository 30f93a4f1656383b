import Buzz.Lib.Json

namespace Buzz.Acp

open Buzz.Lib

structure ObserverEvent where
  seq : ℕ
  timestamp : String
  kind : String
  agentIndex : Option ℕ
  channelId : Option String
  sessionId : Option String
  turnId : Option String
  startedAt : Option String
  payload : Json

structure ObserverChunkKey where
  updateType : String
  messageId : Option String
  channelId : Option String
  sessionId : Option String
  turnId : Option String
  agentIndex : Option ℕ
deriving DecidableEq

structure PendingObserverChunk where
  key : ObserverChunkKey
  event : ObserverEvent
  text : String

def observerChunkMaxTextBytes : ℕ := 60000

def chunkUpdateTypes : List String :=
  ["agent_message_chunk", "user_message_chunk", "agent_thought_chunk"]

def observerChunkKeyAndText (event : ObserverEvent) : Option (ObserverChunkKey × String) :=
  (event.payload.get "params").bind fun params ↦
  (params.get "update").bind fun update ↦
  ((update.get "sessionUpdate").bind Json.asStr).bind fun updateType ↦
  if updateType ∉ chunkUpdateTypes then none
  else
    (update.get "content").bind fun content ↦
    ((content.get "text").bind Json.asStr).map fun text ↦
      (⟨updateType, (update.get "messageId").bind Json.asStr, event.channelId, event.sessionId,
        event.turnId, event.agentIndex⟩, text)

def setObserverChunkText (payload : Json) (text : String) : Json :=
  payload.modify "params" <| Json.modify "update" <| Json.modify "content" fun content ↦
    Json.setMember "text" content (.str text)

abbrev ObserverChunkCoalescer := List PendingObserverChunk

def PendingObserverChunk.flushed (p : PendingObserverChunk) : ObserverEvent :=
  { p.event with payload := setObserverChunkText p.event.payload p.text }

/-- The chunk that was merged keeps its first payload, with the seq and time of its last part. -/
def PendingObserverChunk.append (p : PendingObserverChunk) (event : ObserverEvent) (text : String) :
    PendingObserverChunk :=
  { p with
    text := p.text ++ text
    event := { p.event with seq := event.seq, timestamp := event.timestamp } }

namespace ObserverChunkCoalescer

def flush (pending : ObserverChunkCoalescer) : List ObserverEvent := pending.map (·.flushed)

def update (key : ObserverChunkKey) (f : PendingObserverChunk → PendingObserverChunk) :
    ObserverChunkCoalescer → ObserverChunkCoalescer
  | [] => []
  | p :: pending => if p.key = key then f p :: pending else p :: update key f pending

def ingest (pending : ObserverChunkCoalescer) (event : ObserverEvent) :
    ObserverChunkCoalescer × List ObserverEvent :=
  match observerChunkKeyAndText event with
  | none => ([], pending.flush ++ [event])
  | some (key, text) =>
    match pending.find? fun p ↦ p.key = key with
    | some p =>
      if observerChunkMaxTextBytes ≤ p.text.utf8ByteSize + text.utf8ByteSize then
        ([⟨key, event, text⟩], pending.flush)
      else (pending.update key fun p ↦ p.append event text, [])
    | none => (pending ++ [⟨key, event, text⟩], [])

end ObserverChunkCoalescer

inductive CoalescerOp
  | ingest (event : ObserverEvent)
  | flush

/-- The coalescer in use: what it took in, and what each call gave out. -/
structure Coalescing where
  pending : ObserverChunkCoalescer := []
  ingested : List ObserverEvent := []
  emitted : List (List ObserverEvent) := []

namespace Coalescing

def step (s : Coalescing) : CoalescerOp → Coalescing
  | .ingest event =>
    { pending := (s.pending.ingest event).1
      ingested := s.ingested ++ [event]
      emitted := s.emitted ++ [(s.pending.ingest event).2] }
  | .flush =>
    { s with
      pending := []
      emitted := s.emitted ++ [s.pending.flush] }

def run (ops : List CoalescerOp) : Coalescing := ops.foldl step {}

/-- What each call gave out, and what a final flush gives. -/
def batches (s : Coalescing) : List (List ObserverEvent) := s.emitted ++ [s.pending.flush]

def output (s : Coalescing) : List ObserverEvent := s.batches.flatten

end Coalescing

def observe (key : ObserverChunkKey) (event : ObserverEvent)
    (read : String × List (ObserverEvent × String)) : String × List (ObserverEvent × String) :=
  match observerChunkKeyAndText event with
  | none => ("", (event, read.1) :: read.2)
  | some (key', text) => if key' = key then (text ++ read.1, read.2) else read

/-- What is read of one stream of chunks: its text up to the first other event, and after each
other event its text up to the next. -/
def transcript (key : ObserverChunkKey) (events : List ObserverEvent) :
    String × List (ObserverEvent × String) :=
  events.foldr (observe key) ("", [])

def Ascending (events : List ObserverEvent) : Prop := (events.map (·.seq)).Pairwise (· < ·)

instance (events : List ObserverEvent) : Decidable (Ascending events) :=
  inferInstanceAs (Decidable ((events.map (·.seq)).Pairwise (· < ·)))

end Buzz.Acp
