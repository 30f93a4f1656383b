import Buzz.Db.Reaction

namespace Buzz.Db

open Buzz.Lib Buzz.Nostr Buzz.Core

structure ThreadMetadataParams where
  eventId : EventId
  eventCreatedAt : DbTime
  channelId : Uuid
  parentEventId : Option EventId
  parentEventCreatedAt : Option DbTime
  rootEventId : Option EventId
  rootEventCreatedAt : Option DbTime
  depth : ℤ
  broadcast : Bool

/-- A row of `thread_metadata`; both counters stay at zero or above. -/
structure ThreadRow where
  channelId : Uuid
  parentEventId : Option EventId
  parentEventCreatedAt : Option DbTime
  rootEventId : Option EventId
  rootEventCreatedAt : Option DbTime
  depth : ℤ
  broadcast : Bool
  replyCount : ℕ
  descendantCount : ℕ
deriving DecidableEq

def ThreadMetadataParams.row (params : ThreadMetadataParams) : ThreadRow :=
  ⟨params.channelId, params.parentEventId, params.parentEventCreatedAt, params.rootEventId,
    params.rootEventCreatedAt, params.depth, params.broadcast, 0, 0⟩

/-- The rows of one community by the rest of the primary key, `(event_created_at, event_id)`. -/
abbrev ThreadTable := Map (DbTime × EventId) ThreadRow

namespace ThreadTable

def insertRow (threads : ThreadTable) (key : DbTime × EventId) (row : ThreadRow) :
    ThreadTable × Bool :=
  if key ∈ threads then (threads, false) else (AList.insert key row threads, true)

/-- The row that a parent or a root without one gets. -/
def stub (channelId : Uuid) : ThreadRow := ⟨channelId, none, none, none, none, 0, false, 0, 0⟩

def updateById (threads : ThreadTable) (id : EventId) (f : ThreadRow → ThreadRow) : ThreadTable :=
  Map.mapValues (fun key row ↦ if key.2 = id then f row else row) threads

def addReply (row : ThreadRow) : ThreadRow := { row with replyCount := row.replyCount + 1 }

def addDescendant (row : ThreadRow) : ThreadRow :=
  { row with descendantCount := row.descendantCount + 1 }

def dropReply (row : ThreadRow) : ThreadRow := { row with replyCount := row.replyCount - 1 }

def dropDescendant (row : ThreadRow) : ThreadRow :=
  { row with descendantCount := row.descendantCount - 1 }

/-- The two updates of a reply that comes or goes. -/
def updateCounters (threads : ThreadTable) (parent : Option EventId) (root : Option EventId)
    (reply descendant : ThreadRow → ThreadRow) : ThreadTable :=
  match parent with
  | none => threads
  | some pid =>
    match root with
    | none => threads.updateById pid reply
    | some rid => (threads.updateById pid reply).updateById rid descendant

def insertStubs (threads : ThreadTable) (params : ThreadMetadataParams) : ThreadTable :=
  match params.parentEventId with
  | none => threads
  | some pid =>
    let parentTs := params.parentEventCreatedAt.getD params.eventCreatedAt
    let threads := (threads.insertRow (parentTs, pid) (stub params.channelId)).1
    match params.rootEventId with
    | none => threads
    | some rid =>
      if rid ≠ pid then
        let rootTs := params.rootEventCreatedAt.getD params.eventCreatedAt
        (threads.insertRow (rootTs, rid) (stub params.channelId)).1
      else threads

def insertMetadata (threads : ThreadTable) (params : ThreadMetadataParams) : ThreadTable :=
  let inserted := threads.insertRow (params.eventCreatedAt, params.eventId) params.row
  if inserted.2 then
    (inserted.1.insertStubs params).updateCounters params.parentEventId params.rootEventId addReply
      addDescendant
  else threads

/-- `SELECT .. WHERE event_id = $2 LIMIT 1`; `pick` is the database's choice among the rows. -/
def getThreadMetadataByEvent (threads : ThreadTable) (id : EventId) (pick : ℕ) :
    Option ThreadRow :=
  let rows := (threads.entries.filter fun e ↦ e.1.2 = id).map Sigma.snd
  rows[pick % rows.length]?

end ThreadTable

structure ThreadStore where
  events : EventsTable := ∅
  threads : ThreadTable := ∅

namespace ThreadStore

/-- An error rolls the transaction back; `false` is an event that was stored before. -/
def insertEventWithThreadMetadataTx (store : ThreadStore) (event : Event) (channelId : Option Uuid)
    (threadMeta : Option ThreadMetadataParams) : Except DbError (ThreadStore × Bool) :=
  match insertEventTx store.events event channelId with
  | .error e => .error e
  | .ok (_, false) => .ok (store, false)
  | .ok (events, true) =>
    .ok (⟨events, (threadMeta.map store.threads.insertMetadata).getD store.threads⟩, true)

def softDeleteEventAndUpdateThread (store : ThreadStore) (id : EventId)
    (parentEventId rootEventId : Option EventId) : ThreadStore × Bool :=
  let p := fun (key : DbTime × EventId) (row : EventRow) ↦ key.2 == id && !row.deleted
  if store.events.entries.any fun e ↦ p e.1 e.2 then
    (⟨store.events.softDelete p, store.threads.updateCounters parentEventId rootEventId
      ThreadTable.dropReply ThreadTable.dropDescendant⟩, true)
  else (store, false)

end ThreadStore

def markedId (marker : String) (tag : Tag) : Option EventId :=
  match tag.asSlice with
  | "e" :: id :: _ :: m :: _ => if m = marker then hexDecode id else none
  | _ => none

def replyTags (event : Event) : Option (EventId × EventId) :=
  match event.tags.reverse.findSome? (markedId "root"),
    event.tags.reverse.findSome? (markedId "reply") with
  | some root, some parent => some (root, parent)
  | none, some parent => some (parent, parent)
  | _, none => none

def ancestorRoot (parentId : EventId) (parentEvent : Event) : EventId :=
  ((parentEvent.tags.findSome? (markedId "root")).or
    (parentEvent.tags.findSome? (markedId "reply"))).getD parentId

/-- `from_timestamp(..)` of the event's created-at, else what the caller falls back to. -/
def createdOr (event : Event) (fallback : DbTime) : DbTime :=
  (fromTimestamp (asI64 event.createdAt)).getD fallback

def maxThreadDepth : ℤ := 100

def isBroadcast (event : Event) : Bool :=
  event.tags.any fun tag ↦ tag.asSlice[0]? = some "broadcast" ∧ tag.asSlice[1]? = some "1"

def rootCreatedAt (events : EventsTable) (root : EventId) (parentCreated : DbTime) : DbTime :=
  match events.latestById root false with
  | some (_, rootEvent) => createdOr rootEvent parentCreated
  | none => parentCreated

def threadAncestry (events : EventsTable) (parentId : EventId) (parentEvent : Event)
    (parentMeta : Option ThreadRow) (clientRoot : EventId) (parentCreated : DbTime) :
    Except String (EventId × DbTime × ℤ) :=
  match parentMeta with
  | some row =>
    let effectiveRoot := row.rootEventId.getD parentId
    if clientRoot ≠ effectiveRoot then .error "root tag does not match thread ancestry"
    else if maxThreadDepth < row.depth + 1 then .error "thread depth limit exceeded"
    else .ok (effectiveRoot, rootCreatedAt events effectiveRoot parentCreated, row.depth + 1)
  | none =>
    let parentRoot := ancestorRoot parentId parentEvent
    if clientRoot ≠ parentRoot then .error "root tag does not match thread ancestry"
    else if parentRoot = parentId then .ok (parentRoot, parentCreated, 1)
    else .ok (parentRoot, rootCreatedAt events parentRoot parentCreated, 2)

def resolveNip10ThreadMeta (store : ThreadStore) (event : Event) (channelId : Uuid) (now : DbTime)
    (pick : ℕ) : Except String (Option ThreadMetadataParams) :=
  match replyTags event with
  | none => .ok none
  | some (clientRoot, parentId) =>
    match store.events.latestById parentId false with
    | none => .error "reply parent not found"
    | some (t, parentEvent) =>
      match (store.events.lookup (t, parentId)).bind EventRow.channelId with
      | none => .error "parent event has no channel association"
      | some parentChannel =>
        if parentChannel ≠ channelId then .error "parent event belongs to a different channel"
        else
          let parentCreated := createdOr parentEvent now
          match threadAncestry store.events parentId parentEvent
              (store.threads.getThreadMetadataByEvent parentId pick) clientRoot parentCreated with
          | .error e => .error e
          | .ok (root, rootCreated, depth) => .ok (some
            { eventId := event.id, eventCreatedAt := createdOr event now, channelId,
              parentEventId := some parentId, parentEventCreatedAt := some parentCreated,
              rootEventId := some root, rootEventCreatedAt := some rootCreated, depth,
              broadcast := isBroadcast event })

/-- The kinds whose channel an `h` tag must name, which are also those that thread. -/
def requiresHChannelScope (kind : ℕ) : Bool :=
  [9, 40002, 40003, 40004, 40005, 40006, 40007, 40008, 40100, 45001, 45002, 45003, 9000, 9001,
    9002, 9005, 9008, 9022, 48100, 48101, 48102, 48103, 48106].contains kind

def ingestThreaded (store : ThreadStore) (event : Event) (channelId : Option Uuid) (now : DbTime)
    (pick : ℕ) : Except IngestError (ThreadStore × Bool) :=
  let resolved : Except String (Option ThreadMetadataParams) :=
    match channelId with
    | some ch =>
      if requiresHChannelScope (eventKindU32 event) then
        resolveNip10ThreadMeta store event ch now pick
      else .ok none
    | none => .ok none
  match resolved with
  | .error message => .error (.rejected ("invalid: " ++ message))
  | .ok threadMeta =>
    match store.insertEventWithThreadMetadataTx event channelId threadMeta with
    | .error e => .error (.internal e)
    | .ok result => .ok result

def workflowMeta (event : Event) (createdAt : DbTime) (channelId : Uuid) : ThreadMetadataParams :=
  ⟨event.id, createdAt, channelId, none, none, none, none, 0, false⟩

def deleteThreaded (store : ThreadStore) (id : EventId) (pick : ℕ) : ThreadStore :=
  let threadMeta := store.threads.getThreadMetadataByEvent id pick
  (store.softDeleteEventAndUpdateThread id (threadMeta.bind ThreadRow.parentEventId)
    (threadMeta.bind ThreadRow.rootEventId)).1

/-- A call on the store. An event is given by its id, which commits to its contents. -/
inductive ThreadOp
  | ingest (id : EventId) (channelId : Option Uuid) (now : DbTime) (pick : ℕ)
  | workflow (id : EventId) (channelId : Uuid)
  | delete (id : EventId) (pick : ℕ)

section Run

variable (signed : EventId → Event)

def applyThreadOp (store : ThreadStore) : ThreadOp → ThreadStore
  | .ingest id channelId now pick =>
    match ingestThreaded store (eventOf signed id) channelId now pick with
    | .ok (store, _) => store
    | .error _ => store
  | .workflow id channelId =>
    match createdAtOf (eventOf signed id) with
    | .error _ => store
    | .ok createdAt =>
      match store.insertEventWithThreadMetadataTx (eventOf signed id) (some channelId)
          (some (workflowMeta (eventOf signed id) createdAt channelId)) with
      | .ok (store, _) => store
      | .error _ => store
  | .delete id pick => deleteThreaded store id pick

def runThreads (ops : List ThreadOp) : ThreadStore := ops.foldl (applyThreadOp signed) {}

end Run

end Buzz.Db
