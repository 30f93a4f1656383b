import Buzz.Db.Events

namespace Buzz.Db

open Buzz.Lib Buzz.Nostr Buzz.Core

structure ReactionKey where
  eventCreatedAt : DbTime
  eventId : EventId
  pubkey : PublicKey
  emoji : String
deriving DecidableEq

structure ReactionCell where
  removed : Bool
  reactionEventId : Option EventId
deriving DecidableEq

abbrev ReactionsTable := Map ReactionKey ReactionCell

namespace ReactionsTable

def sourceTaken (reactions : ReactionsTable) (key : ReactionKey) (source : EventId) : Bool :=
  reactions.entries.any fun e ↦ e.1 != key && e.2.reactionEventId == some source

def putCell (reactions : ReactionsTable) (key : ReactionKey) (source : Option EventId) :
    Except DbError (ReactionsTable × Bool) :=
  if source.any (sourceTaken reactions key) then
    .error (.database "duplicate key value violates unique constraint")
  else .ok (AList.insert key ⟨false, source⟩ reactions, true)

/-- `ADD_REACTION_SQL`: insert, or reactivate a removed row; an active row is left alone. -/
def addReactionTx (reactions : ReactionsTable) (key : ReactionKey) (source : Option EventId) :
    Except DbError (ReactionsTable × Bool) :=
  match reactions.lookup key with
  | none => reactions.putCell key source
  | some cell =>
    if cell.removed then reactions.putCell key (source.or cell.reactionEventId)
    else .ok (reactions, false)

def markRemoved (reactions : ReactionsTable) (p : ReactionKey → ReactionCell → Bool) :
    ReactionsTable × Bool :=
  (Map.mapValues (fun key cell ↦
      if p key cell && !cell.removed then { cell with removed := true } else cell) reactions,
    reactions.entries.any fun e ↦ p e.1 e.2 && !e.2.removed)

def removeReactionBySourceEventId (reactions : ReactionsTable) (source : EventId) :
    ReactionsTable × Bool :=
  reactions.markRemoved fun _ cell ↦ cell.reactionEventId == some source

def removeReaction (reactions : ReactionsTable) (key : ReactionKey) : ReactionsTable × Bool :=
  reactions.markRemoved fun key' _ ↦ key' == key

end ReactionsTable

/-- `ORDER BY created_at DESC LIMIT 1`. -/
def latest : List (DbTime × Event) → Option (DbTime × Event)
  | [] => none
  | row :: rows =>
    match latest rows with
    | none => some row
    | some best => if row.1 < best.1 then some best else some row

/-- `SELECT created_at .. WHERE id = $1 [AND deleted_at IS NULL] ORDER BY created_at DESC LIMIT 1`,
with the row. -/
def EventsTable.latestById (events : EventsTable) (id : EventId) (includingDeleted : Bool) :
    Option (DbTime × Event) :=
  latest ((events.entries.filter fun e ↦ e.1.2 == id && (includingDeleted || !e.2.deleted)).map
    fun e ↦ (e.1.1, e.2.event))

def insertEventTx (events : EventsTable) (event : Event) (channelId : Option Uuid) :
    Except DbError (EventsTable × Bool) :=
  if eventKindU32 event = kindAuth then .error .authEventRejected
  else if isEphemeral (eventKindU32 event) then .error (.ephemeralEventRejected event.kind)
  else
    match createdAtOf event with
    | .error e => .error e
    | .ok createdAt => .ok (events.insertRow createdAt event channelId)

structure ReactionStore where
  events : EventsTable := ∅
  reactions : ReactionsTable := ∅

inductive ReactionEventInsertOutcome
  | targetMissing
  | duplicate
  | inserted (wasInserted : Bool)

def insertReactionEvent (store : ReactionStore) (reactionEvent : Event) (channelId : Option Uuid)
    (targetEventId : EventId) (actor : PublicKey) (emoji : String) :
    Except DbError (ReactionStore × ReactionEventInsertOutcome) :=
  match store.events.latestById targetEventId false with
  | none => .ok (store, .targetMissing)
  | some (targetCreatedAt, _) =>
    match store.reactions.addReactionTx ⟨targetCreatedAt, targetEventId, actor, emoji⟩
        (some reactionEvent.id) with
    | .error e => .error e
    | .ok (_, false) => .ok (store, .duplicate)
    | .ok (reactions, true) =>
      match insertEventTx store.events reactionEvent channelId with
      | .error e => .error e
      | .ok (events, wasInserted) => .ok (⟨events, reactions⟩, .inserted wasInserted)

def reactionTarget (event : Event) : Option EventId :=
  event.tags.reverse.findSome? fun t ↦ if t.kind = "e" then t.content.bind hexDecode else none

def effectiveMessageAuthor (event : Event) (relayPubkey : PublicKey) : PublicKey :=
  if event.pubkey = relayPubkey then
    match (event.tagContents "actor").head?.bind hexDecode with
    | some actor => actor
    | none => ((event.tagContents "p").findSome? hexDecode).getD event.pubkey
  else event.pubkey

def reactionEmoji (event : Event) : String := if event.content.isEmpty then "+" else event.content

def maxReactionEmojiChars : ℕ := 64

inductive IngestError
  | rejected (message : String)
  | internal (message : DbError)

def ingestReaction (relayPubkey : PublicKey) (store : ReactionStore) (event : Event)
    (channelId : Option Uuid) : Except IngestError (ReactionStore × ReactionEventInsertOutcome) :=
  match reactionTarget event with
  | none => .error (.rejected "invalid: reaction must reference a target event via e tag")
  | some target =>
    if (reactionEmoji event).length > maxReactionEmojiChars then
      .error (.rejected ("invalid: reaction emoji exceeds " ++ toString maxReactionEmojiChars ++
        " characters (got " ++ toString (reactionEmoji event).length ++ ")"))
    else
      match insertReactionEvent store event channelId target
          (effectiveMessageAuthor event relayPubkey) (reactionEmoji event) with
      | .error e => .error (.internal e)
      | .ok (_, .targetMissing) =>
        .error (.rejected "invalid: reaction target event not found")
      | .ok (store, outcome) => .ok (store, outcome)

def removeReactionOf (relayPubkey : PublicKey) (store : ReactionStore) (event : Event) :
    ReactionsTable :=
  let (reactions, removed) := store.reactions.removeReactionBySourceEventId event.id
  if removed then reactions
  else
    match reactionTarget event with
    | none => reactions
    | some target =>
      match store.events.latestById target false with
      | none => reactions
      | some (targetCreatedAt, _) => (reactions.removeReaction ⟨targetCreatedAt, target,
          effectiveMessageAuthor event relayPubkey, reactionEmoji event⟩).1

/-- `handle_standard_deletion_event` for one target; push leases are not deleted this way. -/
def deleteEvent (relayPubkey : PublicKey) (store : ReactionStore) (id : EventId) : ReactionStore :=
  match store.events.latestById id true with
  | none => store
  | some (_, event) =>
    if eventKindU32 event = kindPushLease then store
    else
      let p := fun (key : DbTime × EventId) (row : EventRow) ↦ key.2 == id && !row.deleted
      if !store.events.entries.any fun e ↦ p e.1 e.2 then store
      else
        let store := { store with events := store.events.softDelete p }
        if eventKindU32 event = kindReaction then
          { store with reactions := removeReactionOf relayPubkey store event }
        else store

inductive ReactionOp
  | storeEvent (id : EventId) (channelId : Option Uuid)
  | submitReaction (id : EventId) (channelId : Option Uuid)
  | deleteEvent (id : EventId)

section Run

variable (relayPubkey : PublicKey) (signed : EventId → Event)

def eventOf (id : EventId) : Event := { signed id with id }

def applyReactionOp (store : ReactionStore) : ReactionOp → ReactionStore
  | .storeEvent id channelId =>
    if eventKindU32 (eventOf signed id) = kindReaction then store
    else
      match insertEventTx store.events (eventOf signed id) channelId with
      | .ok (events, _) => { store with events }
      | .error _ => store
  | .submitReaction id channelId =>
    if eventKindU32 (eventOf signed id) = kindReaction then
      match ingestReaction relayPubkey store (eventOf signed id) channelId with
      | .ok (store, _) => store
      | .error _ => store
    else store
  | .deleteEvent id => deleteEvent relayPubkey store id

def runReactions (ops : List ReactionOp) : ReactionStore :=
  ops.foldl (applyReactionOp relayPubkey signed) {}

end Run

end Buzz.Db
