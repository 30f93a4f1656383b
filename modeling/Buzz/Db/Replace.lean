import Buzz.Db.Reaction
import Mathlib.Data.List.Sort
import Mathlib.Data.Prod.Lex

namespace Buzz.Db

open Buzz.Lib Buzz.Nostr Buzz.Core

abbrev EventKey := DbTime × EventId

/-- What `ORDER BY created_at DESC, id ASC` puts first. -/
def newerKey (a b : EventKey) : Prop := b.1 < a.1 ∨ b.1 = a.1 ∧ a.2 < b.2

instance : DecidableRel newerKey := fun _ _ ↦ inferInstanceAs (Decidable (_ ∨ _))

/-- Stale-write protection: on a same-second tie the lowest id wins. -/
def dominated (incoming accepted : EventKey) : Bool :=
  incoming.1 < accepted.1 || incoming.1 == accepted.1 && accepted.2 ≤ incoming.2

def kindReadState : ℕ := 30078
def kindBookmarkSet : ℕ := 30003

def dTagMaxLen : ℕ := 1024

def startsWith (s lead : String) : Bool := lead.toList.isPrefixOf s.toList

def isReadStateSlot (dTag : String) : Bool :=
  startsWith dTag "read-state:" &&
    let slot := dTag.toList.drop 11
    slot.length == 32 && slot.all fun c ↦ c.isDigit || 'a' ≤ c && c ≤ 'f'

/-- `is_nip_rs`, which is also the condition of the database triggers on read-state rows. -/
def isNipRs (event : Event) (dTag : String) : Bool :=
  eventKindU32 event == kindReadState &&
    (event.tags.filter fun t ↦ t.name == "d").length == 1 &&
    (event.tags.any fun t ↦ t.name == "d" && t.content == some dTag) &&
    isReadStateSlot dTag &&
    (event.tags.filter fun t ↦ t.asSlice == ["t", "read-state"]).length == 1

def isMeshStatusCoordinate (kind : ℕ) (dTag : String) : Bool :=
  kind == kindBookmarkSet && startsWith dTag "buzz-mesh-member-status:"

def isBuzzMeshStatus (event : Event) (dTag : String) : Bool :=
  isMeshStatusCoordinate (eventKindU32 event) dTag &&
    event.tags.any fun t ↦ t.asSlice == ["k", "buzz-mesh-status"]

namespace EventRow

def isNipRs (row : EventRow) : Bool := row.dTag.any (Db.isNipRs row.event)

/-- The condition of `purge_soft_deleted_buzz_mesh_status`; `tags @> '[["k", ..]]'` holds of a tag
with both strings anywhere in it. -/
def isMeshStatus (row : EventRow) : Bool :=
  row.dTag.any (isMeshStatusCoordinate (eventKindU32 row.event)) &&
    row.event.tags.any fun t ↦ t.asSlice.contains "k" && t.asSlice.contains "buzz-mesh-status"

def isAddressable (kind : Kind) (pubkey : PublicKey) (channelId : Option Uuid) (row : EventRow) :
    Bool :=
  row.event.kind == kind && row.event.pubkey == pubkey && row.channelId == channelId

def isParameterized (kind : Kind) (pubkey : PublicKey) (dTag : String) (row : EventRow) : Bool :=
  row.event.kind == kind && row.event.pubkey == pubkey && row.dTag == some dTag

end EventRow

namespace EventsTable

/-- `SELECT created_at, id .. AND deleted_at IS NULL ORDER BY created_at DESC, id ASC LIMIT 1`. -/
def liveHead (events : EventsTable) (p : EventRow → Bool) : Option EventKey :=
  (((events.entries.filter fun e ↦ p e.2 && !e.2.deleted).map fun e ↦ e.1).insertionSort
    fun a b ↦ ¬newerKey b a).head?

/-- `UPDATE events SET deleted_at = NOW() WHERE .. AND deleted_at IS NULL`, with the triggers that
remove the read-state and mesh-status rows it touched. -/
def softDeleteWhere (events : EventsTable) (p : EventRow → Bool) : EventsTable :=
  softDelete (Map.keepEntries
    (fun _ row ↦ !(p row && !row.deleted && (row.isNipRs || row.isMeshStatus))) events)
    fun _ row ↦ p row && !row.deleted

def hardDeleteWhere (events : EventsTable) (optIn : Bool) (p : EventRow → Bool) :
    Except DbError EventsTable :=
  if !optIn && events.entries.any (fun e ↦ p e.2 && !e.2.deleted &&
      (eventKindU32 e.2.event == kindReadState && e.2.dTag.any isReadStateSlot)) then
    .error (.database "NIP-RS hard delete requires corrected writer opt-in")
  else .ok (Map.keepEntries (fun _ row ↦ !(p row && !row.deleted)) events)

end EventsTable

abbrev Watermarks := Map (Kind × PublicKey × String) EventKey

/-- The tables that a replacement reads and writes. -/
structure ReplaceDb where
  events : EventsTable := ∅
  watermarks : Watermarks := ∅

def EventRow.watermarkSlot (row : EventRow) : Option (Kind × PublicKey × String) :=
  (row.dTag.filter (Db.isNipRs row.event)).map fun dTag ↦ (row.event.kind, row.event.pubkey, dTag)

def guardNipRsWatermark (watermarks : Watermarks) (key : EventKey) (row : EventRow) :
    Except DbError (Option Watermarks) :=
  match row.watermarkSlot with
  | none => .ok (some watermarks)
  | some slot =>
    match watermarks.lookup slot with
    | none => .ok (some (AList.insert slot key watermarks))
    | some accepted =>
      if newerKey key accepted then .ok (some (AList.insert slot key watermarks))
      else if accepted = key then .ok none
      else .error (.database "stale NIP-RS event rejected by durable watermark")

namespace ReplaceDb

/-- `INSERT INTO events .. ON CONFLICT DO NOTHING`, with the number of rows as a Boolean. -/
def insertGuarded (db : ReplaceDb) (key : EventKey) (row : EventRow) :
    Except DbError (ReplaceDb × Bool) :=
  match guardNipRsWatermark db.watermarks key row with
  | .error e => .error e
  | .ok none => .ok (db, false)
  | .ok (some watermarks) =>
    if key ∈ db.events then .ok ({ db with watermarks }, false)
    else .ok (⟨AList.insert key row db.events, watermarks⟩, true)

end ReplaceDb

/-- `commit` is the answer of the database to `COMMIT`; whatever ends in `false` or in an error
was rolled back. -/
def replaceAddressableEvent (db : ReplaceDb) (event : Event) (channelId : Option Uuid)
    (commit : Except DbError Unit) : Except DbError (ReplaceDb × Bool) :=
  match createdAtOf event with
  | .error e => .error e
  | .ok createdAt =>
    let key := (createdAt, event.id)
    let p := EventRow.isAddressable event.kind event.pubkey channelId
    if (db.events.liveHead p).any (dominated key) then .ok (db, false)
    else
      match { db with events := db.events.softDeleteWhere p }.insertGuarded key
          ⟨event, channelId, extractDTag event, false⟩ with
      | .error e => .error e
      | .ok (_, false) => .ok (db, false)
      | .ok (tx, true) => commit.map fun _ ↦ (tx, true)

/-- How the superseded row of a coordinate goes. -/
def retireParameterized (events : EventsTable) (event : Event) (dTag : String)
    (p : EventRow → Bool) : Except DbError EventsTable :=
  if isNipRs event dTag || isBuzzMeshStatus event dTag then
    events.hardDeleteWhere (isNipRs event dTag) p
  else .ok (events.softDeleteWhere p)

def replaceParameterizedEvent (db : ReplaceDb) (event : Event) (dTag : String)
    (channelId : Option Uuid) (commit : Except DbError Unit) : Except DbError (ReplaceDb × Bool) :=
  match createdAtOf event with
  | .error e => .error e
  | .ok createdAt =>
    let key := (createdAt, event.id)
    let slot := (event.kind, event.pubkey, dTag)
    let p := EventRow.isParameterized event.kind event.pubkey dTag
    let existing := db.events.liveHead p
    let watermark := if isNipRs event dTag then db.watermarks.lookup slot else none
    if existing.any (dominated key) || watermark.any (dominated key) then .ok (db, false)
    else
      match if existing.isSome then retireParameterized db.events event dTag p
          else .ok db.events with
      | .error e => .error e
      | .ok events =>
        match { db with events }.insertGuarded key ⟨event, channelId, some dTag, false⟩ with
        | .error e => .error e
        | .ok (_, false) => .ok (db, false)
        | .ok (tx, true) =>
          let tx := if isNipRs event dTag then
              { tx with watermarks := AList.insert slot key tx.watermarks }
            else tx
          commit.map fun _ ↦ (tx, true)

def softDeleteByCoordinate (db : ReplaceDb) (kind : Kind) (pubkey : PublicKey) (dTag : String) :
    ReplaceDb × Bool :=
  let p := EventRow.isParameterized kind pubkey dTag
  ({ db with events := db.events.softDeleteWhere p },
    db.events.entries.any fun e ↦ p e.2 && !e.2.deleted)

def extractChannelId (event : Event) : Option Uuid := (event.tagContents "h").findSome? parseUuid

/-- An inserted event comes with the open transaction, for the handler to commit. -/
inductive PersistResult
  | duplicate
  | inserted (tx : ReplaceDb)

def persistInsert (db : ReplaceDb) (key : EventKey) (row : EventRow) :
    Except IngestError PersistResult :=
  match db.insertGuarded key row with
  | .error e => .error (.internal e)
  | .ok (_, false) => .ok .duplicate
  | .ok (tx, true) => .ok (.inserted tx)

def persistCommandEvent (db : ReplaceDb) (event : Event) (channelIdOverride : Option Uuid) :
    Except IngestError PersistResult :=
  let channelId := channelIdOverride.or (extractChannelId event)
  match createdAtOf event with
  | .error _ => .error (.rejected ("invalid: bad timestamp " ++ toString (asI64 event.createdAt)))
  | .ok createdAt =>
    let key := (createdAt, event.id)
    match extractDTag event with
    | none => persistInsert db key ⟨event, channelId, none, false⟩
    | some dTag =>
      if dTagMaxLen < dTag.utf8ByteSize then
        .error (.rejected ("invalid: d tag too long (" ++ toString dTag.utf8ByteSize ++
          " bytes, max " ++ toString dTagMaxLen ++ ")"))
      else
        let p := EventRow.isParameterized event.kind event.pubkey dTag
        let existing := db.events.liveHead p
        if existing.any (dominated key) then .ok .duplicate
        else
          let events := if existing.isSome then db.events.softDeleteWhere p else db.events
          persistInsert { db with events } key ⟨event, channelId, some dTag, false⟩

/-- The handler commits the transaction of an inserted event after its own mutations. -/
def finishCommand (db : ReplaceDb) (commit : Except DbError Unit) :
    Except IngestError PersistResult → Except IngestError (ReplaceDb × Bool)
  | .error e => .error e
  | .ok .duplicate => .ok (db, false)
  | .ok (.inserted tx) =>
    match commit with
    | .error e => .error (.internal e)
    | .ok _ => .ok (tx, true)

end Buzz.Db
