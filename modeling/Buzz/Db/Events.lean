import Buzz.Core.ReadGate
import Buzz.Lib.Collections

namespace Buzz.Db

open Buzz.Lib Buzz.Nostr Buzz.Core

inductive DbError
  | authEventRejected
  | ephemeralEventRejected (kind : Kind)
  | invalidTimestamp (secs : ℤ)
  | database (message : String)
deriving DecidableEq, Repr

/-- Seconds of a `TIMESTAMPTZ`; created-at columns hold whole seconds. -/
abbrev DbTime := ℤ

def asI64 (n : UInt64) : ℤ := n.toBitVec.toInt

/-- `DateTime::from_timestamp(secs, 0)`, defined on the years that a date can have. -/
def fromTimestamp (secs : ℤ) : Option DbTime :=
  if -8334601228800 ≤ secs ∧ secs ≤ 8210266876799 then some secs else none

theorem asI64_of_lt {n : UInt64} (h : n.toNat < 2 ^ 63) : asI64 n = n.toNat := by
  apply BitVec.toInt_eq_toNat_of_lt
  have hn : n.toBitVec.toNat = n.toNat := rfl
  omega

theorem asI64_of_le {n : UInt64} (h : 2 ^ 63 ≤ n.toNat) : asI64 n = n.toNat - 2 ^ 64 := by
  have hn : n.toBitVec.toNat = n.toNat := rfl
  rw [asI64, BitVec.toInt_eq_toNat_cond, if_neg (by omega), hn]
  norm_num

theorem fromTimestamp_eq_some {secs t : ℤ} (h : fromTimestamp secs = some t) : t = secs := by
  unfold fromTimestamp at h
  split at h
  · exact (Option.some.inj h).symm
  · cases h

def createdAtOf (event : Event) : Except DbError DbTime :=
  match fromTimestamp (asI64 event.createdAt) with
  | some t => .ok t
  | none => .error (.invalidTimestamp (asI64 event.createdAt))

def kindAuth : ℕ := 22242
def kindReaction : ℕ := 7

def isEphemeral (kind : ℕ) : Bool := 20000 ≤ kind && kind ≤ 29999

def isParameterizedReplaceable (kind : ℕ) : Bool := 30000 ≤ kind && kind ≤ 39999

/-- The value of the event's first `d` tag that has one, `""` without; for parameterized kinds. -/
def extractDTag (event : Event) : Option String :=
  if isParameterizedReplaceable (eventKindU32 event) then
    some ((event.tagContents "d").head?.getD "")
  else none

/-- A row of `events`, less the columns that only search and reminders read. -/
structure EventRow where
  event : Event
  channelId : Option Uuid
  dTag : Option String
  deleted : Bool
deriving DecidableEq

/-- The rows of one community by the rest of the primary key, `(created_at, id)`. -/
abbrev EventsTable := Map (DbTime × EventId) EventRow

namespace EventsTable

def insertRow (events : EventsTable) (createdAt : DbTime) (event : Event)
    (channelId : Option Uuid) : EventsTable × Bool :=
  let key := (createdAt, event.id)
  if key ∈ events then (events, false)
  else (AList.insert key ⟨event, channelId, extractDTag event, false⟩ events, true)

/-- `UPDATE events SET deleted_at = NOW() WHERE .. AND deleted_at IS NULL`. -/
def softDelete (events : EventsTable) (p : DbTime × EventId → EventRow → Bool) : EventsTable :=
  Map.mapValues (fun key row ↦ if p key row then { row with deleted := true } else row) events

def Live (events : EventsTable) (id : EventId) : Prop :=
  ∃ t row, events.lookup (t, id) = some row ∧ row.deleted = false

theorem lookup_softDelete {events : EventsTable} {p : DbTime × EventId → EventRow → Bool}
    {key : DbTime × EventId} : (events.softDelete p).lookup key =
      (events.lookup key).map fun row ↦ if p key row then { row with deleted := true } else row :=
  Map.lookup_mapValues

theorem mem_softDelete {events : EventsTable} {p : DbTime × EventId → EventRow → Bool}
    {key : DbTime × EventId} : key ∈ events.softDelete p ↔ key ∈ events := by
  rw [← AList.lookup_isSome, ← AList.lookup_isSome, lookup_softDelete, Option.isSome_map]

theorem lookup_insertRow {events : EventsTable} {createdAt : DbTime} {event : Event}
    {channelId : Option Uuid} {key : DbTime × EventId} :
    (events.insertRow createdAt event channelId).1.lookup key =
      if key = (createdAt, event.id) ∧ key ∉ events then
        some ⟨event, channelId, extractDTag event, false⟩
      else events.lookup key := by
  unfold insertRow
  simp only
  by_cases hmem : (createdAt, event.id) ∈ events
  · rw [if_pos hmem, if_neg]
    rintro ⟨rfl, hnot⟩
    exact hnot hmem
  · rw [if_neg hmem, Map.lookup_insert_eq]
    by_cases hkey : key = (createdAt, event.id)
    · rw [if_pos hkey, if_pos ⟨hkey, hkey ▸ hmem⟩]
    · rw [if_neg hkey, if_neg fun h ↦ hkey h.1]

end EventsTable

end Buzz.Db
