import Buzz.Lib.Attempt
import Buzz.Core.ReadGate
import Buzz.Db.Query
import Buzz.Nostr.Filter

namespace Buzz.Relay

open Buzz.Lib Buzz.Nostr Buzz.Core Buzz.Db

def extractChannelFromFilter (f : Filter) : Option Uuid :=
  (f.genericTags.lookup .h).bind fun vs ↦
    if vs.len = 1 then vs.elems.head?.bind parseUuid else none

def hChannels (f : Filter) : List Uuid :=
  f.genericTags.entries.flatMap fun entry ↦
    if entry.1.toString == "h" then entry.2.elems.filterMap parseUuid else []

/-- One filter's round in `extract_channel_id_from_filters`; `none` is its early return. -/
def scanChannels (found : Option Uuid) (f : Filter) : Option (Option Uuid) :=
  let ids := hChannels f
  if ids.isEmpty then none
  else ids.foldlM (fun found id ↦
    match found with
    | some existing => if existing ≠ id then none else some (some id)
    | none => some (some id)) found

def extractChannelIdFromFilters (filters : List Filter) : Option Uuid :=
  (filters.foldlM scanChannels none).join

/-- The filter names kinds, and only such as have a `d_tag` column. -/
def filterIsNip33Only (f : Filter) : Bool :=
  f.kinds.any fun ks ↦
    !ks.isEmpty && ks.elems.all fun k ↦ isParameterizedReplaceable k.val

variable {f : Filter} {event : Event} {channelId : Option Uuid} {indexed : Bool}
  {createdAt : DbTime} {r : IndexedRow} {stored : StoredEvent} {reader : PublicKey}

section Clauses

end Clauses

structure Kept (filters : List Filter) (f : Filter) (indexed : Bool) (stored : StoredEvent) :
    Prop where
  ownChannel : ∀ ch, extractChannelFromFilter f = some ch → stored.channelId = some ch
  commonChannel : extractChannelFromFilter f = none →
    ∀ ch, extractChannelIdFromFilters filters = some ch → stored.channelId = some ch
  until_ : ∀ u, f.until_ = some u → 2 ^ 63 ≤ u.toNat → fromTimestamp (asI64 u) = none
  mention : ∀ values p, f.genericTags.lookup .p = some values → values.elems = [p] →
    indexed = true ∧ isMentionable p = true
  address : filterIsNip33Only f = true → ∀ values, f.genericTags.lookup .d = some values →
    ∃ v, (stored.event.tagContents "d").head? = some v ∧ v ∈ values

theorem Kept.channel {filters : List Filter} (h : Kept filters f indexed stored) {ch : Uuid}
    (hch : (extractChannelFromFilter f).or (extractChannelIdFromFilters filters) = some ch) :
    stored.channelId = some ch := by
  cases hown : extractChannelFromFilter f with
  | none =>
    rw [hown, Option.none_or] at hch
    exact h.commonChannel hown ch hch
  | some own =>
    rw [hown, Option.some_or] at hch
    exact h.ownChannel ch (hown.trans hch)

def hello : Event := ⟨1, 2, 100, 1, [⟨"p", ["alice"]⟩], "hello", 0⟩

end Buzz.Relay
