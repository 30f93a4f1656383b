import Buzz.Db.Membership

namespace Buzz.Db

open Buzz.Lib Buzz.Lib.Hex Buzz.Nostr Buzz.Core

/-- What `insert_mentions` takes for a public key: 64 hex digits of either case. -/
def isMentionable (pk : String) : Bool := pk.toList.length = 64 && pk.toList.all isHexDigit

structure IndexedRow where
  row : EventRow
  mentions : List String
deriving DecidableEq

def rowToStoredEvent (createdAt : DbTime) (r : IndexedRow) : Option StoredEvent :=
  if 0 ≤ createdAt then
    some ⟨{ r.row.event with createdAt := UInt64.ofNat createdAt.toNat }, r.row.channelId⟩
  else none

structure EventQuery where
  channelId : Option Uuid := none
  kinds : Option (List ℕ) := none
  pubkey : Option PublicKey := none
  since : Option DbTime := none
  until_ : Option DbTime := none
  limit : Option ℤ := none
  offset : Option ℤ := none
  pTagHex : Option String := none
  dTag : Option String := none
  dTags : Option (List String) := none
  beforeId : Option EventId := none
  globalOnly : Bool := false
  authors : Option (List PublicKey) := none
  ids : Option (List EventId) := none
  eTags : Option (List String) := none
  channelIds : Option (List Uuid) := none
  maxLimit : Option ℤ := none
  personaReader : Option PublicKey := none

namespace EventQuery

def inClause {α : Type} [BEq α] (values : Option (List α)) (column : α) : Bool :=
  values.all fun vs ↦ vs.isEmpty || vs.contains column

end EventQuery

end Buzz.Db
