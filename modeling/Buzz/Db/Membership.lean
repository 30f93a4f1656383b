import Buzz.Db.Replace

namespace Buzz.Db

open Buzz.Lib Buzz.Nostr

inductive RelayRole
  | owner
  | admin
  | member
deriving DecidableEq, Repr

def RelayRole.asStr : RelayRole → String
  | owner => "owner"
  | admin => "admin"
  | member => "member"

structure RelayMember where
  pubkey : String
  role : RelayRole
  createdAt : ℤ
deriving DecidableEq

abbrev RelayMembers := Map String (RelayRole × ℤ)

inductive RemoveResult
  | removed
  | isOwner
  | notFound
  | roleMismatch
deriving DecidableEq, Repr

inductive TransferResult
  | transferred (previousOwner : Option String)
  | alreadyOwner
  | noOwner
  | ownerConflict
  | limitReached
deriving DecidableEq, Repr

def toAsciiLowercase (s : String) : String := s.map Char.toLower

namespace RelayMembers

def rows (members : RelayMembers) : List RelayMember :=
  members.entries.map fun e ↦ ⟨e.1, e.2.1, e.2.2⟩

def addRelayMember (members : RelayMembers) (pubkey : String) (role : RelayRole) (now : ℤ) :
    RelayMembers × Bool :=
  if pubkey ∈ members then (members, false) else (AList.insert pubkey (role, now) members, true)

def removeRelayMember (members : RelayMembers) (pubkey : String) : RelayMembers × RemoveResult :=
  match members.lookup pubkey with
  | none => (members, .notFound)
  | some row =>
    if row.1 ≠ .owner then (members.erase pubkey, .removed) else (members, .isOwner)

def removeRelayMemberIfRole (members : RelayMembers) (pubkey : String)
    (expectedRole : RelayRole) : RelayMembers × RemoveResult :=
  match members.lookup pubkey with
  | none => (members, .notFound)
  | some row =>
    if row.1 = expectedRole then (members.erase pubkey, .removed)
    else (members, if row.1 = .owner then .isOwner else .roleMismatch)

def updateRelayMemberRole (members : RelayMembers) (pubkey : String) (newRole : RelayRole) :
    RelayMembers × Bool :=
  match members.lookup pubkey with
  | none => (members, false)
  | some row =>
    if row.1 ≠ .owner then (AList.insert pubkey (newRole, row.2) members, true)
    else (members, false)

def upsertOwner (members : RelayMembers) (pubkey : String) (demoted : RelayRole) (now : ℤ) :
    RelayMembers :=
  Map.mapValues
    (fun key row ↦ if row.1 = .owner ∧ key ≠ pubkey then (demoted, row.2) else row)
    (AList.insert pubkey (.owner, ((members.lookup pubkey).map Prod.snd).getD now) members)

def bootstrapOwner (members : RelayMembers) (ownerPubkey : String) (now : ℤ) : RelayMembers :=
  upsertOwner members (toAsciiLowercase ownerPubkey) .admin now

def transferOwnership (members : RelayMembers) (newOwnerPubkey expectedOwnerPubkey : String)
    (ownedCount maxCommunities : ℤ) (now : ℤ) : RelayMembers × TransferResult :=
  let pubkey := toAsciiLowercase newOwnerPubkey
  let expectedOwner := toAsciiLowercase expectedOwnerPubkey
  let existingOwners := (members.rows.filter fun m ↦ m.role = .owner).map RelayMember.pubkey
  if existingOwners = [] then (members, .noOwner)
  else if expectedOwner ∉ existingOwners then (members, .ownerConflict)
  else if existingOwners = [pubkey] then (members, .alreadyOwner)
  else if maxCommunities ≤ ownedCount then (members, .limitReached)
  else
    let previousOwner :=
      if existingOwners.length = 1 then existingOwners.head?
      else existingOwners.find? fun p ↦ p ≠ pubkey
    (upsertOwner members pubkey .member now, .transferred previousOwner)

end RelayMembers

def kindNip43MembershipList : Kind := 13534

structure RelayKeys where
  publicKey : PublicKey
  eventId : Timestamp → Kind → List Tag → String → EventId
  sign : EventId → Signature

def membershipTags (rows : List RelayMember) : List Tag :=
  ⟨"-", []⟩ :: rows.map fun row ↦ ⟨"member", [row.pubkey, row.role.asStr]⟩

def membershipEvent (keys : RelayKeys) (rows : List RelayMember) (now : Timestamp) : Event where
  id := keys.eventId now kindNip43MembershipList (membershipTags rows) ""
  pubkey := keys.publicKey
  createdAt := now
  kind := kindNip43MembershipList
  tags := membershipTags rows
  content := ""
  sig := keys.sign (keys.eventId now kindNip43MembershipList (membershipTags rows) "")

/-- The prior snapshots that a publication replaces. -/
def isMembershipList (keys : RelayKeys) (row : EventRow) : Bool :=
  row.isAddressable kindNip43MembershipList keys.publicKey none

/-- The writes of `publish_nip43_membership_locked` once the rows are read and the event is
signed; `false` means that all of it was rolled back. -/
def replaceMembershipList (keys : RelayKeys) (events : EventsTable) (event : Event) :
    Except DbError (EventsTable × Bool) :=
  match createdAtOf event with
  | .error e => .error e
  | .ok createdAt =>
    let replaced := events.softDelete fun _ row ↦ isMembershipList keys row && !row.deleted
    let inserted := replaced.insertRow createdAt event none
    if inserted.2 then .ok (inserted.1, true) else .ok (events, false)

def replacedBy (keys : RelayKeys) (events : EventsTable) (event : Event) (createdAt : DbTime) :
    EventsTable :=
  ((events.softDelete fun _ row ↦ isMembershipList keys row && !row.deleted).insertRow createdAt
    event none).1

def listedMembers (event : Event) : List (String × String) :=
  event.tags.filterMap fun tag ↦
    match tag.asSlice with
    | "member" :: pubkey :: role :: _ => some (pubkey, role)
    | _ => none

def memberPairs (rows : List RelayMember) : List (String × String) :=
  rows.map fun row ↦ (row.pubkey, row.role.asStr)

theorem listedMembers_membershipEvent (keys : RelayKeys) (rows : List RelayMember)
    (now : Timestamp) : listedMembers (membershipEvent keys rows now) = memberPairs rows := by
  have hmarker : (Tag.mk "-" []).asSlice = ["-"] := rfl
  rw [listedMembers, membershipEvent, membershipTags, List.filterMap_cons, hmarker, memberPairs]
  induction rows with
  | nil => rfl
  | cons row rows ih => rw [List.map_cons, List.filterMap_cons, List.map_cons, ← ih]; rfl

/-- The writes go through exactly when the event's key is not taken. -/
theorem replaceMembershipList_ok {keys : RelayKeys} {events : EventsTable} {event : Event}
    {createdAt : DbTime} (h : createdAtOf event = .ok createdAt) :
    replaceMembershipList keys events event =
      if (createdAt, event.id) ∈ events then .ok (events, false)
      else .ok (replacedBy keys events event createdAt, true) := by
  have hmem : (createdAt, event.id) ∈
      (events.softDelete fun _ row ↦ isMembershipList keys row && !row.deleted) ↔
        (createdAt, event.id) ∈ events := EventsTable.mem_softDelete
  simp only [replaceMembershipList, h, replacedBy, EventsTable.insertRow, hmem]
  by_cases hstored : (createdAt, event.id) ∈ events
  · simp only [if_pos hstored, Bool.false_eq_true, if_false]
  · simp only [if_neg hstored, if_true]

theorem live_replacedBy_iff {keys : RelayKeys} {events : EventsTable} {event : Event}
    {createdAt : DbTime} (hnew : (createdAt, event.id) ∉ events)
    (hlist : isMembershipList keys ⟨event, none, extractDTag event, false⟩ = true)
    {key : EventKey} {row : EventRow} :
    ((replacedBy keys events event createdAt).lookup key = some row ∧
        isMembershipList keys row = true ∧ row.deleted = false) ↔
      key = (createdAt, event.id) ∧ row = ⟨event, none, extractDTag event, false⟩ := by
  rw [replacedBy, EventsTable.lookup_insertRow]
  constructor
  · intro ⟨hrow, hmatches, hlive⟩
    split at hrow
    · next hkey => exact ⟨hkey.1, (Option.some.inj hrow).symm⟩
    · rw [EventsTable.lookup_softDelete, Option.map_eq_some_iff] at hrow
      obtain ⟨old, _, hold⟩ := hrow
      split at hold
      · rw [← hold] at hlive
        cases hlive
      · next hkept =>
        rw [hold, hmatches, hlive] at hkept
        exact absurd rfl hkept
  · rintro ⟨rfl, rfl⟩
    rw [if_pos ⟨rfl, fun hmem ↦ hnew (EventsTable.mem_softDelete.mp hmem)⟩]
    exact ⟨rfl, hlist, rfl⟩

end Buzz.Db
