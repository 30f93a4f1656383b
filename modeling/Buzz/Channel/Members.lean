import Buzz.Core.GitPerms
import Buzz.Lib.Attempt
import Buzz.Lib.Collections
import Buzz.Nostr.Event
import Mathlib.Data.List.Sort

namespace Buzz.Channel

open Buzz.Lib Buzz.Nostr Buzz.Core.GitPerms

inductive ChannelVisibility
  | «open»
  | «private»
deriving DecidableEq, Repr

structure ChannelRecord where
  visibility : ChannelVisibility
  createdBy : PublicKey
  archivedAt : Option ℤ := none
  deletedAt : Option ℤ := none
deriving DecidableEq, Repr

structure MemberRow where
  role : MemberRole
  joinedAt : ℤ
  invitedBy : Option PublicKey
  removedAt : Option ℤ := none
  removedBy : Option PublicKey := none
deriving DecidableEq, Repr

structure MemberRecord where
  pubkey : PublicKey
  row : MemberRow
deriving DecidableEq, Repr

inductive ChannelAddPolicy
  | anyone
  | ownerOnly
  | nobody
deriving DecidableEq, Repr

structure User where
  channelAddPolicy : ChannelAddPolicy
  agentOwnerPubkey : Option PublicKey
deriving DecidableEq, Repr

inductive DbError
  | channelNotFound (channel : Uuid)
  | accessDenied (msg : String)
  | memberNotFound (channel : Uuid)
deriving DecidableEq, Repr

abbrev Users := Map PublicKey User

abbrev Members := Map (Uuid × PublicKey) MemberRow

structure Tables where
  channels : Map Uuid ChannelRecord
  members : Members
  users : Users
deriving DecidableEq

def isElevated (role : MemberRole) : Bool := role = .owner || role = .admin

namespace MemberRow

def active (row : MemberRow) : Bool := row.removedAt.isNone

def activeOwner (row : MemberRow) : Bool := row.active && row.role = .owner

end MemberRow

namespace Members

def activeRole (members : Members) (channel : Uuid) (p : PublicKey) : Option MemberRole :=
  ((members.lookup (channel, p)).filter MemberRow.active).map MemberRow.role

def ownerCount (members : Members) (channel : Uuid) : ℕ :=
  Map.count (fun key row ↦ key.1 = channel && row.activeOwner) members

/-- `INSERT … ON CONFLICT DO UPDATE` of `add_member`. -/
def upsert (members : Members) (channel : Uuid) (p : PublicKey) (role : MemberRole)
    (invitedBy : Option PublicKey) (now : ℤ) : Members :=
  AList.insert (channel, p)
    (match members.lookup (channel, p) with
    | some row => { row with role := role, removedAt := none, removedBy := none }
    | none => { role := role, joinedAt := now, invitedBy := invitedBy }) members

def softRemove (members : Members) (channel : Uuid) (p removedBy : PublicKey) (now : ℤ) :
    Option Members :=
  ((members.lookup (channel, p)).filter MemberRow.active).map fun row ↦
    AList.insert (channel, p) { row with removedAt := some now, removedBy := some removedBy } members

variable {members members' : Members} {channel channel' : Uuid} {p p' removedBy : PublicKey}
  {role : MemberRole} {invitedBy : Option PublicKey} {now : ℤ}

theorem activeRole_eq_some : members.activeRole channel p = some role ↔
    ∃ row, members.lookup (channel, p) = some row ∧ row.active = true ∧ row.role = role := by
  simp only [activeRole, Option.map_eq_some_iff, Option.filter_eq_some_iff, and_assoc]

theorem lookup_upsert (members : Members) (channel : Uuid) (p : PublicKey) (role : MemberRole)
    (invitedBy : Option PublicKey) (now : ℤ) :
    ∃ row : MemberRow, row.active = true ∧ row.role = role ∧
    members.upsert channel p role invitedBy now = AList.insert (channel, p) row members := by
  unfold upsert
  cases members.lookup (channel, p) with
  | some row => exact ⟨_, rfl, rfl, rfl⟩
  | none => exact ⟨_, rfl, rfl, rfl⟩

/-- An upsert gives the role to its target, member or not, and leaves the others alone. -/
theorem activeRole_upsert : (members.upsert channel p role invitedBy now).activeRole channel' p' =
    if (channel', p') = (channel, p) then some role else members.activeRole channel' p' := by
  obtain ⟨row, hactive, hrole, hupsert⟩ :=
    lookup_upsert members channel p role invitedBy now
  rw [hupsert, activeRole, Map.lookup_insert_eq]
  split
  · rw [Option.filter_some, hactive, if_pos rfl, Option.map_some, hrole]
  · rfl

theorem softRemove_eq_some (h : members.softRemove channel p removedBy now = some members') :
    ∃ row row' : MemberRow, members.lookup (channel, p) = some row ∧ row.active = true ∧
      row'.active = false ∧ members' = AList.insert (channel, p) row' members := by
  obtain ⟨row, hrow, rfl⟩ := Option.map_eq_some_iff.mp h
  obtain ⟨hlookup, hactive⟩ := Option.filter_eq_some_iff.mp hrow
  exact ⟨row, _, hlookup, hactive, rfl, rfl⟩

theorem activeRole_softRemove (h : members.softRemove channel p removedBy now = some members') :
    members'.activeRole channel' p' =
      if (channel', p') = (channel, p) then none else members.activeRole channel' p' := by
  obtain ⟨row, row', -, -, hinactive, rfl⟩ := softRemove_eq_some h
  rw [activeRole, Map.lookup_insert_eq]
  split
  · rw [Option.filter_some, hinactive, if_neg Bool.false_ne_true, Option.map_none]
  · rfl

end Members

namespace Tables

def empty : Tables := ⟨∅, ∅, ∅⟩

def createChannel (t : Tables) (channel : Uuid) (visibility : ChannelVisibility)
    (createdBy : PublicKey) (now : ℤ) : Tables :=
  { t with
    channels := AList.insert channel ⟨visibility, createdBy, none, none⟩ t.channels
    members := t.members.upsert channel createdBy .owner (some createdBy) now }

def getChannel (t : Tables) (channel : Uuid) : Except DbError ChannelRecord :=
  okOr ((t.channels.lookup channel).filter fun c ↦ c.deletedAt.isNone) (.channelNotFound channel)

def getMembers (t : Tables) (channel : Uuid) : List MemberRecord :=
  match t.getChannel channel with
  | .error _ => []
  | .ok _ =>
    (((t.members.entries.filter fun e ↦ e.1.1 = channel && e.2.active).map fun e ↦
      (⟨e.1.2, e.2⟩ : MemberRecord)).insertionSort fun a b ↦ a.row.joinedAt ≤ b.row.joinedAt).take 1000

def isMember (t : Tables) (channel : Uuid) (p : PublicKey) : Bool :=
  match t.getChannel channel with
  | .error _ => false
  | .ok _ => (t.members.activeRole channel p).isSome

theorem activeRole_of_mem_getMembers {t : Tables} {channel : Uuid} {m : MemberRecord}
    (h : m ∈ t.getMembers channel) :
    t.members.activeRole channel m.pubkey = some m.row.role := by
  unfold getMembers at h
  split at h
  · cases h
  · have hsorted := (List.mem_insertionSort _).mp (List.mem_of_mem_take h)
    obtain ⟨⟨key, row⟩, hentry, rfl⟩ := List.mem_map.mp hsorted
    obtain ⟨hmem, hcond⟩ := List.mem_filter.mp hentry
    obtain ⟨hchannel, hactive⟩ := (Bool.and_eq_true _ _).mp hcond
    refine Members.activeRole_eq_some.mpr ⟨row, ?_, hactive, rfl⟩
    rw [← of_decide_eq_true hchannel]
    exact Map.mem_entries_iff.mp hmem

end Tables

def isAgentOwner (users : Users) (target actor : PublicKey) : Bool :=
  (users.lookup target).any fun user ↦ user.agentOwnerPubkey = some actor

structure Add where
  channel : Uuid
  pubkey : PublicKey
  role : MemberRole
  invitedBy : Option PublicKey
deriving DecidableEq, Repr

def Add.effectiveRole (a : Add) (channel : ChannelRecord)
    (roleOf : PublicKey → Option MemberRole) : Except DbError MemberRole :=
  match channel.visibility with
  | .«private» => do
    let inviter ← okOr a.invitedBy (.accessDenied "private channel requires an invite")
    if inviter = a.pubkey ∧ inviter = channel.createdBy then .ok a.role
    else
      let inviterRole ← okOr (roleOf inviter) (.accessDenied "inviter is not an active member")
      if isElevated a.role ∧ ¬isElevated inviterRole then
        .error (.accessDenied "only owners/admins may grant elevated roles")
      else .ok a.role
  | .«open» =>
    if isElevated a.role then
      match a.invitedBy.bind roleOf with
      | some .owner => .ok a.role
      | some .admin => .ok a.role
      | _ => .error (.accessDenied "only owners/admins may grant elevated roles")
    else .ok a.role

def Add.Granted (a : Add) (channel : ChannelRecord) (roleOf : PublicKey → Option MemberRole) : Prop :=
  match channel.visibility with
  | .«private» => ∃ inviter, a.invitedBy = some inviter ∧
      ((inviter = a.pubkey ∧ inviter = channel.createdBy) ∨
        ∃ r, roleOf inviter = some r ∧ (isElevated a.role = true → isElevated r = true))
  | .«open» => isElevated a.role = true →
      ∃ inviter r, a.invitedBy = some inviter ∧ roleOf inviter = some r ∧ isElevated r = true

theorem Add.effectiveRole_eq_ok {a : Add} {channel : ChannelRecord}
    {roleOf : PublicKey → Option MemberRole} {role : MemberRole} :
    a.effectiveRole channel roleOf = .ok role ↔ a.role = role ∧ a.Granted channel roleOf := by
  unfold effectiveRole Granted
  cases channel.visibility with
  | «private» =>
    simp only [bind_eq_ok, okOr_eq_ok]
    rw [← exists_and_left]
    refine exists_congr fun inviter ↦ ?_
    rw [and_left_comm]
    refine and_congr_right fun _ ↦ ?_
    by_cases hboot : inviter = a.pubkey ∧ inviter = channel.createdBy
    · rw [if_pos hboot, Except.ok.injEq]
      exact ⟨fun h ↦ ⟨h, .inl hboot⟩, fun h ↦ h.1⟩
    · rw [if_neg hboot]
      simp only [bind_eq_ok, okOr_eq_ok, ite_error_eq_ok, Except.ok.injEq, not_and, not_not]
      constructor
      · rintro ⟨r, hr, hup, rfl⟩
        exact ⟨rfl, .inr ⟨r, hr, hup⟩⟩
      · rintro ⟨rfl, hor⟩
        obtain ⟨r, hr, hup⟩ := hor.resolve_left hboot
        exact ⟨r, hr, hup, rfl⟩
  | «open» =>
    by_cases hup : isElevated a.role = true
    · simp only [hup, true_implies]
      cases hinv : a.invitedBy with
      | none => simp
      | some inviter =>
        cases hrole : roleOf inviter with
        | none => simp [hrole]
        | some r => cases r <;> simp [hrole, isElevated]
    · rw [if_neg hup, Except.ok.injEq]
      exact ⟨fun h ↦ ⟨h, fun h' ↦ (hup h').elim⟩, fun h ↦ h.1⟩

def Tables.addMember (t : Tables) (a : Add) (now : ℤ) : Except DbError Tables := do
  let channel ← t.getChannel a.channel
  let role ← a.effectiveRole channel (t.members.activeRole a.channel)
  return { t with members := t.members.upsert a.channel a.pubkey role a.invitedBy now }

theorem Tables.addMember_eq_ok {t t' : Tables} {a : Add} {now : ℤ} : t.addMember a now = .ok t' ↔
    ∃ channel, t.getChannel a.channel = .ok channel ∧
      a.Granted channel (t.members.activeRole a.channel) ∧
      { t with members := t.members.upsert a.channel a.pubkey a.role a.invitedBy now } = t' := by
  simp only [addMember, bind_eq_ok, Add.effectiveRole_eq_ok, pure, Except.pure, Except.ok.injEq]
  constructor
  · rintro ⟨channel, hchannel, role, ⟨rfl, hgranted⟩, rfl⟩
    exact ⟨channel, hchannel, hgranted, rfl⟩
  · rintro ⟨channel, hchannel, hgranted, rfl⟩
    exact ⟨channel, hchannel, a.role, ⟨rfl, hgranted⟩, rfl⟩

/-- The arguments of `remove_member`. -/
structure Removal where
  channel : Uuid
  pubkey : PublicKey
  actorPubkey : PublicKey
deriving DecidableEq, Repr

def Removal.checkActor (r : Removal) (actorRole : Option MemberRole) (isAgentOwner : Bool) :
    Except DbError Unit :=
  if r.pubkey = r.actorPubkey then .ok ()
  else do
    let role ← okOr actorRole (.accessDenied "actor is not an active member")
    if ¬isElevated role ∧ ¬isAgentOwner then
      .error (.accessDenied "only owners/admins or the agent's owner may remove other members")

def checkLastOwner (targetRole : Option MemberRole) (ownerCount : ℕ) : Except DbError Unit :=
  if targetRole = some .owner ∧ ownerCount ≤ 1 then
    .error (.accessDenied "cannot remove the last owner — transfer ownership first")
  else .ok ()

def Tables.removeMember (t : Tables) (r : Removal) (now : ℤ) : Except DbError Tables := do
  r.checkActor (t.members.activeRole r.channel r.actorPubkey)
    (isAgentOwner t.users r.pubkey r.actorPubkey)
  checkLastOwner (t.members.activeRole r.channel r.pubkey) (t.members.ownerCount r.channel)
  let members ← okOr (t.members.softRemove r.channel r.pubkey r.actorPubkey now)
    (.memberNotFound r.channel)
  return { t with members := members }

theorem Removal.checkActor_eq_ok {r : Removal} {actorRole : Option MemberRole} {owns : Bool}
    {u : Unit} (h : r.checkActor actorRole owns = .ok u) : r.pubkey = r.actorPubkey ∨
      ∃ role, actorRole = some role ∧ (isElevated role = true ∨ owns = true) := by
  unfold checkActor at h
  split at h
  · next hself => exact .inl hself
  · obtain ⟨role, hrole, hcheck⟩ := bind_eq_ok.mp h
    refine .inr ⟨role, okOr_eq_ok.mp hrole, ?_⟩
    have hnot := (ite_error_eq_ok.mp hcheck).1
    tauto

theorem Tables.removeMember_eq_ok {t t' : Tables} {r : Removal} {now : ℤ}
    (h : t.removeMember r now = .ok t') :
    (r.pubkey = r.actorPubkey ∨
      ∃ role, t.members.activeRole r.channel r.actorPubkey = some role ∧
        (isElevated role = true ∨ isAgentOwner t.users r.pubkey r.actorPubkey = true)) ∧
    ∃ members', t.members.softRemove r.channel r.pubkey r.actorPubkey now = some members' ∧
      t' = { t with members := members' } := by
  simp only [removeMember, bind_eq_ok, okOr_eq_ok] at h
  obtain ⟨_, hactor, _, _, members', hremove, hpure⟩ := h
  exact ⟨r.checkActor_eq_ok hactor, members', hremove, (Except.ok.inj hpure).symm⟩

end Buzz.Channel
