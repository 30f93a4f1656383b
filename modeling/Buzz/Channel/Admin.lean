import Buzz.Channel.Members

namespace Buzz.Channel

open Buzz.Lib Buzz.Nostr Buzz.Core.GitPerms

def kindNip29PutUser : Kind := 9000
def kindNip29RemoveUser : Kind := 9001
def kindNip29JoinRequest : Kind := 9021
def kindNip29LeaveRequest : Kind := 9022

def extractTagValue (e : Event) (tagName : String) : Option String :=
  (e.tags.find? fun t ↦ t.kind == tagName).bind Tag.content

def extractHTagChannel (e : Event) : Option Uuid := (e.tagContents "h").findSome? parseUuid

def extractPTag (e : Event) : Option PublicKey := (e.tagContents "p").findSome? hexDecode

def extractRole (e : Event) : Except String MemberRole :=
  let roleStr := (extractTagValue e "role").getD "member"
  okOr (MemberRole.parse roleStr) ("invalid role: " ++ roleStr)

def findMember (members : List MemberRecord) (p : PublicKey) : Option MemberRecord :=
  members.find? fun m ↦ m.pubkey = p

theorem findMember_eq_some {members : List MemberRecord} {p : PublicKey} {m : MemberRecord}
    (h : findMember members p = some m) : m ∈ members ∧ m.pubkey = p :=
  ⟨List.mem_of_find?_eq_some h,
    of_decide_eq_true (List.find?_some (p := fun m : MemberRecord ↦ decide (m.pubkey = p)) h)⟩

def isLastOwner (members : List MemberRecord) (p : PublicKey) : Bool :=
  (members.any fun m ↦ m.pubkey = p && m.row.role = .owner) &&
    decide ((members.countP fun m ↦ m.row.role = .owner) ≤ 1)

def checkAddPolicy (users : Users) (target actor : PublicKey) : Except String Unit :=
  match users.lookup target with
  | none => .ok ()
  | some user =>
    match user.channelAddPolicy with
    | .anyone => .ok ()
    | .ownerOnly => do
      let owner ← okOr user.agentOwnerPubkey "policy:owner_only — agent has no owner set"
      require (actor = owner) "policy:owner_only — only the agent owner can add this agent"
    | .nobody => .error "policy:nobody — this agent has disabled external channel additions"

def validatePutUser (channel : ChannelRecord) (members : List MemberRecord) (users : Users)
    (e : Event) : Except String Unit := do
  let role ← extractRole e
  if channel.visibility = .«private» then
    let actor ← okOr (findMember members e.pubkey) "actor not authorized"
    require (isElevated role → isElevated actor.row.role)
      "only owners/admins may grant elevated roles"
  let target ← okOr (extractPTag e) "missing p tag"
  if target = e.pubkey then .ok () else checkAddPolicy users target e.pubkey

def validateLeaveRequest (members : List MemberRecord) (actor : PublicKey) : Except String Unit :=
  match findMember members actor with
  | none => .error "actor is not an active member"
  | some m =>
    if m.row.role = .owner ∧ (members.countP fun m ↦ m.row.role = .owner) ≤ 1 then
      .error "cannot remove the last owner"
    else .ok ()

def validateRemoveUser (members : List MemberRecord) (users : Users) (e : Event) :
    Except String Unit := do
  let target ← okOr (extractPTag e) "missing p tag"
  if target = e.pubkey then validateLeaveRequest members e.pubkey
  else
    match findMember members e.pubkey with
    | none => .error "actor not authorized"
    | some m =>
      if m.row.role = .owner ∨ m.row.role = .admin then .ok ()
      else require (isAgentOwner users target e.pubkey) "actor not authorized"

def validateMembershipEvent (channel : ChannelRecord) (members : List MemberRecord) (users : Users)
    (e : Event) : Except String Unit :=
  if channel.archivedAt.isSome then .error "channel is archived"
  else if e.kind = kindNip29PutUser then validatePutUser channel members users e
  else if e.kind = kindNip29RemoveUser then validateRemoveUser members users e
  else if e.kind = kindNip29LeaveRequest then validateLeaveRequest members e.pubkey
  else .ok ()

inductive HandlerError
  | msg (text : String)
  | db (err : DbError)
deriving DecidableEq, Repr

/-- What a handler asks of the database, after its own checks. -/
inductive Change
  | add (a : Add)
  | remove (r : Removal)
  | skip
deriving DecidableEq, Repr

/-- What a handler has read before: the channel, its members, and whether the membership cache or
the table has the actor as a member. -/
structure Reads where
  channel : Except DbError ChannelRecord
  members : List MemberRecord
  isMemberCached : Bool

def handlePutUser (e : Event) : Except HandlerError Change := do
  let channel ← okOr (extractHTagChannel e) (.msg "missing h tag")
  let target ← okOr (extractPTag e) (.msg "missing p tag")
  let role ← (extractRole e).mapError .msg
  return .add ⟨channel, target, role, some e.pubkey⟩

def handleRemoveUser (reads : Reads) (e : Event) : Except HandlerError Change := do
  let channel ← okOr (extractHTagChannel e) (.msg "missing h tag")
  let target ← okOr (extractPTag e) (.msg "missing p tag")
  require (target = e.pubkey → isLastOwner reads.members e.pubkey = false)
    (.msg "cannot remove the last owner — transfer ownership first")
  return .remove ⟨channel, target, e.pubkey⟩

def handleJoinRequest (reads : Reads) (e : Event) : Except HandlerError Change := do
  let channel ← okOr (extractHTagChannel e) (.msg "missing h tag")
  let record ← reads.channel.mapError fun _ ↦ .msg "channel not found"
  require (record.visibility = .«open») (.msg "channel is private — request an invitation")
  if reads.isMemberCached then return .skip
  return .add ⟨channel, e.pubkey, .member, none⟩

def handleLeaveRequest (reads : Reads) (e : Event) : Except HandlerError Change := do
  let channel ← okOr (extractHTagChannel e) (.msg "missing h tag")
  require (isLastOwner reads.members e.pubkey = false)
    (.msg "cannot remove the last owner — transfer ownership first")
  return .remove ⟨channel, e.pubkey, e.pubkey⟩

def handleSideEffects (reads : Reads) (e : Event) : Except HandlerError Change :=
  if e.kind = kindNip29PutUser then handlePutUser e
  else if e.kind = kindNip29RemoveUser then handleRemoveUser reads e
  else if e.kind = kindNip29JoinRequest then handleJoinRequest reads e
  else if e.kind = kindNip29LeaveRequest then handleLeaveRequest reads e
  else .ok .skip

namespace Tables

def validateAdminEvent (t : Tables) (e : Event) : Except String Unit := do
  let channel ← okOr (extractHTagChannel e) "missing or invalid h tag"
  let record ← (t.getChannel channel).mapError fun _ ↦ "channel not found"
  validateMembershipEvent record (t.getMembers channel) t.users e

/-- What the handler of an event reads; `cached` is the entry of the membership cache. -/
def reads (t : Tables) (e : Event) (cached : Option Bool) : Reads :=
  let channel := (extractHTagChannel e).getD 0
  ⟨t.getChannel channel, t.getMembers channel, cached.getD (t.isMember channel e.pubkey)⟩

def apply (t : Tables) (now : ℤ) : Change → Except DbError Tables
  | .add a => t.addMember a now
  | .remove r => t.removeMember r now
  | .skip => .ok t

def handle (t : Tables) (e : Event) (cached : Option Bool) (now : ℤ) :
    Except HandlerError Tables := do
  let change ← handleSideEffects (t.reads e cached) e
  (t.apply now change).mapError .db

/-- The membership rows after an event without others in between. -/
def execute (t : Tables) (e : Event) (cached : Option Bool) (now : ℤ) : Tables :=
  match t.validateAdminEvent e with
  | .error _ => t
  | .ok _ =>
    match t.handle e cached now with
    | .error _ => t
    | .ok t' => t'

end Tables

inductive Adds (t : Tables) (e : Event) (cached : Option Bool) : Add → Prop
  | put {channel : Uuid} {target : PublicKey} {role : MemberRole} :
      e.kind = kindNip29PutUser → extractHTagChannel e = some channel →
      extractPTag e = some target → extractRole e = .ok role →
      Adds t e cached ⟨channel, target, role, some e.pubkey⟩
  | join {channel : Uuid} {record : ChannelRecord} :
      e.kind = kindNip29JoinRequest → extractHTagChannel e = some channel →
      t.getChannel channel = .ok record → record.visibility = .«open» →
      cached.getD (t.isMember channel e.pubkey) = false →
      Adds t e cached ⟨channel, e.pubkey, .member, none⟩

variable {t t' : Tables} {e : Event} {cached : Option Bool} {a : Add} {r : Removal}

theorem handlePutUser_eq_ok {change : Change} : handlePutUser e = .ok change ↔
    ∃ channel target role, extractHTagChannel e = some channel ∧ extractPTag e = some target ∧
      extractRole e = .ok role ∧ .add ⟨channel, target, role, some e.pubkey⟩ = change := by
  simp only [handlePutUser, bind_eq_ok, okOr_eq_ok, mapError_eq_ok, pure, Except.pure,
    Except.ok.injEq]
  constructor
  · rintro ⟨channel, hchannel, target, htarget, role, hrole, rfl⟩
    exact ⟨channel, target, role, hchannel, htarget, hrole, rfl⟩
  · rintro ⟨channel, target, role, hchannel, htarget, hrole, rfl⟩
    exact ⟨channel, hchannel, target, htarget, role, hrole, rfl⟩

theorem handleJoinRequest_eq_add {reads : Reads} : handleJoinRequest reads e = .ok (.add a) ↔
    ∃ channel record, extractHTagChannel e = some channel ∧ reads.channel = .ok record ∧
      record.visibility = .«open» ∧ reads.isMemberCached = false ∧
      a = ⟨channel, e.pubkey, .member, none⟩ := by
  simp only [handleJoinRequest, bind_eq_ok, okOr_eq_ok, mapError_eq_ok, require_eq_ok]
  constructor
  · rintro ⟨channel, hchannel, record, hrecord, -, hopen, hadd⟩
    split at hadd
    · cases hadd
    · next hcached =>
      refine ⟨channel, record, hchannel, hrecord, hopen, Bool.eq_false_iff.mpr hcached, ?_⟩
      cases hadd
      rfl
  · rintro ⟨channel, record, hchannel, hrecord, hopen, hcached, rfl⟩
    refine ⟨channel, hchannel, record, hrecord, ⟨⟩, hopen, ?_⟩
    rw [hcached]
    rfl

theorem handleRemoveUser_eq_ok {reads : Reads} {change : Change}
    (h : handleRemoveUser reads e = .ok change) :
    ∃ channel target, change = .remove ⟨channel, target, e.pubkey⟩ := by
  simp only [handleRemoveUser, bind_eq_ok] at h
  obtain ⟨channel, -, target, -, -, -, hpure⟩ := h
  exact ⟨channel, target, (Except.ok.inj hpure).symm⟩

theorem handleLeaveRequest_eq_ok {reads : Reads} {change : Change}
    (h : handleLeaveRequest reads e = .ok change) :
    ∃ channel, change = .remove ⟨channel, e.pubkey, e.pubkey⟩ := by
  simp only [handleLeaveRequest, bind_eq_ok] at h
  obtain ⟨channel, -, -, -, hpure⟩ := h
  exact ⟨channel, (Except.ok.inj hpure).symm⟩

theorem reads_channel {channel : Uuid} (h : extractHTagChannel e = some channel) :
    (t.reads e cached).channel = t.getChannel channel ∧
      (t.reads e cached).isMemberCached = cached.getD (t.isMember channel e.pubkey) := by
  rw [Tables.reads, h]
  exact ⟨rfl, rfl⟩

theorem handleSideEffects_eq_add :
    handleSideEffects (t.reads e cached) e = .ok (.add a) ↔ Adds t e cached a := by
  unfold handleSideEffects
  constructor
  · intro h
    split_ifs at h with hput hremove hjoin hleave
    · obtain ⟨channel, target, role, hchannel, htarget, hrole, heq⟩ := handlePutUser_eq_ok.mp h
      cases heq
      exact .put hput hchannel htarget hrole
    · obtain ⟨channel, target, heq⟩ := handleRemoveUser_eq_ok h
      cases heq
    · obtain ⟨channel, record, hchannel, hrecord, hopen, hcached, rfl⟩ :=
        handleJoinRequest_eq_add.mp h
      rw [(reads_channel hchannel).1] at hrecord
      rw [(reads_channel hchannel).2] at hcached
      exact .join hjoin hchannel hrecord hopen hcached
    · obtain ⟨channel, heq⟩ := handleLeaveRequest_eq_ok h
      cases heq
    · cases h
  · intro h
    cases h with
    | put hkind hchannel htarget hrole =>
      rw [if_pos hkind, handlePutUser_eq_ok]
      exact ⟨_, _, _, hchannel, htarget, hrole, rfl⟩
    | join hkind hchannel hrecord hopen hcached =>
      rw [if_neg (by rw [hkind]; decide), if_neg (by rw [hkind]; decide), if_pos hkind,
        handleJoinRequest_eq_add]
      refine ⟨_, _, hchannel, ?_, hopen, ?_, rfl⟩
      · rw [(reads_channel hchannel).1, hrecord]
      · rw [(reads_channel hchannel).2, hcached]

theorem actor_of_handleSideEffects {reads : Reads} (h : handleSideEffects reads e = .ok (.remove r)) :
    r.actorPubkey = e.pubkey := by
  unfold handleSideEffects at h
  split_ifs at h with hput hremove hjoin hleave
  · obtain ⟨channel, target, role, -, -, -, heq⟩ := handlePutUser_eq_ok.mp h
    cases heq
  · obtain ⟨channel, target, heq⟩ := handleRemoveUser_eq_ok h
    cases heq
    rfl
  · simp only [handleJoinRequest, bind_eq_ok] at h
    obtain ⟨channel, -, record, -, -, -, hadd⟩ := h
    split at hadd <;> cases hadd
  · obtain ⟨channel, heq⟩ := handleLeaveRequest_eq_ok h
    cases heq
    rfl
  · cases h

end Buzz.Channel
