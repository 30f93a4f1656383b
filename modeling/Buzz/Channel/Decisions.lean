import Buzz.Channel.Admin

namespace Buzz.Channel

open Buzz.Lib Buzz.Nostr Buzz.Core.GitPerms

section Decisions

variable {Conn : Type} (members : List MemberRecord)

def evictNonMembers (pubkeyForConn : Conn → Option PublicKey) (conns : List Conn) : List Conn :=
  conns.filter fun conn ↦
    match pubkeyForConn conn with
    | some pubkey => !members.any fun m ↦ m.pubkey = pubkey
    | none => true

def namedMembers (displayName : PublicKey → Option String) : List (String × PublicKey) :=
  members.filterMap fun m ↦ (displayName m.pubkey).map fun name ↦ (name, m.pubkey)

def actorIsChannelOwnerOrAdmin (actor : PublicKey) : Bool :=
  members.any fun m ↦ m.pubkey = actor && (m.row.role = .owner || m.row.role = .admin)

def actorOwnsAnyOwnerAgent (users : Users) (actor : PublicKey) : Bool :=
  (members.filter fun m ↦ m.row.role = .owner).any fun m ↦ isAgentOwner users m.pubkey actor

def validateEditMetadata (users : Users) (actor : PublicKey) : Except String Unit :=
  match findMember members actor with
  | some m =>
    if m.row.role = .owner ∨ m.row.role = .admin then .ok ()
    else require (actorOwnsAnyOwnerAgent members users actor)
      "actor not authorized for name/about/archived/visibility/ttl changes"
  | none => require (actorOwnsAnyOwnerAgent members users actor)
      "actor not authorized for name/about/archived/visibility/ttl changes"

def validateDeleteEvent (users : Users) (author actor : PublicKey) : Except String Unit :=
  if actorIsChannelOwnerOrAdmin members actor then .ok ()
  else require (isAgentOwner users author actor) "must be event author or channel owner/admin"

def validateDeleteGroup (users : Users) (actor : PublicKey) : Except String Unit :=
  match findMember members actor with
  | some m =>
    if m.row.role = .owner then .ok ()
    else require (actorOwnsAnyOwnerAgent members users actor) "only owner can delete group"
  | none => require (actorOwnsAnyOwnerAgent members users actor) "only owner can delete group"

end Decisions

namespace Tables

variable (t : Tables) (channel : Uuid)

def roleIn (p : PublicKey) : Option MemberRole :=
  match t.getChannel channel with
  | .error _ => none
  | .ok _ => t.members.activeRole channel p

def ownersIn : ℕ :=
  match t.getChannel channel with
  | .error _ => 0
  | .ok _ => t.members.ownerCount channel

def activeMembers : List MemberRecord :=
  match t.getChannel channel with
  | .error _ => []
  | .ok _ =>
    ((t.members.entries.filter fun e ↦ e.1.1 = channel && e.2.active).map fun e ↦
      (⟨e.1.2, e.2⟩ : MemberRecord)).insertionSort fun a b ↦ a.row.joinedAt ≤ b.row.joinedAt

theorem getMembers_eq_take : t.getMembers channel = (t.activeMembers channel).take 1000 := by
  rw [getMembers, activeMembers]
  cases t.getChannel channel with
  | error e => rfl
  | ok record => rfl

end Tables

/-- What is decided from the members listed is what the full set of active members says: who is a
member and in which role, how many owners there are, who is evicted and who can be mentioned, and
the answers of the checks of admin events. -/
structure DecisionsMatch (t : Tables) (channel : Uuid) : Prop where
  role : ∀ p, (findMember (t.getMembers channel) p).map (fun m ↦ m.row.role) = t.roleIn channel p
  owners : (t.getMembers channel).countP (fun m ↦ m.row.role = .owner) = t.ownersIn channel
  evicted : ∀ (pubkeyForConn : ℕ → Option PublicKey) (conns : List ℕ),
    evictNonMembers (t.getMembers channel) pubkeyForConn conns =
      conns.filter fun conn ↦ !(pubkeyForConn conn).any (t.isMember channel)
  mentions : ∀ displayName name p, (name, p) ∈ namedMembers (t.getMembers channel) displayName ↔
    t.isMember channel p = true ∧ displayName p = some name
  membershipEvents : ∀ record e, validateMembershipEvent record (t.getMembers channel) t.users e =
    validateMembershipEvent record (t.activeMembers channel) t.users e
  lastOwner : ∀ p, isLastOwner (t.getMembers channel) p = isLastOwner (t.activeMembers channel) p
  editMetadata : ∀ actor, validateEditMetadata (t.getMembers channel) t.users actor =
    validateEditMetadata (t.activeMembers channel) t.users actor
  deleteEvent : ∀ author actor, validateDeleteEvent (t.getMembers channel) t.users author actor =
    validateDeleteEvent (t.activeMembers channel) t.users author actor
  deleteGroup : ∀ actor, validateDeleteGroup (t.getMembers channel) t.users actor =
    validateDeleteGroup (t.activeMembers channel) t.users actor

namespace Tables

variable {t : Tables} {channel : Uuid} {m : MemberRecord} {p : PublicKey} {role : MemberRole}

theorem mem_activeMembers : m ∈ t.activeMembers channel ↔
    (∃ record, t.getChannel channel = .ok record) ∧
      t.members.lookup (channel, m.pubkey) = some m.row ∧ m.row.active = true := by
  rw [activeMembers]
  cases t.getChannel channel with
  | error e => simp
  | ok record =>
    dsimp only
    rw [List.mem_insertionSort, List.mem_map]
    constructor
    · rintro ⟨⟨⟨c, p⟩, row⟩, hentry, rfl⟩
      obtain ⟨hmem, hcond⟩ := List.mem_filter.mp hentry
      obtain ⟨hchannel, hactive⟩ := Bool.and_eq_true_iff.mp hcond
      have hc : c = channel := of_decide_eq_true hchannel
      subst hc
      exact ⟨⟨record, rfl⟩, Map.mem_entries_iff.mp hmem, hactive⟩
    · rintro ⟨-, hlookup, hactive⟩
      refine ⟨⟨(channel, m.pubkey), m.row⟩, List.mem_filter.mpr ⟨Map.mem_entries_iff.mpr hlookup, ?_⟩,
        rfl⟩
      rw [Bool.and_eq_true]
      exact ⟨decide_eq_true rfl, hactive⟩

/-- Nobody is listed twice. -/
theorem nodup_activeMembers : ((t.activeMembers channel).map MemberRecord.pubkey).Nodup := by
  rw [activeMembers]
  cases t.getChannel channel with
  | error e => exact List.nodup_nil
  | ok record =>
    dsimp only
    have hperm := (List.perm_insertionSort
      (fun a b : MemberRecord ↦ a.row.joinedAt ≤ b.row.joinedAt) ((t.members.entries.filter fun e ↦
        e.1.1 = channel && e.2.active).map fun e ↦ (⟨e.1.2, e.2⟩ : MemberRecord))).map
          MemberRecord.pubkey
    rw [hperm.nodup_iff, List.map_map]
    refine List.Nodup.map_on (fun e he e' he' heq ↦ ?_)
      ((List.NodupKeys.nodup t.members.nodupKeys).filter _)
    have hchannel : e.1.1 = channel :=
      of_decide_eq_true (Bool.and_eq_true_iff.mp (List.mem_filter.mp he).2).1
    have hchannel' : e'.1.1 = channel :=
      of_decide_eq_true (Bool.and_eq_true_iff.mp (List.mem_filter.mp he').2).1
    exact t.members.nodupKeys.eq_of_fst_eq (List.mem_of_mem_filter he)
      (List.mem_of_mem_filter he') (Prod.ext (hchannel.trans hchannel'.symm) heq)

theorem eq_of_pubkey {m' : MemberRecord} (hm : m ∈ t.activeMembers channel)
    (hm' : m' ∈ t.activeMembers channel) (h : m.pubkey = m'.pubkey) : m = m' :=
  List.inj_on_of_nodup_map nodup_activeMembers hm hm' h

theorem roleIn_eq_some : t.roleIn channel p = some role ↔
    ∃ m ∈ t.activeMembers channel, m.pubkey = p ∧ m.row.role = role := by
  constructor
  · intro h
    rw [roleIn] at h
    cases hchannel : t.getChannel channel with
    | error e =>
      rw [hchannel] at h
      cases h
    | ok record =>
      rw [hchannel] at h
      obtain ⟨row, hlookup, hactive, hrole⟩ := Members.activeRole_eq_some.mp h
      exact ⟨⟨p, row⟩, mem_activeMembers.mpr ⟨⟨record, hchannel⟩, hlookup, hactive⟩, rfl, hrole⟩
  · rintro ⟨m, hm, rfl, rfl⟩
    obtain ⟨⟨record, hchannel⟩, hlookup, hactive⟩ := mem_activeMembers.mp hm
    rw [roleIn, hchannel]
    exact Members.activeRole_eq_some.mpr ⟨m.row, hlookup, hactive, rfl⟩

theorem isMember_iff : t.isMember channel p = true ↔
    ∃ m ∈ t.activeMembers channel, m.pubkey = p := by
  have hrole : t.isMember channel p = (t.roleIn channel p).isSome := by
    rw [isMember, roleIn]
    cases t.getChannel channel <;> rfl
  rw [hrole, Option.isSome_iff_exists]
  constructor
  · rintro ⟨role, h⟩
    obtain ⟨m, hm, hp, -⟩ := roleIn_eq_some.mp h
    exact ⟨m, hm, hp⟩
  · rintro ⟨m, hm, hp⟩
    exact ⟨m.row.role, roleIn_eq_some.mpr ⟨m, hm, hp, rfl⟩⟩

theorem findMember_activeMembers (t : Tables) (channel : Uuid) (p : PublicKey) :
    (findMember (t.activeMembers channel) p).map (fun m ↦ m.row.role) = t.roleIn channel p := by
  cases hfind : findMember (t.activeMembers channel) p with
  | none =>
    cases hrole : t.roleIn channel p with
    | none => rfl
    | some role =>
      obtain ⟨m, hm, hp, -⟩ := roleIn_eq_some.mp hrole
      exact absurd (decide_eq_true hp) (List.find?_eq_none.mp hfind m hm)
  | some m =>
    obtain ⟨hm, hp⟩ := findMember_eq_some hfind
    exact (roleIn_eq_some.mpr ⟨m, hm, hp, rfl⟩).symm

theorem countP_activeMembers (t : Tables) (channel : Uuid) :
    (t.activeMembers channel).countP (fun m ↦ m.row.role = .owner) = t.ownersIn channel := by
  rw [activeMembers, ownersIn]
  cases t.getChannel channel with
  | error e => rfl
  | ok record =>
    dsimp only
    rw [(List.perm_insertionSort _ _).countP_eq, List.countP_map, List.countP_filter,
      Members.ownerCount, Map.count]
    apply List.countP_congr
    intro e _
    simp only [Function.comp_apply, MemberRow.activeOwner]
    cases e.2.active <;> cases decide (e.1.1 = channel) <;> simp

end Tables

/-- With the full set listed, everything that is decided is right. -/
theorem decisionsMatch_of_eq {t : Tables} {channel : Uuid}
    (h : t.getMembers channel = t.activeMembers channel) : DecisionsMatch t channel where
  role p := by rw [h, Tables.findMember_activeMembers]
  owners := by rw [h, Tables.countP_activeMembers]
  evicted pubkeyForConn conns := by
    rw [h, evictNonMembers]
    apply List.filter_congr
    intro conn _
    cases pubkeyForConn conn with
    | none => rfl
    | some pubkey =>
      show (!(t.activeMembers channel).any fun m ↦ m.pubkey = pubkey) = !t.isMember channel pubkey
      congr 1
      rw [Bool.eq_iff_iff, Tables.isMember_iff, List.any_eq_true]
      simp only [decide_eq_true_eq]
  mentions displayName name p := by
    rw [h, namedMembers, List.mem_filterMap, Tables.isMember_iff]
    constructor
    · rintro ⟨m, hm, hname⟩
      obtain ⟨name', hname', heq⟩ := Option.map_eq_some_iff.mp hname
      cases heq
      exact ⟨⟨m, hm, rfl⟩, hname'⟩
    · rintro ⟨⟨m, hm, rfl⟩, hname⟩
      exact ⟨m, hm, by rw [hname]; rfl⟩
  membershipEvents record e := by rw [h]
  lastOwner p := by rw [h]
  editMetadata actor := by rw [h]
  deleteEvent author actor := by rw [h]
  deleteGroup actor := by rw [h]

/-- A member past the bound is taken for a stranger. -/
theorem length_le_of_role {t : Tables} {channel : Uuid}
    (h : ∀ p, (findMember (t.getMembers channel) p).map (fun m ↦ m.row.role) = t.roleIn channel p) :
    (t.activeMembers channel).length ≤ 1000 := by
  by_contra hlong
  have hlt : 1000 < (t.activeMembers channel).length := Nat.lt_of_not_le hlong
  have hlast := List.getElem_mem hlt
  have hrole := h (t.activeMembers channel)[1000].pubkey
  rw [Tables.roleIn_eq_some.mpr ⟨_, hlast, rfl, rfl⟩, Option.map_eq_some_iff] at hrole
  obtain ⟨m, hfind, -⟩ := hrole
  obtain ⟨hm, hp⟩ := findMember_eq_some hfind
  rw [t.getMembers_eq_take] at hm
  obtain ⟨i, hi, hget⟩ := List.getElem_of_mem hm
  rw [List.length_take] at hi
  have heq := Tables.eq_of_pubkey (List.mem_of_mem_take hm) hlast hp
  rw [← hget, List.getElem_take] at heq
  have hnodup : (t.activeMembers channel).Nodup := Tables.nodup_activeMembers.of_map _
  have hindex := hnodup.getElem_inj_iff.mp heq
  omega

/-- The decisions match exactly in a channel with a thousand active members at most. -/
theorem decisionsMatch_iff (t : Tables) (channel : Uuid) :
    DecisionsMatch t channel ↔ (t.activeMembers channel).length ≤ 1000 := by
  constructor
  · exact fun h ↦ length_le_of_role h.role
  · intro h
    exact decisionsMatch_of_eq (by rw [t.getMembers_eq_take, List.take_of_length_le h])

def memberRow : MemberRow := { role := .member, joinedAt := 0, invitedBy := none }

theorem nodup_members (n : ℕ) (hn : n ≤ 2 ^ 256) : (((List.range n).attach.map fun i ↦
    (⟨((0 : Uuid), (⟨i.1, (List.mem_range.mp i.2).trans_le hn⟩ : PublicKey)), memberRow⟩ :
      (_ : Uuid × PublicKey) × MemberRow))).NodupKeys := by
  rw [List.NodupKeys, List.keys, List.map_map]
  refine List.Nodup.map_on (fun i _ j _ heq ↦ Subtype.ext ?_) (List.nodup_attach.mpr List.nodup_range)
  exact congrArg Fin.val (Prod.ext_iff.mp heq).2

def crowd (n : ℕ) (hn : n ≤ 2 ^ 256) : Tables where
  channels := AList.singleton 0 ⟨.«open», 0, none, none⟩
  members := ⟨_, nodup_members n hn⟩
  users := ∅

theorem length_activeMembers_crowd (n : ℕ) (hn : n ≤ 2 ^ 256) :
    ((crowd n hn).activeMembers 0).length = n := by
  have hchannel : (crowd n hn).getChannel 0 = .ok ⟨.«open», 0, none, none⟩ := rfl
  rw [Tables.activeMembers, hchannel]
  dsimp only
  rw [List.length_insertionSort, List.length_map, List.filter_eq_self.mpr, crowd, List.length_map,
    List.length_attach, List.length_range]
  intro e he
  obtain ⟨i, -, rfl⟩ := List.mem_map.mp he
  rfl

theorem crowd_decisions_differ : ¬DecisionsMatch (crowd 1001 (by decide)) 0 := by
  intro h
  have hle := length_le_of_role h.role
  rw [length_activeMembers_crowd] at hle
  omega

end Buzz.Channel
