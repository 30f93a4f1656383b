import Buzz.Channel.Admin

namespace Buzz.Channel

open Buzz.Lib Buzz.Nostr Buzz.Core.GitPerms

def Tables.ElevatedIn (t : Tables) (channel : Uuid) (p : PublicKey) : Prop :=
  ∃ role, t.members.activeRole channel p = some role ∧ isElevated role = true

structure RoleChangesAuthorized (t t' : Tables) (actor : PublicKey) : Prop where
  others : ∀ channel p role, p ≠ actor → t.members.activeRole channel p = some role →
    t'.members.activeRole channel p ≠ some role → t.ElevatedIn channel actor ∨
      (t'.members.activeRole channel p = none ∧ isAgentOwner t.users p actor = true)
  own : ∀ channel role role', t.members.activeRole channel actor = some role →
    t'.members.activeRole channel actor = some role' →
      role'.permissionLevel ≤ role.permissionLevel

/-- The events whose upsert rewrites an active role without authority: kind 9000 that gives another
member another role although the actor is neither owner nor admin, kind 9000 that gives the actor a
higher role, and kind 9021 of an active guest or bot whom the membership cache still has as absent. -/
inductive Overreaches (t : Tables) (e : Event) (cached : Option Bool) : Prop
  | putOther {channel : Uuid} {target : PublicKey} {role old : MemberRole} :
      e.kind = kindNip29PutUser → extractHTagChannel e = some channel →
      extractPTag e = some target → extractRole e = .ok role →
      t.members.activeRole channel target = some old → target ≠ e.pubkey → old ≠ role →
      isElevated role = false → ¬t.ElevatedIn channel e.pubkey → Overreaches t e cached
  | putSelf {channel : Uuid} {role old : MemberRole} :
      e.kind = kindNip29PutUser → extractHTagChannel e = some channel →
      extractPTag e = some e.pubkey → extractRole e = .ok role →
      t.members.activeRole channel e.pubkey = some old →
      old.permissionLevel < role.permissionLevel →
      (isElevated role = true → isElevated old = true) → Overreaches t e cached
  | join {channel : Uuid} {record : ChannelRecord} {old : MemberRole} :
      e.kind = kindNip29JoinRequest → extractHTagChannel e = some channel →
      t.getChannel channel = .ok record → record.visibility = .«open» → cached = some false →
      t.members.activeRole channel e.pubkey = some old →
      old.permissionLevel < MemberRole.member.permissionLevel → Overreaches t e cached

variable {t t' : Tables} {e : Event} {cached : Option Bool} {a : Add} {r : Removal} {now : ℤ}
  {actor : PublicKey}

theorem RoleChangesAuthorized.refl : RoleChangesAuthorized t t actor where
  others _ _ _ _ hrole hne := (hne hrole).elim
  own _ role role' hrole hrole' := by
    rw [hrole] at hrole'
    rw [Option.some.inj hrole']

/-- An addition respects authority just in case what it does to an active member does. -/
theorem authorized_addMember_iff (h : t.addMember a now = .ok t') :
    RoleChangesAuthorized t t' actor ↔
      ∀ old, t.members.activeRole a.channel a.pubkey = some old →
        (a.pubkey ≠ actor → old ≠ a.role → t.ElevatedIn a.channel actor) ∧
          (a.pubkey = actor → a.role.permissionLevel ≤ old.permissionLevel) := by
  obtain ⟨channel, -, -, rfl⟩ := Tables.addMember_eq_ok.mp h
  constructor
  · intro hauth old hold
    constructor
    · intro hother hne
      have hchanged : (t.members.upsert a.channel a.pubkey a.role a.invitedBy now).activeRole
          a.channel a.pubkey = some a.role := by
        rw [Members.activeRole_upsert, if_pos rfl]
      refine (hauth.others a.channel a.pubkey old hother hold ?_).resolve_right ?_
      · rw [hchanged]
        exact fun heq ↦ hne (Option.some.inj heq).symm
      · rintro ⟨hnone, -⟩
        change Members.activeRole _ _ _ = _ at hnone
        rw [hchanged] at hnone
        cases hnone
    · rintro rfl
      apply hauth.own a.channel old a.role hold
      rw [Members.activeRole_upsert, if_pos rfl]
  · intro hadd
    refine ⟨fun channel' p role hother hrole hne ↦ ?_, fun channel' role role' hrole hrole' ↦ ?_⟩
    · change Members.activeRole _ _ _ ≠ _ at hne
      rw [Members.activeRole_upsert] at hne
      split at hne
      · next heq =>
        obtain ⟨rfl, rfl⟩ := Prod.mk.inj heq
        exact .inl ((hadd role hrole).1 hother fun heq' ↦ hne (congrArg some heq').symm)
      · exact (hne hrole).elim
    · change Members.activeRole _ _ _ = _ at hrole'
      rw [Members.activeRole_upsert] at hrole'
      split at hrole'
      · next heq =>
        obtain ⟨rfl, rfl⟩ := Prod.mk.inj heq
        rw [← Option.some.inj hrole']
        exact (hadd role hrole).2 rfl
      · rw [hrole] at hrole'
        rw [Option.some.inj hrole']

theorem authorized_removeMember (h : t.removeMember r now = .ok t') :
    RoleChangesAuthorized t t' r.actorPubkey := by
  obtain ⟨hactor, members', hremove, rfl⟩ := Tables.removeMember_eq_ok h
  refine ⟨fun channel p role hother hrole hne ↦ ?_, fun channel role role' hrole hrole' ↦ ?_⟩
  · change members'.activeRole channel p ≠ _ at hne
    change _ ∨ members'.activeRole channel p = _ ∧ _
    rw [Members.activeRole_softRemove hremove] at hne ⊢
    split at hne
    · next heq =>
      obtain ⟨rfl, rfl⟩ := Prod.mk.inj heq
      obtain ⟨role', hrole', hup | howns⟩ := hactor.resolve_left hother
      · exact .inl ⟨role', hrole', hup⟩
      · exact .inr ⟨if_pos rfl, howns⟩
    · exact (hne hrole).elim
  · change members'.activeRole channel _ = _ at hrole'
    rw [Members.activeRole_softRemove hremove] at hrole'
    split at hrole'
    · cases hrole'
    · rw [hrole] at hrole'
      rw [Option.some.inj hrole']

/-- What validation has found out about a kind 9000 event. -/
theorem validatePutUser_of_valid (hvalid : t.validateAdminEvent e = .ok ())
    (hkind : e.kind = kindNip29PutUser) {channel : Uuid}
    (hchannel : extractHTagChannel e = some channel) {role : MemberRole}
    (hrole : extractRole e = .ok role) :
    ∃ record, t.getChannel channel = .ok record ∧ (record.visibility = .«private» →
      ∃ actorRole, t.members.activeRole channel e.pubkey = some actorRole ∧
        (isElevated role = true → isElevated actorRole = true)) := by
  simp only [Tables.validateAdminEvent, bind_eq_ok, okOr_eq_ok, mapError_eq_ok] at hvalid
  obtain ⟨channel', hchannel', record, hrecord, hmembership⟩ := hvalid
  obtain rfl : channel = channel' := Option.some.inj (hchannel.symm.trans hchannel')
  refine ⟨record, hrecord, fun hprivate ↦ ?_⟩
  rw [validateMembershipEvent, ite_error_eq_ok, if_pos hkind] at hmembership
  simp only [validatePutUser, bind_eq_ok, okOr_eq_ok, hprivate, if_true] at hmembership
  obtain ⟨-, role', hrole', m, hm, _, hup, -⟩ := hmembership
  obtain rfl : role = role' := Except.ok.inj (hrole.symm.trans hrole')
  rw [require_eq_ok] at hup
  obtain ⟨hmem, hpubkey⟩ := findMember_eq_some hm
  have hactive := Tables.activeRole_of_mem_getMembers hmem
  rw [hpubkey] at hactive
  exact ⟨m.row.role, hactive, hup⟩

def Rewrites (t : Tables) (a : Add) (actor : PublicKey) : Prop :=
  ∃ old, t.members.activeRole a.channel a.pubkey = some old ∧
    ((a.pubkey ≠ actor ∧ old ≠ a.role ∧ ¬t.ElevatedIn a.channel actor) ∨
      (a.pubkey = actor ∧ old.permissionLevel < a.role.permissionLevel))

theorem authorized_addMember_iff_not_rewrites (h : t.addMember a now = .ok t') :
    RoleChangesAuthorized t t' actor ↔ ¬Rewrites t a actor := by
  rw [authorized_addMember_iff h]
  constructor
  · rintro hauth ⟨old, hold, ⟨hother, hne, hnot⟩ | ⟨hself, hlt⟩⟩
    · exact hnot ((hauth old hold).1 hother hne)
    · have hle := (hauth old hold).2 hself
      omega
  · intro hnot old hold
    constructor
    · intro hother hne
      by_contra hnotElevated
      exact hnot ⟨old, hold, .inl ⟨hother, hne, hnotElevated⟩⟩
    · intro hself
      by_contra hle
      exact hnot ⟨old, hold, .inr ⟨hself, by omega⟩⟩

theorem Overreaches.exists_add (hvalid : t.validateAdminEvent e = .ok ())
    (h : Overreaches t e cached) (now : ℤ) :
    ∃ a t', Adds t e cached a ∧ t.addMember a now = .ok t' ∧ Rewrites t a e.pubkey := by
  cases h with
  | @putOther channel target role old hkind hchannel htarget hrole hold hother hne hlow hnot =>
    obtain ⟨record, hrecord, hprivate⟩ := validatePutUser_of_valid hvalid hkind hchannel hrole
    refine ⟨_, _, .put hkind hchannel htarget hrole, Tables.addMember_eq_ok.mpr
      ⟨record, hrecord, ?_, rfl⟩, old, hold, .inl ⟨hother, hne, hnot⟩⟩
    unfold Add.Granted
    cases hvis : record.visibility with
    | «private» =>
      obtain ⟨actorRole, hactor, hup⟩ := hprivate hvis
      exact ⟨e.pubkey, rfl, .inr ⟨actorRole, hactor, hup⟩⟩
    | «open» =>
      intro hup
      rw [hlow] at hup
      cases hup
  | @putSelf channel role old hkind hchannel htarget hrole hold hlt hup =>
    obtain ⟨record, hrecord, -⟩ := validatePutUser_of_valid hvalid hkind hchannel hrole
    refine ⟨_, _, .put hkind hchannel htarget hrole, Tables.addMember_eq_ok.mpr
      ⟨record, hrecord, ?_, rfl⟩, old, hold, .inr ⟨rfl, hlt⟩⟩
    unfold Add.Granted
    cases hvis : record.visibility with
    | «private» => exact ⟨e.pubkey, rfl, .inr ⟨old, hold, hup⟩⟩
    | «open» => exact fun hrole' ↦ ⟨e.pubkey, old, rfl, hold, hup hrole'⟩
  | @join channel record old hkind hchannel hrecord hopen hcached hold hlt =>
    have hadds : Adds t e cached ⟨channel, e.pubkey, .member, none⟩ :=
      .join hkind hchannel hrecord hopen (by rw [hcached, Option.getD_some])
    refine ⟨_, _, hadds, Tables.addMember_eq_ok.mpr ⟨record, hrecord, ?_, rfl⟩, old, hold,
      .inr ⟨rfl, hlt⟩⟩
    unfold Add.Granted
    rw [hopen]
    intro hup
    cases hup

/-- An addition that goes through without authority comes from an event that overreaches. -/
theorem overreaches_of_rewrites (hvalid : t.validateAdminEvent e = .ok ())
    (hadds : Adds t e cached a) (h : t.addMember a now = .ok t') (hrw : Rewrites t a e.pubkey) :
    Overreaches t e cached := by
  obtain ⟨record, hrecord, hgranted, -⟩ := Tables.addMember_eq_ok.mp h
  obtain ⟨old, hold, hcase⟩ := hrw
  cases hadds with
  | @put channel target role hkind hchannel htarget hrole =>
    obtain ⟨record', hrecord', hprivate⟩ := validatePutUser_of_valid hvalid hkind hchannel hrole
    obtain rfl : record = record' := Except.ok.inj (hrecord.symm.trans hrecord')
    unfold Add.Granted at hgranted
    rcases hcase with ⟨hother, hne, hnot⟩ | ⟨hself, hlt⟩
    · refine .putOther hkind hchannel htarget hrole hold hother hne ?_ hnot
      by_contra hup
      rw [Bool.not_eq_false] at hup
      apply hnot
      cases hvis : record.visibility with
      | «private» =>
        obtain ⟨actorRole, hactor, hactorUp⟩ := hprivate hvis
        exact ⟨actorRole, hactor, hactorUp hup⟩
      | «open» =>
        rw [hvis] at hgranted
        obtain ⟨inviter, r, hinviter, hr, hrup⟩ := hgranted hup
        cases hinviter
        exact ⟨r, hr, hrup⟩
    · change target = e.pubkey at hself
      subst hself
      refine .putSelf hkind hchannel htarget hrole hold hlt fun hup ↦ ?_
      cases hvis : record.visibility with
      | «private» =>
        obtain ⟨actorRole, hactor, hactorUp⟩ := hprivate hvis
        obtain rfl : old = actorRole := Option.some.inj (hold.symm.trans hactor)
        exact hactorUp hup
      | «open» =>
        rw [hvis] at hgranted
        obtain ⟨inviter, r, hinviter, hr, hrup⟩ := hgranted hup
        cases hinviter
        obtain rfl : old = r := Option.some.inj (hold.symm.trans hr)
        exact hrup
  | @join channel record' hkind hchannel hrecord' hopen hcached =>
    rcases hcase with ⟨hother, -⟩ | ⟨-, hlt⟩
    · exact (hother rfl).elim
    · have hmember : t.isMember channel e.pubkey = true := by
        rw [Tables.isMember, hrecord']
        change (t.members.activeRole channel e.pubkey).isSome = true
        rw [show t.members.activeRole channel e.pubkey = some old from hold]
        rfl
      rw [hmember] at hcached
      refine .join hkind hchannel hrecord' hopen ?_ hold hlt
      cases cached with
      | none => cases hcached
      | some b => exact congrArg some hcached

theorem execute_of_change {t : Tables} {e : Event} {cached : Option Bool} {now : ℤ} {change : Change}
    (hvalid : t.validateAdminEvent e = .ok ())
    (hchange : handleSideEffects (t.reads e cached) e = .ok change) :
    t.execute e cached now = match t.apply now change with
      | .error _ => t
      | .ok t' => t' := by
  simp only [Tables.execute, hvalid, Tables.handle, hchange]
  cases hset : t.apply now change with
  | error err => simp only [bind, Except.bind, hset, mapError_error]
  | ok t' => simp only [bind, Except.bind, hset, mapError_ok]

/-- An accepted event changes roles with authority only, just in case it does not overreach. -/
theorem role_changes_authorized_iff (t : Tables) (e : Event) (cached : Option Bool) (now : ℤ)
    (hvalid : t.validateAdminEvent e = .ok ()) :
    RoleChangesAuthorized t (t.execute e cached now) e.pubkey ↔ ¬Overreaches t e cached := by
  have hnoAdd (hno : ∀ a t', Adds t e cached a → t.addMember a now ≠ .ok t') :
      ¬Overreaches t e cached := by
    intro hover
    obtain ⟨a, t', hadds, hadd, -⟩ := hover.exists_add hvalid now
    exact hno a t' hadds hadd
  cases hchange : handleSideEffects (t.reads e cached) e with
  | error err =>
    have hsame : t.execute e cached now = t := by
      simp only [Tables.execute, hvalid, Tables.handle, hchange]
      rfl
    rw [hsame]
    refine iff_of_true .refl (hnoAdd fun a t' hadds ↦ ?_)
    rw [handleSideEffects_eq_add.mpr hadds] at hchange
    cases hchange
  | ok change =>
    rw [execute_of_change hvalid hchange]
    cases change with
    | skip =>
      refine iff_of_true .refl (hnoAdd fun a t' hadds ↦ ?_)
      rw [handleSideEffects_eq_add.mpr hadds] at hchange
      cases hchange
    | remove r =>
      refine iff_of_true ?_ (hnoAdd fun a t' hadds ↦ ?_)
      · rw [← actor_of_handleSideEffects hchange, Tables.apply]
        cases hremove : t.removeMember r now with
        | error err => exact .refl
        | ok t' => exact authorized_removeMember hremove
      · rw [handleSideEffects_eq_add.mpr hadds] at hchange
        cases hchange
    | add a =>
      have hadds := handleSideEffects_eq_add.mp hchange
      rw [Tables.apply]
      cases hadd : t.addMember a now with
      | error err =>
        refine iff_of_true .refl (hnoAdd fun a' t' hadds' hadd' ↦ ?_)
        rw [handleSideEffects_eq_add.mpr hadds'] at hchange
        cases hchange
        rw [hadd'] at hadd
        cases hadd
      | ok t' =>
        refine (authorized_addMember_iff_not_rewrites hadd).trans (not_congr ⟨?_, ?_⟩)
        · exact overreaches_of_rewrites hvalid hadds hadd
        · intro hover
          obtain ⟨a', t'', hadds', -, hrw⟩ := hover.exists_add hvalid now
          rw [handleSideEffects_eq_add.mpr hadds'] at hchange
          cases hchange
          exact hrw

def putUser (actor target : PublicKey) (channel : Uuid) (role : List Tag) : Event :=
  ⟨0, actor, 0, kindNip29PutUser, ⟨"h", [uuidToString channel]⟩ :: ⟨"p", [hexEncode target]⟩ :: role,
    "", 0⟩

def openChannel : Tables := Tables.empty.createChannel 7 .«open» 1 0

theorem role_changes_authorized_iff_invite :
    RoleChangesAuthorized openChannel
        (openChannel.execute (putUser 1 2 7 [⟨"role", ["admin"]⟩]) none 1) 1 ↔
      ¬Overreaches openChannel (putUser 1 2 7 [⟨"role", ["admin"]⟩]) none :=
  role_changes_authorized_iff openChannel _ none 1 (by decide +kernel)

/-- Who is not even a member makes the owner of an open channel a plain member of it. -/
theorem outsider_demotes_owner :
    openChannel.validateAdminEvent (putUser 2 1 7 []) = .ok () ∧
      openChannel.members.activeRole 7 2 = none ∧
      ¬RoleChangesAuthorized openChannel (openChannel.execute (putUser 2 1 7 []) none 1) 2 := by
  refine ⟨by decide +kernel, by decide +kernel, fun hauth ↦ ?_⟩
  have hafter : (openChannel.execute (putUser 2 1 7 []) none 1).members.activeRole 7 1 =
      some .member := by decide +kernel
  have hchanged := hauth.others 7 1 .owner (by decide) (by decide +kernel)
    (by rw [hafter]; decide)
  rw [hafter] at hchanged
  rcases hchanged with ⟨role, hrole, -⟩ | ⟨hnone, -⟩
  · have hstranger : openChannel.members.activeRole 7 2 = none := by decide +kernel
    rw [hstranger] at hrole
    cases hrole
  · cases hnone

end Buzz.Channel
