import Buzz.Channel.Admin
import Buzz.Lib.Runs

namespace Buzz.Channel

open Buzz.Lib Buzz.Nostr Buzz.Core.GitPerms

/-- How far the handling of an event is, one phase between two statements: the reads of its
validation and of its handler, then the transaction of `add_member` or `remove_member`. A removal
that has counted the owners keeps the count and how many owners the channel had lost by then. -/
inductive Phase
  | opened (e : Event) (channel : Uuid) (record : ChannelRecord)
  | listed (e : Event) (record : ChannelRecord) (members : List MemberRecord)
  | accepted (e : Event)
  | reading (e : Event) (record : Except DbError ChannelRecord) (members : List MemberRecord)
  | adding (a : Add) (now : ℤ)
  | granting (a : Add) (now : ℤ) (record : ChannelRecord)
  | granted (a : Add) (now : ℤ)
  | upserted (a : Add) (now : ℤ)
  | removing (r : Removal) (now : ℤ)
  | checking (r : Removal) (now : ℤ) (actorRole : Option MemberRole)
  | permitted (r : Removal) (now : ℤ)
  | targeted (r : Removal) (now : ℤ) (targetRole : Option MemberRole)
  | counted (r : Removal) (now : ℤ) (count : Option (ℕ × ℕ))
  | removed (r : Removal) (now : ℤ) (count : Option (ℕ × ℕ))

def Phase.lockedRow : Phase → Option (Uuid × PublicKey)
  | upserted a _ => some (a.channel, a.pubkey)
  | removed r _ _ => some (r.channel, r.pubkey)
  | _ => none

/-- The committed rows with the events being handled. `losses` has one entry for each commit that
took the role of owner from somebody. -/
structure World where
  tables : Tables
  txs : Map ℕ Phase
  losses : List Uuid

/-- `advance` runs the next statement of one event; `cached` is what the membership cache holds then.
`edit` stands for the other commands, which write channels and users. -/
inductive Op
  | receive (t : ℕ) (e : Event)
  | advance (t : ℕ) (cached : Option Bool) (now : ℤ)
  | abort (t : ℕ)
  | edit (channels : Map Uuid ChannelRecord) (users : Users)

def Members.isOwner (members : Members) (channel : Uuid) (p : PublicKey) : Bool :=
  (members.lookup (channel, p)).any MemberRow.activeOwner

namespace World

def start (tables : Tables) : World := ⟨tables, ∅, []⟩

def enter (w : World) (t : ℕ) (phase : Phase) : World :=
  { w with txs := AList.insert t phase w.txs }

def leave (w : World) (t : ℕ) : World := { w with txs := w.txs.erase t }

def rowFree (w : World) (row : Uuid × PublicKey) : Bool :=
  w.txs.entries.all fun e ↦ decide (e.2.lockedRow ≠ some row)

/-- `COMMIT` of the rows of a channel, in which `p` had its row written. -/
def commit (w : World) (t : ℕ) (channel : Uuid) (p : PublicKey) (members : Members) : World :=
  { tables := { w.tables with members := members }
    txs := w.txs.erase t
    losses :=
      if w.tables.members.isOwner channel p && !members.isOwner channel p then channel :: w.losses
      else w.losses }

/-- The next statement of a transaction; one that waits for a row lock stays where it is. -/
def advance (w : World) (t : ℕ) (cached : Option Bool) (now : ℤ) : Phase → World
  | .opened e channel record => w.enter t (.listed e record (w.tables.getMembers channel))
  | .listed e record members =>
    match validateMembershipEvent record members w.tables.users e with
    | .error _ => w.leave t
    | .ok _ => w.enter t (.accepted e)
  | .accepted e =>
    let reads := w.tables.reads e none
    w.enter t (.reading e reads.channel reads.members)
  | .reading e record members =>
    match handleSideEffects ⟨record, members, (w.tables.reads e cached).isMemberCached⟩ e with
    | .ok (.add a) => w.enter t (.adding a now)
    | .ok (.remove r) => w.enter t (.removing r now)
    | _ => w.leave t
  | .adding a now =>
    match w.tables.getChannel a.channel with
    | .error _ => w.leave t
    | .ok record => w.enter t (.granting a now record)
  | .granting a now record =>
    match a.effectiveRole record (w.tables.members.activeRole a.channel) with
    | .error _ => w.leave t
    | .ok role => w.enter t (.granted { a with role := role } now)
  | .granted a now =>
    if w.rowFree (a.channel, a.pubkey) then w.enter t (.upserted a now) else w
  | .upserted a now =>
    w.commit t a.channel a.pubkey
      (w.tables.members.upsert a.channel a.pubkey a.role a.invitedBy now)
  | .removing r now =>
    w.enter t (.checking r now (w.tables.members.activeRole r.channel r.actorPubkey))
  | .checking r now actorRole =>
    match r.checkActor actorRole (isAgentOwner w.tables.users r.pubkey r.actorPubkey) with
    | .error _ => w.leave t
    | .ok _ => w.enter t (.permitted r now)
  | .permitted r now =>
    w.enter t (.targeted r now (w.tables.members.activeRole r.channel r.pubkey))
  | .targeted r now targetRole =>
    let ownerCount := w.tables.members.ownerCount r.channel
    match checkLastOwner targetRole ownerCount with
    | .error _ => w.leave t
    | .ok _ =>
      w.enter t (.counted r now
        (if targetRole = some .owner then some (ownerCount, w.losses.count r.channel) else none))
  | .counted r now count =>
    match w.tables.members.activeRole r.channel r.pubkey with
    | none => w.leave t
    | some _ =>
      if w.rowFree (r.channel, r.pubkey) then w.enter t (.removed r now count) else w
  | .removed r now _ =>
    match w.tables.members.softRemove r.channel r.pubkey r.actorPubkey now with
    | none => w.leave t
    | some members => w.commit t r.channel r.pubkey members

/-- The first statement of an event's validation. -/
def receive (w : World) (t : ℕ) (e : Event) : World :=
  match extractHTagChannel e with
  | none => w
  | some channel =>
    match w.tables.getChannel channel with
    | .error _ => w
    | .ok record => w.enter t (.opened e channel record)

def step (w : World) : Op → World
  | .receive t e => if t ∈ w.txs then w else w.receive t e
  | .advance t cached now =>
    match w.txs.lookup t with
    | none => w
    | some phase => w.advance t cached now phase
  | .abort t => w.leave t
  | .edit channels users =>
    { w with tables := { w.tables with channels := channels, users := users } }

end World

namespace Members

def HasOwner (members : Members) (channel : Uuid) : Prop :=
  ∃ p, members.activeRole channel p = some .owner

def SoleOwner (members : Members) (channel : Uuid) (p : PublicKey) : Prop :=
  members.isOwner channel p = true ∧ members.ownerCount channel = 1

variable {members members' : Members} {channel : Uuid} {p removedBy : PublicKey}
  {role : MemberRole} {invitedBy : Option PublicKey} {now : ℤ}

theorem isOwner_iff :
    members.isOwner channel p = true ↔ members.activeRole channel p = some .owner := by
  rw [isOwner, Option.any_eq_true, activeRole_eq_some]
  refine exists_congr fun row ↦ and_congr_right fun _ ↦ ?_
  rw [MemberRow.activeOwner, Bool.and_eq_true, decide_eq_true_eq]

theorem hasOwner_iff : members.HasOwner channel ↔ 0 < members.ownerCount channel := by
  rw [Nat.pos_iff_ne_zero, ne_eq, ownerCount, Map.count_eq_zero]
  constructor
  · rintro ⟨p, hp⟩ hnone
    obtain ⟨row, hrow, howner⟩ := (Option.any_eq_true _ _).mp (isOwner_iff.mpr hp)
    have hfalse := hnone (channel, p) row hrow
    rw [howner, decide_eq_true rfl] at hfalse
    cases hfalse
  · intro hsome
    push Not at hsome
    obtain ⟨key, row, hrow, hcond⟩ := hsome
    obtain ⟨hchannel, howner⟩ := (Bool.and_eq_true _ _).mp ((Bool.not_eq_false _).mp hcond)
    refine ⟨key.2, isOwner_iff.mp ((Option.any_eq_true _ _).mpr ⟨row, ?_, howner⟩)⟩
    rw [← of_decide_eq_true hchannel]
    exact hrow

def write (members : Members) (channel : Uuid) (p : PublicKey) (row : MemberRow) : Members :=
  AList.insert (channel, p) row members

theorem isOwner_write {row : MemberRow} :
    (members.write channel p row).isOwner channel p = row.activeOwner := by
  rw [isOwner, write, AList.lookup_insert]
  rfl

theorem ownerCount_write (members : Members) (channel : Uuid) (p : PublicKey) (row : MemberRow) :
    ∃ others, members.ownerCount channel =
        others + (if members.isOwner channel p then 1 else 0) ∧
      (members.write channel p row).ownerCount channel =
        others + (if row.activeOwner then 1 else 0) := by
  refine ⟨Map.count (fun key row ↦ key.1 = channel && row.activeOwner) (members.erase (channel, p)),
    ?_, ?_⟩
  · rw [ownerCount, Map.count_eq_add (channel, p)]
    simp only [decide_true, Bool.true_and]
    rfl
  · rw [ownerCount, write, Map.count_insert_eq]
    simp

theorem ownerCount_write_of_ne {channel' : Uuid} {row : MemberRow} (h : channel' ≠ channel) :
    (members.write channel' p row).ownerCount channel = members.ownerCount channel := by
  have hsplit := Map.count_eq_add (p := fun key row ↦ key.1 = channel && MemberRow.activeOwner row)
    (m := members) (channel', p)
  rw [ownerCount, ownerCount, write, Map.count_insert_eq, hsplit]
  simp [h]

theorem upsert_eq_write (members : Members) (channel : Uuid) (p : PublicKey) (role : MemberRole)
    (invitedBy : Option PublicKey) (now : ℤ) :
    ∃ row : MemberRow, row.activeOwner = decide (role = .owner) ∧
    members.upsert channel p role invitedBy now = members.write channel p row := by
  obtain ⟨row, hactive, hrole, hupsert⟩ :=
    lookup_upsert members channel p role invitedBy now
  refine ⟨row, ?_, hupsert⟩
  rw [MemberRow.activeOwner, hactive, hrole, Bool.true_and]

theorem softRemove_eq_write (h : members.softRemove channel p removedBy now = some members') :
    ∃ row : MemberRow, row.activeOwner = false ∧ members' = members.write channel p row := by
  obtain ⟨_, row, -, -, hinactive, rfl⟩ := softRemove_eq_some h
  refine ⟨row, ?_, rfl⟩
  rw [MemberRow.activeOwner, hinactive, Bool.false_and]

end Members

def Phase.TakesLastOwner (channel : Uuid) (w : World) : Phase → Prop
  | upserted a _ =>
    a.channel = channel ∧ a.role ≠ .owner ∧ w.tables.members.SoleOwner channel a.pubkey
  | removed r _ none => r.channel = channel ∧ w.tables.members.SoleOwner channel r.pubkey
  | removed r _ (some (count, seen)) =>
    r.channel = channel ∧ w.tables.members.isOwner channel r.pubkey = true ∧
      count ≤ (w.losses.count channel - seen) + 1
  | _ => False

def Orphans (channel : Uuid) (w : World) : Op → Prop
  | .advance t _ _ => ∃ phase ∈ w.txs.lookup t, phase.TakesLastOwner channel w
  | _ => False

instance (channel : Uuid) (w : World) (phase : Phase) :
    Decidable (phase.TakesLastOwner channel w) :=
  match phase with
  | .upserted _ _ => inferInstanceAs (Decidable (_ ∧ _ ∧ _ ∧ _))
  | .removed _ _ none => inferInstanceAs (Decidable (_ ∧ _ ∧ _))
  | .removed _ _ (some (_, _)) => inferInstanceAs (Decidable (_ ∧ _ ∧ _))
  | .opened .. | .listed .. | .accepted _ | .reading .. | .adding .. | .granting .. | .granted ..
  | .removing .. | .checking .. | .permitted .. | .targeted .. | .counted .. =>
    inferInstanceAs (Decidable False)

instance (channel : Uuid) (w : World) (op : Op) : Decidable (Orphans channel w op) :=
  match op with
  | .advance _ _ _ => inferInstanceAs (Decidable (∃ _ ∈ _, _))
  | .receive .. | .abort _ | .edit .. => inferInstanceAs (Decidable False)

/-- What a removal counted is made up for by the owners that are left and those lost since. -/
def CountCovered (channel : Uuid) (w : World) : Phase → Prop
  | .counted r _ (some (count, seen)) => r.channel = channel → seen ≤ w.losses.count channel ∧
      count ≤ w.tables.members.ownerCount channel + (w.losses.count channel - seen)
  | .removed r _ (some (count, seen)) => r.channel = channel → seen ≤ w.losses.count channel ∧
      count ≤ w.tables.members.ownerCount channel + (w.losses.count channel - seen)
  | _ => True

structure Inv (channel : Uuid) (w : World) : Prop where
  owned : 0 < w.tables.members.ownerCount channel
  covered : ∀ t phase, w.txs.lookup t = some phase → CountCovered channel w phase

variable {channel : Uuid} {w w' : World} {t : ℕ} {phase : Phase}

theorem CountCovered.mono (h : CountCovered channel w phase)
    (hlosses : w.losses.count channel ≤ w'.losses.count channel)
    (howners : w.tables.members.ownerCount channel + w.losses.count channel ≤
      w'.tables.members.ownerCount channel + w'.losses.count channel) :
    CountCovered channel w' phase := by
  unfold CountCovered at h ⊢
  split
  · intro hchannel
    obtain ⟨hseen, hcount⟩ := h hchannel
    omega
  · intro hchannel
    obtain ⟨hseen, hcount⟩ := h hchannel
    omega
  · trivial

theorem Inv.leave (h : Inv channel w) : Inv channel (w.leave t) where
  owned := h.owned
  covered t' phase' hphase := by
    rw [World.leave, Map.lookup_erase_eq] at hphase
    split at hphase
    · cases hphase
    · exact h.covered t' phase' hphase

theorem Inv.enter (h : Inv channel w) (hphase : CountCovered channel w phase) :
    Inv channel (w.enter t phase) where
  owned := h.owned
  covered t' phase' hphase' := by
    rw [World.enter, Map.lookup_insert_eq] at hphase'
    split at hphase'
    · rw [← Option.some.inj hphase']
      exact hphase
    · exact h.covered t' phase' hphase'

theorem Inv.commit (h : Inv channel w) {channel' : Uuid} {p : PublicKey} {row : MemberRow}
    (howned : channel' = channel → 0 < (w.tables.members.write channel' p row).ownerCount channel) :
    Inv channel (w.commit t channel' p (w.tables.members.write channel' p row)) := by
  have hsum : w.losses.count channel ≤
        (w.commit t channel' p (w.tables.members.write channel' p row)).losses.count channel ∧
      w.tables.members.ownerCount channel + w.losses.count channel ≤
        (w.tables.members.write channel' p row).ownerCount channel +
          (w.commit t channel' p (w.tables.members.write channel' p row)).losses.count channel := by
    rw [World.commit, Members.isOwner_write]
    by_cases hchannel : channel' = channel
    · subst hchannel
      obtain ⟨others, hold, hnew⟩ :=
        Members.ownerCount_write w.tables.members channel' p row
      rw [hold, hnew]
      cases w.tables.members.isOwner channel' p <;> cases row.activeOwner <;> simp
      omega
    · rw [Members.ownerCount_write_of_ne hchannel]
      split
      · simp [hchannel]
      · simp
  refine ⟨?_, fun t' phase' hphase ↦ ?_⟩
  · by_cases hchannel : channel' = channel
    · exact howned hchannel
    · change 0 < (w.tables.members.write channel' p row).ownerCount channel
      rw [Members.ownerCount_write_of_ne hchannel]
      exact h.owned
  · rw [World.commit, Map.lookup_erase_eq] at hphase
    split at hphase
    · cases hphase
    · exact (h.covered t' phase' hphase).mono hsum.1 hsum.2

theorem not_soleOwner_iff {members : Members} {p : PublicKey} (h : 0 < members.ownerCount channel) :
    ¬members.SoleOwner channel p ↔
      members.isOwner channel p = true → 2 ≤ members.ownerCount channel := by
  rw [Members.SoleOwner, not_and]
  refine imp_congr_right fun _ ↦ ?_
  omega

theorem owned_write {members : Members} {p : PublicKey} {row : MemberRow}
    (h : 0 < members.ownerCount channel)
    (hother : row.activeOwner = false → members.isOwner channel p = true →
      2 ≤ members.ownerCount channel) :
    0 < (members.write channel p row).ownerCount channel := by
  obtain ⟨others, hold, hnew⟩ :=
    Members.ownerCount_write members channel p row
  rw [hnew]
  rw [hold] at h hother
  cases hrow : row.activeOwner with
  | true =>
    rw [if_pos rfl]
    omega
  | false =>
    cases howner : members.isOwner channel p with
    | true =>
      have hmany := hother hrow howner
      rw [howner, if_pos rfl] at hmany
      omega
    | false =>
      rw [howner, if_neg Bool.false_ne_true] at h
      omega

theorem Inv.upserted {a : Add} {now : ℤ} (h : Inv channel w)
    (hok : ¬(a.channel = channel ∧ a.role ≠ .owner ∧
      w.tables.members.SoleOwner channel a.pubkey)) :
    Inv channel (w.commit t a.channel a.pubkey
      (w.tables.members.upsert a.channel a.pubkey a.role a.invitedBy now)) := by
  obtain ⟨row, hrow, hupsert⟩ :=
    Members.upsert_eq_write w.tables.members a.channel a.pubkey a.role a.invitedBy now
  rw [hupsert]
  refine h.commit fun hchannel ↦ ?_
  rw [hchannel]
  apply owned_write h.owned
  rw [hrow]
  intro hrole
  exact (not_soleOwner_iff h.owned).mp fun hsole ↦
    hok ⟨hchannel, of_decide_eq_false hrole, hsole⟩

theorem Inv.removed {r : Removal} {members' : Members} {now : ℤ} (h : Inv channel w)
    (hremove : w.tables.members.softRemove r.channel r.pubkey r.actorPubkey now = some members')
    (hok : r.channel = channel → w.tables.members.isOwner channel r.pubkey = true →
      2 ≤ w.tables.members.ownerCount channel) :
    Inv channel (w.commit t r.channel r.pubkey members') := by
  obtain ⟨row, hrow, rfl⟩ := Members.softRemove_eq_write hremove
  refine h.commit fun hchannel ↦ ?_
  rw [hchannel]
  exact owned_write h.owned fun _ ↦ hok hchannel

theorem Inv.advance (h : Inv channel w) (hphase : w.txs.lookup t = some phase)
    (hok : ¬phase.TakesLastOwner channel w) {cached : Option Bool} {now : ℤ} :
    Inv channel (w.advance t cached now phase) := by
  have hcovered := h.covered t phase hphase
  cases phase with
  | opened e channel' record => exact h.enter trivial
  | listed e record members =>
    rw [World.advance]
    split
    · exact h.leave
    · exact h.enter trivial
  | accepted e => exact h.enter trivial
  | reading e record members =>
    rw [World.advance]
    split
    · exact h.enter trivial
    · exact h.enter trivial
    · exact h.leave
  | adding a begun =>
    rw [World.advance]
    split
    · exact h.leave
    · exact h.enter trivial
  | granting a begun record =>
    rw [World.advance]
    split
    · exact h.leave
    · exact h.enter trivial
  | granted a begun =>
    rw [World.advance]
    split
    · exact h.enter trivial
    · exact h
  | upserted a begun => exact h.upserted hok
  | removing r begun => exact h.enter trivial
  | checking r begun actorRole =>
    rw [World.advance]
    split
    · exact h.leave
    · exact h.enter trivial
  | permitted r begun => exact h.enter trivial
  | targeted r begun targetRole =>
    rw [World.advance]
    split
    · exact h.leave
    · apply h.enter
      split
      · rintro rfl
        exact ⟨le_rfl, Nat.le_add_right _ _⟩
      · trivial
  | counted r begun count =>
    rw [World.advance]
    split
    · exact h.leave
    · split
      · refine h.enter ?_
        cases count with
        | none => trivial
        | some count => exact hcovered
      · exact h
  | removed r begun count =>
    rw [World.advance]
    split
    · exact h.leave
    · next members' hremove =>
      refine h.removed hremove fun hchannel howner ↦ ?_
      cases count with
      | none =>
        exact (not_soleOwner_iff h.owned).mp (fun hsole ↦ hok ⟨hchannel, hsole⟩) howner
      | some count =>
        obtain ⟨hseen, hcount⟩ := hcovered hchannel
        by_contra hfew
        apply hok
        refine ⟨hchannel, howner, ?_⟩
        omega

theorem Inv.step (h : Inv channel w) {op : Op} (hok : ¬Orphans channel w op) :
    Inv channel (w.step op) := by
  cases op with
  | receive t e =>
    rw [World.step]
    split
    · exact h
    · rw [World.receive]
      split
      · exact h
      · split
        · exact h
        · exact h.enter trivial
  | advance t cached now =>
    rw [World.step]
    split
    · exact h
    · next phase hphase => exact h.advance hphase fun hlast ↦ hok ⟨phase, hphase, hlast⟩
  | abort t => exact h.leave
  | edit channels users => exact ⟨h.owned, h.covered⟩

/-- A channel with an owner keeps one in every run none of whose commits takes the last one away. -/
theorem channel_keeps_owner (tables : Tables) (channel : Uuid) (ops : List Op)
    (howner : tables.members.HasOwner channel)
    (hok : ∀ pre op, pre ++ [op] <+: ops →
      ¬Orphans channel (pre.foldl World.step (World.start tables)) op) :
    ∀ pre, pre <+: ops →
      (pre.foldl World.step (World.start tables)).tables.members.HasOwner channel := by
  have hinit : Inv channel (World.start tables) :=
    ⟨Members.hasOwner_iff.mp howner, fun t phase hphase ↦ by cases hphase⟩
  intro pre hpre
  have hinv := forall_prefix_of_steps World.step (Inv channel) (Orphans channel) hinit
    (fun w op hw hop ↦ hw.step hop) hok pre hpre
  exact Members.hasOwner_iff.mpr hinv.owned

def handled (t : ℕ) (e : Event) : List Op :=
  .receive t e :: List.replicate 9 (.advance t none 1)

def openedBy (owner : PublicKey) : Tables := Tables.empty.createChannel 7 .«open» owner 0

def memberEvent (kind : Kind) (actor : PublicKey) (rest : List Tag) : Event :=
  ⟨0, actor, 0, kind, ⟨"h", [uuidToString 7]⟩ :: rest, "", 0⟩

/-- An outsider adds the only owner of an open channel, who thereby becomes a plain member. -/
theorem outsider_orphans_channel :
    (openedBy 1).members.HasOwner 7 ∧
      ¬((handled 0 (memberEvent kindNip29PutUser 2 [⟨"p", [hexEncode 1]⟩])).foldl World.step
        (World.start (openedBy 1))).tables.members.HasOwner 7 := by
  rw [Members.hasOwner_iff, Members.hasOwner_iff]
  decide +kernel

/-- The owner makes pubkey 2 an owner too, and leaves while that one invites somebody. -/
def ownerLeaves : List Op :=
  handled 0 (memberEvent kindNip29PutUser 1 [⟨"p", [hexEncode 2]⟩, ⟨"role", ["owner"]⟩]) ++
    .receive 1 (memberEvent kindNip29LeaveRequest 1 []) ::
    .receive 2 (memberEvent kindNip29PutUser 2 [⟨"p", [hexEncode 3]⟩]) ::
    (List.replicate 12 [.advance 1 none 2, .advance 2 none 2]).flatten

theorem channel_keeps_owner_leave :
    (ownerLeaves.foldl World.step (World.start (openedBy 1))).tables.members.HasOwner 7 ∧
      (ownerLeaves.foldl World.step (World.start (openedBy 1))).losses = [7] := by
  refine ⟨channel_keeps_owner (openedBy 1) 7 _ ⟨1, by decide +kernel⟩ ?_ _ (List.prefix_refl _),
    by decide +kernel⟩
  apply forall_step_of_lt
  decide +kernel

end Buzz.Channel
