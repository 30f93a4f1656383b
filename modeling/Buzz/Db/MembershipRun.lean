import Buzz.Db.Membership
import Buzz.Lib.Json
import Buzz.Lib.Runs
import Buzz.Lib.Sha256

namespace Buzz.Db

open Buzz.Lib Buzz.Nostr

inductive MemberChange
  | add (pubkey : String) (role : RelayRole)
  | remove (pubkey : String)
  | removeIfRole (pubkey : String) (expectedRole : RelayRole)
  | updateRole (pubkey : String) (newRole : RelayRole)
  | bootstrapOwner (ownerPubkey : String)
  | transferOwnership (newOwner expectedOwner : String) (ownedCount maxCommunities : ℤ)

def RelayMembers.change (members : RelayMembers) (now : ℤ) : MemberChange → RelayMembers
  | .add pubkey role => (members.addRelayMember pubkey role now).1
  | .remove pubkey => (members.removeRelayMember pubkey).1
  | .removeIfRole pubkey expectedRole => (members.removeRelayMemberIfRole pubkey expectedRole).1
  | .updateRole pubkey newRole => (members.updateRelayMemberRole pubkey newRole).1
  | .bootstrapOwner ownerPubkey => members.bootstrapOwner ownerPubkey now
  | .transferOwnership newOwner expectedOwner ownedCount maxCommunities =>
    (members.transferOwnership newOwner expectedOwner ownedCount maxCommunities now).1

/-- How far the publication that holds the community's lock has come: waiting, or with the rows that
it has read and the second at which it has signed them. -/
inductive Publication
  | locked
  | signed (rows : List RelayMember) (now : Timestamp)
deriving DecidableEq

/-- A publication that returned `Ok`, with the members at its commit. -/
structure PublishedList where
  rows : List RelayMember
  now : Timestamp
  members : RelayMembers

/-- `published` is the history, the last first, which no step reads. -/
structure MembershipState where
  members : RelayMembers
  events : EventsTable
  publication : Option Publication
  published : List PublishedList

/-- `change` commits a change of the rows at any time, also while a publication runs. `read` is
the query in the order in which the database returns the rows, then the signature. -/
inductive MembershipOp
  | change (c : MemberChange) (now : ℤ)
  | lock
  | read (rows : List RelayMember) (now : Timestamp)
  | commit
  | fail

/-- `SELECT pubkey, role .. ORDER BY created_at ASC` may return these rows. -/
def ReadsRows (members : RelayMembers) (rows : List RelayMember) : Prop :=
  rows.Perm members.rows ∧ rows.Pairwise fun a b ↦ a.createdAt ≤ b.createdAt

instance (members : RelayMembers) (rows : List RelayMember) : Decidable (ReadsRows members rows) :=
  inferInstanceAs (Decidable (_ ∧ _))

def SameMembers (rows rows' : List RelayMember) : Prop :=
  (memberPairs rows).Perm (memberPairs rows')

instance (rows rows' : List RelayMember) : Decidable (SameMembers rows rows') :=
  inferInstanceAs (Decidable (List.Perm _ _))

namespace MembershipState

variable (keys : RelayKeys)

def initial : MembershipState := ⟨∅, ∅, none, []⟩

def step (s : MembershipState) : MembershipOp → MembershipState
  | .change c now => { s with members := s.members.change now c }
  | .lock =>
    match s.publication with
    | none => { s with publication := some .locked }
    | some _ => s
  | .read rows now =>
    match s.publication with
    | some .locked =>
      if ReadsRows s.members rows then { s with publication := some (.signed rows now) } else s
    | _ => s
  | .commit =>
    match s.publication with
    | some (.signed rows now) =>
      match replaceMembershipList keys s.events (membershipEvent keys rows now) with
      | .ok (events, _) =>
        { s with
          events, publication := none, published := ⟨rows, now, s.members⟩ :: s.published }
      | .error _ => { s with publication := none }
    | _ => s
  | .fail => { s with publication := none }

def run (ops : List MembershipOp) : MembershipState := ops.foldl (step keys) initial

/-- The publication that commits next returns `Ok`. -/
def Succeeds (s : MembershipState) (rows : List RelayMember) (now : Timestamp)
    (createdAt : DbTime) : Prop :=
  s.publication = some (.signed rows now) ∧
    createdAtOf (membershipEvent keys rows now) = .ok createdAt

def LiveList (s : MembershipState) (key : EventKey) (row : EventRow) : Prop :=
  s.events.lookup key = some row ∧ isMembershipList keys row = true ∧ row.deleted = false

def Lists (event : Event) (members : RelayMembers) : Prop :=
  (listedMembers event).Perm (memberPairs members.rows)

def Current (s : MembershipState) : Prop :=
  ∃ key row, s.LiveList keys key row ∧ (∀ key' row', s.LiveList keys key' row' → key' = key) ∧
    Lists row.event s.members

def Repeats (s : MembershipState) (rows : List RelayMember) (now : Timestamp) : Prop :=
  ∃ p ∈ s.published, p.now = now ∧ memberPairs p.rows = memberPairs rows

instance (s : MembershipState) (rows : List RelayMember) (now : Timestamp) :
    Decidable (s.Repeats rows now) :=
  inferInstanceAs (Decidable (∃ p ∈ s.published, _ ∧ _))

/-- No change counts between the read and the commit; where the same rows were published in the same
second before, none counts since the last publication. -/
def UpToDate (s : MembershipState) (rows : List RelayMember) (now : Timestamp) : Prop :=
  if s.Repeats rows now then ∀ p ∈ s.published.head?, SameMembers p.members.rows s.members.rows
  else SameMembers rows s.members.rows

instance (s : MembershipState) (rows : List RelayMember) (now : Timestamp) :
    Decidable (s.UpToDate rows now) :=
  inferInstanceAs (Decidable (if s.Repeats rows now then
    ∀ p ∈ s.published.head?, SameMembers p.members.rows s.members.rows
    else SameMembers rows s.members.rows))

/-- The lists that the run reads within a second have the same id only if they are the same. -/
def KeepsApart (ops : List MembershipOp) : Prop :=
  ∀ rows rows' now, .read rows now ∈ ops → .read rows' now ∈ ops →
    (membershipEvent keys rows now).id = (membershipEvent keys rows' now).id →
      memberPairs rows = memberPairs rows'

variable {keys} {s : MembershipState} {ops : List MembershipOp} {rows : List RelayMember}
  {now : Timestamp} {createdAt : DbTime}

/-- The keys in the table are those of the lists that were published. -/
structure Coherent (keys : RelayKeys) (ops : List MembershipOp) (s : MembershipState) : Prop where
  signed : ∀ rows now, s.publication = some (.signed rows now) → .read rows now ∈ ops
  reads : ∀ p ∈ s.published, .read p.rows p.now ∈ ops
  stored : ∀ key, key ∈ s.events ↔ ∃ p ∈ s.published,
    createdAtOf (membershipEvent keys p.rows p.now) = .ok key.1 ∧
      (membershipEvent keys p.rows p.now).id = key.2
  single : ∀ key row key' row', s.LiveList keys key row → s.LiveList keys key' row' → key = key'

theorem step_commit (h : s.Succeeds keys rows now createdAt) :
    s.step keys .commit =
      { s with
        events := if (createdAt, (membershipEvent keys rows now).id) ∈ s.events then s.events
          else replacedBy keys s.events (membershipEvent keys rows now) createdAt
        publication := none
        published := ⟨rows, now, s.members⟩ :: s.published } := by
  simp only [step, h.1, replaceMembershipList_ok h.2]
  split
  · next h =>
    split at h
    · next hstored =>
      obtain ⟨rfl, _⟩ := Prod.mk.inj (Except.ok.inj h)
      rw [if_pos hstored]
    · next hnew =>
      obtain ⟨rfl, _⟩ := Prod.mk.inj (Except.ok.inj h)
      rw [if_neg hnew]
  · next h =>
    split at h <;> cases h

theorem isMembershipList_signed (rows : List RelayMember) (now : Timestamp) :
    isMembershipList keys ⟨membershipEvent keys rows now, none,
      extractDTag (membershipEvent keys rows now), false⟩ = true := by
  rw [isMembershipList, EventRow.isAddressable, membershipEvent, beq_self_eq_true,
    beq_self_eq_true, beq_self_eq_true]
  rfl

theorem membershipTags_eq (rows : List RelayMember) :
    membershipTags rows =
      ⟨"-", []⟩ :: (memberPairs rows).map fun pair ↦ ⟨"member", [pair.1, pair.2]⟩ := by
  rw [membershipTags, memberPairs, List.map_map]
  rfl

theorem now_eq_of_createdAtOf {event event' : Event} (h : createdAtOf event = .ok createdAt)
    (h' : createdAtOf event' = .ok createdAt) : event.createdAt = event'.createdAt := by
  rw [createdAtOf] at h h'
  split at h
  · next t ht =>
    split at h'
    · next t' ht' =>
      cases h
      cases h'
      have heq := (fromTimestamp_eq_some ht).symm.trans (fromTimestamp_eq_some ht')
      exact UInt64.toBitVec_inj.mp (BitVec.toInt_inj.mp heq)
    · cases h'
  · cases h

/-- The id of a list is taken just when it was published in that second. -/
theorem Coherent.mem_iff_repeats (h : s.Coherent keys ops) (hapart : KeepsApart keys ops)
    (hok : s.Succeeds keys rows now createdAt) :
    (createdAt, (membershipEvent keys rows now).id) ∈ s.events ↔ s.Repeats rows now := by
  rw [h.stored]
  constructor
  · intro ⟨p, hp, htime, hid⟩
    have hnow : p.now = now := now_eq_of_createdAtOf htime hok.2
    subst hnow
    exact ⟨p, hp, rfl, hapart p.rows rows p.now (h.reads p hp) (h.signed rows p.now hok.1) hid⟩
  · intro ⟨p, hp, hnow, hpairs⟩
    have hevent : membershipEvent keys p.rows p.now = membershipEvent keys rows now := by
      rw [membershipEvent, membershipEvent, membershipTags_eq, membershipTags_eq, hpairs, hnow]
    exact ⟨p, hp, by rw [hevent]; exact ⟨hok.2, rfl⟩⟩

theorem lists_signed {members : RelayMembers} :
    Lists (membershipEvent keys rows now) members ↔ SameMembers rows members.rows := by
  rw [Lists, SameMembers, listedMembers_membershipEvent]

/-- A publication that returns `Ok` leaves the current list live just when it was up to date, given
that the live list is the one of the last publication. -/
theorem Coherent.current_commit_iff (h : s.Coherent keys ops) (hapart : KeepsApart keys ops)
    (hlast : ∀ p ∈ s.published.head?, ∃ key row, s.LiveList keys key row ∧
      Lists row.event p.members)
    (hok : s.Succeeds keys rows now createdAt) :
    (s.step keys .commit).Current keys ↔ s.UpToDate rows now := by
  have hmem := h.mem_iff_repeats hapart hok
  rw [step_commit hok, UpToDate]
  by_cases hrepeats : s.Repeats rows now
  · rw [if_pos (hmem.mpr hrepeats), if_pos hrepeats]
    obtain ⟨p, hp⟩ : ∃ p, s.published.head? = some p := by
      obtain ⟨p, hp, -⟩ := hrepeats
      exact ⟨_, List.head?_eq_some_head (List.ne_nil_of_mem hp)⟩
    obtain ⟨key, row, hlive, hlists⟩ := hlast p hp
    constructor
    · intro ⟨key', row', hlive', _, hlists'⟩ q hq
      obtain rfl := Option.some.inj (hp.symm.trans hq)
      obtain rfl := h.single key row key' row' hlive hlive'
      obtain rfl := Option.some.inj (hlive.1.symm.trans hlive'.1)
      exact hlists.symm.trans hlists'
    · intro hsame
      exact ⟨key, row, hlive, fun key' row' hlive' ↦ h.single key' row' key row hlive' hlive,
        hlists.trans (hsame p hp)⟩
  · have hnew := mt hmem.mp hrepeats
    rw [if_neg hnew, if_neg hrepeats]
    have hlive (key : EventKey) (row : EventRow) :=
      @live_replacedBy_iff keys _ _ _ hnew (isMembershipList_signed rows now) key row
    constructor
    · intro ⟨key, row, hrow, _, hlists⟩
      obtain ⟨_, rfl⟩ := (hlive key row).mp hrow
      exact lists_signed.mp hlists
    · intro hsame
      refine ⟨_, _, (hlive _ _).mpr ⟨rfl, rfl⟩, fun key' row' hrow' ↦ ?_, lists_signed.mpr hsame⟩
      exact ((hlive key' row').mp hrow').1

theorem coherent_initial : initial.Coherent keys ops where
  signed _ _ h := by cases h
  reads _ h := by cases h
  stored key := by
    constructor
    · intro h
      cases h
    · intro ⟨_, h, _⟩
      cases h
  single _ _ _ _ h := by cases h.1

theorem step_commit_error {e : DbError} (hsigned : s.publication = some (.signed rows now))
    (htime : createdAtOf (membershipEvent keys rows now) = .error e) :
    s.step keys .commit = { s with publication := none } := by
  simp only [step, hsigned, replaceMembershipList, htime]

/-- A step that leaves the table and the history alone and signs nothing. -/
theorem Coherent.idle (h : s.Coherent keys ops) {members : RelayMembers} {p : Option Publication}
    (hp : ∀ rows now, p ≠ some (.signed rows now)) :
    (MembershipState.mk members s.events p s.published).Coherent keys ops where
  signed rows now hsigned := absurd hsigned (hp rows now)
  reads := h.reads
  stored := h.stored
  single := h.single

theorem Coherent.commit (h : s.Coherent keys ops) (hok : s.Succeeds keys rows now createdAt) :
    (s.step keys .commit).Coherent keys ops := by
  rw [step_commit hok]
  refine ⟨fun _ _ hsome ↦ absurd hsome (Option.some_ne_none _).symm,
    List.forall_mem_cons.mpr ⟨h.signed rows now hok.1, h.reads⟩, fun key ↦ ?_, ?_⟩
  · have hself : (createdAtOf (membershipEvent keys rows now) = .ok key.1 ∧
        (membershipEvent keys rows now).id = key.2) ↔
          key = (createdAt, (membershipEvent keys rows now).id) := by
      rw [hok.2, Except.ok.injEq, eq_comm, eq_comm (b := key.2)]
      constructor
      · exact fun heq ↦ Prod.ext heq.1 heq.2
      · rintro rfl
        exact ⟨rfl, rfl⟩
    rw [List.exists_mem_cons_iff, hself, ← h.stored]
    simp only
    split
    · next hstored => exact ⟨.inr, fun hkey ↦ hkey.elim (fun heq ↦ heq ▸ hstored) id⟩
    · next hnew =>
      rw [← AList.lookup_isSome, replacedBy, EventsTable.lookup_insertRow]
      split
      · next hkey => exact ⟨fun _ ↦ .inl hkey.1, fun _ ↦ rfl⟩
      · next hkey =>
        rw [AList.lookup_isSome, EventsTable.mem_softDelete]
        constructor
        · exact .inr
        · rintro (rfl | hmem)
          · exact absurd ⟨rfl, fun hmem ↦ hnew (EventsTable.mem_softDelete.mp hmem)⟩ hkey
          · exact hmem
  · split
    · exact h.single
    · next hnew =>
      intro key row key' row' hrow hrow'
      have hlist := @isMembershipList_signed keys rows now
      have hkey := (live_replacedBy_iff hnew hlist).mp hrow
      have hkey' := (live_replacedBy_iff hnew hlist).mp hrow'
      exact hkey.1.trans hkey'.1.symm

theorem Coherent.step (h : s.Coherent keys ops) {op : MembershipOp} (hop : op ∈ ops) :
    (s.step keys op).Coherent keys ops := by
  cases op with
  | change c now => exact ⟨h.signed, h.reads, h.stored, h.single⟩
  | lock =>
    rw [MembershipState.step]
    split
    · exact h.idle fun _ _ heq ↦ Publication.noConfusion (Option.some.inj heq)
    · exact h
  | read rows now =>
    rw [MembershipState.step]
    split
    · split
      · refine ⟨fun rows' now' hsigned ↦ ?_, h.reads, h.stored, h.single⟩
        obtain ⟨rfl, rfl⟩ := Publication.signed.inj (Option.some.inj hsigned)
        exact hop
      · exact h
    · exact h
  | commit =>
    cases hpub : s.publication with
    | none =>
      simp only [MembershipState.step, hpub]
      exact h
    | some p =>
      cases p with
      | locked =>
        simp only [MembershipState.step, hpub]
        exact h
      | signed rows now =>
        cases htime : createdAtOf (membershipEvent keys rows now) with
        | error e =>
          rw [step_commit_error hpub htime]
          exact h.idle fun _ _ ↦ (Option.some_ne_none _).symm
        | ok createdAt => exact h.commit ⟨hpub, htime⟩
  | fail => exact h.idle fun _ _ ↦ (Option.some_ne_none _).symm

theorem coherent_run {pre : List MembershipOp} (hpre : pre <+: ops) :
    (run keys pre).Coherent keys ops :=
  List.foldlRecOn (motive := Coherent keys ops) pre (MembershipState.step keys) coherent_initial
    fun _ h _ hop ↦ h.step (hpre.subset hop)

theorem run_concat (ops : List MembershipOp) (op : MembershipOp) :
    run keys (ops ++ [op]) = (run keys ops).step keys op := by
  rw [run, List.foldl_append]
  rfl

/-- Each publication of the run that succeeds leaves the current list. -/
def AllCurrent (keys : RelayKeys) (ops : List MembershipOp) : Prop :=
  ∀ pre rows now createdAt, pre ++ [.commit] <+: ops →
    (run keys pre).Succeeds keys rows now createdAt → (run keys (pre ++ [.commit])).Current keys

theorem AllCurrent.of_prefix {pre : List MembershipOp} (h : AllCurrent keys ops)
    (hpre : pre <+: ops) : AllCurrent keys pre :=
  fun pre' rows now createdAt hpre' ↦ h pre' rows now createdAt (hpre'.trans hpre)

/-- Only a publication that succeeds adds to the table or the history. -/
theorem step_cases (s : MembershipState) (op : MembershipOp) :
    ((s.step keys op).events = s.events ∧ (s.step keys op).published = s.published) ∨
      op = .commit ∧ ∃ rows now createdAt, s.Succeeds keys rows now createdAt := by
  cases op with
  | change c now => exact .inl ⟨rfl, rfl⟩
  | lock =>
    rw [step]
    split
    · exact .inl ⟨rfl, rfl⟩
    · exact .inl ⟨rfl, rfl⟩
  | read rows now =>
    rw [step]
    split
    · split
      · exact .inl ⟨rfl, rfl⟩
      · exact .inl ⟨rfl, rfl⟩
    · exact .inl ⟨rfl, rfl⟩
  | commit =>
    cases hpub : s.publication with
    | none =>
      have hidle : s.step keys .commit = s := by simp only [step, hpub]
      rw [hidle]
      exact .inl ⟨rfl, rfl⟩
    | some p =>
      cases p with
      | locked =>
        have hidle : s.step keys .commit = s := by simp only [step, hpub]
        rw [hidle]
        exact .inl ⟨rfl, rfl⟩
      | signed rows now =>
        cases htime : createdAtOf (membershipEvent keys rows now) with
        | error e =>
          rw [step_commit_error hpub htime]
          exact .inl ⟨rfl, rfl⟩
        | ok createdAt => exact .inr ⟨rfl, rows, now, createdAt, hpub, htime⟩
  | fail => exact .inl ⟨rfl, rfl⟩

/-- As long as all is current, the live list names the members of the last publication. -/
theorem AllCurrent.live (h : AllCurrent keys ops) :
    ∀ p ∈ (run keys ops).published.head?, ∃ key row, (run keys ops).LiveList keys key row ∧
      Lists row.event p.members := by
  induction ops using List.reverseRecOn with
  | nil =>
    intro p hp
    cases hp
  | append_singleton ops op ih =>
    rw [run_concat]
    obtain ⟨hevents, hpublished⟩ | ⟨rfl, rows, now, createdAt, hok⟩ := step_cases (run keys ops) op
    · intro p hp
      rw [hpublished] at hp
      obtain ⟨key, row, hlive, hlists⟩ := ih (h.of_prefix (List.prefix_append ops [op])) p hp
      refine ⟨key, row, ?_, hlists⟩
      rw [LiveList, hevents]
      exact hlive
    · have hcurrent := h ops rows now createdAt (List.prefix_refl _) hok
      rw [run_concat] at hcurrent
      obtain ⟨key, row, hlive, -, hlists⟩ := hcurrent
      rw [step_commit hok] at hlive hlists ⊢
      intro p hp
      obtain rfl := Option.some.inj hp
      exact ⟨key, row, hlive, hlists⟩

theorem current_concat_iff {pre : List MembershipOp} (hpre : pre ++ [.commit] <+: ops)
    (hapart : KeepsApart keys ops) (hall : AllCurrent keys pre)
    (hok : (run keys pre).Succeeds keys rows now createdAt) :
    (run keys (pre ++ [.commit])).Current keys ↔ (run keys pre).UpToDate rows now := by
  have hcoherent : (run keys pre).Coherent keys ops :=
    coherent_run ((List.prefix_append pre _).trans hpre)
  rw [run_concat]
  exact hcoherent.current_commit_iff hapart hall.live hok

/-- Publications that are all up to date leave the current list each. -/
theorem allCurrent_of_upToDate (hapart : KeepsApart keys ops)
    (h : ∀ pre rows now createdAt, pre ++ [.commit] <+: ops →
      (run keys pre).Succeeds keys rows now createdAt → (run keys pre).UpToDate rows now)
    {pre : List MembershipOp} (hpre : pre <+: ops) : AllCurrent keys pre := by
  induction pre using List.reverseRecOn with
  | nil =>
    intro pre' _ _ _ hpre'
    exact absurd (List.prefix_nil.mp hpre') (List.concat_ne_nil _ _)
  | append_singleton pre op ih =>
    have hall := ih ((List.prefix_append pre [op]).trans hpre)
    intro pre' rows now createdAt hpre' hok
    rcases List.prefix_concat_iff.mp hpre' with heq | hpre'
    · obtain ⟨rfl, hop⟩ := List.append_inj' heq rfl
      rw [List.cons.injEq] at hop
      obtain ⟨rfl, -⟩ := hop
      exact (current_concat_iff hpre hapart hall hok).mpr (h pre' rows now createdAt hpre hok)
    · exact hall pre' rows now createdAt hpre' hok

end MembershipState

open MembershipState

/-- At most one list is live at any time, and each publication that succeeds leaves the current
one exactly if all of them are up to date. -/
theorem published_list_current_iff (keys : RelayKeys) (ops : List MembershipOp)
    (hapart : KeepsApart keys ops) :
    (∀ pre, pre <+: ops → ∀ key row key' row', (run keys pre).LiveList keys key row →
        (run keys pre).LiveList keys key' row' → key = key') ∧
      ((∀ pre rows now createdAt, pre ++ [.commit] <+: ops →
          (run keys pre).Succeeds keys rows now createdAt →
            (run keys (pre ++ [.commit])).Current keys) ↔
        ∀ pre rows now createdAt, pre ++ [.commit] <+: ops →
          (run keys pre).Succeeds keys rows now createdAt → (run keys pre).UpToDate rows now) := by
  refine ⟨fun pre hpre ↦ (coherent_run hpre).single, ?_⟩
  constructor
  · intro h pre rows now createdAt hpre hok
    have hall : AllCurrent keys ops := h
    exact (current_concat_iff hpre hapart (hall.of_prefix ((List.prefix_append pre _).trans hpre))
      hok).mp (h pre rows now createdAt hpre hok)
  · exact fun h ↦ allCurrent_of_upToDate hapart h (List.prefix_refl ops)

section Samples

def alice : RelayMember := ⟨hexEncode 2, .owner, 0⟩

def bob : RelayMember := ⟨hexEncode 3, .member, 1⟩

def aliceOnly : RelayMembers := RelayMembers.change ∅ 0 (.bootstrapOwner alice.pubkey)

def bobAdded : RelayMembers := aliceOnly.change 1 (.add bob.pubkey .member)

def bobRemoved : RelayMembers := bobAdded.change 2 (.remove bob.pubkey)

theorem reads_aliceOnly : ReadsRows aliceOnly [alice] := by decide +kernel

theorem reads_bobAdded : ReadsRows bobAdded [alice, bob] := by decide +kernel

theorem reads_bobRemoved : ReadsRows bobRemoved [alice] := by decide +kernel

def changeThenSign (c : MemberChange) (changedAt : ℤ) (rows : List RelayMember) (now : Timestamp) :
    List MembershipOp :=
  [.change c changedAt, .lock, .read rows now]

def firstSigned : List MembershipOp :=
  changeThenSign (.bootstrapOwner alice.pubkey) 0 [alice] 1700000000

def secondSigned : List MembershipOp :=
  firstSigned ++ .commit :: changeThenSign (.add bob.pubkey .member) 1 [alice, bob] 1700000000

/-- Bob is removed again, and the third list is signed at some second. -/
def thirdSigned (now : Timestamp) : List MembershipOp :=
  secondSigned ++ .commit :: changeThenSign (.remove bob.pubkey) 2 [alice] now

variable (keys : RelayKeys)

def firstList : Event := membershipEvent keys [alice] 1700000000

def secondList : Event := membershipEvent keys [alice, bob] 1700000000

variable {keys} {s : MembershipState} {rows : List RelayMember} {now : Timestamp}

theorem foldl_changeThenSign {c : MemberChange} {changedAt : ℤ} (hidle : s.publication = none)
    (hreads : ReadsRows (s.members.change changedAt c) rows) :
    (changeThenSign c changedAt rows now).foldl (step keys) s =
      { s with
        members := s.members.change changedAt c, publication := some (.signed rows now) } := by
  simp only [changeThenSign, List.foldl_cons, List.foldl_nil, step, hidle, if_pos hreads]

theorem foldl_signed {read : List RelayMember} {second : Timestamp} {createdAt : DbTime}
    (hok : s.Succeeds keys read second createdAt)
    (hnew : (createdAt, (membershipEvent keys read second).id) ∉ s.events) {c : MemberChange}
    {changedAt : ℤ} (hreads : ReadsRows (s.members.change changedAt c) rows) :
    (.commit :: changeThenSign c changedAt rows now).foldl (step keys) s =
      ⟨s.members.change changedAt c,
        replacedBy keys s.events (membershipEvent keys read second) createdAt,
        some (.signed rows now), ⟨read, second, s.members⟩ :: s.published⟩ := by
  rw [List.foldl_cons, step_commit hok, if_neg hnew]
  exact foldl_changeThenSign rfl hreads

theorem second_new (hne : (firstList keys).id ≠ (secondList keys).id) :
    (1700000000, (secondList keys).id) ∉ replacedBy keys ∅ (firstList keys) 1700000000 := by
  have hother : ((1700000000 : DbTime), (secondList keys).id) ≠ (1700000000, (firstList keys).id) :=
    fun h ↦ hne (Prod.mk.inj h).2.symm
  rw [← AList.lookup_eq_none, replacedBy, EventsTable.lookup_insertRow,
    if_neg fun hkey ↦ hother hkey.1]
  rfl

theorem run_firstSigned :
    run keys firstSigned = ⟨aliceOnly, ∅, some (.signed [alice] 1700000000), []⟩ :=
  foldl_changeThenSign rfl reads_aliceOnly

theorem run_secondSigned :
    run keys secondSigned =
      ⟨bobAdded, replacedBy keys ∅ (firstList keys) 1700000000,
        some (.signed [alice, bob] 1700000000), [⟨[alice], 1700000000, aliceOnly⟩]⟩ := by
  have hfirst := @run_firstSigned keys
  rw [run] at hfirst
  rw [run, secondSigned, List.foldl_append, hfirst]
  exact foldl_signed ⟨rfl, rfl⟩ (AList.notMem_empty _) reads_bobAdded

theorem run_thirdSigned (hne : (firstList keys).id ≠ (secondList keys).id) (now : Timestamp) :
    run keys (thirdSigned now) =
      ⟨bobRemoved, replacedBy keys (replacedBy keys ∅ (firstList keys) 1700000000) (secondList keys)
        1700000000, some (.signed [alice] now),
        [⟨[alice, bob], 1700000000, bobAdded⟩, ⟨[alice], 1700000000, aliceOnly⟩]⟩ := by
  have hsecond := @run_secondSigned keys
  rw [run] at hsecond
  rw [run, thirdSigned, List.foldl_append, hsecond]
  exact foldl_signed ⟨rfl, rfl⟩ (second_new hne) reads_bobRemoved

/-- The hash of the serialized fields. -/
def sampleEventId (publicKey : PublicKey) (createdAt : Timestamp) (kind : Kind) (tags : List Tag)
    (content : String) : EventId :=
  let text := Json.renderArr
    [['0'], Json.renderStr (hexEncode publicKey).toList, Nat.toDigits 10 createdAt.toNat,
      Nat.toDigits 10 kind.val,
      Json.renderArr (tags.map fun tag ↦
        Json.renderArr (tag.asSlice.map fun s ↦ Json.renderStr s.toList)),
      Json.renderStr content.toList]
  Fin.ofNat (2 ^ 256)
    (Sha256.ofBytes (Sha256.digest (String.ofList text).toByteArray.data.toList))

theorem bytes_ofList (text : List Char) :
    (String.ofList text).toByteArray.data.toList = text.flatMap String.utf8EncodeChar := by
  rw [String.toByteArray_ofList, List.utf8Encode, List.data_toByteArray, List.toList_toArray]

def sampleKeys : RelayKeys := ⟨7, sampleEventId 7, fun _ ↦ 0⟩

theorem sampleIds_ne : (firstList sampleKeys).id ≠ (secondList sampleKeys).id := by
  have hfirst : (firstList sampleKeys).id =
      67832573621308032123819561163302638037601203384370990297475194704502047257072 := by
    simp only [firstList, membershipEvent, sampleKeys, sampleEventId, membershipTags, alice,
      hexEncode, Tag.asSlice, List.map_cons, List.map_nil, String.toList_ofList, bytes_ofList]
    decide +kernel
  have hsecond : (secondList sampleKeys).id =
      40630604725031578623943800142417707540611774087022754827745382827613825911460 := by
    simp only [secondList, membershipEvent, sampleKeys, sampleEventId, membershipTags, alice, bob,
      hexEncode, Tag.asSlice, List.map_cons, List.map_nil, String.toList_ofList, bytes_ofList]
    decide +kernel
  rw [hfirst, hsecond]
  decide

theorem mem_thirdSigned :
    .read rows now ∈ thirdSigned 1700000001 ++ [.commit] ↔
      rows = [alice] ∧ now = 1700000000 ∨ rows = [alice, bob] ∧ now = 1700000000 ∨
        rows = [alice] ∧ now = 1700000001 := by
  simp only [thirdSigned, secondSigned, firstSigned, changeThenSign, List.mem_append,
    List.mem_cons, List.not_mem_nil, MembershipOp.read.injEq, reduceCtorEq, false_or, or_false,
    or_assoc]

theorem keepsApart_thirdSigned : KeepsApart sampleKeys (thirdSigned 1700000001 ++ [.commit]) := by
  intro rows rows' now h h' hid
  rcases mem_thirdSigned.mp h with ⟨rfl, rfl⟩ | ⟨rfl, rfl⟩ | ⟨rfl, rfl⟩
  all_goals rcases mem_thirdSigned.mp h' with ⟨rfl, hnow⟩ | ⟨rfl, hnow⟩ | ⟨rfl, hnow⟩
  any_goals rfl
  any_goals cases hnow
  · exact absurd hid sampleIds_ne
  · exact absurd hid.symm sampleIds_ne

theorem prefix_commit_cases {xs ys pre : List MembershipOp} (hxs : .commit ∉ xs)
    (h : pre ++ [.commit] <+: xs ++ .commit :: ys) :
    pre = xs ∨ ∃ pre', pre = xs ++ .commit :: pre' ∧ pre' ++ [.commit] <+: ys := by
  induction xs generalizing pre with
  | nil =>
    cases pre with
    | nil => exact .inl rfl
    | cons op pre =>
      obtain ⟨rfl, hpre⟩ := List.cons_prefix_cons.mp h
      exact .inr ⟨pre, rfl, hpre⟩
  | cons x xs ih =>
    cases pre with
    | nil =>
      obtain ⟨rfl, _⟩ := List.cons_prefix_cons.mp h
      exact absurd List.mem_cons_self hxs
    | cons op pre =>
      obtain ⟨rfl, hpre⟩ := List.cons_prefix_cons.mp h
      rcases ih (List.not_mem_of_not_mem_cons hxs) hpre with rfl | ⟨pre', rfl, hpre'⟩
      · exact .inl rfl
      · exact .inr ⟨pre', rfl, hpre'⟩

theorem commits_thirdSigned {pre : List MembershipOp}
    (h : pre ++ [.commit] <+: thirdSigned now ++ [.commit]) :
    pre = firstSigned ∨ pre = secondSigned ∨ pre = thirdSigned now := by
  have hassoc : thirdSigned now ++ [.commit] = firstSigned ++ .commit ::
      (changeThenSign (.add bob.pubkey .member) 1 [alice, bob] 1700000000 ++ .commit ::
        (changeThenSign (.remove bob.pubkey) 2 [alice] now ++ .commit :: [])) := rfl
  have hnone (c : MemberChange) (changedAt : ℤ) (rows : List RelayMember) (now : Timestamp) :
      .commit ∉ changeThenSign c changedAt rows now := by simp [changeThenSign]
  rw [hassoc] at h
  rcases prefix_commit_cases (hnone _ _ _ _) h with rfl | ⟨pre₁, rfl, h₁⟩
  · exact .inl rfl
  rcases prefix_commit_cases (hnone _ _ _ _) h₁ with rfl | ⟨pre₂, rfl, h₂⟩
  · exact .inr (.inl rfl)
  rcases prefix_commit_cases (hnone _ _ _ _) h₂ with rfl | ⟨pre₃, rfl, h₃⟩
  · exact .inr (.inr rfl)
  · exact absurd (List.prefix_nil.mp h₃) (List.concat_ne_nil _ _)

/-- The third list is signed a second later than the other two. -/
theorem published_list_current_next_second :
    (run sampleKeys (thirdSigned 1700000001 ++ [.commit])).Current sampleKeys := by
  have hthird := run_thirdSigned sampleIds_ne 1700000001
  refine (published_list_current_iff sampleKeys _ keepsApart_thirdSigned).2.mpr ?_
    (thirdSigned 1700000001) [alice] 1700000001 1700000001 (List.prefix_refl _) ?_
  · intro pre rows now createdAt hpre hok
    rcases commits_thirdSigned hpre with rfl | rfl | rfl
    · rw [run_firstSigned] at hok ⊢
      cases hok.1
      decide +kernel
    · rw [run_secondSigned] at hok ⊢
      cases hok.1
      decide +kernel
    · rw [hthird] at hok ⊢
      cases hok.1
      decide +kernel
  · rw [hthird]
    exact ⟨rfl, rfl⟩

theorem succeeds_thirdSigned (hne : (firstList keys).id ≠ (secondList keys).id) :
    (run keys (thirdSigned 1700000000)).Succeeds keys [alice] 1700000000 1700000000 := by
  rw [run_thirdSigned hne]
  exact ⟨rfl, rfl⟩

theorem not_current_thirdSigned (hne : (firstList keys).id ≠ (secondList keys).id) :
    ¬(run keys (thirdSigned 1700000000 ++ [.commit])).Current keys := by
  have hthird := run_thirdSigned hne 1700000000
  have hcoherent : (run keys (thirdSigned 1700000000)).Coherent keys (thirdSigned 1700000000) :=
    coherent_run (List.prefix_refl _)
  have hmem : (1700000000, (membershipEvent keys [alice] 1700000000).id) ∈
      (run keys (thirdSigned 1700000000)).events := by
    rw [hcoherent.stored, hthird]
    exact ⟨_, List.mem_cons_of_mem _ List.mem_cons_self, rfl, rfl⟩
  have hlist : isMembershipList keys ⟨secondList keys, none, extractDTag (secondList keys), false⟩ =
      true := isMembershipList_signed [alice, bob] 1700000000
  have honly (key : EventKey) (row : EventRow) :=
    (@live_replacedBy_iff keys _ _ _ (second_new hne) hlist key row).mp
  rw [run_concat, step_commit (succeeds_thirdSigned hne), if_pos hmem, hthird]
  intro ⟨key, row, hrow, _, hlists⟩
  obtain ⟨_, rfl⟩ := honly key row hrow
  have hlength := (hlists.trans (reads_bobRemoved.1.map _).symm).length_eq
  rw [secondList, listedMembers_membershipEvent] at hlength
  cases hlength

/-- In the same second the third publication rolls back and returns `Ok`, while the list of the
second one stays. -/
theorem repeated_list_rolled_back :
    (run sampleKeys (thirdSigned 1700000000)).Succeeds sampleKeys [alice] 1700000000 1700000000 ∧
      ¬(run sampleKeys (thirdSigned 1700000000 ++ [.commit])).Current sampleKeys :=
  ⟨succeeds_thirdSigned sampleIds_ne, not_current_thirdSigned sampleIds_ne⟩

end Samples

end Buzz.Db
