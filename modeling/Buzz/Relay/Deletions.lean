import Buzz.Channel.Admin
import Buzz.Channel.Members
import Buzz.Db.ReactionRun
import Buzz.Db.ReplaceSpec
import Buzz.Lib.Decimal
import Buzz.Lib.Texts
import Buzz.Relay.Commands

namespace Buzz.Relay.Deletions

open Buzz.Lib Buzz.Nostr Buzz.Core Buzz.Db Buzz.Channel Ingest

def hasETag (event : Event) : Bool := event.tags.any fun t ↦ t.kind == "e"

def extractTargetEventIds (event : Event) : List EventId :=
  (event.tagContents "e").filterMap hexDecode

def aTagValue (event : Event) : Option String :=
  (event.tags.find? fun t ↦ t.kind == "a").bind Tag.content

def splitn3 (value : String) : List String :=
  match splitOnce ':' value.toList with
  | none => [value]
  | some (kind, rest) =>
    match splitOnce ':' rest with
    | none => [String.ofList kind, String.ofList rest]
    | some (pubkey, dTag) => [String.ofList kind, String.ofList pubkey, String.ofList dTag]

def mayDelete (users : Users) (actor author : PublicKey) : Bool :=
  author = actor || isAgentOwner users author actor

/-- Only the first `actor` tag is asked, where ingest passes over those without a content. -/
def effectiveMessageAuthor (event : Event) (relayPubkey : PublicKey) : PublicKey :=
  if event.pubkey = relayPubkey then
    match (extractTagValue event "actor").bind hexDecode with
    | some actor => actor
    | none => ((event.tagContents "p").findSome? hexDecode).getD event.pubkey
  else event.pubkey

section Handler

variable (relayPubkey : PublicKey)

def validateStandardDeletionEvent (users : Users) (events : EventsTable) (event : Event) :
    Except String Unit :=
  let actor := effectiveMessageAuthor event relayPubkey
  if hasETag event then
    (extractTargetEventIds event).forM fun id ↦ do
      let target ← okOr (events.latestById id true) "target event not found"
      require (mayDelete users actor (effectiveMessageAuthor target.2 relayPubkey))
        "must be event author"
  else do
    let value ← okOr (aTagValue event) "missing e or a tag for target"
    match splitn3 value with
    | _ :: pubkeyHex :: _ =>
      let _ ← okOr (decodeHex pubkeyHex) "invalid pubkey in a-tag"
      require ((hexDecode pubkeyHex).any (mayDelete users actor)) "must be event author"
    | _ => throw "invalid a-tag format"

/-- The checks of ingest on the targets. With one target at most they read the tables once. -/
def admitDeletion (users : Users) (events : EventsTable) (event : Event) : Except String Unit := do
  (validateStandardDeletionEvent relayPubkey users events event).mapError ("invalid: " ++ ·)
  let eCount := event.tags.countP fun t ↦ t.kind == "e"
  let aCount := event.tags.countP fun t ↦ t.kind == "a"
  require (eCount + aCount = 1)
    ("invalid: deletion events must reference exactly one target via e or a tag (got e=" ++
      toString eCount ++ ", a=" ++ toString aCount ++ ")")

/-- The coordinate of a workflow deletes the workflow, and no event. -/
def handleATagDeletion (events : EventsTable) (event : Event) : Except String EventsTable := do
  let value ← okOr (aTagValue event) "missing a tag for addressable deletion"
  match splitn3 value with
  | [kind, pubkeyHex, dTag] =>
    let kindNum ← okOr (Decimal.parseU32 kind.toList) "invalid kind in a-tag"
    if kindNum.toNat = kindPushLease then return events
    else if kindNum.toNat = Kinds.workflowDef then return events
    else if isParameterizedReplaceable kindNum.toNat then
      let _ ← okOr (decodeHex pubkeyHex) ("invalid pubkey hex in a-tag " ++ pubkeyHex)
      match hexDecode pubkeyHex with
      | some pubkey =>
        let p := EventRow.isParameterized (Fin.ofNat _ kindNum.toNat) pubkey dTag
        return events.softDeleteWhere p
      | none => return events
    else return events
  | _ => throw ("invalid a-tag format: " ++ value)

/-- The triggers on `events` remove the read-state and mesh-status rows that an update deletes. -/
def purgeDeleted (old new : EventsTable) : EventsTable :=
  Map.keepEntries (fun key row ↦ !(row.deleted && (row.isNipRs || row.isMeshStatus) &&
    (old.lookup key).any fun row ↦ !row.deleted)) new

def deleteTarget (store : ReactionStore) (id : EventId) : ReactionStore :=
  let deleted := deleteEvent relayPubkey store id
  { deleted with events := purgeDeleted store.events deleted.events }

def handleStandardDeletionEvent (store : ReactionStore) (event : Event) :
    Except String ReactionStore :=
  if hasETag event then
    .ok ((extractTargetEventIds event).foldl (deleteTarget relayPubkey) store)
  else (handleATagDeletion store.events event).map fun events ↦ { store with events }

/-- The tables of a community, and the deletions that were admitted and are not carried out. -/
structure World where
  store : ReactionStore := {}
  users : Users := ∅
  pending : List Event := []

variable (signed : EventId → Event)

/-- What happens next. Other writers keep events as they were signed, and are free otherwise. -/
inductive Op
  | submit (id : EventId)
  | execute (i : ℕ)
  | abandon (i : ℕ)
  | users (users : Users)
  | store (store : ReactionStore) (coherent : store.Coherent relayPubkey signed)

namespace World

def submit (w : World) (event : Event) : World :=
  if eventKindU32 event = Kinds.deletion then
    match admitDeletion relayPubkey w.users w.store.events event with
    | .ok () => { w with pending := w.pending ++ [event] }
    | .error _ => w
  else w

def execute (w : World) (i : ℕ) : World :=
  match w.pending[i]? with
  | none => w
  | some event =>
    match handleStandardDeletionEvent relayPubkey w.store event with
    | .ok store => { w with store, pending := w.pending.eraseIdx i }
    | .error _ => { w with pending := w.pending.eraseIdx i }

variable {relayPubkey signed}

def step (w : World) : Op relayPubkey signed → World
  | .submit id => w.submit relayPubkey (eventOf signed id)
  | .execute i => w.execute relayPubkey i
  | .abandon i => { w with pending := w.pending.eraseIdx i }
  | .users users => { w with users }
  | .store store _ => { w with store }

def run (ops : List (Op relayPubkey signed)) : World := ops.foldl step {}

end World

end Handler

section Authority

variable (relayPubkey : PublicKey) (signed : EventId → Event)

/-- An `e` tag names the row, or else the first `a` tag its coordinate; with the author that the
deletion is checked against. -/
inductive Names (event : Event) (k : DbTime × EventId) (row : EventRow) : PublicKey → Prop
  | event (htag : hasETag event = true) (hid : k.2 ∈ extractTargetEventIds event) :
    Names event k row (effectiveMessageAuthor row.event relayPubkey)
  | coordinate {value kind pubkeyHex dTag : String} {kindNum : UInt32}
    (htag : hasETag event = false) (hvalue : aTagValue event = some value)
    (hparts : splitn3 value = [kind, pubkeyHex, dTag])
    (hkind : Decimal.parseU32 kind.toList = some kindNum)
    (hpubkey : hexDecode pubkeyHex = some row.event.pubkey)
    (hrow : row.isParameterized (Fin.ofNat _ kindNum.toNat) row.event.pubkey dTag = true) :
    Names event k row row.event.pubkey

variable {relayPubkey signed}

def Admitted (pre : List (Op relayPubkey signed)) (event : Event) : Prop :=
  eventKindU32 event = Kinds.deletion ∧
    admitDeletion relayPubkey (World.run pre).users (World.run pre).store.events event = .ok ()

/-- A row that is not as it was is no push lease, the deletion that was carried out names it, and
when that was admitted its actor was the author, or the owner of the author. -/
structure WithinAuthority (ops : List (Op relayPubkey signed)) (i : ℕ) : Prop where
  row : ∀ k row, (World.run ops).store.events.lookup k = some row →
    ((World.run ops).execute relayPubkey i).store.events.lookup k = some row ∨
      eventKindU32 row.event ≠ kindPushLease ∧ ∃ event author,
        (World.run ops).pending[i]? = some event ∧ Names relayPubkey event k row author ∧
          ∃ pre, pre <+: ops ∧ Admitted pre event ∧
            mayDelete (World.run pre).users (effectiveMessageAuthor event relayPubkey) author = true

variable {store : ReactionStore} {event : Event}

theorem deleteEvent_frame (h : store.Coherent relayPubkey signed) (id : EventId)
    {k : DbTime × EventId} {row : EventRow} (hrow : store.events.lookup k = some row) :
    (deleteEvent relayPubkey store id).events.lookup k = some row ∨
      eventKindU32 row.event ≠ kindPushLease ∧ k.2 = id := by
  rw [deleteEvent]
  split
  · exact .inl hrow
  next hlatest =>
  obtain ⟨row', hrow', rfl, -⟩ := EventsTable.latestById_eq_some hlatest
  rw [(h.event _ row' hrow').1]
  split
  · exact .inl hrow
  next hlease =>
  simp only
  split
  · exact .inl hrow
  rw [apply_ite ReactionStore.events, ite_self, EventsTable.lookup_softDelete, hrow,
    Option.map_some]
  split
  · next hp =>
    have hid : k.2 = id := eq_of_beq ((Bool.and_eq_true _ _).mp hp).1
    rw [(h.event k row hrow).1, hid]
    exact .inr ⟨hlease, rfl⟩
  · exact .inl rfl

theorem deleteTarget_coherent (h : store.Coherent relayPubkey signed) (id : EventId) :
    (deleteTarget relayPubkey store id).Coherent relayPubkey signed := by
  have hdeleted := h.step (.deleteEvent id)
  refine ⟨fun k row hrow ↦ ?_, hdeleted.reaction⟩
  rw [deleteTarget, purgeDeleted, Map.lookup_keepEntries, Option.filter_eq_some_iff] at hrow
  exact hdeleted.event k row hrow.1

theorem deleteTarget_frame (h : store.Coherent relayPubkey signed) (id : EventId)
    {k : DbTime × EventId} {row : EventRow} (hrow : store.events.lookup k = some row) :
    (deleteTarget relayPubkey store id).events.lookup k = some row ∨
      eventKindU32 row.event ≠ kindPushLease ∧ k.2 = id := by
  refine (deleteEvent_frame h id hrow).imp_left fun hsame ↦ ?_
  rw [deleteTarget, purgeDeleted, Map.lookup_keepEntries, hsame, Option.filter_some, if_pos]
  rw [hrow, Option.any_some]
  cases row.deleted <;> simp

theorem foldl_deleteTarget (h : store.Coherent relayPubkey signed) (ids : List EventId) :
    (ids.foldl (deleteTarget relayPubkey) store).Coherent relayPubkey signed ∧
      ∀ k row, store.events.lookup k = some row →
        (ids.foldl (deleteTarget relayPubkey) store).events.lookup k = some row ∨
          eventKindU32 row.event ≠ kindPushLease ∧ k.2 ∈ ids := by
  induction ids generalizing store with
  | nil => exact ⟨h, fun _ _ hrow ↦ .inl hrow⟩
  | cons id ids ih =>
    obtain ⟨hcoherent, hrest⟩ := ih (deleteTarget_coherent h id)
    refine ⟨hcoherent, fun k row hrow ↦ ?_⟩
    rcases deleteTarget_frame h id hrow with hsame | ⟨hlease, hid⟩
    · exact (hrest k row hsame).imp_right (And.imp_right (List.mem_cons_of_mem _))
    · exact .inr ⟨hlease, List.mem_cons.mpr (.inl hid)⟩

theorem handleATagDeletion_spec {events events' : EventsTable} (htag : hasETag event = false)
    (heq : handleATagDeletion events event = .ok events') :
    events' = events ∨ ∃ p, events' = events.softDeleteWhere p ∧ ∀ k row, p row = true →
      eventKindU32 row.event ≠ kindPushLease ∧ ∃ author, Names relayPubkey event k row author := by
  obtain ⟨value, hvalue, heq⟩ := bind_eq_ok.mp heq
  rw [okOr_eq_ok] at hvalue
  split at heq
  · next kind pubkeyHex dTag hparts =>
    obtain ⟨kindNum, hkind, heq⟩ := bind_eq_ok.mp heq
    rw [okOr_eq_ok] at hkind
    split_ifs at heq with hlease _ hparam
    · exact .inl (Except.ok.inj heq).symm
    · exact .inl (Except.ok.inj heq).symm
    · obtain ⟨_, -, heq⟩ := bind_eq_ok.mp heq
      split at heq
      · next pubkey hpubkey =>
        refine .inr ⟨_, (Except.ok.inj heq).symm, fun k row hp ↦ ?_⟩
        have hrow := hp
        simp only [EventRow.isParameterized, Bool.and_eq_true, beq_iff_eq] at hrow
        obtain ⟨⟨hrowKind, rfl⟩, -⟩ := hrow
        refine ⟨?_, _, .coordinate htag hvalue hparts hkind hpubkey hp⟩
        simp only [isParameterizedReplaceable, Bool.and_eq_true, decide_eq_true_eq] at hparam
        rw [eventKindU32, hrowKind, Fin.val_ofNat, Nat.mod_eq_of_lt (by omega)]
        exact hlease
      · exact .inl (Except.ok.inj heq).symm
    · exact .inl (Except.ok.inj heq).symm
  · cases heq

theorem handleStandardDeletionEvent_spec (h : store.Coherent relayPubkey signed)
    {store' : ReactionStore}
    (heq : handleStandardDeletionEvent relayPubkey store event = .ok store') :
    store'.Coherent relayPubkey signed ∧ ∀ k row, store.events.lookup k = some row →
      store'.events.lookup k = some row ∨
        eventKindU32 row.event ≠ kindPushLease ∧
          ∃ author, Names relayPubkey event k row author := by
  rw [handleStandardDeletionEvent] at heq
  split at heq
  · next htag =>
    cases heq
    obtain ⟨hcoherent, hframe⟩ := foldl_deleteTarget h (extractTargetEventIds event)
    exact ⟨hcoherent, fun k row hrow ↦ (hframe k row hrow).imp_right
      (And.imp_right fun hid ↦ ⟨_, .event htag hid⟩)⟩
  · next htag =>
    obtain ⟨events, hevents, rfl⟩ := map_eq_ok.mp heq
    rcases handleATagDeletion_spec (Bool.eq_false_iff.mpr htag) hevents with
      rfl | ⟨p, rfl, hnames⟩
    · exact ⟨h, fun _ _ hrow ↦ .inl hrow⟩
    · refine ⟨⟨fun k row hrow ↦ ?_, h.reaction⟩, fun k row hrow ↦ ?_⟩
      · rw [EventsTable.lookup_softDeleteWhere, Option.bind_eq_some_iff] at hrow
        obtain ⟨row', hrow', heq⟩ := hrow
        have hkept := h.event k row' hrow'
        split_ifs at heq <;> cases heq <;> exact hkept
      · rw [EventsTable.lookup_softDeleteWhere, hrow, Option.bind_some]
        split
        · next hp => exact .inr (hnames k row ((Bool.and_eq_true _ _).mp hp).1)
        · exact .inl rfl

/-- The target that validation checks is the one that the handler deletes. -/
theorem mayDelete_of_admitDeletion (h : store.Coherent relayPubkey signed) {users : Users}
    (hadmitted : admitDeletion relayPubkey users store.events event = .ok ())
    {k : DbTime × EventId} {row : EventRow} {author : PublicKey}
    (hevent : row.event = eventOf signed k.2) (hnames : Names relayPubkey event k row author) :
    mayDelete users (effectiveMessageAuthor event relayPubkey) author = true := by
  obtain ⟨⟨⟩, hvalid, -⟩ := bind_eq_ok.mp hadmitted
  rw [mapError_eq_ok, validateStandardDeletionEvent] at hvalid
  cases hnames with
  | event htag hid =>
    rw [if_pos htag, forM_eq_ok] at hvalid
    have htarget := hvalid k.2 hid
    simp only [bind_eq_ok, okOr_eq_ok, require_eq_ok] at htarget
    obtain ⟨⟨t, target⟩, hlatest, hmay⟩ := htarget
    obtain ⟨row', hrow', rfl, -⟩ := EventsTable.latestById_eq_some hlatest
    rwa [(h.event _ row' hrow').1, ← hevent] at hmay
  | coordinate htag hvalue hparts hkind hpubkey hrow =>
    rw [htag] at hvalid
    obtain ⟨_, hvalue', hvalid⟩ := bind_eq_ok.mp hvalid
    rw [okOr_eq_ok, hvalue] at hvalue'
    cases hvalue'
    rw [hparts] at hvalid
    obtain ⟨_, -, hvalid⟩ := bind_eq_ok.mp hvalid
    rwa [require_eq_ok, hpubkey] at hvalid

structure World.Inv (ops : List (Op relayPubkey signed)) (w : World) : Prop where
  coherent : w.store.Coherent relayPubkey signed
  pending : ∀ event ∈ w.pending, ∃ pre, pre <+: ops ∧ Admitted pre event

theorem reachable_inv (ops : List (Op relayPubkey signed)) : World.Inv ops (World.run ops) := by
  induction ops using List.reverseRecOn with
  | nil =>
    exact ⟨⟨fun _ _ h ↦ (by cases h), fun _ _ h ↦ (by cases h)⟩,
      fun _ h ↦ (List.not_mem_nil h).elim⟩
  | append_singleton ops op ih =>
    have hpending (event : Event) (h : event ∈ (World.run ops).pending) :
        ∃ pre, pre <+: ops ++ [op] ∧ Admitted pre event := by
      obtain ⟨pre, hpre, hadmitted⟩ := ih.pending event h
      exact ⟨pre, hpre.trans (List.prefix_append ops [op]), hadmitted⟩
    have herase (i : ℕ) (event : Event) (h : event ∈ (World.run ops).pending.eraseIdx i) :=
      hpending event (List.mem_of_mem_eraseIdx h)
    rw [World.run, List.foldl_append]
    change World.Inv _ (World.step (World.run ops) op)
    cases op with
    | submit id =>
      rw [World.step, World.submit]
      split
      · next hkind =>
        split
        · next hadmitted =>
          exact ⟨ih.coherent,
            forall_mem_concat hpending ⟨ops, List.prefix_append ops _, hkind, hadmitted⟩⟩
        · exact ⟨ih.coherent, hpending⟩
      · exact ⟨ih.coherent, hpending⟩
    | execute i =>
      rw [World.step, World.execute]
      split
      · exact ⟨ih.coherent, hpending⟩
      · split
        · next heq => exact ⟨(handleStandardDeletionEvent_spec ih.coherent heq).1, herase i⟩
        · exact ⟨ih.coherent, herase i⟩
    | abandon i => exact ⟨ih.coherent, herase i⟩
    | users users => exact ⟨ih.coherent, hpending⟩
    | store store coherent => exact ⟨coherent, hpending⟩

/-- A deletion stays within its author's authority, whatever comes between its admission and its
execution. -/
theorem execute_withinAuthority (ops : List (Op relayPubkey signed)) (i : ℕ) :
    WithinAuthority ops i where
  row k row hrow := by
    have hinv := reachable_inv ops
    rw [World.execute]
    split
    · exact .inl hrow
    next event hi =>
    split
    · next heq =>
      refine ((handleStandardDeletionEvent_spec hinv.coherent heq).2 k row hrow).imp_right ?_
      rintro ⟨hlease, author, hnames⟩
      obtain ⟨pre, hpre, hadmitted⟩ := hinv.pending event (List.mem_of_getElem? hi)
      exact ⟨hlease, event, author, hi, hnames, pre, hpre, hadmitted,
        mayDelete_of_admitDeletion (reachable_inv pre).coherent hadmitted.2
          (hinv.coherent.event k row hrow).1 hnames⟩
    · exact .inl hrow

end Authority

end Buzz.Relay.Deletions
