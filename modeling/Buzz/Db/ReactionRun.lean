import Buzz.Db.Reaction
import Buzz.Lib.Runs

namespace Buzz.Db

open Buzz.Lib Buzz.Nostr Buzz.Core

theorem mem_of_latest {rows : List (DbTime × Event)} {row : DbTime × Event}
    (h : latest rows = some row) : row ∈ rows := by
  induction rows with
  | nil => cases h
  | cons head rows ih =>
    rw [latest] at h
    cases hrest : latest rows with
    | none =>
      rw [hrest] at h
      cases h
      exact List.mem_cons_self
    | some best =>
      rw [hrest] at h
      simp only at h
      split at h
      · cases h
        exact List.mem_cons_of_mem _ (ih hrest)
      · cases h
        exact List.mem_cons_self

theorem latest_eq_none {rows : List (DbTime × Event)} (h : latest rows = none) : rows = [] := by
  cases rows with
  | nil => rfl
  | cons head rows =>
    rw [latest] at h
    cases hrest : latest rows with
    | none =>
      rw [hrest] at h
      cases h
    | some best =>
      rw [hrest] at h
      simp only at h
      split at h <;> cases h

namespace EventsTable

variable {events : EventsTable} {id : EventId} {t : DbTime}

def SoftDeleted (events : EventsTable) (id : EventId) : Prop :=
  ∃ t row, events.lookup (t, id) = some row ∧ row.deleted = true

theorem latestById_eq_some {includingDeleted : Bool} {event : Event}
    (h : events.latestById id includingDeleted = some (t, event)) :
    ∃ row, events.lookup (t, id) = some row ∧ row.event = event ∧
      (includingDeleted || !row.deleted) = true := by
  obtain ⟨e, he, heq⟩ := List.mem_map.mp (mem_of_latest h)
  obtain ⟨hmem, hp⟩ := List.mem_filter.mp he
  simp only [Bool.and_eq_true, beq_iff_eq] at hp
  obtain ⟨hid, hdel⟩ := hp
  cases heq
  refine ⟨e.2, ?_, rfl, hdel⟩
  rw [← hid]
  exact Map.mem_entries_iff.mp hmem

theorem latestById_eq_none (h : events.latestById id false = none) : ¬events.Live id := by
  intro ⟨t, row, hrow, hlive⟩
  have hnil := latest_eq_none h
  rw [List.map_eq_nil_iff, List.filter_eq_nil_iff] at hnil
  apply hnil _ (Map.mem_entries_iff.mpr hrow)
  simp [hlive]

theorem Live.insertRow {event : Event} {channelId : Option Uuid} (h : events.Live id) :
    (events.insertRow t event channelId).1.Live id := by
  obtain ⟨t', row, hrow, hlive⟩ := h
  refine ⟨t', row, ?_, hlive⟩
  rw [lookup_insertRow, if_neg, hrow]
  intro hkey
  exact hkey.2 (AList.lookup_isSome.mp (by rw [hrow, Option.isSome_some]))

end EventsTable

namespace ReactionsTable

variable {reactions reactions' : ReactionsTable}

theorem lookup_markRemoved {p : ReactionKey → ReactionCell → Bool} {key : ReactionKey} :
    (reactions.markRemoved p).1.lookup key = (reactions.lookup key).map fun cell ↦
      if p key cell && !cell.removed then { cell with removed := true } else cell :=
  Map.lookup_mapValues

/-- The rows of `reactions`, some of them no longer active. -/
def Shrinks (reactions reactions' : ReactionsTable) : Prop :=
  ∀ key cell', reactions'.lookup key = some cell' → ∃ cell, reactions.lookup key = some cell ∧
    cell'.reactionEventId = cell.reactionEventId ∧ (cell'.removed = false → cell.removed = false)

theorem Shrinks.refl (reactions : ReactionsTable) : reactions.Shrinks reactions :=
  fun _ cell' h ↦ ⟨cell', h, rfl, id⟩

theorem Shrinks.markRemoved {p : ReactionKey → ReactionCell → Bool}
    (h : reactions.Shrinks reactions') : reactions.Shrinks (reactions'.markRemoved p).1 := by
  intro key cell' hcell'
  rw [lookup_markRemoved] at hcell'
  obtain ⟨cell₁, hcell₁, rfl⟩ := Option.map_eq_some_iff.mp hcell'
  obtain ⟨cell, hcell, hsource, hactive⟩ := h key cell₁ hcell₁
  refine ⟨cell, hcell, ?_, ?_⟩
  · split
    · exact hsource
    · exact hsource
  · intro hlive
    split at hlive
    · cases hlive
    · exact hactive hlive

def Without (reactions : ReactionsTable) (source : EventId) : Prop :=
  ∀ key cell, reactions.lookup key = some cell → cell.removed = false →
    cell.reactionEventId ≠ some source

theorem without_removeReactionBySourceEventId {source : EventId} :
    (reactions.removeReactionBySourceEventId source).1.Without source := by
  intro key cell hcell hactive hsource
  rw [removeReactionBySourceEventId, lookup_markRemoved] at hcell
  obtain ⟨cell₁, -, rfl⟩ := Option.map_eq_some_iff.mp hcell
  split at hactive
  · cases hactive
  · next hp =>
    rw [if_neg hp] at hsource
    apply hp
    simp [hsource, hactive]

theorem Without.shrinks {source : EventId} (h : reactions.Without source)
    (hshrinks : reactions.Shrinks reactions') : reactions'.Without source := by
  intro key cell' hcell' hactive hsource
  obtain ⟨cell, hcell, heq, hact⟩ := hshrinks key cell' hcell'
  exact h key cell hcell (hact hactive) (heq ▸ hsource)

end ReactionsTable

section Invariant

variable (relayPubkey : PublicKey) (signed : EventId → Event)

structure RecordedAt (source : EventId) (key : ReactionKey) : Prop where
  kind : eventKindU32 (eventOf signed source) = kindReaction
  target : reactionTarget (eventOf signed source) = some key.eventId
  createdAt : createdAtOf (eventOf signed key.eventId) = .ok key.eventCreatedAt
  pubkey : key.pubkey = effectiveMessageAuthor (eventOf signed source) relayPubkey
  emoji : key.emoji = reactionEmoji (eventOf signed source)

structure ReactionStore.Coherent (store : ReactionStore) : Prop where
  event : ∀ k row, store.events.lookup k = some row →
    row.event = eventOf signed k.2 ∧ createdAtOf (eventOf signed k.2) = .ok k.1
  reaction : ∀ key cell, store.reactions.lookup key = some cell →
    ∃ source, cell.reactionEventId = some source ∧ RecordedAt relayPubkey signed source key

def ReactionStore.Follows (store : ReactionStore) : Prop :=
  ∀ key cell source, store.reactions.lookup key = some cell → cell.removed = false →
    cell.reactionEventId = some source → store.events.Live source

def ReactionStore.UniqueActive (store : ReactionStore) : Prop :=
  ∀ key key' cell cell', store.reactions.lookup key = some cell → cell.removed = false →
    store.reactions.lookup key' = some cell' → cell'.removed = false →
    key.eventId = key'.eventId → key.pubkey = key'.pubkey → key.emoji = key'.emoji → key = key'

structure Admits (store : ReactionStore) (source : EventId) (key : ReactionKey) : Prop where
  recorded : RecordedAt relayPubkey signed source key
  short : (reactionEmoji (eventOf signed source)).length ≤ maxReactionEmojiChars
  live : store.events.Live key.eventId
  inactive : ∀ cell, store.reactions.lookup key = some cell → cell.removed = true

/-- A kind:7 event whose stored row is deleted comes again, on a live target and with no active row
of its target, actor and emoji. -/
def Replays (store : ReactionStore) : ReactionOp → Prop
  | .submitReaction id _ =>
    (∃ key, Admits relayPubkey signed store id key) ∧ store.events.SoftDeleted id
  | _ => False

end Invariant

variable {relayPubkey : PublicKey} {signed : EventId → Event} {store : ReactionStore}
  {source : EventId} {key : ReactionKey}

theorem RecordedAt.unique {key' : ReactionKey} (h : RecordedAt relayPubkey signed source key)
    (h' : RecordedAt relayPubkey signed source key') : key = key' := by
  have hid : key.eventId = key'.eventId := Option.some.inj (h.target.symm.trans h'.target)
  have ht := h.createdAt
  rw [hid, h'.createdAt] at ht
  have hp := h.pubkey.trans h'.pubkey.symm
  have he := h.emoji.trans h'.emoji.symm
  cases key
  cases key'
  cases hid
  cases ht
  cases hp
  cases he
  rfl

namespace ReactionStore

theorem coherent_empty (relayPubkey : PublicKey) (signed : EventId → Event) :
    Coherent relayPubkey signed {} := by
  constructor
  · intro k row h
    cases (AList.lookup_empty k).symm.trans h
  · intro key cell h
    cases (AList.lookup_empty key).symm.trans h

theorem Coherent.uniqueActive (h : store.Coherent relayPubkey signed) : store.UniqueActive := by
  intro key key' cell cell' hcell _ hcell' _ hid hp he
  obtain ⟨_, -, hkey⟩ := h.reaction key cell hcell
  obtain ⟨_, -, hkey'⟩ := h.reaction key' cell' hcell'
  have ht := hkey.createdAt
  rw [hid, hkey'.createdAt] at ht
  cases key
  cases key'
  cases hid
  cases ht
  cases hp
  cases he
  rfl

theorem Coherent.latestById_live (h : store.Coherent relayPubkey signed) {id : EventId}
    {t : DbTime} (ht : createdAtOf (eventOf signed id) = .ok t) (hlive : store.events.Live id) :
    store.events.latestById id false = some (t, eventOf signed id) := by
  cases hlatest : store.events.latestById id false with
  | none => exact absurd hlive (EventsTable.latestById_eq_none hlatest)
  | some best =>
    obtain ⟨t', event⟩ := best
    obtain ⟨row, hrow, hevent, -⟩ := EventsTable.latestById_eq_some hlatest
    obtain ⟨hsigned, htime⟩ := h.event _ row hrow
    rw [ht] at htime
    cases htime
    rw [← hevent, hsigned]

/-- The unique index on sources never stands in the way. -/
theorem Coherent.sourceTaken (h : store.Coherent relayPubkey signed)
    (hkey : RecordedAt relayPubkey signed source key) :
    store.reactions.sourceTaken key source = false := by
  rw [ReactionsTable.sourceTaken, List.any_eq_false]
  intro e he hp
  simp only [Bool.and_eq_true, bne_iff_ne, beq_iff_eq] at hp
  obtain ⟨source', hsource', hkey'⟩ := h.reaction e.1 e.2 (Map.mem_entries_iff.mp he)
  rw [hp.2] at hsource'
  cases hsource'
  exact hp.1 (hkey'.unique hkey)

theorem Coherent.addReactionTx (h : store.Coherent relayPubkey signed)
    (hkey : RecordedAt relayPubkey signed source key) :
    store.reactions.addReactionTx key (some source) =
      if ∀ cell, store.reactions.lookup key = some cell → cell.removed = true then
        .ok (AList.insert key ⟨false, some source⟩ store.reactions, true)
      else .ok (store.reactions, false) := by
  have hput : store.reactions.putCell key (some source) =
      .ok (AList.insert key ⟨false, some source⟩ store.reactions, true) := by
    rw [ReactionsTable.putCell, if_neg]
    rw [Option.any_some, h.sourceTaken hkey]
    exact Bool.false_ne_true
  unfold ReactionsTable.addReactionTx
  cases hcell : store.reactions.lookup key with
  | none =>
    rw [if_pos (by nofun)]
    exact hput
  | some cell =>
    cases hremoved : cell.removed with
    | true =>
      rw [if_pos fun cell' heq ↦ by cases heq; exact hremoved]
      simpa only [hremoved, if_true, Option.some_or] using hput
    | false =>
      rw [if_neg fun hall ↦ by rw [hall cell rfl] at hremoved; cases hremoved]
      simp only [hremoved, Bool.false_eq_true, if_false]

theorem Coherent.insertReactionEvent_eq (h : store.Coherent relayPubkey signed)
    (hadmits : Admits relayPubkey signed store source key) (channelId : Option Uuid) :
    insertReactionEvent store (eventOf signed source) channelId key.eventId
        (effectiveMessageAuthor (eventOf signed source) relayPubkey)
        (reactionEmoji (eventOf signed source)) =
      match createdAtOf (eventOf signed source) with
      | .error e => .error e
      | .ok t => .ok (⟨(store.events.insertRow t (eventOf signed source) channelId).1,
          AList.insert key ⟨false, some source⟩ store.reactions⟩,
          .inserted (store.events.insertRow t (eventOf signed source) channelId).2) := by
  have hadd := h.addReactionTx hadmits.recorded
  rw [if_pos hadmits.inactive] at hadd
  rw [insertReactionEvent, h.latestById_live hadmits.recorded.createdAt hadmits.live]
  simp only [← hadmits.recorded.pubkey, ← hadmits.recorded.emoji]
  rw [show (eventOf signed source).id = source from rfl, hadd]
  simp only [insertEventTx, hadmits.recorded.kind]
  cases createdAtOf (eventOf signed source) with
  | error e => rfl
  | ok t => rfl

theorem Coherent.submit_eq (h : store.Coherent relayPubkey signed)
    (hadmits : Admits relayPubkey signed store source key) (channelId : Option Uuid) :
    applyReactionOp relayPubkey signed store (.submitReaction source channelId) =
      match createdAtOf (eventOf signed source) with
      | .error _ => store
      | .ok t => ⟨(store.events.insertRow t (eventOf signed source) channelId).1,
          AList.insert key ⟨false, some source⟩ store.reactions⟩ := by
  simp only [applyReactionOp]
  rw [if_pos hadmits.recorded.kind, ingestReaction, hadmits.recorded.target]
  simp only
  rw [if_neg (not_lt.mpr hadmits.short), h.insertReactionEvent_eq hadmits]
  cases createdAtOf (eventOf signed source) with
  | error e => rfl
  | ok t => rfl

theorem Coherent.submit_eq_self (h : store.Coherent relayPubkey signed)
    (hnot : ¬∃ key, Admits relayPubkey signed store source key) (channelId : Option Uuid) :
    applyReactionOp relayPubkey signed store (.submitReaction source channelId) = store := by
  simp only [applyReactionOp]
  split
  · next hkind =>
    rw [ingestReaction]
    cases htarget : reactionTarget (eventOf signed source) with
    | none => rfl
    | some target =>
      simp only
      by_cases hlong : (reactionEmoji (eventOf signed source)).length > maxReactionEmojiChars
      · rw [if_pos hlong]
      rw [if_neg hlong, insertReactionEvent]
      cases hlatest : store.events.latestById target false with
      | none => rfl
      | some best =>
        obtain ⟨t, event⟩ := best
        obtain ⟨row, hrow, -, hlive⟩ := EventsTable.latestById_eq_some hlatest
        have hkey : RecordedAt relayPubkey signed source ⟨t, target,
            effectiveMessageAuthor (eventOf signed source) relayPubkey,
            reactionEmoji (eventOf signed source)⟩ :=
          ⟨hkind, htarget, (h.event _ row hrow).2, rfl, rfl⟩
        have hadd := h.addReactionTx hkey
        rw [if_neg] at hadd
        · simp only
          rw [show (eventOf signed source).id = source from rfl, hadd]
        · intro hinactive
          apply hnot
          refine ⟨_, hkey, not_lt.mp hlong, ⟨t, row, hrow, ?_⟩, hinactive⟩
          simpa using hlive
  · rfl

theorem Coherent.insertRow (h : store.Coherent relayPubkey signed) {id : EventId} {t : DbTime}
    (ht : createdAtOf (eventOf signed id) = .ok t) (channelId : Option Uuid) :
    ∀ k row, (store.events.insertRow t (eventOf signed id) channelId).1.lookup k = some row →
      row.event = eventOf signed k.2 ∧ createdAtOf (eventOf signed k.2) = .ok k.1 := by
  intro k row hrow
  rw [EventsTable.lookup_insertRow] at hrow
  split at hrow
  · next hkey =>
    cases hrow
    rw [hkey.1]
    exact ⟨rfl, ht⟩
  · exact h.event k row hrow

theorem Coherent.live_insertRow_iff (h : store.Coherent relayPubkey signed) {t : DbTime}
    (ht : createdAtOf (eventOf signed source) = .ok t) (channelId : Option Uuid) :
    (store.events.insertRow t (eventOf signed source) channelId).1.Live source ↔
      ¬store.events.SoftDeleted source := by
  constructor
  · intro ⟨t₁, row₁, hrow₁, hlive⟩ ⟨t₂, row₂, hrow₂, hdeleted⟩
    have ht₁ := (h.insertRow ht channelId _ row₁ hrow₁).2
    have ht₂ := (h.event _ row₂ hrow₂).2
    rw [ht] at ht₁ ht₂
    cases ht₁
    cases ht₂
    rw [EventsTable.lookup_insertRow, if_neg, hrow₂] at hrow₁
    · cases hrow₁
      rw [hlive] at hdeleted
      cases hdeleted
    · intro hkey
      exact hkey.2 (AList.lookup_isSome.mp (by rw [hrow₂, Option.isSome_some]))
  · intro hnot
    refine ⟨t, ?_⟩
    rw [EventsTable.lookup_insertRow]
    by_cases hmem : (t, source) ∈ store.events
    · rw [if_neg fun hkey ↦ hkey.2 hmem]
      obtain ⟨row, hrow⟩ := Option.isSome_iff_exists.mp (AList.lookup_isSome.mpr hmem)
      refine ⟨row, hrow, ?_⟩
      by_contra hdeleted
      exact hnot ⟨t, row, hrow, Bool.eq_true_of_not_eq_false hdeleted⟩
    · rw [if_pos ⟨rfl, hmem⟩]
      exact ⟨_, rfl, rfl⟩

theorem store_cases (relayPubkey : PublicKey) (id : EventId) (channelId : Option Uuid) :
    applyReactionOp relayPubkey signed store (.storeEvent id channelId) = store ∨
      ∃ t, createdAtOf (eventOf signed id) = .ok t ∧
        applyReactionOp relayPubkey signed store (.storeEvent id channelId) =
          { store with events := (store.events.insertRow t (eventOf signed id) channelId).1 } := by
  simp only [applyReactionOp, insertEventTx]
  split
  · exact .inl rfl
  split
  · next heq =>
    right
    split at heq
    · cases heq
    split at heq
    · cases heq
    split at heq
    · cases heq
    · next t ht =>
      refine ⟨t, ht, ?_⟩
      rw [Except.ok.inj heq]
  · exact .inl rfl

theorem removeReactionOf_spec (relayPubkey : PublicKey) (store : ReactionStore) (event : Event) :
    store.reactions.Shrinks (removeReactionOf relayPubkey store event) ∧
      (removeReactionOf relayPubkey store event).Without event.id := by
  have hshrinks : store.reactions.Shrinks
      (store.reactions.removeReactionBySourceEventId event.id).1 :=
    (ReactionsTable.Shrinks.refl _).markRemoved
  have hwithout : (store.reactions.removeReactionBySourceEventId event.id).1.Without event.id :=
    ReactionsTable.without_removeReactionBySourceEventId
  rw [removeReactionOf]
  simp only
  split
  · exact ⟨hshrinks, hwithout⟩
  split
  · exact ⟨hshrinks, hwithout⟩
  split
  · exact ⟨hshrinks, hwithout⟩
  · exact ⟨hshrinks.markRemoved, hwithout.shrinks (ReactionsTable.Shrinks.refl _).markRemoved⟩

theorem Coherent.delete_cases (h : store.Coherent relayPubkey signed) (id : EventId) :
    deleteEvent relayPubkey store id = store ∨
      (deleteEvent relayPubkey store id).events =
          store.events.softDelete (fun key row ↦ key.2 == id && !row.deleted) ∧
        store.reactions.Shrinks (deleteEvent relayPubkey store id).reactions ∧
        (eventKindU32 (eventOf signed id) = kindReaction →
          (deleteEvent relayPubkey store id).reactions.Without id) := by
  rw [deleteEvent]
  split
  · exact .inl rfl
  · next hlatest =>
    obtain ⟨row, hrow, hevent, -⟩ := EventsTable.latestById_eq_some hlatest
    rw [(h.event _ row hrow).1] at hevent
    rw [← hevent]
    split
    · exact .inl rfl
    simp only
    split
    · exact .inl rfl
    right
    split
    · obtain ⟨hshrinks, hwithout⟩ := removeReactionOf_spec relayPubkey { store with
        events := store.events.softDelete fun key row ↦ key.2 == id && !row.deleted }
        (eventOf signed id)
      exact ⟨rfl, hshrinks, fun _ ↦ hwithout⟩
    · next hkind => exact ⟨rfl, .refl _, fun heq ↦ absurd heq hkind⟩

theorem Coherent.softDelete (h : store.Coherent relayPubkey signed)
    (p : DbTime × EventId → EventRow → Bool) :
    ∀ k row, (store.events.softDelete p).lookup k = some row →
      row.event = eventOf signed k.2 ∧ createdAtOf (eventOf signed k.2) = .ok k.1 := by
  intro k row hrow
  rw [EventsTable.lookup_softDelete] at hrow
  obtain ⟨row₀, hrow₀, rfl⟩ := Option.map_eq_some_iff.mp hrow
  obtain ⟨hevent, htime⟩ := h.event k row₀ hrow₀
  refine ⟨?_, htime⟩
  split
  · exact hevent
  · exact hevent

theorem Coherent.shrinks (h : store.Coherent relayPubkey signed) {reactions : ReactionsTable}
    (hshrinks : store.reactions.Shrinks reactions) :
    ∀ key cell, reactions.lookup key = some cell →
      ∃ source, cell.reactionEventId = some source ∧ RecordedAt relayPubkey signed source key := by
  intro key cell' hcell'
  obtain ⟨cell, hcell, hsource, -⟩ := hshrinks key cell' hcell'
  rw [hsource]
  exact h.reaction key cell hcell

theorem Coherent.step (h : store.Coherent relayPubkey signed) (op : ReactionOp) :
    (applyReactionOp relayPubkey signed store op).Coherent relayPubkey signed := by
  cases op with
  | storeEvent id channelId =>
    obtain heq | ⟨t, ht, heq⟩ := store_cases relayPubkey id channelId
    · rw [heq]
      exact h
    · rw [heq]
      exact ⟨h.insertRow ht channelId, h.reaction⟩
  | submitReaction id channelId =>
    by_cases hadmits : ∃ key, Admits relayPubkey signed store id key
    · obtain ⟨key, hadmits⟩ := hadmits
      rw [h.submit_eq hadmits]
      split
      · exact h
      · next t ht =>
        refine ⟨h.insertRow ht channelId, ?_⟩
        intro key' cell hcell
        rw [Map.lookup_insert_eq] at hcell
        split at hcell
        · next hkey =>
          cases hcell
          exact ⟨id, rfl, hkey ▸ hadmits.recorded⟩
        · exact h.reaction key' cell hcell
    · rw [h.submit_eq_self hadmits]
      exact h
  | deleteEvent id =>
    rw [applyReactionOp]
    obtain heq | ⟨hevents, hshrinks, -⟩ := h.delete_cases id
    · rw [heq]
      exact h
    · refine ⟨?_, h.shrinks hshrinks⟩
      rw [hevents]
      exact h.softDelete _

theorem Coherent.follows_delete (h : store.Coherent relayPubkey signed) (hfollows : store.Follows)
    (id : EventId) : (deleteEvent relayPubkey store id).Follows := by
  obtain heq | ⟨hevents, hshrinks, hwithout⟩ := h.delete_cases id
  · rw [heq]
    exact hfollows
  · intro key cell source hcell hactive hsource
    obtain ⟨cell₀, hcell₀, hsource₀, hactive₀⟩ := hshrinks key cell hcell
    rw [hsource] at hsource₀
    obtain ⟨t, row, hrow, hlive⟩ :=
      hfollows key cell₀ source hcell₀ (hactive₀ hactive) hsource₀.symm
    obtain ⟨source', hsource', hrecorded⟩ := h.reaction key cell₀ hcell₀
    rw [← hsource₀] at hsource'
    cases hsource'
    have hne : source ≠ id := by
      intro heq
      rw [heq] at hrecorded hsource
      exact hwithout hrecorded.kind key cell hcell hactive hsource
    refine ⟨t, row, ?_, hlive⟩
    rw [hevents, EventsTable.lookup_softDelete, hrow, Option.map_some, if_neg]
    simp [hne]

theorem Coherent.follows_submit_iff (h : store.Coherent relayPubkey signed)
    (hfollows : store.Follows) (id : EventId) (channelId : Option Uuid) :
    (applyReactionOp relayPubkey signed store (.submitReaction id channelId)).Follows ↔
      ¬Replays relayPubkey signed store (.submitReaction id channelId) := by
  by_cases hadmits : ∃ key, Admits relayPubkey signed store id key
  · obtain ⟨key, hadmits⟩ := hadmits
    rw [h.submit_eq hadmits, Replays, not_and]
    cases ht : createdAtOf (eventOf signed id) with
    | error e =>
      refine iff_of_true hfollows ?_
      intro _ ⟨t, row, hrow, _⟩
      have htime := (h.event _ row hrow).2
      rw [ht] at htime
      cases htime
    | ok t =>
      rw [← h.live_insertRow_iff ht channelId]
      constructor
      · intro hnew _
        exact hnew key _ id (AList.lookup_insert _) rfl rfl
      · intro hlive key' cell source hcell hactive hsource
        rw [Map.lookup_insert_eq] at hcell
        split at hcell
        · cases hcell
          cases hsource
          exact hlive ⟨key, hadmits⟩
        · exact (hfollows key' cell source hcell hactive hsource).insertRow
  · rw [h.submit_eq_self hadmits]
    exact iff_of_true hfollows fun hreplays ↦ hadmits hreplays.1

theorem Coherent.follows_step_iff (h : store.Coherent relayPubkey signed)
    (hfollows : store.Follows) (op : ReactionOp) :
    (applyReactionOp relayPubkey signed store op).Follows ↔
      ¬Replays relayPubkey signed store op := by
  cases op with
  | storeEvent id channelId =>
    refine iff_of_true ?_ not_false
    obtain heq | ⟨t, ht, heq⟩ := store_cases relayPubkey id channelId
    · rw [heq]
      exact hfollows
    · rw [heq]
      intro key cell source hcell hactive hsource
      exact (hfollows key cell source hcell hactive hsource).insertRow
  | submitReaction id channelId => exact h.follows_submit_iff hfollows id channelId
  | deleteEvent id => exact iff_of_true (h.follows_delete hfollows id) not_false

theorem follows_empty : Follows {} := by
  intro key cell source h
  cases (AList.lookup_empty key).symm.trans h

end ReactionStore

/-- Active reaction rows follow their events through a run exactly when no step replays a deleted
reaction. -/
theorem reactions_follow_iff (relayPubkey : PublicKey) (signed : EventId → Event)
    (ops : List ReactionOp) :
    (∀ pre, pre <+: ops → (runReactions relayPubkey signed pre).Follows ∧
        (runReactions relayPubkey signed pre).UniqueActive) ↔
      ∀ pre op, pre ++ [op] <+: ops →
        ¬Replays relayPubkey signed (runReactions relayPubkey signed pre) op := by
  apply forall_prefix_good_iff (applyReactionOp relayPubkey signed)
    (ReactionStore.Coherent relayPubkey signed) (fun store ↦ store.Follows ∧ store.UniqueActive)
    (Replays relayPubkey signed)
  · exact ReactionStore.coherent_empty relayPubkey signed
  · exact ⟨ReactionStore.follows_empty,
      (ReactionStore.coherent_empty relayPubkey signed).uniqueActive⟩
  · intro store op h
    exact h.step op
  · intro store op h hgood
    rw [← h.follows_step_iff hgood.1 op]
    exact and_iff_left (h.step op).uniqueActive

def signedReaction (id : EventId) : Event :=
  if id = 2 then
    { id, pubkey := 5, createdAt := 100, kind := 7, content := "+", sig := 0,
      tags := [⟨"e", ["0000000000000000000000000000000000000000000000000000000000000001"]⟩] }
  else { id, pubkey := 4, createdAt := 50, kind := 9, content := "hi", sig := 0, tags := [] }

/-- A reaction that comes again after its deletion has an active row and no live event. -/
theorem replayed_reaction_stays_active :
    ¬(runReactions 9 signedReaction [.storeEvent 1 none, .submitReaction 2 none, .deleteEvent 2,
      .submitReaction 2 none]).Follows := by
  intro hfollows
  obtain ⟨t, row, hrow, hlive⟩ := hfollows ⟨50, 1, 5, "+"⟩ ⟨false, some 2⟩ 2 (by decide) rfl rfl
  have hdeleted : ∀ e ∈ (runReactions 9 signedReaction [.storeEvent 1 none, .submitReaction 2 none,
      .deleteEvent 2, .submitReaction 2 none]).events.entries, e.1.2 = 2 → e.2.deleted = true := by
    decide
  rw [hdeleted _ (Map.mem_entries_iff.mpr hrow) rfl] at hlive
  cases hlive

end Buzz.Db
