import Buzz.Db.ReactionRun
import Buzz.Db.Thread

namespace Buzz.Db

open Buzz.Lib Buzz.Nostr Buzz.Core

def EventsTable.liveAt (events : EventsTable) (key : DbTime × EventId) : Bool :=
  (events.lookup key).any fun row ↦ !row.deleted

namespace ThreadStore

/-- How many live events have metadata that names `id` as their parent, or as their root. -/
def liveNaming (store : ThreadStore) (name : ThreadRow → Option EventId) (id : EventId) : ℕ :=
  Map.count (fun key row ↦ decide (name row = some id) && store.events.liveAt key) store.threads

def liveReplies (store : ThreadStore) (id : EventId) : ℕ :=
  store.liveNaming ThreadRow.parentEventId id

def liveDescendants (store : ThreadStore) (id : EventId) : ℕ :=
  store.liveNaming ThreadRow.rootEventId id

def Exact (store : ThreadStore) : Prop :=
  ∀ t id, (t, id) ∈ store.events →
    (∀ t' row, store.threads.lookup (t', id) = some row →
      row.replyCount = store.liveReplies id ∧ row.descendantCount = store.liveDescendants id) ∧
    ((∀ t', (t', id) ∉ store.threads) →
      store.liveReplies id = 0 ∧ store.liveDescendants id = 0)

end ThreadStore

section Counters

variable {threads : ThreadTable} {parent root : Option EventId} {key : DbTime × EventId}
  {reply descendant : ThreadRow → ThreadRow} {g : ℕ → ℕ}

theorem ThreadTable.lookup_updateCounters (hroot : parent = none → root = none)
    (hreply : ∀ row, reply row = { row with replyCount := g row.replyCount })
    (hdescendant : ∀ row, descendant row = { row with descendantCount := g row.descendantCount }) :
    (threads.updateCounters parent root reply descendant).lookup key =
      (threads.lookup key).map fun row ↦
        { row with
          replyCount := if parent = some key.2 then g row.replyCount else row.replyCount
          descendantCount :=
            if root = some key.2 then g row.descendantCount else row.descendantCount } := by
  have hname (id : EventId) : some id = some key.2 ↔ key.2 = id := by
    rw [Option.some.injEq, eq_comm]
  cases parent with
  | none =>
    rw [hroot rfl, updateCounters]
    exact Option.map_id'.symm
  | some pid =>
    cases root with
    | none =>
      rw [updateCounters, updateById, Map.lookup_mapValues]
      refine Option.map_congr fun row _ ↦ ?_
      simp only [hname, hreply, reduceCtorEq, if_false]
      split <;> rfl
    | some rid =>
      rw [updateCounters, updateById, updateById, Map.lookup_mapValues, Map.lookup_mapValues,
        Option.map_map]
      refine Option.map_congr fun row _ ↦ ?_
      simp only [Function.comp_apply, hname, hreply, hdescendant]
      by_cases hp : key.2 = pid
      · by_cases hr : key.2 = rid
        · simp only [if_pos hp, if_pos hr]
        · simp only [if_pos hp, if_neg hr]
      · by_cases hr : key.2 = rid
        · simp only [if_neg hp, if_pos hr]
        · simp only [if_neg hp, if_neg hr]

theorem ThreadTable.count_updateCounters {p : DbTime × EventId → ThreadRow → Bool}
    (hreply : ∀ key row, p key (reply row) = p key row)
    (hdescendant : ∀ key row, p key (descendant row) = p key row) :
    Map.count p (threads.updateCounters parent root reply descendant) = Map.count p threads := by
  have hkeep (id : EventId) (threads : ThreadTable) (f : ThreadRow → ThreadRow)
      (hf : ∀ key row, p key (f row) = p key row) :
      Map.count p (threads.updateById id f) = Map.count p threads := by
    rw [updateById, Map.count_mapValues]
    apply Map.count_congr
    intro key row _
    split
    · exact hf key row
    · rfl
  cases parent with
  | none => rfl
  | some pid =>
    cases root with
    | none => exact hkeep pid threads reply hreply
    | some rid => exact (hkeep rid _ descendant hdescendant).trans (hkeep pid threads reply hreply)

def ThreadTable.Counted (threads : ThreadTable) (replies descendants : EventId → ℕ) : Prop :=
  ∀ key row, threads.lookup key = some row →
    row.replyCount = replies key.2 ∧ row.descendantCount = descendants key.2

variable {replies descendants : EventId → ℕ}

theorem ThreadTable.Counted.updateCounters (h : threads.Counted replies descendants)
    (hroot : parent = none → root = none)
    (hreply : ∀ row, reply row = { row with replyCount := g row.replyCount })
    (hdescendant : ∀ row, descendant row = { row with descendantCount := g row.descendantCount }) :
    (threads.updateCounters parent root reply descendant).Counted
      (fun id ↦ if parent = some id then g (replies id) else replies id)
      (fun id ↦ if root = some id then g (descendants id) else descendants id) := by
  intro key row hrow
  rw [lookup_updateCounters hroot hreply hdescendant, Option.map_eq_some_iff] at hrow
  obtain ⟨old, hold, rfl⟩ := hrow
  obtain ⟨hreplies, hdescendants⟩ := h key old hold
  simp only [hreplies, hdescendants, and_self]

theorem ThreadTable.lookup_insertRow {row : ThreadRow} {key' : DbTime × EventId} :
    (threads.insertRow key row).1.lookup key' =
      if key' = key ∧ key ∉ threads then some row else threads.lookup key' := by
  rw [insertRow]
  by_cases hmem : key ∈ threads
  · rw [if_pos hmem, if_neg fun h ↦ h.2 hmem]
  · rw [if_neg hmem, Map.lookup_insert_eq]
    simp only [hmem, not_false_eq_true, and_true]

theorem ThreadTable.Counted.insertRow (h : threads.Counted replies descendants) {row : ThreadRow}
    (hzero : row.replyCount = 0 ∧ row.descendantCount = 0)
    (hnew : key ∉ threads → replies key.2 = 0 ∧ descendants key.2 = 0) :
    (threads.insertRow key row).1.Counted replies descendants := by
  intro key' row' hrow
  rw [lookup_insertRow] at hrow
  split at hrow
  · next hkey =>
    rw [← Option.some.inj hrow, hzero.1, hzero.2, hkey.1, (hnew hkey.2).1, (hnew hkey.2).2]
    exact ⟨rfl, rfl⟩
  · exact h key' row' hrow

end Counters

section Invariant

variable {signed : EventId → Event} {store : ThreadStore} {id : EventId} {t : DbTime}

structure ThreadStore.Threaded (signed : EventId → Event) (store : ThreadStore) : Prop where
  stored : ∀ key row, store.events.lookup key = some row →
    createdAtOf (eventOf signed key.2) = .ok key.1 ∧ row.event = eventOf signed key.2
  keyed : ∀ key row, store.threads.lookup key = some row → key ∈ store.events
  named : ∀ key row, store.threads.lookup key = some row → ∀ id,
    row.parentEventId = some id ∨ row.rootEventId = some id → ∃ t, (t, id) ∈ store.threads
  rooted : ∀ key row, store.threads.lookup key = some row → row.parentEventId = none →
    row.rootEventId = none
  counted : store.threads.Counted store.liveReplies store.liveDescendants

theorem mem_of_lookup {κ ν : Type*} [DecidableEq κ] {m : Map κ ν} {k : κ} {v : ν}
    (h : m.lookup k = some v) : k ∈ m := by
  rw [← AList.lookup_isSome, h]
  rfl

theorem ThreadStore.liveNaming_eq_zero {name : ThreadRow → Option EventId}
    (h : ∀ key row, store.threads.lookup key = some row → name row ≠ some id) :
    store.liveNaming name id = 0 := by
  refine Map.count_eq_zero.mpr fun key row hrow ↦ ?_
  rw [decide_eq_false (h key row hrow), Bool.false_and]

namespace ThreadStore.Threaded

theorem time_unique (h : store.Threaded signed) {t' : DbTime} (ht : (t, id) ∈ store.events)
    (ht' : (t', id) ∈ store.events) : t = t' := by
  obtain ⟨row, hrow⟩ := Option.isSome_iff_exists.mp (AList.lookup_isSome.mpr ht)
  obtain ⟨row', hrow'⟩ := Option.isSome_iff_exists.mp (AList.lookup_isSome.mpr ht')
  have heq := (h.stored _ row hrow).1.symm.trans (h.stored _ row' hrow').1
  exact Except.ok.inj heq

theorem unnamed (h : store.Threaded signed) (habsent : ∀ t, (t, id) ∉ store.threads) :
    store.liveReplies id = 0 ∧ store.liveDescendants id = 0 := by
  have hnone (key : DbTime × EventId) (row : ThreadRow) (hrow : store.threads.lookup key = some row)
      (hname : row.parentEventId = some id ∨ row.rootEventId = some id) : False := by
    obtain ⟨t, ht⟩ := h.named key row hrow id hname
    exact habsent t ht
  exact ⟨liveNaming_eq_zero fun key row hrow hname ↦ hnone key row hrow (.inl hname),
    liveNaming_eq_zero fun key row hrow hname ↦ hnone key row hrow (.inr hname)⟩

theorem unnamed_of_stored (h : store.Threaded signed) (ht : (t, id) ∈ store.events)
    (hnew : (t, id) ∉ store.threads) : store.liveReplies id = 0 ∧ store.liveDescendants id = 0 := by
  apply h.unnamed
  intro t' ht'
  obtain ⟨row, hrow⟩ := Option.isSome_iff_exists.mp (AList.lookup_isSome.mpr ht')
  rw [h.time_unique ht (h.keyed _ row hrow)] at hnew
  exact hnew ht'

theorem exact (h : store.Threaded signed) : store.Exact :=
  fun _ id _ ↦ ⟨fun t' row hrow ↦ h.counted (t', id) row hrow, h.unnamed⟩

end ThreadStore.Threaded

theorem ThreadTable.getThreadMetadataByEvent_some {threads : ThreadTable} {pick : ℕ}
    {row : ThreadRow} (h : threads.getThreadMetadataByEvent id pick = some row) :
    ∃ t, threads.lookup (t, id) = some row := by
  have hmem := List.mem_of_getElem? h
  obtain ⟨e, he, rfl⟩ := List.mem_map.mp hmem
  obtain ⟨hentry, hid⟩ := List.mem_filter.mp he
  rw [decide_eq_true_eq] at hid
  refine ⟨e.1.1, ?_⟩
  rw [← hid]
  exact Map.mem_entries_iff.mp hentry

theorem ThreadTable.getThreadMetadataByEvent_none {threads : ThreadTable} {pick : ℕ}
    (h : threads.getThreadMetadataByEvent id pick = none) : ∀ t, (t, id) ∉ threads := by
  intro t ht
  obtain ⟨row, hrow⟩ := Option.isSome_iff_exists.mp (AList.lookup_isSome.mpr ht)
  have hmem : row ∈ (threads.entries.filter fun e ↦ e.1.2 = id).map Sigma.snd :=
    List.mem_map.mpr ⟨⟨(t, id), row⟩, List.mem_filter.mpr
      ⟨Map.mem_entries_iff.mpr hrow, decide_eq_true rfl⟩, rfl⟩
  rw [getThreadMetadataByEvent, List.getElem?_eq_none_iff] at h
  have hpos := List.length_pos_of_mem hmem
  exact absurd (Nat.mod_lt pick hpos) (Nat.not_lt.mpr h)

section Delete

theorem EventsTable.liveAt_softDelete {events : EventsTable} {key : DbTime × EventId} :
    EventsTable.liveAt (events.softDelete fun key row ↦ key.2 == id && !row.deleted) key =
      (events.liveAt key && key.2 ≠ id) := by
  rw [liveAt, lookup_softDelete, liveAt]
  cases events.lookup key with
  | none => rfl
  | some row =>
    by_cases hid : key.2 = id
    · cases hdel : row.deleted <;> simp [hid, hdel]
    · simp [hid]

variable {parent root : Option EventId} {reply descendant : ThreadRow → ThreadRow} {g : ℕ → ℕ}

theorem ThreadTable.row_of_updateCounters {threads : ThreadTable} {key : DbTime × EventId}
    {row : ThreadRow} (hroot : parent = none → root = none)
    (hreply : ∀ row, reply row = { row with replyCount := g row.replyCount })
    (hdescendant : ∀ row, descendant row = { row with descendantCount := g row.descendantCount })
    (h : (threads.updateCounters parent root reply descendant).lookup key = some row) :
    ∃ old, threads.lookup key = some old ∧ row.parentEventId = old.parentEventId ∧
      row.rootEventId = old.rootEventId := by
  rw [lookup_updateCounters hroot hreply hdescendant, Option.map_eq_some_iff] at h
  obtain ⟨old, hold, rfl⟩ := h
  exact ⟨old, hold, rfl, rfl⟩

theorem ThreadTable.mem_updateCounters {threads : ThreadTable} {key : DbTime × EventId}
    (hroot : parent = none → root = none)
    (hreply : ∀ row, reply row = { row with replyCount := g row.replyCount })
    (hdescendant : ∀ row, descendant row = { row with descendantCount := g row.descendantCount }) :
    key ∈ threads.updateCounters parent root reply descendant ↔ key ∈ threads := by
  rw [← AList.lookup_isSome, ← AList.lookup_isSome,
    lookup_updateCounters hroot hreply hdescendant, Option.isSome_map]

def ThreadStore.deleted (store : ThreadStore) (id : EventId) (parent root : Option EventId) :
    ThreadStore :=
  ⟨store.events.softDelete fun key row ↦ key.2 == id && !row.deleted,
    store.threads.updateCounters parent root ThreadTable.dropReply ThreadTable.dropDescendant⟩

theorem ThreadStore.liveNaming_deleted {name : ThreadRow → Option EventId} {e : EventId}
    (hreply : ∀ row, name (ThreadTable.dropReply row) = name row)
    (hdescendant : ∀ row, name (ThreadTable.dropDescendant row) = name row) :
    (store.deleted id parent root).liveNaming name e =
      Map.count (fun key row ↦ decide (name row = some e) && store.events.liveAt key &&
        key.2 ≠ id) store.threads := by
  rw [liveNaming, deleted, ThreadTable.count_updateCounters]
  · simp only [EventsTable.liveAt_softDelete, Bool.and_assoc]
  · intro key row
    rw [hreply]
  · intro key row
    rw [hdescendant]

theorem ThreadStore.Threaded.liveNaming_of_row (h : store.Threaded signed) {row : ThreadRow}
    {name : ThreadRow → Option EventId} {e : EventId}
    (hrow : store.threads.lookup (t, id) = some row) (hlive : store.events.liveAt (t, id) = true)
    (hreply : ∀ row, name (ThreadTable.dropReply row) = name row)
    (hdescendant : ∀ row, name (ThreadTable.dropDescendant row) = name row) :
    (store.deleted id parent root).liveNaming name e =
      if name row = some e then store.liveNaming name e - 1 else store.liveNaming name e := by
  have hsplit : store.liveNaming name e = _ := Map.count_split hrow
  have hother : Map.count (fun key row ↦ decide (name row = some e) && store.events.liveAt key &&
      key.2 ≠ id) store.threads = Map.count (fun key row ↦ decide (name row = some e) &&
        store.events.liveAt key && key ≠ (t, id)) store.threads := by
    apply Map.count_congr
    intro key row' hrow'
    have hkey : key.2 ≠ id ↔ key ≠ (t, id) := by
      refine not_congr ⟨fun hid ↦ ?_, fun heq ↦ by rw [heq]⟩
      have ht := h.keyed _ row hrow
      have ht' := h.keyed _ row' hrow'
      rw [← hid] at ht
      exact Prod.ext (h.time_unique ht' ht) hid
    simp only [hkey]
  rw [liveNaming_deleted hreply hdescendant, hother, hsplit, hlive, Bool.and_true]
  split
  · next hname => simp only [hname, decide_true, if_true, Nat.add_sub_cancel]
  · next hname => simp only [hname, decide_false, Bool.false_eq_true, if_false, Nat.add_zero]

theorem ThreadStore.liveNaming_of_absent {name : ThreadRow → Option EventId} {e : EventId}
    (habsent : ∀ t, (t, id) ∉ store.threads)
    (hreply : ∀ row, name (ThreadTable.dropReply row) = name row)
    (hdescendant : ∀ row, name (ThreadTable.dropDescendant row) = name row) :
    (store.deleted id parent root).liveNaming name e = store.liveNaming name e := by
  rw [liveNaming_deleted hreply hdescendant]
  apply Map.count_congr
  intro key row hrow
  have hne : key.2 ≠ id := by
    rintro rfl
    exact habsent key.1 (mem_of_lookup hrow)
  rw [decide_eq_true hne, Bool.and_true]

def ThreadStore.Names (store : ThreadStore) (id : EventId) (parent root : Option EventId) : Prop :=
  (∃ t row, store.threads.lookup (t, id) = some row ∧ row.parentEventId = parent ∧
    row.rootEventId = root) ∨ (∀ t, (t, id) ∉ store.threads) ∧ parent = none ∧ root = none

theorem ThreadStore.Threaded.rooted_of_names (h : store.Threaded signed)
    (hmeta : store.Names id parent root) : parent = none → root = none := by
  rcases hmeta with ⟨t, row, hrow, rfl, rfl⟩ | ⟨_, _, hroot⟩
  · exact h.rooted _ row hrow
  · exact fun _ ↦ hroot

theorem ThreadStore.Threaded.deleted (h : store.Threaded signed)
    (hlive : ∀ t, (t, id) ∈ store.threads → store.events.liveAt (t, id) = true)
    (hmeta : store.Names id parent root) : (store.deleted id parent root).Threaded signed := by
  have hroot := h.rooted_of_names hmeta
  have hcount (name : ThreadRow → Option EventId) (named : Option EventId)
      (hname : ∀ t row, store.threads.lookup (t, id) = some row → row.parentEventId = parent →
        row.rootEventId = root → name row = named)
      (hnone : parent = none → root = none → named = none)
      (hreply : ∀ row, name (ThreadTable.dropReply row) = name row)
      (hdescendant : ∀ row, name (ThreadTable.dropDescendant row) = name row) (e : EventId) :
      (store.deleted id parent root).liveNaming name e =
        if named = some e then store.liveNaming name e - 1 else store.liveNaming name e := by
    rcases hmeta with ⟨t, row, hrow, hparent, hrooted⟩ | ⟨habsent, hparent, hrooted⟩
    · rw [h.liveNaming_of_row hrow (hlive t (mem_of_lookup hrow)) hreply hdescendant,
        hname t row hrow hparent hrooted]
    · rw [liveNaming_of_absent habsent hreply hdescendant, hnone hparent hrooted]
      exact (if_neg nofun).symm
  have hold_of (key : DbTime × EventId) (row : ThreadRow)
      (hrow : (store.deleted id parent root).threads.lookup key = some row) :
      ∃ old, store.threads.lookup key = some old ∧ row.parentEventId = old.parentEventId ∧
        row.rootEventId = old.rootEventId :=
    ThreadTable.row_of_updateCounters (g := (· - 1)) hroot (fun _ ↦ rfl) (fun _ ↦ rfl) hrow
  refine ⟨fun key row hrow ↦ ?_, fun key row hrow ↦ ?_, fun key row hrow e he ↦ ?_,
    fun key row hrow hparent ↦ ?_, ?_⟩
  · rw [ThreadStore.deleted, EventsTable.lookup_softDelete, Option.map_eq_some_iff] at hrow
    obtain ⟨old, hold, rfl⟩ := hrow
    split
    · exact h.stored key old hold
    · exact h.stored key old hold
  · obtain ⟨old, hold, _⟩ := hold_of key row hrow
    exact EventsTable.mem_softDelete.mpr (h.keyed key old hold)
  · obtain ⟨old, hold, hparent, hrooted⟩ :=
      hold_of key row hrow
    rw [hparent, hrooted] at he
    obtain ⟨t, ht⟩ := h.named key old hold e he
    exact ⟨t, (ThreadTable.mem_updateCounters (g := (· - 1)) hroot (fun _ ↦ rfl) fun _ ↦ rfl).mpr ht⟩
  · obtain ⟨old, hold, hparent', hrooted⟩ :=
      hold_of key row hrow
    rw [hrooted]
    exact h.rooted key old hold (hparent'.symm.trans hparent)
  · have hcounted := h.counted.updateCounters hroot (g := (· - 1)) (fun _ ↦ rfl) (fun _ ↦ rfl)
    have hreplies : (store.deleted id parent root).liveReplies = _ := funext
      (hcount ThreadRow.parentEventId parent (fun _ _ _ hp _ ↦ hp) (fun hp _ ↦ hp) (fun _ ↦ rfl)
        fun _ ↦ rfl)
    have hdescendants : (store.deleted id parent root).liveDescendants = _ := funext
      (hcount ThreadRow.rootEventId root (fun _ _ _ _ hr ↦ hr) (fun _ hr ↦ hr) (fun _ ↦ rfl)
        fun _ ↦ rfl)
    rw [hreplies, hdescendants]
    exact hcounted

end Delete

end Invariant

end Buzz.Db
