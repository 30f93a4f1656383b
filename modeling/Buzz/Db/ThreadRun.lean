import Buzz.Db.ThreadCount

namespace Buzz.Db

open Buzz.Lib Buzz.Nostr Buzz.Core

variable {signed : EventId → Event} {store : ThreadStore} {id : EventId} {t : DbTime}

/-- The thread position of a new event: at the top level, or below stored events whose keys the
metadata has right. -/
structure Placed (store : ThreadStore) (id : EventId) (t : DbTime)
    (params : ThreadMetadataParams) : Prop where
  eventId : params.eventId = id
  eventCreatedAt : params.eventCreatedAt = t
  place : params.parentEventId = none ∧ params.rootEventId = none ∨
    ∃ pid tp rid tr, params.parentEventId = some pid ∧ params.parentEventCreatedAt = some tp ∧
      (tp, pid) ∈ store.events ∧ params.rootEventId = some rid ∧
      params.rootEventCreatedAt = some tr ∧ (tr, rid) ∈ store.events

theorem Placed.rooted {params : ThreadMetadataParams} (h : Placed store id t params) :
    params.parentEventId = none → params.rootEventId = none := by
  intro hparent
  rcases h.place with ⟨_, hroot⟩ | ⟨pid, _, _, _, hpid, _⟩
  · exact hroot
  · rw [hparent] at hpid
    cases hpid

section Stubs

variable {threads : ThreadTable} {key key' : DbTime × EventId} {row own : ThreadRow}
  {p : DbTime × EventId → ThreadRow → Bool}

theorem ThreadTable.mem_insertRow :
    key' ∈ (threads.insertRow key row).1 ↔ key' = key ∨ key' ∈ threads := by
  rw [insertRow]
  by_cases hmem : key ∈ threads
  · rw [if_pos hmem]
    exact ⟨.inr, fun hor ↦ hor.elim (fun heq ↦ heq ▸ hmem) id⟩
  · rw [if_neg hmem]
    exact AList.mem_insert threads

theorem ThreadTable.lookup_insertRow_of_some {old : ThreadRow} (h : threads.lookup key' = some old) :
    (threads.insertRow key row).1.lookup key' = some old := by
  rw [lookup_insertRow, if_neg, h]
  rintro ⟨rfl, hnew⟩
  exact hnew (mem_of_lookup h)

theorem ThreadTable.count_insertRow (h : p key row = false) :
    Map.count p (threads.insertRow key row).1 = Map.count p threads := by
  rw [insertRow]
  by_cases hmem : key ∈ threads
  · rw [if_pos hmem]
  · rw [if_neg hmem, Map.count_insert hmem, if_neg (Bool.eq_false_iff.mp h), Nat.add_zero]

/-- A table on its way from one store to the next: the new event's own row, and stubs. -/
structure Filled (store : ThreadStore) (key : DbTime × EventId) (own : ThreadRow)
    (threads : ThreadTable) : Prop where
  grows : ∀ key', key' = key ∨ key' ∈ store.threads → key' ∈ threads
  keeps : ∀ key' row, store.threads.lookup key' = some row → threads.lookup key' = some row
  counted : threads.Counted store.liveReplies store.liveDescendants
  rows : ∀ key' row, threads.lookup key' = some row → store.threads.lookup key' = some row ∨
    key' = key ∧ row = own ∨
      key' ∈ store.events ∧ row.parentEventId = none ∧ row.rootEventId = none
  count : ∀ p : DbTime × EventId → ThreadRow → Bool,
    (∀ key' row, row.parentEventId = none → row.rootEventId = none → p key' row = false) →
      Map.count p threads = Map.count p store.threads + if p key own then 1 else 0

theorem filled_first (h : store.Threaded signed) (hnew : (t, id) ∉ store.threads)
    (hzero : own.replyCount = 0 ∧ own.descendantCount = 0)
    (hunnamed : store.liveReplies id = 0 ∧ store.liveDescendants id = 0) :
    Filled store (t, id) own (store.threads.insertRow (t, id) own).1 where
  grows _ hkey' := ThreadTable.mem_insertRow.mpr hkey'
  keeps key' row hrow := ThreadTable.lookup_insertRow_of_some hrow
  counted := h.counted.insertRow hzero fun _ ↦ hunnamed
  rows key' row hrow := by
    rw [ThreadTable.lookup_insertRow] at hrow
    split at hrow
    · next hkey => exact .inr (.inl ⟨hkey.1, (Option.some.inj hrow).symm⟩)
    · exact .inl hrow
  count p _ := by rw [ThreadTable.insertRow, if_neg hnew, Map.count_insert hnew]

theorem Filled.insertStub (h : Filled store key own threads) (hs : store.Threaded signed)
    (channelId : Uuid) (hstored : key' ∈ store.events) :
    Filled store key own (threads.insertRow key' (ThreadTable.stub channelId)).1 where
  grows key'' hkey'' := ThreadTable.mem_insertRow.mpr (.inr (h.grows key'' hkey''))
  keeps key'' row hrow := ThreadTable.lookup_insertRow_of_some (h.keeps key'' row hrow)
  counted := by
    refine h.counted.insertRow ⟨rfl, rfl⟩ fun hnot ↦ ?_
    exact hs.unnamed_of_stored hstored fun hmem ↦ hnot (h.grows key' (.inr hmem))
  rows key'' row hrow := by
    rw [ThreadTable.lookup_insertRow] at hrow
    split at hrow
    · next hkey =>
      rw [hkey.1, ← Option.some.inj hrow]
      exact .inr (.inr ⟨hstored, rfl, rfl⟩)
    · exact h.rows key'' row hrow
  count p hp := by
    rw [ThreadTable.count_insertRow (hp _ _ rfl rfl)]
    exact h.count p hp

theorem Filled.stubs {params : ThreadMetadataParams} (h : Filled store key own threads)
    (hs : store.Threaded signed) (hplaced : Placed store id t params) :
    Filled store key own (threads.insertStubs params) ∧
      ∀ e, params.parentEventId = some e ∨ params.rootEventId = some e →
        ∃ te, (te, e) ∈ threads.insertStubs params := by
  rcases hplaced.place with ⟨hparent, hroot⟩ | ⟨pid, tp, rid, tr, hpid, htp, hstored, hrid, htr,
    hstored'⟩
  · rw [ThreadTable.insertStubs, hparent, hroot]
    exact ⟨h, fun e he ↦ by simp at he⟩
  · have hfirst := h.insertStub hs params.channelId hstored
    simp only [ThreadTable.insertStubs, hpid, htp, hrid, htr, Option.getD_some]
    split
    · refine ⟨hfirst.insertStub hs params.channelId hstored', fun e he ↦ ?_⟩
      rcases he with he | he
      · rw [← Option.some.inj he]
        exact ⟨tp, ThreadTable.mem_insertRow.mpr (.inr (ThreadTable.mem_insertRow.mpr (.inl rfl)))⟩
      · rw [← Option.some.inj he]
        exact ⟨tr, ThreadTable.mem_insertRow.mpr (.inl rfl)⟩
    · next hsame =>
      rw [not_not] at hsame
      refine ⟨hfirst, fun e he ↦ ⟨tp, ThreadTable.mem_insertRow.mpr (.inl ?_)⟩⟩
      rw [hsame, or_self] at he
      rw [← Option.some.inj he]

end Stubs

section Insert

def ThreadStore.withEvent (store : ThreadStore) (t : DbTime) (event : Event)
    (channelId : Option Uuid) (threadMeta : Option ThreadMetadataParams) : ThreadStore :=
  ⟨AList.insert (t, event.id) ⟨event, channelId, extractDTag event, false⟩ store.events,
    (threadMeta.map store.threads.insertMetadata).getD store.threads⟩

variable {event : Event} {channelId : Option Uuid} {threadMeta : Option ThreadMetadataParams}

theorem ThreadStore.liveAt_withEvent {key : DbTime × EventId} :
    (store.withEvent t event channelId threadMeta).events.liveAt key =
      (decide (key = (t, event.id)) || store.events.liveAt key) := by
  rw [withEvent, EventsTable.liveAt, Map.lookup_insert_eq, EventsTable.liveAt]
  split
  · next h => rw [decide_eq_true h]; rfl
  · next h => rw [decide_eq_false h, Bool.false_or]

theorem ThreadStore.Threaded.count_withEvent (h : store.Threaded signed)
    (hnew : (t, event.id) ∉ store.events) (name : ThreadRow → Option EventId) (e : EventId) :
    Map.count (fun key row ↦ decide (name row = some e) &&
        (store.withEvent t event channelId threadMeta).events.liveAt key) store.threads =
      store.liveNaming name e := by
  apply Map.count_congr
  intro key row hrow
  have hne : key ≠ (t, event.id) := by
    rintro rfl
    exact hnew (h.keyed _ row hrow)
  rw [liveAt_withEvent, decide_eq_false hne, Bool.false_or]

theorem ThreadTable.insertMetadata_eq {threads : ThreadTable} {params : ThreadMetadataParams}
    (hnew : (params.eventCreatedAt, params.eventId) ∉ threads) :
    threads.insertMetadata params =
      ((threads.insertRow (params.eventCreatedAt, params.eventId) params.row).1.insertStubs
        params).updateCounters params.parentEventId params.rootEventId addReply addDescendant := by
  have hinserted :
      (threads.insertRow (params.eventCreatedAt, params.eventId) params.row).2 = true := by
    rw [insertRow, if_neg hnew]
  simp only [insertMetadata, hinserted, if_true]

theorem ThreadStore.Threaded.fills {params : ThreadMetadataParams} (h : store.Threaded signed)
    (channelId : Option Uuid)
    (ht : createdAtOf (eventOf signed id) = .ok t) (hnew : (t, id) ∉ store.events)
    (hp : Placed store id t params) :
    ∃ threads, Filled store (t, id) params.row threads ∧
      (∀ e, params.parentEventId = some e ∨ params.rootEventId = some e →
        ∃ te, (te, e) ∈ threads) ∧
      (store.withEvent t (eventOf signed id) channelId (some params)).threads =
        threads.updateCounters params.parentEventId params.rootEventId ThreadTable.addReply
          ThreadTable.addDescendant := by
  have hnoRow : (t, id) ∉ store.threads := by
    intro hmem
    obtain ⟨row, hrow⟩ := Option.isSome_iff_exists.mp (AList.lookup_isSome.mpr hmem)
    exact hnew (h.keyed _ row hrow)
  have hunnamed : store.liveReplies id = 0 ∧ store.liveDescendants id = 0 := by
    apply h.unnamed
    intro t' hmem
    obtain ⟨row, hrow⟩ := Option.isSome_iff_exists.mp (AList.lookup_isSome.mpr hmem)
    have hcreated := h.keyed _ row hrow
    obtain ⟨erow, herow⟩ := Option.isSome_iff_exists.mp (AList.lookup_isSome.mpr hcreated)
    have heq : t' = t := Except.ok.inj ((h.stored _ erow herow).1.symm.trans ht)
    rw [heq] at hmem
    exact hnoRow hmem
  have hkey : (params.eventCreatedAt, params.eventId) = (t, id) :=
    Prod.ext hp.eventCreatedAt hp.eventId
  have hzero : params.row.replyCount = 0 ∧ params.row.descendantCount = 0 := ⟨rfl, rfl⟩
  have hthreads : (store.withEvent t (eventOf signed id) channelId (some params)).threads = _ :=
    ThreadTable.insertMetadata_eq (hkey ▸ hnoRow)
  rw [hkey] at hthreads
  obtain ⟨hfilled, hnames⟩ := (filled_first h hnoRow hzero hunnamed).stubs h hp
  exact ⟨_, hfilled, hnames, hthreads⟩

theorem ThreadStore.Threaded.withEvent (h : store.Threaded signed)
    (ht : createdAtOf (eventOf signed id) = .ok t) (hnew : (t, id) ∉ store.events)
    (hplaced : ∀ params, threadMeta = some params → Placed store id t params) :
    (store.withEvent t (eventOf signed id) channelId threadMeta).Threaded signed := by
  have hstored (key : DbTime × EventId) (row : EventRow)
      (hrow : (store.withEvent t (eventOf signed id) channelId threadMeta).events.lookup key =
        some row) : createdAtOf (eventOf signed key.2) = .ok key.1 ∧
          row.event = eventOf signed key.2 := by
    rw [ThreadStore.withEvent, Map.lookup_insert_eq] at hrow
    split at hrow
    · next hkey =>
      rw [hkey, ← Option.some.inj hrow]
      exact ⟨ht, rfl⟩
    · exact h.stored key row hrow
  have hgrows (key : DbTime × EventId) (hkey : key ∈ store.events) :
      key ∈ (store.withEvent t (eventOf signed id) channelId threadMeta).events :=
    (AList.mem_insert store.events).mpr (.inr hkey)
  cases threadMeta with
  | none =>
    refine ⟨hstored, fun key row hrow ↦ hgrows key (h.keyed key row hrow), h.named, h.rooted, ?_⟩
    have hreplies : (store.withEvent t (eventOf signed id) channelId none).liveReplies =
        store.liveReplies := funext (h.count_withEvent hnew ThreadRow.parentEventId)
    have hdescendants : (store.withEvent t (eventOf signed id) channelId none).liveDescendants =
        store.liveDescendants := funext (h.count_withEvent hnew ThreadRow.rootEventId)
    rw [hreplies, hdescendants]
    exact h.counted
  | some params =>
    have hp := hplaced params rfl
    obtain ⟨threads, hfilled, hnames, hthreads⟩ := h.fills channelId ht hnew hp
    have hold_of (key : DbTime × EventId) (row : ThreadRow)
        (hrow : (store.withEvent t (eventOf signed id) channelId (some params)).threads.lookup key =
          some row) := by
      rw [hthreads] at hrow
      exact ThreadTable.row_of_updateCounters (g := (· + 1)) hp.rooted (fun _ ↦ rfl) (fun _ ↦ rfl)
        hrow
    refine ⟨hstored, fun key row hrow ↦ ?_, fun key row hrow e he ↦ ?_,
      fun key row hrow hparent ↦ ?_, ?_⟩
    · obtain ⟨old, hold, _⟩ := hold_of key row hrow
      rcases hfilled.rows key old hold with hbefore | ⟨rfl, _⟩ | ⟨hevent, _⟩
      · exact hgrows key (h.keyed key old hbefore)
      · exact (AList.mem_insert store.events).mpr (.inl rfl)
      · exact hgrows key hevent
    · obtain ⟨old, hold, hparent, hroot⟩ := hold_of key row hrow
      have hin (key' : DbTime × EventId)
          (hkey' : key' ∈ threads) :
          key' ∈ (store.withEvent t (eventOf signed id) channelId (some params)).threads := by
        rw [hthreads]
        exact (ThreadTable.mem_updateCounters (g := (· + 1)) hp.rooted (fun _ ↦ rfl)
          fun _ ↦ rfl).mpr hkey'
      rw [hparent, hroot] at he
      rcases hfilled.rows key old hold with hbefore | ⟨_, rfl⟩ | ⟨_, hnone, hnone'⟩
      · obtain ⟨te, hte⟩ := h.named key old hbefore e he
        exact ⟨te, hin _ (hfilled.grows _ (.inr hte))⟩
      · obtain ⟨te, hte⟩ := hnames e he
        exact ⟨te, hin _ hte⟩
      · simp [hnone, hnone'] at he
    · obtain ⟨old, hold, hparent', hroot⟩ := hold_of key row hrow
      rw [hroot]
      rw [hparent'] at hparent
      rcases hfilled.rows key old hold with hbefore | ⟨_, rfl⟩ | ⟨_, _, hnone⟩
      · exact h.rooted key old hbefore hparent
      · exact hp.rooted hparent
      · exact hnone
    · have hself : (store.withEvent t (eventOf signed id) channelId (some params)).events.liveAt
          (t, id) = true :=
        ThreadStore.liveAt_withEvent.trans (Bool.or_eq_true_iff.mpr (.inl (decide_eq_true rfl)))
      have hcount (name : ThreadRow → Option EventId)
          (hreply : ∀ row, name (ThreadTable.addReply row) = name row)
          (hdescendant : ∀ row, name (ThreadTable.addDescendant row) = name row)
          (hstub : ∀ row, row.parentEventId = none → row.rootEventId = none → name row = none)
          (e : EventId) :
          (store.withEvent t (eventOf signed id) channelId (some params)).liveNaming name e =
            if name params.row = some e then store.liveNaming name e + 1
            else store.liveNaming name e := by
        rw [ThreadStore.liveNaming, hthreads, ThreadTable.count_updateCounters
          (fun key row ↦ by rw [hreply]) (fun key row ↦ by rw [hdescendant]), hfilled.count,
          h.count_withEvent hnew, hself, Bool.and_true]
        · simp only [decide_eq_true_eq]
          split <;> rfl
        · intro key row hparent hroot
          rw [hstub row hparent hroot]
          rfl
      have hreplies : (store.withEvent t (eventOf signed id) channelId (some params)).liveReplies =
          _ := funext (hcount ThreadRow.parentEventId (fun _ ↦ rfl) (fun _ ↦ rfl) fun _ h _ ↦ h)
      have hdescendants :
          (store.withEvent t (eventOf signed id) channelId (some params)).liveDescendants = _ :=
        funext (hcount ThreadRow.rootEventId (fun _ ↦ rfl) (fun _ ↦ rfl) fun _ _ h ↦ h)
      rw [hreplies, hdescendants, hthreads]
      exact hfilled.counted.updateCounters (g := (· + 1)) hp.rooted (fun _ ↦ rfl) fun _ ↦ rfl

end Insert

section Steps

theorem createdOr_eq {event : Event} (h : createdAtOf event = .ok t) (fallback : DbTime) :
    createdOr event fallback = t := by
  rw [createdAtOf] at h
  rw [createdOr]
  split at h
  · next hsecs =>
    rw [hsecs, Option.getD_some]
    exact Except.ok.inj h
  · cases h

theorem ThreadStore.Threaded.latestById (h : store.Threaded signed) {event : Event}
    (hlatest : store.events.latestById id false = some (t, event)) :
    (t, id) ∈ store.events ∧ store.events.Live id ∧ ∀ fallback, createdOr event fallback = t := by
  obtain ⟨row, hrow, rfl, hlive⟩ := EventsTable.latestById_eq_some hlatest
  rw [Bool.false_or, Bool.not_eq_true'] at hlive
  obtain ⟨hcreated, hevent⟩ := h.stored _ row hrow
  refine ⟨mem_of_lookup hrow, ⟨t, row, hrow, hlive⟩, createdOr_eq ?_⟩
  rw [hevent]
  exact hcreated

theorem ThreadStore.Threaded.rootCreatedAt (h : store.Threaded signed) {tp : DbTime}
    (hroot : store.events.Live id ∨ (tp, id) ∈ store.events) :
    (Buzz.Db.rootCreatedAt store.events id tp, id) ∈ store.events := by
  rw [Buzz.Db.rootCreatedAt]
  cases hlatest : store.events.latestById id false with
  | none => exact hroot.resolve_left (EventsTable.latestById_eq_none hlatest)
  | some found =>
    obtain ⟨hmem, _, hcreated⟩ := h.latestById hlatest
    simp only [hcreated]
    exact hmem

theorem threadAncestry_ok {events : EventsTable} {parentId clientRoot root : EventId}
    {parentEvent : Event} {parentMeta : Option ThreadRow} {tp tr : DbTime} {depth : ℤ}
    (h : threadAncestry events parentId parentEvent parentMeta clientRoot tp =
      .ok (root, tr, depth)) :
    root = clientRoot ∧ (tr = Buzz.Db.rootCreatedAt events root tp ∨ root = parentId ∧ tr = tp) := by
  cases parentMeta with
  | none =>
    rw [threadAncestry] at h
    split at h
    · cases h
    · next hsame =>
      rw [not_not] at hsame
      split at h
      · next hparent =>
        cases h
        exact ⟨hsame.symm, .inr ⟨hparent, rfl⟩⟩
      · cases h
        exact ⟨hsame.symm, .inl rfl⟩
  | some row =>
    rw [threadAncestry] at h
    split at h
    · cases h
    · next hsame =>
      rw [not_not] at hsame
      split at h
      · cases h
      · cases h
        exact ⟨hsame.symm, .inl rfl⟩

/-- The reply is taken with a root that is neither its parent nor live, nor as old as the parent. -/
structure RootsAtDead (signed : EventId → Event) (store : ThreadStore) (id : EventId)
    (channelId : Uuid) (now : DbTime) (pick : ℕ) : Prop where
  channelScoped : requiresHChannelScope (eventKindU32 (eventOf signed id)) = true
  unstored : ∃ t, createdAtOf (eventOf signed id) = .ok t ∧ (t, id) ∉ store.events
  resolved : ∃ params,
    resolveNip10ThreadMeta store (eventOf signed id) channelId now pick = .ok (some params)
  dead : ∃ root parent, replyTags (eventOf signed id) = some (root, parent) ∧ root ≠ parent ∧
    ¬store.events.Live root ∧ ∀ t, (t, parent) ∈ store.events → (t, root) ∉ store.events

theorem ThreadStore.Threaded.resolve_placed (h : store.Threaded signed) {channelId : Uuid}
    {now : DbTime} {pick : ℕ} {params : ThreadMetadataParams}
    (hscoped : requiresHChannelScope (eventKindU32 (eventOf signed id)) = true)
    (ht : createdAtOf (eventOf signed id) = .ok t) (hnew : (t, id) ∉ store.events)
    (hresolved : resolveNip10ThreadMeta store (eventOf signed id) channelId now pick =
      .ok (some params))
    (hlive : ¬RootsAtDead signed store id channelId now pick) : Placed store id t params := by
  have hdead (root parent : EventId)
      (htags : replyTags (eventOf signed id) = some (root, parent)) (hne : root ≠ parent) (tp : DbTime)
      (htp : (tp, parent) ∈ store.events) : store.events.Live root ∨ (tp, root) ∈ store.events := by
    by_contra hnot
    rw [not_or] at hnot
    refine hlive ⟨hscoped, ⟨t, ht, hnew⟩, ⟨params, hresolved⟩, root, parent, htags, hne, hnot.1, ?_⟩
    intro t' ht'
    rw [h.time_unique ht' htp]
    exact hnot.2
  rw [resolveNip10ThreadMeta] at hresolved
  cases htags : replyTags (eventOf signed id) with
  | none =>
    rw [htags] at hresolved
    cases hresolved
  | some named =>
    obtain ⟨clientRoot, parentId⟩ := named
    simp only [htags] at hresolved
    cases hlatest : store.events.latestById parentId false with
    | none =>
      rw [hlatest] at hresolved
      cases hresolved
    | some found =>
      obtain ⟨tp, parentEvent⟩ := found
      simp only [hlatest] at hresolved
      obtain ⟨hstored, hparentLive, hcreated⟩ := h.latestById hlatest
      split at hresolved
      · cases hresolved
      split at hresolved
      · cases hresolved
      rw [hcreated] at hresolved
      split at hresolved
      · cases hresolved
      · next root tr depth hancestry =>
        obtain ⟨hroot, htr⟩ := threadAncestry_ok hancestry
        have hparams := Option.some.inj (Except.ok.inj hresolved)
        subst hroot
        subst hparams
        refine ⟨rfl, createdOr_eq ht now,
          .inr ⟨parentId, tp, root, tr, rfl, rfl, hstored, rfl, rfl, ?_⟩⟩
        rcases htr with rfl | ⟨rfl, rfl⟩
        · apply h.rootCreatedAt
          by_cases hsame : root = parentId
          · rw [hsame]
            exact .inl hparentLive
          · exact hdead root parentId htags hsame tp hstored
        · exact hstored

theorem ThreadStore.insertEventWithThreadMetadataTx_ok {event : Event} {channelId : Option Uuid}
    {threadMeta : Option ThreadMetadataParams} {result : ThreadStore × Bool}
    (h : store.insertEventWithThreadMetadataTx event channelId threadMeta = .ok result) :
    result.1 = store ∨ ∃ t, createdAtOf event = .ok t ∧ (t, event.id) ∉ store.events ∧
      result.1 = store.withEvent t event channelId threadMeta := by
  rw [insertEventWithThreadMetadataTx, insertEventTx] at h
  split at h
  · cases h
  · cases h
    exact .inl rfl
  · next events hinsert =>
    right
    split at hinsert
    · cases hinsert
    split at hinsert
    · cases hinsert
    split at hinsert
    · cases hinsert
    · next t ht =>
      have hrow := Except.ok.inj hinsert
      rw [EventsTable.insertRow] at hrow
      split at hrow
      · cases hrow
      · next hnew =>
        refine ⟨t, ht, hnew, ?_⟩
        rw [← Except.ok.inj h, ← (Prod.mk.inj hrow).1]
        rfl

/-- No row is lost, and no counter moves by more than one. -/
def ThreadTable.Nudges (threads threads' : ThreadTable) : Prop :=
  ∀ key row, threads.lookup key = some row → ∃ row', threads'.lookup key = some row' ∧
    (row'.replyCount ≤ row.replyCount + 1 ∧ row.replyCount ≤ row'.replyCount + 1) ∧
    row'.descendantCount ≤ row.descendantCount + 1 ∧ row.descendantCount ≤ row'.descendantCount + 1

theorem ThreadTable.Nudges.updateCounters {threads threads' : ThreadTable}
    {parent root : Option EventId} {reply descendant : ThreadRow → ThreadRow} {g : ℕ → ℕ}
    (h : ∀ key row, threads.lookup key = some row → threads'.lookup key = some row)
    (hroot : parent = none → root = none)
    (hreply : ∀ row, reply row = { row with replyCount := g row.replyCount })
    (hdescendant : ∀ row, descendant row = { row with descendantCount := g row.descendantCount })
    (hg : ∀ n, g n ≤ n + 1 ∧ n ≤ g n + 1) :
    threads.Nudges (threads'.updateCounters parent root reply descendant) := by
  have hif (c : Prop) [Decidable c] (n : ℕ) :
      (if c then g n else n) ≤ n + 1 ∧ n ≤ (if c then g n else n) + 1 := by
    split
    · exact hg n
    · omega
  intro key row hrow
  rw [lookup_updateCounters hroot hreply hdescendant, h key row hrow]
  exact ⟨_, rfl, hif _ row.replyCount, hif _ row.descendantCount⟩

inductive ThreadStep (signed : EventId → Event) (store : ThreadStore) : ThreadStore → Prop
  | same : ThreadStep signed store store
  | stored (id : EventId) (t : DbTime) (channelId : Option Uuid)
      (threadMeta : Option ThreadMetadataParams) (ht : createdAtOf (eventOf signed id) = .ok t)
      (hnew : (t, id) ∉ store.events)
      (hplaced : ∀ params, threadMeta = some params → Placed store id t params) :
      ThreadStep signed store (store.withEvent t (eventOf signed id) channelId threadMeta)
  | deleted (id : EventId) (parent root : Option EventId)
      (hlive : ∀ t, (t, id) ∈ store.threads → store.events.liveAt (t, id) = true)
      (hmeta : store.Names id parent root) :
      ThreadStep signed store (store.deleted id parent root)

theorem ThreadStep.threaded {store' : ThreadStore} (hstep : ThreadStep signed store store')
    (h : store.Threaded signed) : store'.Threaded signed := by
  cases hstep with
  | same => exact h
  | stored id t channelId threadMeta ht hnew hplaced => exact h.withEvent ht hnew hplaced
  | deleted id parent root hlive hmeta => exact h.deleted hlive hmeta

theorem ThreadStep.nudges {store' : ThreadStore} (hstep : ThreadStep signed store store')
    (h : store.Threaded signed) : store.threads.Nudges store'.threads := by
  have hsame : store.threads.Nudges store.threads :=
    fun key row hrow ↦ ⟨row, hrow, by omega, by omega⟩
  cases hstep with
  | same => exact hsame
  | stored id t channelId threadMeta ht hnew hplaced =>
    cases threadMeta with
    | none => exact hsame
    | some params =>
      have hp := hplaced params rfl
      obtain ⟨threads, hfilled, _, hthreads⟩ := h.fills channelId ht hnew hp
      rw [hthreads]
      exact ThreadTable.Nudges.updateCounters (g := (· + 1)) hfilled.keeps hp.rooted (fun _ ↦ rfl)
        (fun _ ↦ rfl) fun n ↦ by omega
  | deleted id parent root hlive hmeta =>
    exact ThreadTable.Nudges.updateCounters (g := (· - 1)) (fun _ _ hrow ↦ hrow)
      (h.rooted_of_names hmeta) (fun _ ↦ rfl) (fun _ ↦ rfl) fun n ↦ by omega

/-- The step stores a reply below a root that is neither the parent, nor live, nor as old. -/
def RootsAtDeadStep (signed : EventId → Event) (store : ThreadStore) : ThreadOp → Prop
  | .ingest id (some channelId) now pick => RootsAtDead signed store id channelId now pick
  | _ => False

theorem ThreadStore.Threaded.delete_step (h : store.Threaded signed) (id : EventId) (pick : ℕ) :
    ThreadStep signed store (deleteThreaded store id pick) := by
  rw [deleteThreaded, ThreadStore.softDeleteEventAndUpdateThread]
  simp only
  split
  · next hany =>
    obtain ⟨e, he, hp⟩ := List.any_eq_true.mp hany
    rw [Bool.and_eq_true, beq_iff_eq, Bool.not_eq_true'] at hp
    obtain ⟨hid, hdeleted⟩ := hp
    have hrow := Map.mem_entries_iff.mp he
    refine .deleted id _ _ (fun t ht ↦ ?_) ?_
    · obtain ⟨row, hthread⟩ := Option.isSome_iff_exists.mp (AList.lookup_isSome.mpr ht)
      have hkey : e.1 = (t, id) := by
        have ht' := h.keyed _ row hthread
        rw [← hid] at ht' ⊢
        exact Prod.ext (h.time_unique (mem_of_lookup hrow) ht') rfl
      rw [← hkey, EventsTable.liveAt, hrow, Option.any_some, hdeleted]
      rfl
    · cases hmeta : store.threads.getThreadMetadataByEvent id pick with
      | none => exact .inr ⟨ThreadTable.getThreadMetadataByEvent_none hmeta, rfl, rfl⟩
      | some row =>
        obtain ⟨t, ht⟩ := ThreadTable.getThreadMetadataByEvent_some hmeta
        exact .inl ⟨t, row, ht, rfl, rfl⟩
  · exact .same

theorem ThreadStep.of_insert {channelId : Option Uuid}
    {threadMeta : Option ThreadMetadataParams} {result : ThreadStore × Bool}
    (hplaced : ∀ t, createdAtOf (eventOf signed id) = .ok t → (t, id) ∉ store.events →
      ∀ params, threadMeta = some params → Placed store id t params)
    (hinsert : store.insertEventWithThreadMetadataTx (eventOf signed id) channelId threadMeta =
      .ok result) : ThreadStep signed store result.1 := by
  rcases ThreadStore.insertEventWithThreadMetadataTx_ok hinsert with hsame | ⟨t, ht, hnew, hstored⟩
  · rw [hsame]
    exact .same
  · rw [hstored]
    exact .stored id t channelId threadMeta ht hnew (hplaced t ht hnew)

theorem ThreadStep.of_inserted {channelId : Option Uuid} {result : ThreadStore × Bool}
    {threadMeta : Option ThreadMetadataParams}
    (hplaced : ∀ t, createdAtOf (eventOf signed id) = .ok t → (t, id) ∉ store.events →
      ∀ params, threadMeta = some params → Placed store id t params)
    (hinsert : (match store.insertEventWithThreadMetadataTx (eventOf signed id) channelId
        threadMeta with
      | .error e => Except.error (IngestError.internal e)
      | .ok result => .ok result) = .ok result) : ThreadStep signed store result.1 := by
  split at hinsert
  · cases hinsert
  · next hstored =>
    rw [← Except.ok.inj hinsert]
    exact ThreadStep.of_insert hplaced hstored

theorem ThreadStore.Threaded.ingest_step (h : store.Threaded signed) {channelId : Option Uuid}
    {now : DbTime} {pick : ℕ} {result : ThreadStore × Bool}
    (hlive : ∀ ch, channelId = some ch → ¬RootsAtDead signed store id ch now pick)
    (hingest : ingestThreaded store (eventOf signed id) channelId now pick = .ok result) :
    ThreadStep signed store result.1 := by
  unfold ingestThreaded at hingest
  cases channelId with
  | none => exact .of_inserted (fun _ _ _ _ hnone ↦ by cases hnone) hingest
  | some ch =>
    simp only at hingest
    split at hingest
    · cases hingest
    · next threadMeta hresolved =>
      refine .of_inserted (fun t ht hnew params hparams ↦ ?_) hingest
      split at hresolved
      · next hscope =>
        rw [hparams] at hresolved
        exact h.resolve_placed hscope ht hnew hresolved (hlive ch rfl)
      · rw [hparams] at hresolved
        cases hresolved

theorem ThreadStore.Threaded.step (h : store.Threaded signed) {op : ThreadOp}
    (hlive : ¬RootsAtDeadStep signed store op) :
    ThreadStep signed store (applyThreadOp signed store op) := by
  cases op with
  | ingest id channelId now pick =>
    rw [applyThreadOp]
    split
    · next hingest =>
      refine h.ingest_step (fun ch hch ↦ ?_) hingest
      rw [hch] at hlive
      exact hlive
    · exact .same
  | workflow id channelId =>
    rw [applyThreadOp]
    split
    · exact .same
    · next t ht =>
      split
      · next hinsert =>
        refine ThreadStep.of_insert (fun t' ht' _ params hparams ↦ ?_) hinsert
        rw [← Option.some.inj hparams]
        exact ⟨rfl, Except.ok.inj (ht.symm.trans ht'), .inl ⟨rfl, rfl⟩⟩
      · exact .same
  | delete id pick => exact h.delete_step id pick

def ThreadOp.submitted : ThreadOp → Option EventId
  | .ingest id _ _ _ => some id
  | .workflow id _ => some id
  | .delete _ _ => none

/-- A stored event that comes again and a deleted event that goes again change nothing, and no
step moves a counter by more than one. -/
structure CountsOnce (signed : EventId → Event) (store : ThreadStore) (op : ThreadOp) : Prop where
  replayed : ∀ t id, op.submitted = some id → (t, id) ∈ store.events →
    applyThreadOp signed store op = store
  gone : ∀ id pick, op = .delete id pick → ¬store.events.Live id →
    applyThreadOp signed store op = store
  nudges : store.threads.Nudges (applyThreadOp signed store op).threads

theorem ThreadStore.insert_stored {event : Event} {channelId : Option Uuid}
    {threadMeta : Option ThreadMetadataParams} {result : ThreadStore × Bool}
    (ht : createdAtOf event = .ok t) (hstored : (t, event.id) ∈ store.events)
    (h : store.insertEventWithThreadMetadataTx event channelId threadMeta = .ok result) :
    result.1 = store := by
  rcases insertEventWithThreadMetadataTx_ok h with hsame | ⟨t', ht', hnew, _⟩
  · exact hsame
  · rw [Except.ok.inj (ht.symm.trans ht')] at hstored
    exact absurd hstored hnew

theorem ThreadStore.Threaded.replayed (h : store.Threaded signed) {op : ThreadOp}
    (hop : op.submitted = some id) (hstored : (t, id) ∈ store.events) :
    applyThreadOp signed store op = store := by
  obtain ⟨row, hrow⟩ := Option.isSome_iff_exists.mp (AList.lookup_isSome.mpr hstored)
  have ht := (h.stored _ row hrow).1
  cases op with
  | ingest id' channelId now pick =>
    cases hop
    rw [applyThreadOp]
    split
    · next hingest =>
      unfold ingestThreaded at hingest
      simp only at hingest
      split at hingest
      · cases hingest
      · split at hingest
        · cases hingest
        · next hinsert =>
          rw [Except.ok.inj hingest] at hinsert
          exact ThreadStore.insert_stored ht hstored hinsert
    · rfl
  | workflow id' channelId =>
    cases hop
    rw [applyThreadOp]
    split
    · rfl
    · split
      · next hinsert => exact ThreadStore.insert_stored ht hstored hinsert
      · rfl
  | delete id' pick => cases hop

theorem deleteThreaded_gone {pick : ℕ} (h : ¬store.events.Live id) :
    deleteThreaded store id pick = store := by
  rw [deleteThreaded, ThreadStore.softDeleteEventAndUpdateThread]
  simp only
  rw [if_neg]
  intro hany
  obtain ⟨e, he, hp⟩ := List.any_eq_true.mp hany
  rw [Bool.and_eq_true, beq_iff_eq, Bool.not_eq_true'] at hp
  refine h ⟨e.1.1, e.2, ?_, hp.2⟩
  rw [← hp.1]
  exact Map.mem_entries_iff.mp he

theorem ThreadStore.Threaded.countsOnce (h : store.Threaded signed) {op : ThreadOp}
    (hlive : ¬RootsAtDeadStep signed store op) : CountsOnce signed store op where
  replayed _ _ hop hstored := h.replayed hop hstored
  gone id pick hop hdead := by
    rw [hop]
    exact deleteThreaded_gone hdead
  nudges := (h.step hlive).nudges h

theorem threaded_empty (signed : EventId → Event) : ThreadStore.Threaded signed {} where
  stored _ _ h := by cases h
  keyed _ _ h := by cases h
  named _ _ h := by cases h
  rooted _ _ h := by cases h
  counted _ _ h := by cases h

/-- Event 2 answers 3 with a root tag alone, event 4 answers 2, and event 3 itself answers 1. -/
def signedThread (id : EventId) : Event :=
  let mark (id : EventId) (marker : String) : Tag := ⟨"e", [hexEncode id, "", marker]⟩
  { id, pubkey := 5, createdAt := 10 * UInt64.ofNat id.val, kind := 9, content := "hi", sig := 0,
    tags :=
      if id = 2 then [mark 3 "root"]
      else if id = 3 then [mark 1 "reply"]
      else if id = 4 then [mark 3 "root", mark 2 "reply"]
      else [] }

/-- In a run that never takes a reply below a dead root, every counter is exact all along, and each
event and each deletion counts once. -/
theorem thread_counters_exact (signed : EventId → Event) (ops : List ThreadOp)
    (hlive : ∀ pre op, pre ++ [op] <+: ops → ¬RootsAtDeadStep signed (runThreads signed pre) op) :
    (∀ pre, pre <+: ops → (runThreads signed pre).Exact) ∧
      ∀ pre op, pre ++ [op] <+: ops → CountsOnce signed (runThreads signed pre) op := by
  have hthreaded : ∀ pre, pre <+: ops → (runThreads signed pre).Threaded signed :=
    forall_prefix_of_steps (applyThreadOp signed) (ThreadStore.Threaded signed)
      (RootsAtDeadStep signed) (threaded_empty signed) (fun _ _ h hop ↦ (h.step hop).threaded h) hlive
  refine ⟨fun pre hpre ↦ (hthreaded pre hpre).exact, fun pre op hpre ↦ ?_⟩
  exact (hthreaded pre ((List.prefix_append pre [op]).trans hpre)).countsOnce (hlive pre op hpre)

/-- A reply to event 1 that is delivered twice and deleted twice. -/
theorem thread_counters_exact_reply :
    (runThreads signedThread [.ingest 1 (some 7) 100 0, .ingest 3 (some 7) 100 0,
      .ingest 3 (some 7) 100 0, .delete 3 0, .delete 3 0]).Exact := by
  refine (thread_counters_exact signedThread _ fun pre op hpre ↦ ?_).1 _ (List.prefix_refl _)
  have hmem : op ∈ [ThreadOp.ingest 1 (some 7) 100 0, .ingest 3 (some 7) 100 0, .delete 3 0] := by
    have hop := hpre.subset (List.mem_append_right pre (List.mem_singleton_self op))
    simp only [List.mem_cons] at hop ⊢
    tauto
  have hroot (id : EventId) (hid : id = 1 ∨ id = 3) (root parent : EventId)
      (htags : replyTags (eventOf signedThread id) = some (root, parent)) : root = parent := by
    rcases hid with rfl | rfl
    · cases htags
    · rw [show replyTags (eventOf signedThread 3) = some (1, 1) by decide] at htags
      cases htags
      rfl
  simp only [List.mem_cons, List.not_mem_nil, or_false] at hmem
  rcases hmem with rfl | rfl | rfl
  · intro h
    obtain ⟨root, parent, htags, hne, _⟩ := h.dead
    exact hne (hroot 1 (.inl rfl) root parent htags)
  · intro h
    obtain ⟨root, parent, htags, hne, _⟩ := h.dead
    exact hne (hroot 3 (.inr rfl) root parent htags)
  · exact not_false

/-- A reply in a thread whose root comes, and answers another event, only then. -/
theorem late_root_loses_descendant :
    ¬(runThreads signedThread [.ingest 1 (some 7) 100 0, .ingest 2 (some 7) 100 0,
      .ingest 4 (some 7) 100 0, .ingest 3 (some 7) 100 0]).Exact := by
  intro hexact
  have hcounted := (hexact 30 3 (by decide)).1 30
    ⟨7, some 1, some 10, some 1, some 10, 1, false, 0, 0⟩ (by decide)
  have hone : (runThreads signedThread [.ingest 1 (some 7) 100 0, .ingest 2 (some 7) 100 0,
      .ingest 4 (some 7) 100 0, .ingest 3 (some 7) 100 0]).liveDescendants 3 = 1 := by decide
  rw [hone] at hcounted
  exact absurd hcounted.2 (by decide)

end Steps

end Buzz.Db
