import Buzz.Db.Query
import Buzz.Db.ReplaceSpec
import Buzz.Db.Thread
import Buzz.Lib.Keyset

namespace Buzz.Db

open Buzz.Lib Buzz.Lib.Keyset Buzz.Nostr Buzz.Core

def asI32 (n : UInt32) : ℤ := n.toBitVec.toInt

/-- What `ORDER BY event_created_at ASC, event_id ASC` puts first. -/
def olderKey (a b : EventKey) : Prop := a.1 < b.1 ∨ a.1 = b.1 ∧ a.2 < b.2

instance : DecidableRel olderKey := fun _ _ ↦ inferInstanceAs (Decidable (_ ∨ _))

abbrev Reconstruct := EventKey → EventRow → Option StoredEvent

section Window

/-- No metadata, a root, or a broadcast reply to a root. -/
def isTopLevel : Option ThreadRow → Bool
  | none => true
  | some row => row.depth = 0 || row.depth = 1 && row.broadcast

def windowClause (s : ThreadStore) (channelId : Uuid) (kindFilter : Option (List ℕ))
    (key : EventKey) (row : EventRow) : Bool :=
  row.channelId == some channelId && !row.deleted && isTopLevel (s.threads.lookup key) &&
    EventQuery.inClause kindFilter (eventKindU32 row.event)

structure ChannelWindowRow where
  key : EventKey
  storedEvent : StoredEvent

structure ChannelWindow where
  rows : List ChannelWindowRow
  hasMore : Bool
  nextCursor : Option EventKey

def getChannelWindow (reconstruct : Reconstruct) (s : ThreadStore) (channelId : Uuid)
    (limit : UInt32) (cursor : Option EventKey) (kindFilter : Option (List ℕ)) : ChannelWindow :=
  let rows := s.events.entries.filter fun e ↦ windowClause s channelId kindFilter e.1 e.2 &&
    cursor.all fun c ↦ newerKey c e.1
  let dbRows := (rows.insertionSort fun a b ↦ ¬newerKey b.1 a.1).take (limit.toNat + 1)
  let hasMore := limit.toNat < dbRows.length
  let retained := dbRows.take limit.toNat
  { rows := retained.filterMap fun e ↦ (reconstruct e.1 e.2).map fun stored ↦ ⟨e.1, stored⟩
    hasMore
    nextCursor := if hasMore then retained.getLast?.map Sigma.fst else none }

end Window

section Thread

structure ThreadCursor where
  secs : ℤ
  eventId : Option EventId

structure ThreadReply where
  eventId : EventId
  parentEventId : Option EventId
  rootEventId : Option EventId
  channelId : Uuid
  pubkey : PublicKey
  tags : List Tag
  content : String
  storedEvent : StoredEvent
  depth : ℤ
  createdAt : DbTime
  broadcast : Bool

def ThreadReply.key (reply : ThreadReply) : EventKey := (reply.createdAt, reply.eventId)

def afterCursor (cursorKey : Option (DbTime × Option EventId)) (key : EventKey) : Bool :=
  cursorKey.all fun c ↦
    match c.2 with
    | some id => olderKey (c.1, id) key
    | none => c.1 < key.1

def threadClause (root : EventId) (depthLimit : Option UInt32) (row : ThreadRow) : Bool :=
  row.rootEventId == some root && depthLimit.all fun limit ↦ row.depth ≤ asI32 limit

def threadRows (s : ThreadStore) (root : EventId) (depthLimit : Option UInt32) :
    List (EventKey × ThreadRow × EventRow) :=
  (s.threads.entries.filter fun e ↦ threadClause root depthLimit e.2).filterMap fun e ↦
    ((s.events.lookup e.1).filter fun row ↦ !row.deleted).map fun row ↦ (e.1, e.2, row)

def threadReply (reconstruct : Reconstruct) (row : EventKey × ThreadRow × EventRow) :
    Option ThreadReply :=
  (reconstruct row.1 row.2.2).map fun stored ↦
    { eventId := row.1.2
      parentEventId := row.2.1.parentEventId
      rootEventId := row.2.1.rootEventId
      channelId := row.2.1.channelId
      pubkey := row.2.2.event.pubkey
      tags := row.2.2.event.tags
      content := stored.event.content
      storedEvent := stored
      depth := row.2.1.depth
      createdAt := row.1.1
      broadcast := row.2.1.broadcast }

def getThreadReplies (reconstruct : Reconstruct) (s : ThreadStore) (root : EventId)
    (depthLimit : Option UInt32) (limit : UInt32) (cursor : Option ThreadCursor) :
    Except DbError (List ThreadReply) :=
  let cursorKey := cursor.bind fun c ↦ (fromTimestamp c.secs).map fun t ↦ (t, c.eventId)
  if asI32 limit < 0 then .error (.database "LIMIT must not be negative")
  else
    let rows := (threadRows s root depthLimit).filter fun row ↦ afterCursor cursorKey row.1
    let ordered := rows.insertionSort fun a b ↦ ¬olderKey b.1 a.1
    .ok ((ordered.take (asI32 limit).toNat).filterMap (threadReply reconstruct))

/-- The next cursor of the desktop: a full page means that there may be more. -/
def nextThreadCursor (limit : UInt32) (replies : List ThreadReply) : Option ThreadCursor :=
  if limit.toNat ≤ replies.length then
    replies.getLast?.map fun reply ↦ ⟨reply.createdAt, some reply.eventId⟩
  else none

end Thread

/-- A state of the tables; the dates of its rows are those that a `DateTime` can have. -/
structure Snapshot extends ThreadStore where
  dated : ∀ key ∈ threads, fromTimestamp key.1 = some key.1

section Walk

variable (reconstruct : Reconstruct)

inductive WindowWalk (channelId : Uuid) (limit : UInt32) (kindFilter : Option (List ℕ)) :
    Option EventKey → List ThreadStore → List ChannelWindowRow → Prop
  | last {s : ThreadStore} {cursor : Option EventKey} {window : ChannelWindow} :
      getChannelWindow reconstruct s channelId limit cursor kindFilter = window →
      window.hasMore = false →
      WindowWalk channelId limit kindFilter cursor [s] window.rows
  | more {s : ThreadStore} {cursor next : Option EventKey} {window : ChannelWindow}
      {rest : List ThreadStore} {rows : List ChannelWindowRow} :
      getChannelWindow reconstruct s channelId limit cursor kindFilter = window →
      window.hasMore = true → window.nextCursor = next →
      WindowWalk channelId limit kindFilter next rest rows →
      WindowWalk channelId limit kindFilter cursor (s :: rest) (window.rows ++ rows)

inductive ThreadWalk (root : EventId) (depthLimit : Option UInt32) (limit : UInt32) :
    Option ThreadCursor → List Snapshot → Option ThreadCursor → Except DbError (List ThreadReply) →
    Prop
  | failed {s : Snapshot} {cursor : Option ThreadCursor} {e : DbError} :
      getThreadReplies reconstruct s.toThreadStore root depthLimit limit cursor = .error e →
      ThreadWalk root depthLimit limit cursor [s] cursor (.error e)
  | last {s : Snapshot} {cursor : Option ThreadCursor} {replies : List ThreadReply} :
      getThreadReplies reconstruct s.toThreadStore root depthLimit limit cursor = .ok replies →
      nextThreadCursor limit replies = none →
      ThreadWalk root depthLimit limit cursor [s] cursor (.ok replies)
  | more {s : Snapshot} {cursor final : Option ThreadCursor} {next : ThreadCursor}
      {replies : List ThreadReply} {rest : List Snapshot}
      {out : Except DbError (List ThreadReply)} :
      getThreadReplies reconstruct s.toThreadStore root depthLimit limit cursor = .ok replies →
      nextThreadCursor limit replies = some next →
      ThreadWalk root depthLimit limit (some next) rest final out →
      ThreadWalk root depthLimit limit cursor (s :: rest) final (out.map fun more ↦ replies ++ more)

end Walk

/-- What is returned is in order, was there, and has what was there throughout exactly once. -/
structure Lossless (before : EventKey → EventKey → Prop) (keys : List EventKey)
    (seen lasting : EventKey → Prop) : Prop where
  ordered : keys.Pairwise before
  known : ∀ key ∈ keys, seen key
  once : ∀ key, lasting key → keys.count key = 1

section Order

variable {a b c : EventKey}

theorem newerKey_trichotomous (hab : ¬newerKey a b) (hba : ¬newerKey b a) : a = b := by
  simp only [newerKey, not_or, not_and, not_lt] at hab hba
  have htime : a.1 = b.1 := le_antisymm hab.1 hba.1
  exact Prod.ext htime (le_antisymm (hba.2 htime) (hab.2 htime.symm))

instance : IsStrictTotalOrder EventKey newerKey where
  trichotomous _ _ := newerKey_trichotomous

theorem olderKey_irrefl (a : EventKey) : ¬olderKey a a := by
  rintro (h | ⟨-, h⟩)
  · exact lt_irrefl _ h
  · exact lt_irrefl _ h

theorem olderKey_trans (hab : olderKey a b) (hbc : olderKey b c) : olderKey a c := by
  rcases hab with hab | ⟨hab, hab'⟩
  · rcases hbc with hbc | ⟨hbc, -⟩
    · exact .inl (hab.trans hbc)
    · exact .inl (hbc ▸ hab)
  · rcases hbc with hbc | ⟨hbc, hbc'⟩
    · exact .inl (hab ▸ hbc)
    · exact .inr ⟨hab.trans hbc, hab'.trans hbc'⟩

theorem olderKey_trichotomous (hab : ¬olderKey a b) (hba : ¬olderKey b a) : a = b := by
  simp only [olderKey, not_or, not_and, not_lt] at hab hba
  have htime : a.1 = b.1 := le_antisymm hba.1 hab.1
  exact Prod.ext htime (le_antisymm (hba.2 htime.symm) (hab.2 htime))

instance : IsStrictTotalOrder EventKey olderKey where
  trichotomous _ _ := olderKey_trichotomous
  irrefl := olderKey_irrefl
  trans _ _ _ := olderKey_trans

end Order

/-- A walk is lossless once its last page left out nothing that was there throughout. -/
theorem lossless_of_walk {σ : Type*} {before : EventKey → EventKey → Prop} [DecidableRel before]
    [IsStrictTotalOrder EventKey before] {keys : σ → List EventKey} {shown : σ → EventKey → Bool}
    {limit : ℕ} {snapshots : List σ} {final : Option EventKey} {out : List EventKey}
    {seen lasting : EventKey → Prop} (hkeys : ∀ s, (keys s).Nodup)
    (h : Walk before keys shown limit none snapshots final out)
    (hseen : ∀ s ∈ snapshots, ∀ key ∈ keys s, shown s key = true → seen key)
    (hlasting : ∀ key, lasting key → ∀ s ∈ snapshots, key ∈ keys s ∧ shown s key = true)
    (hlast : ∀ s ∈ snapshots.getLast?, ∀ key, lasting key →
      key ∈ behind before (keys s) final → key ∈ page before limit (keys s) final) :
    Lossless before out seen lasting where
  ordered := h.pairwise hkeys
  known key hkey := by
    obtain ⟨s, hs, hmem, hshown⟩ := h.sound hkey
    exact hseen s hs key hmem hshown
  once key hkey := by
    have hnodup : out.Nodup := by
      refine (h.pairwise hkeys).imp ?_
      rintro a b hab rfl
      exact irrefl a hab
    refine List.count_eq_one_of_mem hnodup ?_
    rcases h.complete hkeys (hlasting key hkey) (by simp) with hout | ⟨s, hs, hbehind, hpage⟩
    · exact hout
    · exact absurd (hlast s hs key hkey hbehind) hpage

section Window

variable (channelId : Uuid) (kindFilter : Option (List ℕ)) (reconstruct : Reconstruct)

def InWindow (s : ThreadStore) (key : EventKey) : Prop :=
  ∃ row, s.events.lookup key = some row ∧ windowClause s channelId kindFilter key row = true

def ReadableInWindow (s : ThreadStore) (key : EventKey) : Prop :=
  ∃ row, s.events.lookup key = some row ∧ windowClause s channelId kindFilter key row = true ∧
    (reconstruct key row).isSome = true

def windowKeys (s : ThreadStore) : List EventKey :=
  (s.events.entries.filter fun e ↦ windowClause s channelId kindFilter e.1 e.2).map Sigma.fst

def eventReadable (s : ThreadStore) (key : EventKey) : Bool :=
  (s.events.lookup key).any fun row ↦ (reconstruct key row).isSome

variable {channelId kindFilter reconstruct} {s : ThreadStore} {key : EventKey}

theorem mem_windowKeys : key ∈ windowKeys channelId kindFilter s ↔
    InWindow channelId kindFilter s key := by
  simp only [windowKeys, List.mem_map, List.mem_filter, InWindow, ← Map.mem_entries_iff]
  constructor
  · rintro ⟨e, he, rfl⟩
    exact ⟨e.2, he⟩
  · rintro ⟨row, h⟩
    exact ⟨⟨key, row⟩, h, rfl⟩

theorem nodup_windowKeys (s : ThreadStore) : (windowKeys channelId kindFilter s).Nodup :=
  List.Nodup.sublist (List.filter_sublist.map Sigma.fst) s.events.nodupKeys

theorem readableInWindow_iff : ReadableInWindow channelId kindFilter reconstruct s key ↔
    key ∈ windowKeys channelId kindFilter s ∧ eventReadable reconstruct s key = true := by
  rw [mem_windowKeys, ReadableInWindow, InWindow, eventReadable]
  cases s.events.lookup key <;> simp

def windowScan (channelId : Uuid) (kindFilter : Option (List ℕ)) (s : ThreadStore)
    (cursor : Option EventKey) : List ((_ : EventKey) × EventRow) :=
  (s.events.entries.filter fun e ↦ windowClause s channelId kindFilter e.1 e.2 &&
    cursor.all fun c ↦ newerKey c e.1).insertionSort fun a b ↦ ¬newerKey b.1 a.1

theorem map_windowScan (cursor : Option EventKey) :
    (windowScan channelId kindFilter s cursor).map Sigma.fst =
      behind newerKey (windowKeys channelId kindFilter s) cursor := by
  rw [windowKeys, ← map_rows, List.filter_filter, windowScan]
  simp only [Bool.and_comm]

theorem lookup_of_mem_windowScan {cursor : Option EventKey} {e : (_ : EventKey) × EventRow}
    (h : e ∈ windowScan channelId kindFilter s cursor) : s.events.lookup e.1 = some e.2 :=
  Map.mem_entries_iff.mp (List.mem_of_mem_filter ((List.mem_insertionSort _).mp h))

theorem window_rows (limit : UInt32) (cursor : Option EventKey) :
    (getChannelWindow reconstruct s channelId limit cursor kindFilter).rows.map (·.key) =
      (page newerKey limit.toNat (windowKeys channelId kindFilter s) cursor).filter
        (eventReadable reconstruct s) := by
  rw [page, ← map_windowScan, ← List.map_take]
  have htake : ((windowScan channelId kindFilter s cursor).take (limit.toNat + 1)).take limit.toNat =
      (windowScan channelId kindFilter s cursor).take limit.toNat := by
    rw [List.take_take, min_eq_left (Nat.le_succ _)]
  refine (congrArg _ (congrArg _ htake)).trans (map_filterMap fun e he ↦ ?_)
  rw [eventReadable, lookup_of_mem_windowScan (List.mem_of_mem_take he)]
  cases hread : reconstruct e.1 e.2 <;> simp [hread]

theorem window_hasMore (limit : UInt32) (cursor : Option EventKey) :
    (getChannelWindow reconstruct s channelId limit cursor kindFilter).hasMore = true ↔
      limit.toNat < (behind newerKey (windowKeys channelId kindFilter s) cursor).length := by
  rw [← map_windowScan, List.length_map]
  simp only [getChannelWindow, decide_eq_true_eq]
  rw [← windowScan, List.length_take]
  omega

theorem window_nextCursor (limit : UInt32) (cursor : Option EventKey) :
    (getChannelWindow reconstruct s channelId limit cursor kindFilter).nextCursor =
      if (getChannelWindow reconstruct s channelId limit cursor kindFilter).hasMore = true then
        (page newerKey limit.toNat (windowKeys channelId kindFilter s) cursor).getLast?
      else none := by
  have htake : ((windowScan channelId kindFilter s cursor).take (limit.toNat + 1)).take limit.toNat =
      (windowScan channelId kindFilter s cursor).take limit.toNat := by
    rw [List.take_take, min_eq_left (Nat.le_succ _)]
  rw [page, ← map_windowScan, ← List.map_take, List.getLast?_map, ← htake]
  simp only [getChannelWindow, decide_eq_true_eq]
  rfl

theorem exists_getLast_of_hasMore {limit : UInt32} (hlimit : 0 < limit.toNat)
    {cursor : Option EventKey}
    (h : limit.toNat < (behind newerKey (windowKeys channelId kindFilter s) cursor).length) :
    ∃ c, (page newerKey limit.toNat (windowKeys channelId kindFilter s) cursor).getLast? = some c := by
  cases hlast : (page newerKey limit.toNat (windowKeys channelId kindFilter s) cursor).getLast? with
  | some c => exact ⟨c, rfl⟩
  | none =>
    have hlen := congrArg List.length (List.getLast?_eq_none_iff.mp hlast)
    rw [page, List.length_take, List.length_nil] at hlen
    omega

theorem walk_of_windowWalk {limit : UInt32} (hlimit : 0 < limit.toNat) {cursor : Option EventKey}
    {snapshots : List ThreadStore} {rows : List ChannelWindowRow}
    (h : WindowWalk reconstruct channelId limit kindFilter cursor snapshots rows) :
    ∃ final, Walk newerKey (windowKeys channelId kindFilter) (eventReadable reconstruct)
        limit.toNat cursor snapshots final (rows.map (·.key)) ∧
      ∀ s ∈ snapshots.getLast?,
        (behind newerKey (windowKeys channelId kindFilter s) final).length ≤ limit.toNat := by
  induction h with
  | @last s cursor window hwindow hmore =>
    subst hwindow
    refine ⟨cursor, ?_, fun s' hs' ↦ ?_⟩
    · rw [window_rows]
      exact .last s cursor
    · obtain rfl : s = s' := by simpa using hs'
      rw [← not_lt]
      intro hbehind
      have hmore' : (getChannelWindow reconstruct s channelId limit cursor kindFilter).hasMore =
          true := (window_hasMore limit cursor).mpr hbehind
      exact Bool.false_ne_true (hmore.symm.trans hmore')
  | @more s cursor next window rest rows hwindow hmore hnext hwalk ih =>
    subst hwindow
    obtain ⟨c, hc⟩ := exists_getLast_of_hasMore hlimit ((window_hasMore limit cursor).mp hmore)
    rw [window_nextCursor, if_pos hmore, hc] at hnext
    subst hnext
    obtain ⟨final, hrest, hlast⟩ := ih
    refine ⟨final, ?_, ?_⟩
    · rw [List.map_append, window_rows]
      exact .more hc hrest
    · rwa [List.getLast?_cons_of_ne_nil hrest.ne_nil]

theorem windowWalk_lossless {limit : UInt32} (hlimit : 0 < limit.toNat)
    {snapshots : List ThreadStore} {rows : List ChannelWindowRow}
    (h : WindowWalk reconstruct channelId limit kindFilter none snapshots rows) :
    Lossless newerKey (rows.map (·.key))
      (fun key ↦ ∃ s ∈ snapshots, ReadableInWindow channelId kindFilter reconstruct s key)
      (fun key ↦ ∀ s ∈ snapshots, ReadableInWindow channelId kindFilter reconstruct s key) := by
  obtain ⟨final, hwalk, hlast⟩ := walk_of_windowWalk hlimit h
  refine lossless_of_walk nodup_windowKeys hwalk ?_ ?_ ?_
  · exact fun s hs key hmem hshown ↦ ⟨s, hs, readableInWindow_iff.mpr ⟨hmem, hshown⟩⟩
  · exact fun key hkey s hs ↦ readableInWindow_iff.mp (hkey s hs)
  · intro s hs key _ hbehind
    rwa [page, List.take_of_length_le (hlast s hs)]

end Window

section Thread

variable (root : EventId) (depthLimit : Option UInt32) (reconstruct : Reconstruct)

def ReadableInThread (s : ThreadStore) (key : EventKey) : Prop :=
  ∃ row event, s.threads.lookup key = some row ∧ threadClause root depthLimit row = true ∧
    s.events.lookup key = some event ∧ event.deleted = false ∧ (reconstruct key event).isSome = true

def threadKeys (s : Snapshot) : List EventKey :=
  (threadRows s.toThreadStore root depthLimit).map Prod.fst

variable {root depthLimit reconstruct} {s : Snapshot} {key : EventKey}

theorem mem_threadRows {row : EventKey × ThreadRow × EventRow} {s : ThreadStore} :
    row ∈ threadRows s root depthLimit ↔ s.threads.lookup row.1 = some row.2.1 ∧
      threadClause root depthLimit row.2.1 = true ∧ s.events.lookup row.1 = some row.2.2 ∧
      row.2.2.deleted = false := by
  simp only [threadRows, List.mem_filterMap, List.mem_filter, ← Map.mem_entries_iff,
    Option.map_eq_some_iff, Option.filter_eq_some_iff]
  constructor
  · rintro ⟨e, ⟨he, hclause⟩, event, ⟨hevent, hlive⟩, rfl⟩
    exact ⟨he, hclause, hevent, by simpa using hlive⟩
  · rintro ⟨he, hclause, hevent, hlive⟩
    exact ⟨⟨row.1, row.2.1⟩, ⟨he, hclause⟩, row.2.2, ⟨hevent, by simpa using hlive⟩, rfl⟩

theorem readableInThread_iff : ReadableInThread root depthLimit reconstruct s.toThreadStore key ↔
    key ∈ threadKeys root depthLimit s ∧ eventReadable reconstruct s.toThreadStore key = true := by
  simp only [ReadableInThread, threadKeys, List.mem_map, mem_threadRows, eventReadable]
  constructor
  · rintro ⟨row, event, hrow, hclause, hevent, hlive, hread⟩
    refine ⟨⟨(key, row, event), ⟨hrow, hclause, hevent, hlive⟩, rfl⟩, ?_⟩
    simpa [hevent] using hread
  · rintro ⟨⟨⟨_, row, event⟩, ⟨hrow, hclause, hevent, hlive⟩, rfl⟩, hread⟩
    simp only [hevent, Option.any_some] at hread
    exact ⟨row, event, hrow, hclause, hevent, hlive, hread⟩

theorem nodup_threadKeys (s : Snapshot) : (threadKeys root depthLimit s).Nodup := by
  refine List.Nodup.sublist ?_ s.threads.nodupKeys
  have hclause := (List.filter_sublist (p := fun e ↦ threadClause root depthLimit e.2)
    (l := s.threads.entries)).map Sigma.fst
  refine List.Sublist.trans (sublist_map_filterMap _ fun e row h ↦ ?_) hclause
  obtain ⟨event, -, rfl⟩ := Option.map_eq_some_iff.mp h
  rfl

def compositeCursor (key : EventKey) : ThreadCursor := ⟨key.1, some key.2⟩

/-- The live replies behind a composite cursor, in order. -/
def threadScan (root : EventId) (depthLimit : Option UInt32) (s : ThreadStore)
    (cursor : Option EventKey) : List (EventKey × ThreadRow × EventRow) :=
  ((threadRows s root depthLimit).filter fun row ↦ cursor.all fun c ↦ olderKey c row.1).insertionSort
    fun a b ↦ ¬olderKey b.1 a.1

theorem map_threadScan (cursor : Option EventKey) :
    (threadScan root depthLimit s.toThreadStore cursor).map Prod.fst =
      behind olderKey (threadKeys root depthLimit s) cursor := by
  rw [threadKeys, ← map_rows, threadScan]

theorem afterCursor_composite {cursor : Option EventKey}
    (hdated : ∀ key ∈ cursor, fromTimestamp key.1 = some key.1) (key : EventKey) :
    afterCursor ((cursor.map compositeCursor).bind fun c ↦
      (fromTimestamp c.secs).map fun t ↦ (t, c.eventId)) key =
      cursor.all fun c ↦ olderKey c key := by
  cases cursor with
  | none => rfl
  | some c => simp [compositeCursor, hdated c rfl, afterCursor]

theorem asI32_eq_toNat {limit : UInt32} (h : limit.toNat < 2 ^ 31) : asI32 limit = limit.toNat := by
  apply BitVec.toInt_eq_toNat_of_lt
  have hn : limit.toBitVec.toNat = limit.toNat := rfl
  omega

theorem asI32_neg {limit : UInt32} (h : 2 ^ 31 ≤ limit.toNat) : asI32 limit < 0 := by
  have hn : limit.toBitVec.toNat = limit.toNat := rfl
  have hlt := limit.toNat_lt
  rw [asI32, BitVec.toInt_eq_toNat_cond, if_neg (by omega), hn]
  norm_num
  omega

theorem getThreadReplies_eq {limit : UInt32} (hlimit : limit.toNat < 2 ^ 31)
    {cursor : Option EventKey} (hdated : ∀ key ∈ cursor, fromTimestamp key.1 = some key.1) :
    getThreadReplies reconstruct s.toThreadStore root depthLimit limit
        (cursor.map compositeCursor) =
      .ok (((threadScan root depthLimit s.toThreadStore cursor).take limit.toNat).filterMap
        (threadReply reconstruct)) := by
  simp only [getThreadReplies, afterCursor_composite hdated, asI32_eq_toNat hlimit]
  rw [if_neg (by omega)]
  rfl

theorem page_replies {limit : UInt32} {cursor : Option EventKey} {replies : List ThreadReply}
    (h : replies = ((threadScan root depthLimit s.toThreadStore cursor).take limit.toNat).filterMap
      (threadReply reconstruct)) :
    replies.map ThreadReply.key =
      (page olderKey limit.toNat (threadKeys root depthLimit s) cursor).filter
        (eventReadable reconstruct s.toThreadStore) := by
  rw [h, page, ← map_threadScan, ← List.map_take]
  refine map_filterMap fun row hrow ↦ ?_
  have hmem := (List.mem_insertionSort _).mp (List.mem_of_mem_take hrow)
  have hevent := (mem_threadRows.mp (List.mem_of_mem_filter hmem)).2.2.1
  rw [eventReadable, hevent, threadReply]
  cases hread : reconstruct row.1 row.2.2 <;> simp [hread, ThreadReply.key]

theorem dated_of_mem_threadKeys (h : key ∈ threadKeys root depthLimit s) :
    fromTimestamp key.1 = some key.1 := by
  obtain ⟨row, hrow, rfl⟩ := List.mem_map.mp h
  refine s.dated row.1 ?_
  rw [← AList.lookup_isSome, (mem_threadRows.mp hrow).1]
  rfl

/-- A full page was read in full, so its last reply is the last of its rows. -/
theorem nextThreadCursor_eq_some {limit : UInt32} {cursor : Option EventKey}
    {replies : List ThreadReply} {next : ThreadCursor}
    (hreplies : replies = ((threadScan root depthLimit s.toThreadStore cursor).take
      limit.toNat).filterMap (threadReply reconstruct))
    (h : nextThreadCursor limit replies = some next) :
    ∃ c ∈ (page olderKey limit.toNat (threadKeys root depthLimit s) cursor).getLast?,
      next = compositeCursor c := by
  rw [nextThreadCursor] at h
  split_ifs at h with hfull
  obtain ⟨reply, hreply, rfl⟩ := Option.map_eq_some_iff.mp h
  have hkeys := page_replies hreplies
  have hall : replies.map ThreadReply.key =
      page olderKey limit.toNat (threadKeys root depthLimit s) cursor := by
    rw [hkeys]
    refine List.filter_sublist.eq_of_length_le ?_
    rw [← hkeys, List.length_map]
    exact (List.length_take_le _ _).trans hfull
  refine ⟨reply.key, ?_, rfl⟩
  rw [← hall, List.getLast?_map, hreply]
  rfl

theorem walk_of_threadWalk {limit : UInt32} (hlimit : limit.toNat < 2 ^ 31)
    {c final : Option ThreadCursor} {snapshots : List Snapshot}
    {out : Except DbError (List ThreadReply)} {cursor : Option EventKey}
    (h : ThreadWalk reconstruct root depthLimit limit c snapshots final out)
    (hc : c = cursor.map compositeCursor)
    (hdated : ∀ key ∈ cursor, fromTimestamp key.1 = some key.1) :
    ∃ replies finalKey, out = .ok replies ∧ final = finalKey.map compositeCursor ∧
      (∀ key ∈ finalKey, fromTimestamp key.1 = some key.1) ∧
      Walk olderKey (threadKeys root depthLimit)
        (fun s ↦ eventReadable reconstruct s.toThreadStore) limit.toNat cursor snapshots finalKey
        (replies.map ThreadReply.key) := by
  induction h generalizing cursor with
  | failed herror =>
    subst hc
    rw [getThreadReplies_eq hlimit hdated] at herror
    nomatch herror
  | @last s c replies hreplies hnext =>
    subst hc
    rw [getThreadReplies_eq hlimit hdated] at hreplies
    refine ⟨replies, cursor, rfl, rfl, hdated, ?_⟩
    rw [page_replies (Except.ok.inj hreplies).symm]
    exact .last s cursor
  | @more s c final next replies rest out hreplies hnext hwalk ih =>
    subst hc
    rw [getThreadReplies_eq hlimit hdated] at hreplies
    have hpage := (Except.ok.inj hreplies).symm
    obtain ⟨key, hkey, rfl⟩ := nextThreadCursor_eq_some hpage hnext
    have hmem := mem_behind.mp (mem_behind_of_mem_page (List.mem_of_getLast? hkey))
    have hnextDated : ∀ k ∈ some key, fromTimestamp k.1 = some k.1 := by
      rintro k ⟨⟩
      exact dated_of_mem_threadKeys hmem.1
    obtain ⟨more, finalKey, rfl, hfinal, hfinalDated, hrest⟩ := ih rfl hnextDated
    refine ⟨replies ++ more, finalKey, rfl, hfinal, hfinalDated, ?_⟩
    rw [List.map_append, page_replies hpage]
    exact .more hkey hrest

/-- At the last request at least `limit` live replies lay between the cursor and a readable reply
that was there throughout. -/
def CutOff (reconstruct : Reconstruct) (root : EventId) (depthLimit : Option UInt32)
    (limit : UInt32) (snapshots : List Snapshot) (final : Option ThreadCursor) : Prop :=
  ∃ s ∈ snapshots.getLast?, ∃ key,
    (∀ s ∈ snapshots, ReadableInThread root depthLimit reconstruct s.toThreadStore key) ∧
    let cursorKey := final.bind fun c ↦ (fromTimestamp c.secs).map fun t ↦ (t, c.eventId)
    afterCursor cursorKey key = true ∧ limit.toNat ≤
      ((threadKeys root depthLimit s).filter fun k ↦ afterCursor cursorKey k ∧ olderKey k key).length

theorem cutOff_iff {limit : UInt32} {snapshots : List Snapshot} {finalKey : Option EventKey}
    (hdated : ∀ key ∈ finalKey, fromTimestamp key.1 = some key.1) :
    CutOff reconstruct root depthLimit limit snapshots (finalKey.map compositeCursor) ↔
      ∃ s ∈ snapshots.getLast?, ∃ key,
        (∀ s ∈ snapshots, ReadableInThread root depthLimit reconstruct s.toThreadStore key) ∧
        key ∈ behind olderKey (threadKeys root depthLimit s) finalKey ∧
        key ∉ page olderKey limit.toNat (threadKeys root depthLimit s) finalKey := by
  simp only [CutOff, afterCursor_composite hdated]
  refine exists_congr fun s ↦ and_congr_right fun hs ↦ exists_congr fun key ↦
    and_congr_right fun hkey ↦ ?_
  have hmem := (readableInThread_iff.mp (hkey s (List.mem_of_getLast? hs))).1
  have hbehind : key ∈ behind olderKey (threadKeys root depthLimit s) finalKey ↔
      (finalKey.all fun c ↦ olderKey c key) = true := by
    rw [mem_behind, and_iff_right hmem]
    cases finalKey <;> simp
  rw [← hbehind]
  refine and_congr_right fun hkey ↦ ?_
  rw [not_mem_page_iff (nodup_threadKeys s) hkey, List.filter_filter]
  simp only [Bool.decide_and, Bool.decide_eq_true, Bool.and_comm]

theorem out_of_limit {limit : UInt32} (hlimit : 2 ^ 31 ≤ limit.toNat) {c final : Option ThreadCursor}
    {snapshots : List Snapshot} {out : Except DbError (List ThreadReply)}
    (h : ThreadWalk reconstruct root depthLimit limit c snapshots final out) :
    ∃ e, out = .error e := by
  have herror (s : Snapshot) (c : Option ThreadCursor) :
      getThreadReplies reconstruct s.toThreadStore root depthLimit limit c =
        .error (.database "LIMIT must not be negative") := by
    rw [getThreadReplies, if_pos (asI32_neg hlimit)]
  cases h with
  | failed h => exact ⟨_, rfl⟩
  | @last s _ _ h =>
    rw [herror] at h
    nomatch h
  | @more s _ _ _ _ _ _ h =>
    rw [herror] at h
    nomatch h

theorem threadWalk_lossless_iff {limit : UInt32} {snapshots : List Snapshot}
    {final : Option ThreadCursor} {out : Except DbError (List ThreadReply)}
    (h : ThreadWalk reconstruct root depthLimit limit none snapshots final out) :
    (∃ replies, out = .ok replies ∧ Lossless olderKey (replies.map ThreadReply.key)
      (fun key ↦ ∃ s ∈ snapshots, ReadableInThread root depthLimit reconstruct s.toThreadStore key)
      (fun key ↦ ∀ s ∈ snapshots,
        ReadableInThread root depthLimit reconstruct s.toThreadStore key)) ↔
      limit.toNat < 2 ^ 31 ∧ ¬CutOff reconstruct root depthLimit limit snapshots final := by
  by_cases hlimit : limit.toNat < 2 ^ 31
  · have hnone : (none : Option ThreadCursor) = (none : Option EventKey).map compositeCursor := rfl
    obtain ⟨replies, finalKey, rfl, rfl, hdated, hwalk⟩ :=
      walk_of_threadWalk hlimit h hnone (by simp)
    rw [cutOff_iff hdated]
    constructor
    · rintro ⟨_, heq, hlossless⟩
      obtain rfl := Except.ok.inj heq
      refine ⟨hlimit, fun ⟨s, hs, key, hkey, hbehind, hpage⟩ ↦ ?_⟩
      have hbefore := hwalk.before_left_out nodup_threadKeys hs hbehind hpage
      have hcount := hlossless.once key hkey
      have hmem : key ∈ replies.map ThreadReply.key := List.count_pos_iff.mp (by omega)
      exact olderKey_irrefl key (hbefore key hmem)
    · rintro ⟨-, hno⟩
      refine ⟨replies, rfl, lossless_of_walk nodup_threadKeys hwalk ?_ ?_ ?_⟩
      · exact fun s hs key hmem hshown ↦ ⟨s, hs, readableInThread_iff.mpr ⟨hmem, hshown⟩⟩
      · exact fun key hkey s hs ↦ readableInThread_iff.mp (hkey s hs)
      · intro s hs key hkey hbehind
        by_contra hpage
        exact hno ⟨s, hs, key, hkey, hbehind, hpage⟩
  · obtain ⟨e, rfl⟩ := out_of_limit (not_lt.mp hlimit) h
    constructor
    · rintro ⟨_, heq, -⟩
      nomatch heq
    · exact fun hboth ↦ absurd hboth.1 hlimit

end Thread

/-- Windows lose and repeat nothing and know whether there are more; a walk through the replies of a
thread is lossless iff its last page did not cut off a readable reply. -/
theorem paging_lossless_iff (reconstruct : Reconstruct) (channelId : Uuid)
    (kindFilter : Option (List ℕ)) (root : EventId) (depthLimit : Option UInt32) (limit : UInt32)
    (hlimit : 0 < limit.toNat) :
    (∀ snapshots rows, WindowWalk reconstruct channelId limit kindFilter none snapshots rows →
      Lossless newerKey (rows.map (·.key))
        (fun key ↦ ∃ s ∈ snapshots, ReadableInWindow channelId kindFilter reconstruct s key)
        (fun key ↦ ∀ s ∈ snapshots, ReadableInWindow channelId kindFilter reconstruct s key)) ∧
    (∀ s cursor,
      (getChannelWindow reconstruct s channelId limit cursor kindFilter).hasMore = true ↔
        ∃ key ∈ behind newerKey (windowKeys channelId kindFilter s) cursor,
          key ∉ page newerKey limit.toNat (windowKeys channelId kindFilter s) cursor) ∧
    ∀ snapshots final out, ThreadWalk reconstruct root depthLimit limit none snapshots final out →
      ((∃ replies, out = .ok replies ∧ Lossless olderKey (replies.map ThreadReply.key)
        (fun key ↦ ∃ s ∈ snapshots,
          ReadableInThread root depthLimit reconstruct s.toThreadStore key)
        (fun key ↦ ∀ s ∈ snapshots,
          ReadableInThread root depthLimit reconstruct s.toThreadStore key)) ↔
        limit.toNat < 2 ^ 31 ∧ ¬CutOff reconstruct root depthLimit limit snapshots final) := by
  refine ⟨fun _ _ ↦ windowWalk_lossless hlimit, fun s cursor ↦ ?_,
    fun _ _ _ ↦ threadWalk_lossless_iff⟩
  rw [window_hasMore, exists_left_out_iff (nodup_windowKeys s)]

def reconstructDated : Reconstruct := fun key row ↦ rowToStoredEvent key.1 ⟨row, []⟩

def threadOf (keys deleted : List EventKey) (h : ∀ key ∈ keys, fromTimestamp key.1 = some key.1) :
    Snapshot where
  events := keys.foldr (fun key ↦ AList.insert key
    ⟨⟨key.2, 0, .ofNat key.1.toNat, 9, [], "", 0⟩, some 1, none, decide (key ∈ deleted)⟩) ∅
  threads := keys.foldr (fun key ↦ AList.insert key
    ⟨1, some 1, some 0, some 1, some 0, 1, false, 0, 0⟩) ∅
  dated := by
    intro key hkey
    induction keys with
    | nil => nomatch hkey
    | cons key' keys ih =>
      rw [List.foldr_cons, AList.mem_insert] at hkey
      obtain rfl | hkey := hkey
      · exact h key List.mem_cons_self
      · exact ih (fun key hkey ↦ h key (List.mem_cons_of_mem _ hkey)) hkey

/-- A thread before the second page of a walk: then two replies are deleted, and one comes in. -/
def busyThread : Snapshot := threadOf [(3, 2), (5, 3), (7, 4), (7, 5)] [] (by decide)

def busyThreadLater : Snapshot :=
  threadOf [(3, 2), (5, 3), (7, 4), (7, 5), (4, 6)] [(3, 2), (7, 5)] (by decide)

theorem paging_lossless_busyThread :
    ∃ replies final, ThreadWalk reconstructDated 1 none 2 none [busyThread, busyThreadLater] final
        (.ok replies) ∧ replies.map ThreadReply.key = [(3, 2), (5, 3), (7, 4)] ∧
      Lossless olderKey (replies.map ThreadReply.key)
        (fun key ↦ ∃ s ∈ [busyThread, busyThreadLater],
          ReadableInThread 1 none reconstructDated s.toThreadStore key)
        (fun key ↦ ∀ s ∈ [busyThread, busyThreadLater],
          ReadableInThread 1 none reconstructDated s.toThreadStore key) := by
  have hwalk : ∃ replies final, ThreadWalk reconstructDated 1 none 2 none
      [busyThread, busyThreadLater] (some final) (.ok replies) ∧
        replies.map ThreadReply.key = [(3, 2), (5, 3), (7, 4)] ∧ final = ⟨5, some 3⟩ :=
    ⟨_, _, .more rfl rfl (.last rfl rfl), rfl, rfl⟩
  obtain ⟨replies, final, hwalk, hkeys, rfl⟩ := hwalk
  have hcut :
      ¬CutOff reconstructDated 1 none 2 [busyThread, busyThreadLater] (some ⟨5, some 3⟩) := by
    rintro ⟨s, hs, key, -, -, hlong⟩
    cases hs
    have hbehind : ((threadKeys 1 none busyThreadLater).filter
        fun k ↦ afterCursor (some (5, some 3)) k).length = 1 := by
      decide +kernel
    have hfewer := List.countP_mono_left (l := threadKeys 1 none busyThreadLater)
      (p := fun k ↦ decide (afterCursor (some (5, some 3)) k = true ∧ olderKey k key))
      (q := afterCursor (some (5, some 3))) fun k _ hk ↦ (of_decide_eq_true hk).1
    rw [List.countP_eq_length_filter, List.countP_eq_length_filter, hbehind] at hfewer
    exact absurd (le_trans hlong hfewer) (by decide)
  obtain ⟨replies', heq, hlossless⟩ :=
    ((paging_lossless_iff reconstructDated 1 none 1 none 2 (by decide)).2.2 _ _ _ hwalk).mpr
      ⟨by decide, hcut⟩
  cases heq
  exact ⟨replies, _, hwalk, hkeys, hlossless⟩

def oldThread : Snapshot where
  events := AList.insert (-5, 2) ⟨⟨2, 0, 0, 9, [], "", 0⟩, some 1, none, false⟩
    (AList.insert (7, 3) ⟨⟨3, 0, 7, 9, [], "", 0⟩, some 1, none, false⟩ ∅)
  threads := AList.insert (-5, 2) ⟨1, some 1, some 0, some 1, some 0, 1, false, 0, 0⟩
    (AList.insert (7, 3) ⟨1, some 1, some 0, some 1, some 0, 1, false, 0, 0⟩ ∅)
  dated := by
    intro key hkey
    simp only [AList.mem_insert] at hkey
    rcases hkey with rfl | rfl | hkey
    · rfl
    · rfl
    · nomatch hkey

/-- A page whose only row cannot be read ends the walk before the reply behind it. -/
theorem threadWalk_stalls :
    ∃ out, ThreadWalk reconstructDated 1 none 1 none [oldThread] none out ∧
      ¬∃ replies, out = .ok replies ∧ Lossless olderKey (replies.map ThreadReply.key)
        (fun key ↦ ∃ s ∈ [oldThread], ReadableInThread 1 none reconstructDated s.toThreadStore key)
        (fun key ↦ ∀ s ∈ [oldThread],
          ReadableInThread 1 none reconstructDated s.toThreadStore key) := by
  refine ⟨.ok [], .last rfl rfl, ?_⟩
  rintro ⟨_, heq, hlossless⟩
  obtain rfl := Except.ok.inj heq
  have hreadable : ∀ s ∈ [oldThread],
      ReadableInThread 1 none reconstructDated s.toThreadStore (7, 3) := by
    intro s hs
    rw [List.mem_singleton.mp hs]
    exact ⟨_, _, rfl, rfl, rfl, rfl, rfl⟩
  have hcount := hlossless.once (7, 3) hreadable
  simp at hcount

end Buzz.Db
