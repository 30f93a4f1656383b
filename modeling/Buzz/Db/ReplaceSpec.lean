import Buzz.Db.Replace
import Buzz.Lib.LastWriterWins

namespace Buzz.Db

open Buzz.Lib Buzz.Nostr Buzz.Core

section Order

variable {a b c : EventKey}

theorem newerKey_irrefl (a : EventKey) : ¬newerKey a a := by
  rintro (h | ⟨-, h⟩)
  · exact lt_irrefl _ h
  · exact lt_irrefl _ h

theorem newerKey_trans (hab : newerKey a b) (hbc : newerKey b c) : newerKey a c := by
  rcases hab with hab | ⟨hab, hab'⟩
  · rcases hbc with hbc | ⟨hbc, -⟩
    · exact .inl (hbc.trans hab)
    · exact .inl (hbc ▸ hab)
  · rcases hbc with hbc | ⟨hbc, hbc'⟩
    · exact .inl (hab ▸ hbc)
    · exact .inr ⟨hbc.trans hab, hab'.trans hbc'⟩

instance : IsTrans EventKey newerKey := ⟨fun _ _ _ ↦ newerKey_trans⟩

instance : Std.Irrefl newerKey := ⟨newerKey_irrefl⟩

theorem not_covers_of_newerKey (h : newerKey a b) : ¬Covers newerKey b a := by
  rintro (rfl | h')
  · exact newerKey_irrefl b h
  · exact newerKey_irrefl a (newerKey_trans h h')

theorem dominated_iff : dominated a b = true ↔ Covers newerKey b a := by
  simp only [dominated, Covers, newerKey, Bool.or_eq_true, Bool.and_eq_true, decide_eq_true_eq,
    beq_iff_eq, Prod.ext_iff]
  constructor
  · rintro (h | ⟨h, h'⟩)
    · exact .inr (.inl h)
    · rcases lt_or_eq_of_le h' with h' | h'
      · exact .inr (.inr ⟨h, h'⟩)
      · exact .inl ⟨h.symm, h'⟩
  · rintro (⟨h, h'⟩ | h | ⟨h, h'⟩)
    · exact .inr ⟨h.symm, h'.le⟩
    · exact .inl h
    · exact .inr ⟨h, h'.le⟩

theorem newerKey_of_not_dominated (h : ¬dominated a b = true) : newerKey a b := by
  rw [dominated_iff] at h
  rcases lt_trichotomy a.1 b.1 with hlt | heq | hgt
  · exact (h (.inr (.inl hlt))).elim
  · rcases lt_trichotomy a.2 b.2 with hlt' | heq' | hgt'
    · exact .inr ⟨heq.symm, hlt'⟩
    · exact (h (.inl (Prod.ext heq.symm heq'.symm))).elim
    · exact (h (.inr (.inr ⟨heq, hgt'⟩))).elim
  · exact .inl hgt

theorem any_dominated_eq_true {h : Option EventKey} (hany : h.any (dominated a) = true) :
    ∃ b, h = some b ∧ Covers newerKey b a := by
  obtain ⟨b, hb, hdom⟩ := (Option.any_eq_true _ _).mp hany
  exact ⟨b, hb, dominated_iff.mp hdom⟩

theorem newerKey_of_any_dominated {h : Option EventKey} (hany : ¬h.any (dominated a) = true)
    (hb : h = some b) : newerKey a b := by
  apply newerKey_of_not_dominated
  intro hdom
  exact hany ((Option.any_eq_true _ _).mpr ⟨b, hb, hdom⟩)

end Order

namespace EventsTable

variable {events events' : EventsTable} {p : EventRow → Bool} {key : EventKey} {row : EventRow}

structure LiveRow (events : EventsTable) (p : EventRow → Bool) (key : EventKey) (row : EventRow) :
    Prop where
  stored : events.lookup key = some row
  owned : p row = true
  live : row.deleted = false

theorem mem_liveEntries : (⟨key, row⟩ : (_ : EventKey) × EventRow) ∈
    events.entries.filter (fun e ↦ p e.2 && !e.2.deleted) ↔ events.LiveRow p key row := by
  rw [List.mem_filter, Map.mem_entries_iff]
  simp only [Bool.and_eq_true, Bool.not_eq_true']
  exact ⟨fun h ↦ ⟨h.1, h.2.1, h.2.2⟩, fun h ↦ ⟨h.stored, h.owned, h.live⟩⟩

theorem exists_of_liveHead_eq_some (h : events.liveHead p = some key) :
    ∃ row, events.LiveRow p key row := by
  have hmem := (List.mem_insertionSort _).mp (List.mem_of_head? h)
  obtain ⟨e, he, rfl⟩ := List.mem_map.mp hmem
  exact ⟨e.2, mem_liveEntries.mp he⟩

theorem LiveRow.exists_liveHead (h : events.LiveRow p key row) :
    ∃ key', events.liveHead p = some key' := by
  apply Option.isSome_iff_exists.mp
  rw [liveHead, List.isSome_head?]
  apply List.ne_nil_of_mem ((List.mem_insertionSort _).mpr _)
  · exact key
  · exact List.mem_map.mpr ⟨⟨key, row⟩, mem_liveEntries.mpr h, rfl⟩

theorem lookup_softDeleteWhere : (events.softDeleteWhere p).lookup key =
    (events.lookup key).bind fun row ↦
      if p row && !row.deleted then
        if row.isNipRs || row.isMeshStatus then none else some { row with deleted := true }
      else some row := by
  rw [softDeleteWhere, lookup_softDelete, Map.lookup_keepEntries]
  cases events.lookup key with
  | none => rfl
  | some row =>
    simp only [Option.bind_some, Option.filter_some, apply_ite (Option.map _), Option.map_some,
      Option.map_none]
    generalize (p row && !row.deleted) = touched
    generalize (row.isNipRs || row.isMeshStatus) = purged
    cases touched <;> cases purged <;> rfl

/-- No row of the coordinate is live any more and nothing else changed. -/
structure Retired (p : EventRow → Bool) (events events' : EventsTable) : Prop where
  kept : ∀ key row, events.lookup key = some row → ¬(p row = true ∧ row.deleted = false) →
    events'.lookup key = some row
  source : ∀ key row', events'.lookup key = some row' → key ∈ events ∧
    (row'.deleted = false → events.lookup key = some row' ∧ p row' = false)

theorem Retired.softDeleteWhere : Retired p events (events.softDeleteWhere p) where
  kept key row hrow hp := by
    rw [lookup_softDeleteWhere, hrow, Option.bind_some, if_neg]
    simpa only [Bool.and_eq_true, Bool.not_eq_true'] using hp
  source key row' hrow' := by
    rw [lookup_softDeleteWhere] at hrow'
    obtain ⟨row, hrow, hrow'⟩ := Option.bind_eq_some_iff.mp hrow'
    refine ⟨AList.lookup_isSome.mp (by rw [hrow, Option.isSome_some]), ?_⟩
    intro hlive
    split at hrow'
    · split at hrow' <;> cases hrow'
      cases hlive
    · next hp =>
      cases hrow'
      simpa only [hrow, hlive, Bool.not_false, Bool.and_true, Bool.not_eq_true, true_and] using hp

theorem Retired.hardDeleteWhere {optIn : Bool} (h : events.hardDeleteWhere optIn p = .ok events') :
    Retired p events events' := by
  unfold EventsTable.hardDeleteWhere at h
  split at h
  · cases h
  cases h
  refine ⟨?_, ?_⟩
  · intro key row hrow hp
    rw [Map.lookup_keepEntries, hrow, Option.filter_some, if_pos]
    simpa only [Bool.not_eq_true', Bool.and_eq_false_iff, Bool.not_eq_false', not_and_or,
      Bool.not_eq_true, Bool.not_eq_false] using hp
  · intro key row' hrow'
    rw [Map.lookup_keepEntries] at hrow'
    obtain ⟨hrow, hp⟩ := Option.filter_eq_some_iff.mp hrow'
    refine ⟨AList.lookup_isSome.mp (by rw [hrow, Option.isSome_some]), ?_⟩
    intro hlive
    refine ⟨hrow, ?_⟩
    simpa only [hlive, Bool.not_false, Bool.and_true, Bool.not_eq_true'] using hp

theorem Retired.of_liveHead_eq_none (h : events.liveHead p = none) : Retired p events events where
  kept key row hrow _ := hrow
  source key row' hrow' := by
    refine ⟨AList.lookup_isSome.mp (by rw [hrow', Option.isSome_some]), ?_⟩
    intro hlive
    refine ⟨hrow', ?_⟩
    by_contra hp
    obtain ⟨key', hkey'⟩ := LiveRow.exists_liveHead ⟨hrow', Bool.of_not_eq_false hp, hlive⟩
    rw [h] at hkey'
    cases hkey'

/-- The guard on hard deletion never stops a replacement. -/
theorem hardDeleteWhere_ne_error {event : Event} {dTag : String} {e : DbError}
    (hshape : (isNipRs event dTag || isBuzzMeshStatus event dTag) = true) :
    events.hardDeleteWhere (isNipRs event dTag)
      (EventRow.isParameterized event.kind event.pubkey dTag) ≠ .error e := by
  unfold hardDeleteWhere
  split
  · next hguard =>
    exfalso
    obtain ⟨hopt, hany⟩ := Bool.and_eq_true_iff.mp hguard
    obtain ⟨entry, -, hentry⟩ := List.any_eq_true.mp hany
    rw [Bool.not_eq_true'] at hopt
    rw [hopt, Bool.false_or] at hshape
    simp only [EventRow.isParameterized, isBuzzMeshStatus, isMeshStatusCoordinate, eventKindU32,
      Bool.and_eq_true, beq_iff_eq] at hentry hshape
    have hkind := hshape.1.1
    rw [← hentry.1.1.1.1, hentry.2.1] at hkind
    cases hkind
  · exact fun h ↦ by cases h

end EventsTable

namespace ReplaceDb

variable {db tx : ReplaceDb} {p : EventRow → Bool} {key : EventKey} {row : EventRow}

def advanced (watermarks : Watermarks) (key : EventKey) (row : EventRow) : Watermarks :=
  match row.watermarkSlot with
  | none => watermarks
  | some slot => AList.insert slot key watermarks

def Ahead (db : ReplaceDb) (key : EventKey) (row : EventRow) : Prop :=
  ∀ slot w, row.watermarkSlot = some slot → db.watermarks.lookup slot = some w → newerKey key w

structure Accepts (db : ReplaceDb) (p : EventRow → Bool) (key : EventKey) (row : EventRow)
    (tx : ReplaceDb) : Prop where
  newer : ∀ head, db.events.liveHead p = some head → newerKey key head
  ahead : db.Ahead key row
  replaced : ∃ events, EventsTable.Retired p db.events events ∧ key ∉ events ∧
    tx.events = AList.insert key row events
  watermarks : tx.watermarks = advanced db.watermarks key row

inductive Refuses (db : ReplaceDb) (p : EventRow → Bool) (key : EventKey) (row : EventRow) : Prop
  | head {head : EventKey} (hhead : db.events.liveHead p = some head)
      (hcovers : Covers newerKey head key)
  | watermark {slot : Kind × PublicKey × String} {w : EventKey}
      (hslot : row.watermarkSlot = some slot) (hw : db.watermarks.lookup slot = some w)
      (hcovers : Covers newerKey w key)
  | stored (h : key ∈ db.events)

theorem Accepts.liveRow_iff {key' : EventKey} {row' : EventRow} (h : db.Accepts p key row tx)
    (hp : p row = true)
    (hlive : row.deleted = false) :
    tx.events.LiveRow p key' row' ↔ key' = key ∧ row' = row := by
  obtain ⟨events, hretired, -, hevents⟩ := h.replaced
  constructor
  · intro hrow
    have hstored := hrow.stored
    rw [hevents, Map.lookup_insert_eq] at hstored
    split at hstored
    · next heq => exact ⟨heq, (Option.some.inj hstored).symm⟩
    · have hnot := ((hretired.source key' row' hstored).2 hrow.live).2
      rw [hrow.owned] at hnot
      cases hnot
  · rintro ⟨rfl, rfl⟩
    exact ⟨by rw [hevents, AList.lookup_insert], hp, hlive⟩

theorem Accepts.liveHead (h : db.Accepts p key row tx) (hp : p row = true)
    (hlive : row.deleted = false) : tx.events.liveHead p = some key := by
  obtain ⟨key', hhead⟩ := ((h.liveRow_iff hp hlive).mpr ⟨rfl, rfl⟩).exists_liveHead
  obtain ⟨row', hrow'⟩ := EventsTable.exists_of_liveHead_eq_some hhead
  rw [hhead, ((h.liveRow_iff hp hlive).mp hrow').1]

theorem guardNipRsWatermark_cases (watermarks : Watermarks) (key : EventKey) (row : EventRow) :
    (guardNipRsWatermark watermarks key row = .ok (some (advanced watermarks key row)) ∧
      ∀ slot w, row.watermarkSlot = some slot → watermarks.lookup slot = some w →
        newerKey key w) ∨
    ((guardNipRsWatermark watermarks key row = .ok none ∨
        ∃ e, guardNipRsWatermark watermarks key row = .error e) ∧
      ∃ slot w, row.watermarkSlot = some slot ∧ watermarks.lookup slot = some w ∧
        Covers newerKey w key) := by
  unfold guardNipRsWatermark advanced
  cases hslot : row.watermarkSlot with
  | none => exact .inl ⟨rfl, fun slot w h ↦ by cases h⟩
  | some slot =>
    simp only
    cases hw : watermarks.lookup slot with
    | none =>
      refine .inl ⟨rfl, ?_⟩
      intro slot' w heq hlookup
      cases heq
      rw [hw] at hlookup
      cases hlookup
    | some w =>
      simp only
      by_cases hnewer : newerKey key w
      · rw [if_pos hnewer]
        refine .inl ⟨rfl, ?_⟩
        intro slot' w' heq hlookup
        cases heq
        rw [hw] at hlookup
        cases hlookup
        exact hnewer
      · rw [if_neg hnewer]
        right
        by_cases heq : w = key
        · rw [if_pos heq]
          exact ⟨.inl rfl, slot, w, rfl, hw, .inl heq⟩
        · rw [if_neg heq]
          refine ⟨.inr ⟨_, rfl⟩, slot, w, rfl, hw, ?_⟩
          apply dominated_iff.mp
          by_contra hdom
          exact hnewer (newerKey_of_not_dominated hdom)

/-- The row goes in, or the database has a reason against it. -/
theorem insertGuarded_cases (db : ReplaceDb) (key : EventKey) (row : EventRow) :
    (key ∉ db.events ∧ db.Ahead key row ∧ db.insertGuarded key row =
      .ok (⟨AList.insert key row db.events, advanced db.watermarks key row⟩, true)) ∨
    ((key ∈ db.events ∨ ∃ slot w, row.watermarkSlot = some slot ∧
        db.watermarks.lookup slot = some w ∧ Covers newerKey w key) ∧
      ((∃ db', db.insertGuarded key row = .ok (db', false)) ∨
        ∃ e, db.insertGuarded key row = .error e)) := by
  unfold insertGuarded
  rcases guardNipRsWatermark_cases db.watermarks key row with ⟨hok, hahead⟩ | ⟨hstop, hagainst⟩
  · rw [hok]
    simp only
    by_cases hmem : key ∈ db.events
    · rw [if_pos hmem]
      exact .inr ⟨.inl hmem, .inl ⟨_, rfl⟩⟩
    · rw [if_neg hmem]
      exact .inl ⟨hmem, hahead, rfl⟩
  · right
    refine ⟨.inr hagainst, ?_⟩
    rcases hstop with hnone | ⟨e, he⟩
    · rw [hnone]
      exact .inl ⟨db, rfl⟩
    · rw [he]
      exact .inr ⟨e, rfl⟩

theorem insertGuarded_retired (row : EventRow) {events : EventsTable}
    (hhead : ¬(db.events.liveHead p).any (dominated key) = true)
    (hretired : EventsTable.Retired p db.events events) :
    (∃ tx, db.Accepts p key row tx ∧
      ({ db with events } : ReplaceDb).insertGuarded key row = .ok (tx, true)) ∨
    (db.Refuses p key row ∧
      ((∃ db', ({ db with events } : ReplaceDb).insertGuarded key row = .ok (db', false)) ∨
        ∃ e, ({ db with events } : ReplaceDb).insertGuarded key row = .error e)) := by
  rcases insertGuarded_cases { db with events } key row with ⟨hmem, hahead, hok⟩ | ⟨hagainst, hstop⟩
  · left
    refine ⟨_, ⟨?_, hahead, ⟨events, hretired, hmem, rfl⟩, rfl⟩, hok⟩
    intro head hsome
    exact newerKey_of_any_dominated hhead hsome
  · right
    refine ⟨?_, hstop⟩
    rcases hagainst with hmem | ⟨slot, w, hslot, hw, hcovers⟩
    · obtain ⟨row', hrow'⟩ := Option.isSome_iff_exists.mp (AList.lookup_isSome.mpr hmem)
      exact .stored (hretired.source key row' hrow').1
    · exact .watermark hslot hw hcovers

end ReplaceDb

inductive CallSpec {ε : Type} (db : ReplaceDb) (p : EventRow → Bool) (key : EventKey)
    (row : EventRow) (call : Except DbError Unit → Except ε (ReplaceDb × Bool)) : Prop
  | accepts {tx : ReplaceDb} (h : db.Accepts p key row tx)
      (hcommit : call (.ok ()) = .ok (tx, true))
      (habort : ∀ e, ∃ e', call (.error e) = .error e')
  | refuses (h : db.Refuses p key row)
      (hcall : ∀ commit, call commit = .ok (db, false) ∨ ∃ e, call commit = .error e)

/-- A call that fails leaves the database as it was. -/
def settled {ε : Type} (db : ReplaceDb) : Except ε (ReplaceDb × Bool) → ReplaceDb × Bool
  | .ok result => result
  | .error _ => (db, false)

section Settled

variable {ε : Type} {db : ReplaceDb} {p : EventRow → Bool} {key : EventKey} {row : EventRow}
  {call : Except DbError Unit → Except ε (ReplaceDb × Bool)}

theorem CallSpec.settled_ok (h : CallSpec db p key row call) :
    (∃ tx, db.Accepts p key row tx ∧ settled db (call (.ok ())) = (tx, true)) ∨
    (db.Refuses p key row ∧ settled db (call (.ok ())) = (db, false)) := by
  cases h with
  | accepts h hcommit _ =>
    left
    exact ⟨_, h, by rw [hcommit, settled]⟩
  | refuses h hcall =>
    right
    refine ⟨h, ?_⟩
    rcases hcall (.ok ()) with hok | ⟨e, he⟩
    · rw [hok, settled]
    · rw [he, settled]

theorem CallSpec.settled_error (h : CallSpec db p key row call)
    (e : DbError) : settled db (call (.error e)) = (db, false) := by
  cases h with
  | accepts _ _ habort =>
    obtain ⟨e', he'⟩ := habort e
    rw [he', settled]
  | refuses _ hcall =>
    rcases hcall (.error e) with hok | ⟨e', he'⟩
    · rw [hok, settled]
    · rw [he', settled]

end Settled

section Calls

variable {event : Event} {t : DbTime}

def keyOf (event : Event) : EventKey := (asI64 event.createdAt, event.id)

theorem createdAtOf_eq_ok (h : fromTimestamp (asI64 event.createdAt) = some t) :
    createdAtOf event = .ok t := by
  rw [createdAtOf, h]

theorem createdAtOf_eq_error (h : fromTimestamp (asI64 event.createdAt) = none) :
    createdAtOf event = .error (.invalidTimestamp (asI64 event.createdAt)) := by
  rw [createdAtOf, h]

theorem replaceAddressableEvent_spec (db : ReplaceDb) (channelId : Option Uuid)
    (ht : fromTimestamp (asI64 event.createdAt) = some t) :
    CallSpec db (EventRow.isAddressable event.kind event.pubkey channelId) (t, event.id)
      ⟨event, channelId, extractDTag event, false⟩ (replaceAddressableEvent db event channelId) := by
  unfold replaceAddressableEvent
  rw [createdAtOf_eq_ok ht]
  simp only
  split
  · next hdom =>
    obtain ⟨head, hhead, hcovers⟩ := any_dominated_eq_true hdom
    exact .refuses (.head hhead hcovers) fun _ ↦ .inl rfl
  · next hdom =>
    rcases ReplaceDb.insertGuarded_retired ⟨event, channelId, extractDTag event, false⟩ hdom
      .softDeleteWhere with
      ⟨tx, haccepts, hok⟩ | ⟨hrefuses, ⟨db', hok⟩ | ⟨e, he⟩⟩
    · rw [hok]
      exact .accepts haccepts rfl fun e ↦ ⟨e, rfl⟩
    · rw [hok]
      exact .refuses hrefuses fun _ ↦ .inl rfl
    · rw [he]
      exact .refuses hrefuses fun _ ↦ .inr ⟨e, rfl⟩

theorem watermarkSlot_of_dTag {channelId : Option Uuid} {dTag : String} {deleted : Bool} :
    (⟨event, channelId, some dTag, deleted⟩ : EventRow).watermarkSlot =
      if isNipRs event dTag then some (event.kind, event.pubkey, dTag) else none := by
  rw [EventRow.watermarkSlot, Option.filter_some]
  split <;> rfl

theorem retireParameterized_spec (db : ReplaceDb) (event : Event) (dTag : String) :
    ∃ events, (if (db.events.liveHead
        (EventRow.isParameterized event.kind event.pubkey dTag)).isSome then
          retireParameterized db.events event dTag
            (EventRow.isParameterized event.kind event.pubkey dTag)
        else .ok db.events) = .ok events ∧
      EventsTable.Retired (EventRow.isParameterized event.kind event.pubkey dTag) db.events
        events := by
  split
  · unfold retireParameterized
    split
    · next hshape =>
      cases hdelete : db.events.hardDeleteWhere (isNipRs event dTag)
          (EventRow.isParameterized event.kind event.pubkey dTag) with
      | error e => exact (EventsTable.hardDeleteWhere_ne_error hshape hdelete).elim
      | ok events => exact ⟨events, rfl, .hardDeleteWhere hdelete⟩
    · exact ⟨_, rfl, .softDeleteWhere⟩
  · next hnone => exact ⟨_, rfl, .of_liveHead_eq_none (Option.not_isSome_iff_eq_none.mp hnone)⟩

theorem replaceParameterizedEvent_spec (db : ReplaceDb) (dTag : String)
    (channelId : Option Uuid)
    (ht : fromTimestamp (asI64 event.createdAt) = some t) :
    CallSpec db (EventRow.isParameterized event.kind event.pubkey dTag) (t, event.id)
      ⟨event, channelId, some dTag, false⟩
      (replaceParameterizedEvent db event dTag channelId) := by
  obtain ⟨events, hretire, hretired⟩ := retireParameterized_spec db event dTag
  unfold replaceParameterizedEvent
  rw [createdAtOf_eq_ok ht]
  simp only
  rw [hretire]
  generalize hwatermark : (if isNipRs event dTag then
    db.watermarks.lookup (event.kind, event.pubkey, dTag) else none) = watermark
  split
  · next hdom =>
    refine .refuses ?_ fun _ ↦ .inl rfl
    rcases Bool.or_eq_true_iff.mp hdom with hdom | hdom
    · obtain ⟨head, hhead, hcovers⟩ := any_dominated_eq_true hdom
      exact .head hhead hcovers
    · obtain ⟨w, hw, hcovers⟩ := any_dominated_eq_true hdom
      rw [hw] at hwatermark
      split at hwatermark
      · next hnip =>
        exact .watermark (watermarkSlot_of_dTag.trans (if_pos hnip)) hwatermark hcovers
      · cases hwatermark
  · next hdom =>
    have hhead := fun h ↦ hdom (Bool.or_eq_true_iff.mpr (.inl h))
    simp only
    rcases ReplaceDb.insertGuarded_retired
        ⟨event, channelId, some dTag, false⟩ hhead hretired with
      ⟨tx, haccepts, hok⟩ | ⟨hrefuses, ⟨db', hok⟩ | ⟨e, he⟩⟩
    · rw [hok]
      refine .accepts haccepts ?_ fun e ↦ ⟨e, rfl⟩
      simp only [Except.map]
      split
      · next hnip =>
        have hmarks := haccepts.watermarks
        simp only [ReplaceDb.advanced, watermarkSlot_of_dTag, if_pos hnip] at hmarks
        rw [hmarks, AList.insert_insert, ← hmarks]
      · rfl
    · rw [hok]
      exact .refuses hrefuses fun _ ↦ .inl rfl
    · rw [he]
      exact .refuses hrefuses fun _ ↦ .inr ⟨e, rfl⟩

theorem persistCommandEvent_spec (db : ReplaceDb) {dTag : String}
    (channelIdOverride : Option Uuid)
    (ht : fromTimestamp (asI64 event.createdAt) = some t) (hdTag : extractDTag event = some dTag)
    (hlen : dTag.utf8ByteSize ≤ dTagMaxLen) :
    CallSpec db (EventRow.isParameterized event.kind event.pubkey dTag) (t, event.id)
      ⟨event, channelIdOverride.or (extractChannelId event), some dTag, false⟩
      fun commit ↦ finishCommand db commit (persistCommandEvent db event channelIdOverride) := by
  unfold persistCommandEvent
  rw [createdAtOf_eq_ok ht, hdTag]
  simp only
  rw [if_neg (Nat.not_lt.mpr hlen)]
  split
  · next hdom =>
    obtain ⟨head, hhead, hcovers⟩ := any_dominated_eq_true hdom
    exact .refuses (.head hhead hcovers) fun _ ↦ .inl rfl
  · next hdom =>
    have hretired : EventsTable.Retired (EventRow.isParameterized event.kind event.pubkey dTag)
        db.events (if (db.events.liveHead
            (EventRow.isParameterized event.kind event.pubkey dTag)).isSome then
          db.events.softDeleteWhere (EventRow.isParameterized event.kind event.pubkey dTag)
        else db.events) := by
      split
      · exact .softDeleteWhere
      · next hnone => exact .of_liveHead_eq_none (Option.not_isSome_iff_eq_none.mp hnone)
    unfold persistInsert
    rcases ReplaceDb.insertGuarded_retired
        ⟨event, channelIdOverride.or (extractChannelId event), some dTag, false⟩
        hdom hretired with
      ⟨tx, haccepts, hok⟩ | ⟨hrefuses, ⟨db', hok⟩ | ⟨e, he⟩⟩
    · rw [hok]
      exact .accepts haccepts rfl fun e ↦ ⟨_, rfl⟩
    · rw [hok]
      exact .refuses hrefuses fun _ ↦ .inl rfl
    · rw [he]
      exact .refuses hrefuses fun _ ↦ .inr ⟨_, rfl⟩

end Calls

end Buzz.Db
