import Buzz.Db.ReplaceSpec
import Mathlib.Data.List.Induction
import Mathlib.Data.UInt

namespace Buzz.Db

open Buzz.Lib Buzz.Nostr Buzz.Core

/-- What one live row is kept of, and by which of the three functions. -/
inductive Coordinate
  | addressable (kind : Kind) (pubkey : PublicKey) (channelId : Option Uuid)
  | parameterized (kind : Kind) (pubkey : PublicKey) (dTag : String)
  | command (kind : Kind) (pubkey : PublicKey) (dTag : String)

/-- A call, with the channel it is given and the answer of the database to its `COMMIT`. -/
structure Delivery where
  event : Event
  channelId : Option Uuid
  commit : Except DbError Unit

/-- The last of two replaceable events: on a same-second tie the one with the lowest id. -/
def AtLeastAsNew (e e' : Event) : Prop :=
  e'.createdAt < e.createdAt ∨ e.createdAt = e'.createdAt ∧ e.id ≤ e'.id

namespace Coordinate

def Has : Coordinate → Event → Prop
  | .addressable kind pubkey _, event => event.kind = kind ∧ event.pubkey = pubkey
  | .parameterized kind pubkey _, event => event.kind = kind ∧ event.pubkey = pubkey
  | .command kind pubkey dTag, event =>
    event.kind = kind ∧ event.pubkey = pubkey ∧ extractDTag event = some dTag

def owns : Coordinate → EventRow → Bool
  | .addressable kind pubkey channelId => EventRow.isAddressable kind pubkey channelId
  | .parameterized kind pubkey dTag => EventRow.isParameterized kind pubkey dTag
  | .command kind pubkey dTag => EventRow.isParameterized kind pubkey dTag

def row : Coordinate → Delivery → EventRow
  | .addressable _ _ channelId, d => ⟨d.event, channelId, extractDTag d.event, false⟩
  | .parameterized _ _ dTag, d => ⟨d.event, d.channelId, some dTag, false⟩
  | .command _ _ dTag, d =>
    ⟨d.event, d.channelId.or (extractChannelId d.event), some dTag, false⟩

def deliver : Coordinate → ReplaceDb → Delivery → ReplaceDb × Bool
  | .addressable _ _ channelId, db, d =>
    settled db (replaceAddressableEvent db d.event channelId d.commit)
  | .parameterized _ _ dTag, db, d =>
    settled db (replaceParameterizedEvent db d.event dTag d.channelId d.commit)
  | .command _ _ _, db, d =>
    settled db (finishCommand db d.commit (persistCommandEvent db d.event d.channelId))

def run (c : Coordinate) (db : ReplaceDb) (ds : List Delivery) : ReplaceDb :=
  ds.foldl (fun db d ↦ (c.deliver db d).1) db

def liveEvents (c : Coordinate) (db : ReplaceDb) : List Event :=
  (db.events.entries.filter fun e ↦ c.owns e.2 && !e.2.deleted).map fun e ↦ e.2.event

def admitsLength : Coordinate → Bool
  | .command _ _ dTag => dTag.utf8ByteSize ≤ dTagMaxLen
  | _ => true

def effective (c : Coordinate) (d : Delivery) : Bool :=
  c.admitsLength && (fromTimestamp (asI64 d.event.createdAt)).isSome && d.commit.isOk

structure Fresh (c : Coordinate) (db : ReplaceDb) (ds : List Delivery) : Prop where
  live : c.liveEvents db = []
  stored : ∀ d ∈ ds, keyOf d.event ∉ db.events
  watermarks : ∀ d ∈ ds, ∀ slot, (c.row d).watermarkSlot = some slot →
    db.watermarks.lookup slot = none

end Coordinate

section Converge

variable {c : Coordinate} {db db₀ : ReplaceDb} {d : Delivery} {ds : List Delivery}

namespace Coordinate

/-- The three copies of the rule are one. -/
theorem deliver_spec (hhas : c.Has d.event) (hlen : c.admitsLength = true)
    (ht : (fromTimestamp (asI64 d.event.createdAt)).isSome = true) :
    (d.commit.isOk = true →
      (∃ tx, db.Accepts c.owns (keyOf d.event) (c.row d) tx ∧ c.deliver db d = (tx, true)) ∨
      (db.Refuses c.owns (keyOf d.event) (c.row d) ∧ c.deliver db d = (db, false))) ∧
    (d.commit.isOk = false → c.deliver db d = (db, false)) := by
  obtain ⟨t, ht⟩ := Option.isSome_iff_exists.mp ht
  obtain ⟨event, channelId, commit⟩ := d
  have hkey : keyOf event = (t, event.id) := by rw [keyOf, fromTimestamp_eq_some ht]
  simp only at hkey hhas ht ⊢
  rw [hkey]
  cases c with
  | addressable kind pubkey channel =>
    obtain ⟨rfl, rfl⟩ := hhas
    have hspec := replaceAddressableEvent_spec db channel ht
    cases commit with
    | ok _ => exact ⟨fun _ ↦ hspec.settled_ok, nofun⟩
    | error e => exact ⟨nofun, fun _ ↦ hspec.settled_error e⟩
  | parameterized kind pubkey dTag =>
    obtain ⟨rfl, rfl⟩ := hhas
    have hspec := replaceParameterizedEvent_spec db dTag channelId ht
    cases commit with
    | ok _ => exact ⟨fun _ ↦ hspec.settled_ok, nofun⟩
    | error e => exact ⟨nofun, fun _ ↦ hspec.settled_error e⟩
  | command kind pubkey dTag =>
    obtain ⟨rfl, rfl, hdTag⟩ := hhas
    have hspec := persistCommandEvent_spec db channelId ht hdTag (of_decide_eq_true hlen)
    cases commit with
    | ok _ => exact ⟨fun _ ↦ hspec.settled_ok, nofun⟩
    | error e => exact ⟨nofun, fun _ ↦ hspec.settled_error e⟩

theorem deliver_of_timestamp_eq_none (h : fromTimestamp (asI64 d.event.createdAt) = none) :
    c.deliver db d = (db, false) := by
  cases c with
  | addressable => rw [deliver, replaceAddressableEvent, createdAtOf_eq_error h, settled]
  | parameterized => rw [deliver, replaceParameterizedEvent, createdAtOf_eq_error h, settled]
  | command => simp only [deliver, persistCommandEvent, createdAtOf_eq_error h, finishCommand, settled]

theorem deliver_of_admitsLength_eq_false (hhas : c.Has d.event) (h : c.admitsLength = false) :
    c.deliver db d = (db, false) := by
  cases c with
  | addressable => cases h
  | parameterized => cases h
  | command kind pubkey dTag =>
    cases ht : fromTimestamp (asI64 d.event.createdAt) with
    | none => exact deliver_of_timestamp_eq_none ht
    | some t =>
      have hlen : dTagMaxLen < dTag.utf8ByteSize := not_le.mp (of_decide_eq_false h)
      simp only [deliver, persistCommandEvent, createdAtOf_eq_ok ht, hhas.2.2, if_pos hlen,
        finishCommand, settled]

/-- A call that fails its checks or does not commit changes nothing and reports nothing. -/
theorem deliver_of_not_effective (hhas : c.Has d.event) (h : c.effective d = false) :
    c.deliver db d = (db, false) := by
  cases hlen : c.admitsLength with
  | false => exact deliver_of_admitsLength_eq_false hhas hlen
  | true =>
    cases ht : fromTimestamp (asI64 d.event.createdAt) with
    | none => exact deliver_of_timestamp_eq_none ht
    | some t =>
      have hsome : (fromTimestamp (asI64 d.event.createdAt)).isSome = true := by
        rw [ht, Option.isSome_some]
      apply (deliver_spec hhas hlen hsome).2
      rwa [effective, hlen, hsome, Bool.true_and, Bool.true_and] at h

theorem deliver_of_effective (db : ReplaceDb) (hhas : c.Has d.event) (h : c.effective d = true) :
    (∃ tx, db.Accepts c.owns (keyOf d.event) (c.row d) tx ∧ c.deliver db d = (tx, true)) ∨
    (db.Refuses c.owns (keyOf d.event) (c.row d) ∧ c.deliver db d = (db, false)) := by
  obtain ⟨hchecks, hcommit⟩ := Bool.and_eq_true_iff.mp h
  obtain ⟨hlen, hsome⟩ := Bool.and_eq_true_iff.mp hchecks
  exact (deliver_spec hhas hlen hsome).1 hcommit

theorem owns_row (hhas : c.Has d.event) : c.owns (c.row d) = true := by
  cases c with
  | addressable => simp [owns, row, EventRow.isAddressable, hhas.1, hhas.2]
  | parameterized => simp [owns, row, EventRow.isParameterized, hhas.1, hhas.2]
  | command => simp [owns, row, EventRow.isParameterized, hhas.1, hhas.2.1]

theorem row_deleted : (c.row d).deleted = false := by
  cases c <;> rfl

theorem row_event : (c.row d).event = d.event := by
  cases c <;> rfl

/-- What holds of the database after the effective deliveries so far. -/
structure Settled (c : Coordinate) (db₀ : ReplaceDb) (delivered : List Delivery)
    (db : ReplaceDb) : Prop where
  newest : Newest newerKey (delivered.map fun d ↦ keyOf d.event) (db.events.liveHead c.owns)
  unique : ∀ key row, db.events.LiveRow c.owns key row → db.events.liveHead c.owns = some key ∧
    ∃ d ∈ delivered, key = keyOf d.event ∧ row = c.row d
  stored : ∀ key ∈ db.events, key ∈ db₀.events ∨ key ∈ delivered.map fun d ↦ keyOf d.event
  watermarks : ∀ slot w, db.watermarks.lookup slot = some w →
    db₀.watermarks.lookup slot = some w ∨ w ∈ delivered.map fun d ↦ keyOf d.event

theorem Settled.covers_of_refuses {delivered : List Delivery}
    (h : c.Settled db₀ delivered db) (hstored : keyOf d.event ∉ db₀.events)
    (hmarks : ∀ slot, (c.row d).watermarkSlot = some slot → db₀.watermarks.lookup slot = none)
    (hrefuses : db.Refuses c.owns (keyOf d.event) (c.row d)) :
    ∃ head, db.events.liveHead c.owns = some head ∧ Covers newerKey head (keyOf d.event) := by
  cases hrefuses with
  | head hhead hcovers => exact ⟨_, hhead, hcovers⟩
  | watermark hslot hw hcovers =>
    rcases h.watermarks _ _ hw with hold | hmem
    · rw [hmarks _ hslot] at hold
      cases hold
    · obtain ⟨head, hhead, hcovers'⟩ := h.newest.covers hmem
      exact ⟨head, hhead, hcovers'.trans hcovers⟩
  | stored hmem =>
    rcases h.stored _ hmem with hold | hmem
    · exact (hstored hold).elim
    · exact h.newest.covers hmem

theorem Settled.accepts {delivered : List Delivery} {tx : ReplaceDb}
    (h : c.Settled db₀ delivered db) (hhas : c.Has d.event)
    (haccepts : db.Accepts c.owns (keyOf d.event) (c.row d) tx) :
    c.Settled db₀ (delivered ++ [d]) tx := by
  have hhead := haccepts.liveHead (owns_row hhas) row_deleted
  refine ⟨?_, ?_, ?_, ?_⟩
  · rw [List.map_append, hhead]
    exact (LwwStep.accept haccepts.newer).newest h.newest
  · intro key row hrow
    obtain ⟨rfl, rfl⟩ := (haccepts.liveRow_iff (owns_row hhas) row_deleted).mp hrow
    exact ⟨hhead, d, List.mem_append_right _ List.mem_cons_self, rfl, rfl⟩
  · intro key hmem
    obtain ⟨events, hretired, -, hevents⟩ := haccepts.replaced
    rw [hevents, AList.mem_insert] at hmem
    rw [List.map_append, List.mem_append]
    rcases hmem with rfl | hmem
    · exact .inr (.inr List.mem_cons_self)
    · obtain ⟨row, hrow⟩ := Option.isSome_iff_exists.mp (AList.lookup_isSome.mpr hmem)
      rcases h.stored key (hretired.source key row hrow).1 with hold | hmem
      · exact .inl hold
      · exact .inr (.inl hmem)
  · intro slot w hw
    rw [haccepts.watermarks, ReplaceDb.advanced] at hw
    rw [List.map_append, List.mem_append]
    have hold : db.watermarks.lookup slot = some w → db₀.watermarks.lookup slot = some w ∨
        w ∈ delivered.map (fun d ↦ keyOf d.event) ∨ w ∈ [d].map fun d ↦ keyOf d.event :=
      fun hw ↦ (h.watermarks slot w hw).imp_right .inl
    split at hw
    · exact hold hw
    · rw [Map.lookup_insert_eq] at hw
      split at hw
      · cases hw
        exact .inr (.inr List.mem_cons_self)
      · exact hold hw

/-- One delivery is a step of a last-writer-wins register. -/
theorem Settled.deliver {delivered : List Delivery} (h : c.Settled db₀ delivered db)
    (hhas : c.Has d.event) (heff : c.effective d = true) (hstored : keyOf d.event ∉ db₀.events)
    (hmarks : ∀ slot, (c.row d).watermarkSlot = some slot → db₀.watermarks.lookup slot = none) :
    c.Settled db₀ (delivered ++ [d]) (c.deliver db d).1 ∧
      LwwStep newerKey (keyOf d.event) (db.events.liveHead c.owns)
        ((c.deliver db d).1.events.liveHead c.owns) (c.deliver db d).2 := by
  rcases deliver_of_effective db hhas heff with ⟨tx, haccepts, heq⟩ | ⟨hrefuses, heq⟩
  · rw [heq]
    refine ⟨h.accepts hhas haccepts, ?_⟩
    rw [haccepts.liveHead (owns_row hhas) row_deleted]
    exact .accept haccepts.newer
  · rw [heq]
    obtain ⟨head, hhead, hcovers⟩ := h.covers_of_refuses hstored hmarks hrefuses
    have hstep : LwwStep newerKey (keyOf d.event) (db.events.liveHead c.owns)
        (db.events.liveHead c.owns) false := hhead ▸ .refuse hcovers
    refine ⟨⟨?_, ?_, ?_, ?_⟩, hstep⟩
    · rw [List.map_append]
      exact hstep.newest h.newest
    · intro key row hrow
      obtain ⟨hkey, d', hd', heq'⟩ := h.unique key row hrow
      exact ⟨hkey, d', List.mem_append_left _ hd', heq'⟩
    · intro key hmem
      rw [List.map_append, List.mem_append]
      exact (h.stored key hmem).imp_right .inl
    · intro slot w hw
      rw [List.map_append, List.mem_append]
      exact (h.watermarks slot w hw).imp_right .inl

theorem liveEvents_eq_nil (h : c.liveEvents db = []) :
    db.events.liveHead c.owns = none ∧ ∀ key row, ¬db.events.LiveRow c.owns key row := by
  have hnone : ∀ key row, ¬db.events.LiveRow c.owns key row := by
    intro key row hrow
    have hmem : row.event ∈ c.liveEvents db :=
      List.mem_map.mpr ⟨_, EventsTable.mem_liveEntries.mpr hrow, rfl⟩
    rw [h] at hmem
    cases hmem
  refine ⟨?_, hnone⟩
  by_contra hne
  obtain ⟨head, hhead⟩ := Option.ne_none_iff_exists'.mp hne
  obtain ⟨row, hrow⟩ := EventsTable.exists_of_liveHead_eq_some hhead
  exact hnone head row hrow

theorem Fresh.settled (h : c.Fresh db₀ ds) : c.Settled db₀ [] db₀ := by
  obtain ⟨hhead, hnone⟩ := liveEvents_eq_nil h.live
  refine ⟨?_, fun key row hrow ↦ (hnone key row hrow).elim, fun _ ↦ .inl, fun _ _ ↦ .inl⟩
  rw [hhead]
  exact List.map_nil

theorem Fresh.empty : c.Fresh {} ds where
  live := rfl
  stored _ _ := AList.notMem_empty _
  watermarks _ _ _ _ := AList.lookup_empty _

theorem run_concat {pre : List Delivery} :
    c.run db (pre ++ [d]) = (c.deliver (c.run db pre) d).1 := by
  rw [run, List.foldl_append, List.foldl_cons, List.foldl_nil, run]

theorem run_settled (hhas : ∀ d ∈ ds, c.Has d.event) (hfresh : c.Fresh db₀ ds)
    {pre : List Delivery} (hpre : pre <+: ds) :
    c.Settled db₀ (pre.filter c.effective) (c.run db₀ pre) := by
  induction pre using List.reverseRecOn with
  | nil => exact hfresh.settled
  | append_singleton pre d ih =>
    have ih := ih ((List.prefix_append pre [d]).trans hpre)
    have hd : d ∈ ds := hpre.subset (List.mem_append_right _ List.mem_cons_self)
    rw [run_concat]
    cases heff : c.effective d with
    | false =>
      rw [deliver_of_not_effective (hhas d hd) heff, List.filter_append,
        List.filter_cons_of_neg (by rw [heff]; exact Bool.false_ne_true), List.filter_nil,
        List.append_nil]
      exact ih
    | true =>
      rw [List.filter_append, List.filter_cons_of_pos heff, List.filter_nil]
      exact (ih.deliver (hhas d hd) heff (hfresh.stored d hd) (hfresh.watermarks d hd)).1

theorem Settled.liveEvents_eq {delivered : List Delivery} (h : c.Settled db₀ delivered db)
    {key : EventKey} {row : EventRow} (hrow : db.events.LiveRow c.owns key row) :
    c.liveEvents db = [row.event] := by
  have hsingle : (db.events.entries.filter fun e ↦ c.owns e.2 && !e.2.deleted) = [⟨key, row⟩] := by
    apply List.perm_singleton.mp
    apply (List.perm_ext_iff_of_nodup (db.events.nodupKeys.nodup.filter _)
      (List.nodup_singleton _)).mpr
    intro e
    rw [List.mem_singleton]
    constructor
    · intro he
      have hrow' := EventsTable.mem_liveEntries.mp he
      have hkey : e.1 = key := Option.some.inj ((h.unique _ _ hrow').1.symm.trans (h.unique _ _ hrow).1)
      have hstored := hrow'.stored
      rw [hkey, hrow.stored] at hstored
      exact Sigma.ext hkey (heq_of_eq (Option.some.inj hstored).symm)
    · rintro rfl
      exact EventsTable.mem_liveEntries.mpr hrow
  rw [liveEvents, hsingle, List.map_singleton]

theorem Settled.head_of_liveEvents {delivered : List Delivery} (h : c.Settled db₀ delivered db)
    {event : Event} (hlive : c.liveEvents db = [event]) :
    db.events.liveHead c.owns = some (keyOf event) := by
  have hmem : event ∈ c.liveEvents db := hlive ▸ List.mem_cons_self
  obtain ⟨e, he, rfl⟩ := List.mem_map.mp hmem
  obtain ⟨hhead, d, -, hkey, hrow⟩ := h.unique _ _ (EventsTable.mem_liveEntries.mp he)
  rw [hhead, hkey, hrow, row_event]

theorem atLeastAsNew_of_covers {e e' : Event} (he : e.createdAt.toNat < 2 ^ 63)
    (he' : e'.createdAt.toNat < 2 ^ 63) (h : Covers newerKey (keyOf e) (keyOf e')) :
    AtLeastAsNew e e' := by
  simp only [Covers, newerKey, keyOf, asI64_of_lt he, asI64_of_lt he', Prod.mk.injEq,
    Nat.cast_inj, Nat.cast_lt] at h
  rcases h with ⟨htime, hid⟩ | htime | ⟨htime, hid⟩
  · exact .inr ⟨UInt64.toNat.inj htime, hid.le⟩
  · exact .inl (UInt64.lt_iff_toNat_lt.mpr htime)
  · exact .inr ⟨UInt64.toNat.inj htime.symm, hid.le⟩

/-- Whatever the order and the repetitions of the deliveries, the newest of the effective ones is
the only live row of the coordinate, and a call reports its event as inserted exactly when it
became that row. -/
theorem deliveries_converge (hhas : ∀ d ∈ ds, c.Has d.event)
    (hrange : ∀ d ∈ ds, d.event.createdAt.toNat < 2 ^ 63) (hfresh : c.Fresh db₀ ds) :
    ((∃ d ∈ ds, c.effective d = true) →
      ∃ d ∈ ds, c.effective d = true ∧ c.liveEvents (c.run db₀ ds) = [d.event] ∧
        ∀ d' ∈ ds, c.effective d' = true → AtLeastAsNew d.event d'.event) ∧
    ∀ pre d, pre ++ [d] <+: ds →
      (c.effective d = true → ((c.deliver (c.run db₀ pre) d).2 = true ↔
        c.liveEvents (c.run db₀ pre) ≠ [d.event] ∧
          c.liveEvents (c.deliver (c.run db₀ pre) d).1 = [d.event])) ∧
      (c.effective d = false → c.deliver (c.run db₀ pre) d = (c.run db₀ pre, false)) := by
  constructor
  · rintro ⟨d₁, hd₁, heff₁⟩
    have h := run_settled hhas hfresh (List.prefix_refl ds)
    have hmem₁ : keyOf d₁.event ∈ (ds.filter c.effective).map fun d ↦ keyOf d.event :=
      List.mem_map_of_mem (List.mem_filter.mpr ⟨hd₁, heff₁⟩)
    obtain ⟨head, hhead, -⟩ := h.newest.covers hmem₁
    obtain ⟨row, hrow⟩ := EventsTable.exists_of_liveHead_eq_some hhead
    obtain ⟨-, d, hd, rfl, rfl⟩ := h.unique head row hrow
    obtain ⟨hd, heff⟩ := List.mem_filter.mp hd
    refine ⟨d, hd, heff, ?_, ?_⟩
    · rw [h.liveEvents_eq hrow, row_event]
    · intro d' hd' heff'
      have hmem' : keyOf d'.event ∈ (ds.filter c.effective).map fun d ↦ keyOf d.event :=
        List.mem_map_of_mem (List.mem_filter.mpr ⟨hd', heff'⟩)
      obtain ⟨head', hhead', hcovers⟩ := h.newest.covers hmem'
      rw [hhead] at hhead'
      cases hhead'
      exact atLeastAsNew_of_covers (hrange d hd) (hrange d' hd') hcovers
  · intro pre d hpre
    have hd : d ∈ ds := hpre.subset (List.mem_append_right _ List.mem_cons_self)
    refine ⟨?_, deliver_of_not_effective (hhas d hd)⟩
    intro heff
    have h := run_settled hhas hfresh ((List.prefix_append pre [d]).trans hpre)
    obtain ⟨hafter, hstep⟩ :=
      h.deliver (hhas d hd) heff (hfresh.stored d hd) (hfresh.watermarks d hd)
    constructor
    · intro haccepted
      constructor
      · intro hbefore
        exact (hstep.accepted_iff.mp haccepted).1 (h.head_of_liveEvents hbefore)
      · rcases deliver_of_effective (c.run db₀ pre) (hhas d hd) heff with
          ⟨tx, haccepts, heq⟩ | ⟨-, heq⟩
        · have hlive := (haccepts.liveRow_iff (owns_row (hhas d hd)) row_deleted).mpr ⟨rfl, rfl⟩
          rw [heq] at hafter ⊢
          rw [hafter.liveEvents_eq hlive, row_event]
        · rw [heq] at haccepted
          cases haccepted
    · rintro ⟨hne, hlive⟩
      rcases deliver_of_effective (c.run db₀ pre) (hhas d hd) heff with
        ⟨tx, -, heq⟩ | ⟨-, heq⟩
      · rw [heq]
      · rw [heq] at hlive
        exact (hne hlive).elim

end Coordinate

end Converge

def draftAt (id : EventId) (createdAt : Timestamp) : Delivery where
  event := ⟨id, 7, createdAt, 30023, [⟨"d", ["draft"]⟩], "", 0⟩
  channelId := none
  commit := .ok ()

theorem drafts_converge :
    ∃ d ∈ [draftAt 2 100, draftAt 1 100, draftAt 2 100],
      (Coordinate.parameterized 30023 7 "draft").effective d = true ∧
      (Coordinate.parameterized 30023 7 "draft").liveEvents
        ((Coordinate.parameterized 30023 7 "draft").run {}
          [draftAt 2 100, draftAt 1 100, draftAt 2 100]) = [d.event] ∧
      ∀ d' ∈ [draftAt 2 100, draftAt 1 100, draftAt 2 100],
        (Coordinate.parameterized 30023 7 "draft").effective d' = true →
          AtLeastAsNew d.event d'.event := by
  refine (Coordinate.deliveries_converge ?_ ?_ Coordinate.Fresh.empty).1
    ⟨draftAt 2 100, List.mem_cons_self, by decide⟩
  · intro d hd
    simp only [List.mem_cons, List.not_mem_nil, or_false] at hd
    rcases hd with rfl | rfl | rfl <;> exact ⟨rfl, rfl⟩
  · intro d hd
    simp only [List.mem_cons, List.not_mem_nil, or_false] at hd
    rcases hd with rfl | rfl | rfl <;> decide

/-- An event too far in the future for a date is refused, so no row is live after it. -/
theorem far_future_never_live :
    ¬∃ d ∈ [draftAt 1 (2 ^ 62)], (Coordinate.parameterized 30023 7 "draft").liveEvents
      ((Coordinate.parameterized 30023 7 "draft").run {} [draftAt 1 (2 ^ 62)]) = [d.event] := by
  decide +kernel

end Buzz.Db
