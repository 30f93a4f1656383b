import Buzz.Db.ReplaceSpec
import Buzz.Lib.Runs

namespace Buzz.Db

open Buzz.Lib Buzz.Nostr Buzz.Core

inductive CoordinateOp
  | deliver (id : EventId) (channelId : Option Uuid) (commit : Except DbError Unit)
  | softDelete

section Run

variable (signed : EventId → Event) (kind : Kind) (pubkey : PublicKey) (dTag : String)

def applyCoordinateOp (db : ReplaceDb) : CoordinateOp → ReplaceDb
  | .deliver id channelId commit =>
    let event := eventOf signed id
    if event.kind = kind ∧ event.pubkey = pubkey then
      (settled db (replaceParameterizedEvent db event dTag channelId commit)).1
    else db
  | .softDelete => (softDeleteByCoordinate db kind pubkey dTag).1

def runCoordinate (ops : List CoordinateOp) : ReplaceDb :=
  ops.foldl (applyCoordinateOp signed kind pubkey dTag) {}

def LiveAfter (ops : List CoordinateOp) (id : EventId) : Prop :=
  (runCoordinate signed kind pubkey dTag ops).events.Live id

def NoResurrection (ops : List CoordinateOp) : Prop :=
  ∀ past mid post id, past ++ mid ++ post <+: ops → LiveAfter signed kind pubkey dTag past id →
    ¬LiveAfter signed kind pubkey dTag (past ++ mid) id →
      ¬LiveAfter signed kind pubkey dTag (past ++ mid ++ post) id

/-- The delivered event was live before and is not read state, its row is physically gone, and
the live head, if there is one, is older. -/
structure ReplaysPurged (ops : List CoordinateOp) (id : EventId) : Prop where
  wasLive : ∃ past, past <+: ops ∧ LiveAfter signed kind pubkey dTag past id
  notNipRs : isNipRs (eventOf signed id) dTag = false
  purged : keyOf (eventOf signed id) ∉ (runCoordinate signed kind pubkey dTag ops).events
  unopposed : ∀ head, (runCoordinate signed kind pubkey dTag ops).events.liveHead
    (EventRow.isParameterized kind pubkey dTag) = some head →
      newerKey (keyOf (eventOf signed id)) head

end Run

section Invariant

variable {signed : EventId → Event} {kind : Kind} {pubkey : PublicKey} {dTag : String}
  {db db' : ReplaceDb} {id : EventId}

theorem runCoordinate_concat {ops : List CoordinateOp} {op : CoordinateOp} :
    runCoordinate signed kind pubkey dTag (ops ++ [op]) =
      applyCoordinateOp signed kind pubkey dTag (runCoordinate signed kind pubkey dTag ops) op := by
  rw [runCoordinate, List.foldl_append, List.foldl_cons, List.foldl_nil, runCoordinate]

/-- What a delivery that goes in does. -/
structure Delivers (signed : EventId → Event) (kind : Kind) (pubkey : PublicKey) (dTag : String)
    (db : ReplaceDb) (id : EventId) (row : EventRow) (db' : ReplaceDb) : Prop where
  kind_eq : (eventOf signed id).kind = kind
  pubkey_eq : (eventOf signed id).pubkey = pubkey
  createdAt : fromTimestamp (asI64 (eventOf signed id).createdAt) = some (keyOf (eventOf signed id)).1
  row_eq : ∃ channelId, row = ⟨eventOf signed id, channelId, some dTag, false⟩
  accepts : db.Accepts (EventRow.isParameterized kind pubkey dTag) (keyOf (eventOf signed id)) row db'

theorem applyCoordinateOp_cases (db : ReplaceDb) (op : CoordinateOp) :
    applyCoordinateOp signed kind pubkey dTag db op = db ∨
    applyCoordinateOp signed kind pubkey dTag db op =
      { db with events := db.events.softDeleteWhere (EventRow.isParameterized kind pubkey dTag) } ∨
    ∃ id row, Delivers signed kind pubkey dTag db id row
      (applyCoordinateOp signed kind pubkey dTag db op) ∧
        ∃ channelId, op = .deliver id channelId (.ok ()) := by
  cases op with
  | softDelete => exact .inr (.inl rfl)
  | deliver id channelId commit =>
    by_cases hhas : (eventOf signed id).kind = kind ∧ (eventOf signed id).pubkey = pubkey
    · rw [applyCoordinateOp, if_pos hhas]
      obtain ⟨rfl, rfl⟩ := hhas
      cases ht : fromTimestamp (asI64 (eventOf signed id).createdAt) with
      | none =>
        rw [replaceParameterizedEvent, createdAtOf_eq_error ht]
        exact .inl rfl
      | some t =>
        have hspec := replaceParameterizedEvent_spec db dTag channelId ht
        cases commit with
        | error e =>
          rw [hspec.settled_error e]
          exact .inl rfl
        | ok _ =>
          rcases hspec.settled_ok with ⟨tx, haccepts, heq⟩ | ⟨-, heq⟩
          · rw [heq]
            have hkey : keyOf (eventOf signed id) = (t, (eventOf signed id).id) := by
              rw [keyOf, fromTimestamp_eq_some ht]
            refine .inr (.inr ⟨id, _, ⟨rfl, rfl, ?_, ⟨channelId, rfl⟩, ?_⟩, channelId, rfl⟩)
            · rw [hkey, ht]
            · rw [hkey]
              exact haccepts
          · rw [heq]
            exact .inl rfl
    · rw [applyCoordinateOp, if_neg hhas]
      exact .inl rfl

def Advances (db db' : ReplaceDb) : Prop :=
  ∀ slot w, db.watermarks.lookup slot = some w →
    ∃ w', db'.watermarks.lookup slot = some w' ∧ Covers newerKey w' w

theorem Advances.refl (db : ReplaceDb) : Advances db db :=
  fun _ w hw ↦ ⟨w, hw, .inl rfl⟩

theorem Advances.trans {db₁ db₂ db₃ : ReplaceDb} (h : Advances db₁ db₂) (h' : Advances db₂ db₃) :
    Advances db₁ db₃ := by
  intro slot w hw
  obtain ⟨w', hw', hcovers⟩ := h slot w hw
  obtain ⟨w'', hw'', hcovers'⟩ := h' slot w' hw'
  exact ⟨w'', hw'', hcovers'.trans hcovers⟩

theorem Delivers.advances {row : EventRow} (h : Delivers signed kind pubkey dTag db id row db') :
    Advances db db' := by
  intro slot w hw
  rw [h.accepts.watermarks, ReplaceDb.advanced]
  cases hslot : row.watermarkSlot with
  | none => exact ⟨w, hw, .inl rfl⟩
  | some slot' =>
    simp only [Map.lookup_insert_eq]
    split
    · next heq => exact ⟨_, rfl, .inr (h.accepts.ahead slot' w hslot (heq ▸ hw))⟩
    · exact ⟨w, hw, .inl rfl⟩

/-- A read-state event that goes in becomes the watermark. -/
theorem Delivers.marked {row : EventRow} (h : Delivers signed kind pubkey dTag db id row db')
    (hnip : isNipRs (eventOf signed id) dTag = true) :
    db'.watermarks.lookup (kind, pubkey, dTag) = some (keyOf (eventOf signed id)) := by
  obtain ⟨channelId, rfl⟩ := h.row_eq
  have hmarks := h.accepts.watermarks
  simp only [ReplaceDb.advanced, watermarkSlot_of_dTag, if_pos hnip, h.kind_eq, h.pubkey_eq] at hmarks
  rw [hmarks, AList.lookup_insert]

theorem Delivers.liveRow_iff {row row' : EventRow} {key : EventKey}
    (h : Delivers signed kind pubkey dTag db id row db') :
    db'.events.LiveRow (EventRow.isParameterized kind pubkey dTag) key row' ↔
      key = keyOf (eventOf signed id) ∧ row' = row := by
  obtain ⟨channelId, rfl⟩ := h.row_eq
  apply h.accepts.liveRow_iff
  · simp only [EventRow.isParameterized, h.kind_eq, h.pubkey_eq, beq_self_eq_true, Bool.and_self]
  · rfl

structure RowOf (signed : EventId → Event) (kind : Kind) (pubkey : PublicKey) (dTag : String)
    (key : EventKey) (row : EventRow) : Prop where
  event_eq : row.event = eventOf signed key.2
  key_eq : keyOf (eventOf signed key.2) = key
  kind_eq : row.event.kind = kind
  pubkey_eq : row.event.pubkey = pubkey
  dTag_eq : row.dTag = some dTag
  createdAt : fromTimestamp (asI64 row.event.createdAt) = some key.1

/-- What holds of the database in each state of a run. -/
structure Tracked (signed : EventId → Event) (kind : Kind) (pubkey : PublicKey) (dTag : String)
    (db : ReplaceDb) : Prop where
  rows : ∀ key row, db.events.lookup key = some row → row.deleted = false →
    RowOf signed kind pubkey dTag key row
  marked : ∀ id, db.events.Live id → isNipRs (eventOf signed id) dTag = true →
    ∃ w, db.watermarks.lookup (kind, pubkey, dTag) = some w ∧
      Covers newerKey w (keyOf (eventOf signed id))

theorem RowOf.owned {key : EventKey} {row : EventRow} (h : RowOf signed kind pubkey dTag key row) :
    EventRow.isParameterized kind pubkey dTag row = true := by
  simp only [EventRow.isParameterized, h.kind_eq, h.pubkey_eq, h.dTag_eq, beq_self_eq_true,
    Bool.and_self]

theorem tracked_empty : Tracked signed kind pubkey dTag {} where
  rows key row hrow := by cases (AList.lookup_empty key).symm.trans hrow
  marked id hlive := by
    obtain ⟨t, row, hrow, -⟩ := hlive
    cases (AList.lookup_empty (t, id)).symm.trans hrow

theorem Tracked.softDeleteWhere (h : Tracked signed kind pubkey dTag db) (p : EventRow → Bool) :
    Tracked signed kind pubkey dTag { db with events := db.events.softDeleteWhere p } := by
  obtain ⟨-, hsource⟩ : EventsTable.Retired p db.events (db.events.softDeleteWhere p) :=
    .softDeleteWhere
  constructor
  · intro key row hrow hlive
    exact h.rows key row ((hsource key row hrow).2 hlive).1 hlive
  · rintro id ⟨t, row, hrow, hlive⟩
    exact h.marked id ⟨t, row, ((hsource _ row hrow).2 hlive).1, hlive⟩

theorem Tracked.delivers {row : EventRow} (h : Tracked signed kind pubkey dTag db)
    (hdelivers : Delivers signed kind pubkey dTag db id row db') :
    Tracked signed kind pubkey dTag db' := by
  obtain ⟨events, hretired, -, hevents⟩ := hdelivers.accepts.replaced
  have hrows : ∀ key row', db'.events.lookup key = some row' → row'.deleted = false →
      key = keyOf (eventOf signed id) ∧ row' = row ∨ db.events.lookup key = some row' := by
    intro key row' hrow' hlive
    rw [hevents, Map.lookup_insert_eq] at hrow'
    split at hrow'
    · next heq => exact .inl ⟨heq, (Option.some.inj hrow').symm⟩
    · exact .inr ((hretired.source key row' hrow').2 hlive).1
  constructor
  · intro key row' hrow' hlive
    rcases hrows key row' hrow' hlive with ⟨rfl, rfl⟩ | hold
    · obtain ⟨channelId, rfl⟩ := hdelivers.row_eq
      exact ⟨rfl, rfl, hdelivers.kind_eq, hdelivers.pubkey_eq, rfl, hdelivers.createdAt⟩
    · exact h.rows key row' hold hlive
  · rintro id' ⟨t, row', hrow', hlive⟩ hnip
    rcases hrows _ row' hrow' hlive with ⟨hkey, -⟩ | hold
    · have hid : id' = id := congrArg Prod.snd hkey
      rw [hid] at hnip ⊢
      exact ⟨_, hdelivers.marked hnip, .inl rfl⟩
    · obtain ⟨w, hw, hcovers⟩ := h.marked id' ⟨t, row', hold, hlive⟩ hnip
      obtain ⟨w', hw', hcovers'⟩ := hdelivers.advances _ w hw
      exact ⟨w', hw', hcovers'.trans hcovers⟩

theorem Tracked.step (h : Tracked signed kind pubkey dTag db) (op : CoordinateOp) :
    Tracked signed kind pubkey dTag (applyCoordinateOp signed kind pubkey dTag db op) ∧
      Advances db (applyCoordinateOp signed kind pubkey dTag db op) := by
  obtain heq | heq | ⟨id, row, hdelivers, -⟩ := applyCoordinateOp_cases db op
  · rw [heq]
    exact ⟨h, .refl db⟩
  · rw [heq]
    exact ⟨h.softDeleteWhere _, fun _ w hw ↦ ⟨w, hw, .inl rfl⟩⟩
  · exact ⟨h.delivers hdelivers, hdelivers.advances⟩

theorem tracked_run (ops : List CoordinateOp) :
    Tracked signed kind pubkey dTag (runCoordinate signed kind pubkey dTag ops) := by
  induction ops using List.reverseRecOn with
  | nil => exact tracked_empty
  | append_singleton ops op ih =>
    rw [runCoordinate_concat]
    exact (ih.step op).1

theorem advances_run (past rest : List CoordinateOp) :
    Advances (runCoordinate signed kind pubkey dTag past)
      (runCoordinate signed kind pubkey dTag (past ++ rest)) := by
  induction rest using List.reverseRecOn with
  | nil =>
    rw [List.append_nil]
    exact .refl _
  | append_singleton rest op ih =>
    rw [← List.append_assoc, runCoordinate_concat]
    exact ih.trans ((tracked_run _).step op).2

/-- What goes in and was not live was not stored. -/
theorem Delivers.not_mem {row : EventRow} (h : Delivers signed kind pubkey dTag db id row db')
    (hdead : ¬db.events.Live id) : keyOf (eventOf signed id) ∉ db.events := by
  intro hmem
  obtain ⟨row', hrow'⟩ := Option.isSome_iff_exists.mp (AList.lookup_isSome.mpr hmem)
  obtain ⟨events, hretired, hnot, -⟩ := h.accepts.replaced
  apply hnot
  apply AList.lookup_isSome.mp
  rw [hretired.kept _ row' hrow', Option.isSome_some]
  rintro ⟨-, hlive⟩
  exact hdead ⟨_, row', hrow', hlive⟩

theorem replaysPurged_of_entering {past pre : List CoordinateOp} {op : CoordinateOp}
    (hpast : past <+: pre) (hwas : LiveAfter signed kind pubkey dTag past id)
    (hdead : ¬LiveAfter signed kind pubkey dTag pre id)
    (hlive : LiveAfter signed kind pubkey dTag (pre ++ [op]) id) :
    ReplaysPurged signed kind pubkey dTag pre id ∧
      ∃ channelId, op = .deliver id channelId (.ok ()) := by
  rw [LiveAfter, runCoordinate_concat] at hlive
  obtain heq | heq | ⟨id', row, hdelivers, channelId, rfl⟩ :=
    applyCoordinateOp_cases (runCoordinate signed kind pubkey dTag pre) op
  · rw [heq] at hlive
    exact (hdead hlive).elim
  · rw [heq] at hlive
    obtain ⟨t, row, hrow, hrowLive⟩ := hlive
    have hold := ((EventsTable.Retired.softDeleteWhere.source _ row hrow).2 hrowLive).1
    exact (hdead ⟨t, row, hold, hrowLive⟩).elim
  · have hid : id = id' := by
      obtain ⟨t, row', hrow', hrowLive⟩ := hlive
      have hof := ((tracked_run pre).delivers hdelivers).rows _ row' hrow' hrowLive
      exact congrArg Prod.snd (hdelivers.liveRow_iff.mp ⟨hrow', hof.owned, hrowLive⟩).1
    subst hid
    refine ⟨⟨⟨past, hpast, hwas⟩, ?_, hdelivers.not_mem hdead, hdelivers.accepts.newer⟩, channelId, rfl⟩
    by_contra hnip
    have hnip := Bool.of_not_eq_false hnip
    obtain ⟨w, hw, hcovers⟩ := (tracked_run past).marked id hwas hnip
    obtain ⟨rest, rfl⟩ := hpast
    obtain ⟨w', hw', hcovers'⟩ := advances_run past rest _ w hw
    obtain ⟨channel, hrow⟩ := hdelivers.row_eq
    have hslot : row.watermarkSlot = some (kind, pubkey, dTag) := by
      rw [hrow, watermarkSlot_of_dTag, if_pos hnip, hdelivers.kind_eq, hdelivers.pubkey_eq]
    exact not_covers_of_newerKey (hdelivers.accepts.ahead _ w' hslot hw') (hcovers'.trans hcovers)

theorem ReplaysPurged.live {pre : List CoordinateOp} (h : ReplaysPurged signed kind pubkey dTag pre id)
    (channelId : Option Uuid) :
    LiveAfter signed kind pubkey dTag (pre ++ [.deliver id channelId (.ok ())]) id := by
  obtain ⟨past, -, t, row, hrow, hlive⟩ := h.wasLive
  have hof := (tracked_run past).rows _ row hrow hlive
  have hkind := hof.event_eq ▸ hof.kind_eq
  have hpubkey := hof.event_eq ▸ hof.pubkey_eq
  have ht := hof.event_eq ▸ hof.createdAt
  have hspec := replaceParameterizedEvent_spec (runCoordinate signed kind pubkey dTag pre) dTag
    channelId ht
  have hkey : keyOf (eventOf signed id) = (t, id) := hof.key_eq
  rw [LiveAfter, runCoordinate_concat, applyCoordinateOp, if_pos ⟨hkind, hpubkey⟩]
  rcases hspec.settled_ok with ⟨tx, haccepts, heq⟩ | ⟨hrefuses, -⟩
  · rw [heq]
    have howned : EventRow.isParameterized (eventOf signed id).kind (eventOf signed id).pubkey dTag
        ⟨eventOf signed id, channelId, some dTag, false⟩ = true := by
      simp only [EventRow.isParameterized, beq_self_eq_true, Bool.and_self]
    have hrow := (haccepts.liveRow_iff howned rfl).mpr ⟨rfl, rfl⟩
    exact ⟨t, _, hrow.stored, hrow.live⟩
  · exfalso
    cases hrefuses with
    | head hhead hcovers =>
      rw [hkind, hpubkey] at hhead
      exact not_covers_of_newerKey (hkey ▸ h.unopposed _ hhead) hcovers
    | watermark hslot _ _ =>
      rw [watermarkSlot_of_dTag, h.notNipRs] at hslot
      cases hslot
    | stored hmem =>
      apply h.purged
      rw [hkey]
      exact hmem

end Invariant

/-- A run of one coordinate brings no event back exactly when no step replays a purged event. -/
theorem noResurrection_iff (signed : EventId → Event) (kind : Kind) (pubkey : PublicKey)
    (dTag : String) (ops : List CoordinateOp) :
    NoResurrection signed kind pubkey dTag ops ↔
      ∀ pre id channelId, pre ++ [.deliver id channelId (.ok ())] <+: ops →
        ¬ReplaysPurged signed kind pubkey dTag pre id := by
  constructor
  · intro h pre id channelId hpre hreplays
    obtain ⟨past, ⟨mid, rfl⟩, hwas⟩ := hreplays.wasLive
    apply h past mid [.deliver id channelId (.ok ())] id hpre hwas
    · rintro ⟨t, row, hrow, hlive⟩
      apply hreplays.purged
      rw [((tracked_run _).rows _ row hrow hlive).key_eq]
      exact AList.lookup_isSome.mp (by rw [hrow, Option.isSome_some])
    · exact hreplays.live channelId
  · intro h past mid post id hpre hwas hdead hlive
    obtain ⟨pre, op, hmid, hstep, hnot, hentered⟩ :=
      exists_entering_step (P := fun ops ↦ LiveAfter signed kind pubkey dTag ops id) hdead hlive
    obtain ⟨hreplays, channelId, rfl⟩ :=
      replaysPurged_of_entering ((List.prefix_append past mid).trans hmid) hwas hnot hentered
    exact h pre id channelId (hstep.trans hpre) hreplays

def signedMeshStatus (id : EventId) : Event where
  id := id
  pubkey := 5
  createdAt := 100
  kind := 30003
  content := ""
  sig := 0
  tags := [⟨"d", ["buzz-mesh-member-status:a"]⟩, ⟨"k", ["buzz-mesh-status"]⟩]

/-- A mesh status that comes again after its coordinate was deleted is live again. -/
theorem deleted_mesh_status_comes_back :
    ¬NoResurrection signedMeshStatus 30003 5 "buzz-mesh-member-status:a"
      [.deliver 1 none (.ok ()), .softDelete, .deliver 1 none (.ok ())] := by
  intro h
  apply h [.deliver 1 none (.ok ())] [.softDelete] [.deliver 1 none (.ok ())] 1 (List.prefix_refl _)
  · exact ⟨100, ⟨signedMeshStatus 1, none, some "buzz-mesh-member-status:a", false⟩, by decide +kernel,
      rfl⟩
  · rintro ⟨t, row, hrow, -⟩
    have hempty : (runCoordinate signedMeshStatus 30003 5 "buzz-mesh-member-status:a"
        [.deliver 1 none (.ok ()), .softDelete]).events.entries = [] := by decide +kernel
    have hmem := Map.mem_entries_iff.mpr hrow
    rw [List.singleton_append, hempty] at hmem
    cases hmem
  · exact ⟨100, ⟨signedMeshStatus 1, none, some "buzz-mesh-member-status:a", false⟩, by decide +kernel,
      rfl⟩

end Buzz.Db
