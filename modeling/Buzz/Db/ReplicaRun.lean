import Buzz.Db.ReplicaFence

namespace Buzz.Db.Replica

open Buzz.Lib Buzz.Nostr

theorem le_createdAt_of_floorGuard {row : Row} {clock : ℤ}
    (h : floorGuard (some createdAtFloorSecs) row clock = false) (hrow : row.channelId.isSome) :
    clock - seconds createdAtFloorSecs ≤ row.createdAt := by
  by_contra hlt
  have hraise : floorGuard (some createdAtFloorSecs) row clock = true := by
    simp only [floorGuard, hrow, Bool.and_true, Bool.and_eq_true, decide_eq_true_eq]
    exact ⟨by decide, not_le.mp hlt⟩
  rw [hraise] at h
  cases h

theorem lower_le (s : ℤ) (oldest : Option ℤ) : lower s oldest ≤ s := by
  cases oldest with
  | none => exact le_rfl
  | some oldest => exact min_le_right _ _

theorem lower_le_of_mem {s a : ℤ} {oldest : Option ℤ} (h : ∀ o, oldest = some o → o ≤ a)
    (hsome : oldest.isSome) : lower s oldest ≤ a := by
  cases oldest with
  | none => cases hsome
  | some oldest => exact (min_le_left _ _).trans (h oldest rfl)

theorem lower_least_le_left (s : ℤ) (a b : Option ℤ) : lower s (least a b) ≤ lower s a := by
  cases a with
  | none => exact lower_le s _
  | some a =>
    cases b with
    | none => exact le_rfl
    | some b => exact min_le_min_right s (min_le_left a b)

theorem lower_least_le_right (s : ℤ) (a b : Option ℤ) : lower s (least a b) ≤ lower s b := by
  cases b with
  | none => exact lower_le s _
  | some b =>
    cases a with
    | none => exact le_rfl
    | some a => exact min_le_min_right s (min_le_right a b)

/-- The minimum of the stamps is below each of them. -/
theorem lower_min?_le {s a : ℤ} {stamps : List ℤ} (h : a ∈ stamps) : lower s stamps.min? ≤ a := by
  apply lower_le_of_mem
  · intro o ho
    exact (List.min?_eq_some_iff.mp ho).2 a h
  · rw [List.isSome_min?_iff]
    exact List.ne_nil_of_mem h

/-- A transaction that can still commit rows. -/
def Tx.Open (tx : Tx) : Prop :=
  tx.phase = .active false ∨ ∃ stamp, tx.phase = .prepared stamp false

/-- What one step of the writer does to a transaction, at a clock reading. -/
structure Tx.Moved (clock : ℤ) (tx tx' : Tx) : Prop where
  start_eq : tx'.start = tx.start
  checked : ∀ c ∈ tx'.checked, c ∈ tx.checked ∨
    clock < c.2 + seconds fenceClockMarginSecs ∧
      floorGuard (some createdAtFloorSecs) c.1 c.2 = false
  active : tx'.phase = .active false → tx.phase = .active false
  stays_open : tx'.Open → tx.Open
  stamped : ∀ stamp, tx'.phase = .prepared stamp false →
    (tx.phase = .prepared stamp false ∧ tx'.checked = tx.checked) ∨
      ∀ c ∈ tx'.checked, stamp < c.2 + seconds fenceClockMarginSecs

namespace Tx

variable {clock now : ℤ} {tx tx' : Tx} {row : Row}

theorem Moved.rfl : Moved clock tx tx where
  start_eq := Eq.refl _
  checked _ hc := .inl hc
  active h := h
  stays_open h := h
  stamped _ h := .inl ⟨h, Eq.refl _⟩

/-- A transaction that can no longer commit rows. -/
theorem Moved.of_closed (hstart : tx'.start = tx.start) (hchecked : tx'.checked = tx.checked)
    (hclosed : ¬tx'.Open) : Moved clock tx tx' where
  start_eq := hstart
  checked _ hc := .inl (hchecked ▸ hc)
  active h := (hclosed (.inl h)).elim
  stays_open h := (hclosed h).elim
  stamped stamp h := (hclosed (.inr ⟨stamp, h⟩)).elim

theorem moved_write (h : tx.write row = some tx') : Moved clock tx tx' := by
  unfold write at h
  split at h
  · cases h
    exact ⟨rfl, fun _ hc ↦ .inl hc, id, id, fun _ hs ↦ .inl ⟨hs, rfl⟩⟩
  · cases h

theorem moved_guard (h : tx.guard now = some tx')
    (hnow : clock < now + seconds fenceClockMarginSecs) : Moved clock tx tx' := by
  unfold guard at h
  split at h
  case h_1 row rest hphase hrows =>
    split at h
    · cases h
      exact .of_closed rfl rfl (by simp [Tx.Open])
    · rename_i hpass
      cases h
      refine ⟨rfl, ?_, id, id, ?_⟩
      · intro c hc
        rcases List.mem_cons.mp hc with rfl | hc
        · exact .inr ⟨hnow, Bool.eq_false_iff.mpr hpass⟩
        · exact .inl hc
      · intro stamp hstamp
        rw [show ({ tx with unchecked := rest, checked := (row, now) :: tx.checked } : Tx).phase =
          tx.phase from rfl, hphase] at hstamp
        cases hstamp
  · cases h

theorem moved_prepare {stamp : ℤ} (h : tx.prepare stamp = some tx') : Moved clock tx tx' := by
  unfold prepare at h
  split at h
  case isTrue hcond =>
    obtain ⟨hphase, -, hchecked⟩ := hcond
    cases h
    refine ⟨rfl, fun _ hc ↦ .inl hc, nofun, fun _ ↦ .inl hphase, ?_⟩
    intro stamp' hstamp
    cases hstamp
    exact .inr hchecked
  · cases h

theorem moved_record (h : tx.record = some tx') : Moved clock tx tx' := by
  unfold record at h
  split at h
  case h_3 => cases h
  all_goals cases h
  all_goals exact .of_closed rfl rfl (by simp [Tx.Open])

theorem open_of_record (h : tx.record = some tx') : tx.Open := by
  unfold record at h
  split at h
  case h_1 hphase _ => exact .inl hphase
  case h_2 stamp hphase _ => exact .inr ⟨stamp, hphase⟩
  · cases h

theorem moved_leave (h : tx.leave = some tx') : Moved clock tx tx' := by
  unfold leave at h
  split at h
  · cases h
  · cases h
    exact .of_closed rfl rfl (by simp [Tx.Open])

end Tx

namespace Database

variable {db db' : Database} {i : ℕ} {f : Tx → Option Tx} {now : ℤ} {op : DbOp}

theorem read_eq_some (h : db.read now = some db') :
    db.clock < now + seconds fenceClockMarginSecs ∧ db' = { db with clock := max db.clock now } := by
  unfold read at h
  split at h
  · cases h
    exact ⟨‹_›, rfl⟩
  · cases h

theorem update_eq_some (h : db.update i f = some db') :
    ∃ tx tx', db.txs[i]? = some tx ∧ f tx = some tx' ∧
      db' = { db with txs := db.txs.set i tx' } := by
  obtain ⟨tx', hf, rfl⟩ := Option.map_eq_some_iff.mp h
  obtain ⟨tx, htx, hf⟩ := Option.bind_eq_some_iff.mp hf
  exact ⟨tx, tx', htx, hf, rfl⟩

/-- What one step of the writer or of replication does. -/
structure Moved (db db' : Database) : Prop where
  clock_le : db.clock ≤ db'.clock
  replayed_le : db.replayed ≤ db'.replayed
  txs : ∀ tx' ∈ db'.txs, (∃ tx ∈ db.txs, tx.Moved db.clock tx') ∨
    tx'.checked = [] ∧ tx'.start ≤ db'.clock ∧ tx'.phase = .active false
  wal : ∃ more, db'.wal = db.wal ++ more ∧
    ∀ record ∈ more, ∀ row ∈ record, ∃ tx ∈ db.txs, tx.Open ∧ row ∈ tx.rows

/-- Only the clock goes on. -/
theorem Moved.of_read (h : db.read now = some db') : db.Moved db' := by
  obtain ⟨-, rfl⟩ := read_eq_some h
  exact ⟨le_max_left _ _, le_rfl, fun tx htx ↦ .inl ⟨tx, htx, .rfl⟩, [], by simp, by simp⟩

theorem Moved.of_update (h : db.update i f = some db')
    (hf : ∀ tx tx', f tx = some tx' → tx.Moved db.clock tx') : db.Moved db' := by
  obtain ⟨tx, tx', htx, hmove, rfl⟩ := update_eq_some h
  refine ⟨le_rfl, le_rfl, ?_, [], by simp, by simp⟩
  intro tx'' htx''
  rcases List.mem_or_eq_of_mem_set htx'' with hmem | rfl
  · exact .inl ⟨tx'', hmem, .rfl⟩
  · exact .inl ⟨tx, List.mem_of_getElem? htx, hf _ _ hmove⟩

theorem moved_of_step (h : db.step op = some db') : db.Moved db' := by
  cases op with
  | begin start now =>
    simp only [step] at h
    split at h
    case isTrue hstart =>
      obtain ⟨db₁, hread, rfl⟩ := Option.map_eq_some_iff.mp h
      obtain ⟨-, rfl⟩ := read_eq_some hread
      refine ⟨le_max_left _ _, le_rfl, ?_, [], by simp, by simp⟩
      intro tx htx
      rcases List.mem_append.mp htx with htx | htx
      · exact .inl ⟨tx, htx, .rfl⟩
      · obtain rfl := List.mem_singleton.mp htx
        exact .inr ⟨rfl, hstart.trans (le_max_right _ _), rfl⟩
    · cases h
  | write i row => exact .of_update h fun _ _ ↦ Tx.moved_write
  | guard i now =>
    obtain ⟨db₁, hread, hupdate⟩ := Option.bind_eq_some_iff.mp h
    obtain ⟨hnow, rfl⟩ := read_eq_some hread
    obtain ⟨tx, tx', htx, hguard, rfl⟩ := update_eq_some hupdate
    refine ⟨le_max_left _ _, le_rfl, ?_, [], by simp, by simp⟩
    intro tx'' htx''
    rcases List.mem_or_eq_of_mem_set htx'' with hmem | rfl
    · exact .inl ⟨tx'', hmem, .rfl⟩
    · exact .inl ⟨tx, List.mem_of_getElem? htx, Tx.moved_guard hguard hnow⟩
  | prepare i stamp => exact .of_update h fun _ _ ↦ Tx.moved_prepare
  | commit i =>
    obtain ⟨db₁, hupdate, rfl⟩ := Option.map_eq_some_iff.mp h
    obtain ⟨tx, tx', htx, hrecord, -⟩ := update_eq_some hupdate
    have hmoved := Moved.of_update hupdate fun _ _ ↦ Tx.moved_record
    refine ⟨hmoved.clock_le, hmoved.replayed_le, hmoved.txs, _, rfl, ?_⟩
    intro record hmem row hrow
    rw [List.mem_singleton.mp hmem, htx] at hrow
    exact ⟨tx, List.mem_of_getElem? htx, Tx.open_of_record hrecord, hrow⟩
  | leave i => exact .of_update h fun _ _ ↦ Tx.moved_leave
  | otherRecord =>
    cases h
    refine ⟨le_rfl, le_rfl, fun tx htx ↦ .inl ⟨tx, htx, .rfl⟩, _, rfl, ?_⟩
    intro record hmem row hrow
    rw [List.mem_singleton.mp hmem] at hrow
    cases hrow
  | replay =>
    simp only [step] at h
    split at h
    · cases h
      exact ⟨le_rfl, Nat.le_succ _, fun tx htx ↦ .inl ⟨tx, htx, .rfl⟩, [], by simp, by simp⟩
    · cases h

end Database

structure Tx.Sound (clock : ℤ) (tx : Tx) : Prop where
  start_le : tx.start ≤ clock
  checked : ∀ c ∈ tx.checked, tx.start < c.2 + seconds fenceClockMarginSecs ∧
    floorGuard (some createdAtFloorSecs) c.1 c.2 = false
  stamped : ∀ stamp, tx.phase = .prepared stamp false →
    ∀ c ∈ tx.checked, stamp < c.2 + seconds fenceClockMarginSecs

theorem Tx.Sound.moved {clock clock' : ℤ} {tx tx' : Tx} (h : tx.Sound clock)
    (hmoved : tx.Moved clock tx') (hclock : clock ≤ clock') : tx'.Sound clock' where
  start_le := by
    rw [hmoved.start_eq]
    exact h.start_le.trans hclock
  checked c hc := by
    rw [hmoved.start_eq]
    rcases hmoved.checked c hc with hold | ⟨hnew, hpass⟩
    · exact h.checked c hold
    · exact ⟨lt_of_le_of_lt h.start_le hnew, hpass⟩
  stamped stamp hphase := by
    rcases hmoved.stamped stamp hphase with ⟨hphase, hchecked⟩ | hstamped
    · rw [hchecked]
      exact h.stamped stamp hphase
    · exact hstamped

namespace Database

variable {db db' : Database} {b : ℤ} {k : ℕ}

def Sound (db : Database) : Prop := ∀ tx ∈ db.txs, tx.Sound db.clock

theorem Sound.moved (h : db.Sound) (hmoved : db.Moved db') : db'.Sound := by
  intro tx' htx'
  rcases hmoved.txs tx' htx' with ⟨tx, htx, htxs⟩ | ⟨hchecked, hstart, hphase⟩
  · exact (h tx htx).moved htxs hmoved.clock_le
  · refine ⟨hstart, ?_, ?_⟩
    · rw [hchecked]
      nofun
    · rw [hphase]
      nofun

/-- The checks of the transactions in progress come after `b`, but for less than the margin. -/
def ActiveAbove (db : Database) (b : ℤ) : Prop :=
  b ≤ db.clock ∧ ∀ tx ∈ db.txs, tx.phase = .active false →
    ∀ c ∈ tx.checked, b < c.2 + seconds fenceClockMarginSecs

/-- So do those of every transaction that can still commit. -/
def OpenAbove (db : Database) (b : ℤ) : Prop :=
  b ≤ db.clock ∧ ∀ tx ∈ db.txs, tx.Open →
    ∀ c ∈ tx.checked, b < c.2 + seconds fenceClockMarginSecs

/-- The channel rows that are or will be committed from position `k` on are above the fence of `b`. -/
structure CommitsAbove (db : Database) (k : ℕ) (b : ℤ) : Prop where
  opened : db.OpenAbove b
  le_length : k ≤ db.wal.length
  recorded : ∀ record ∈ db.wal.drop k, ∀ row ∈ record, row.channelId.isSome →
    fenceBelow b < row.createdAt

theorem ActiveAbove.moved (h : db.ActiveAbove b) (hmoved : db.Moved db') : db'.ActiveAbove b := by
  refine ⟨h.1.trans hmoved.clock_le, ?_⟩
  intro tx' htx' hphase c hc
  rcases hmoved.txs tx' htx' with ⟨tx, htx, htxs⟩ | ⟨hchecked, -⟩
  · rcases htxs.checked c hc with hold | ⟨hnew, -⟩
    · exact h.2 tx htx (htxs.active hphase) c hold
    · exact lt_of_le_of_lt h.1 hnew
  · rw [hchecked] at hc
    cases hc

theorem OpenAbove.moved (h : db.OpenAbove b) (hmoved : db.Moved db') : db'.OpenAbove b := by
  refine ⟨h.1.trans hmoved.clock_le, ?_⟩
  intro tx' htx' hopen c hc
  rcases hmoved.txs tx' htx' with ⟨tx, htx, htxs⟩ | ⟨hchecked, -⟩
  · rcases htxs.checked c hc with hold | ⟨hnew, -⟩
    · exact h.2 tx htx (htxs.stays_open hopen) c hold
    · exact lt_of_le_of_lt h.1 hnew
  · rw [hchecked] at hc
    cases hc

theorem CommitsAbove.moved (h : db.CommitsAbove k b) (hdb : db.Sound) (hmoved : db.Moved db') :
    db'.CommitsAbove k b := by
  obtain ⟨more, hwal, hmore⟩ := hmoved.wal
  refine ⟨h.opened.moved hmoved, ?_, ?_⟩
  · rw [hwal, List.length_append]
    exact h.le_length.trans (Nat.le_add_right _ _)
  · intro record hrecord row hrow hchannel
    rw [hwal, List.drop_append_of_le_length h.le_length] at hrecord
    rcases List.mem_append.mp hrecord with hold | hnew
    · exact h.recorded record hold row hrow hchannel
    · obtain ⟨tx, htx, hopen, hmem⟩ := hmore record hnew row hrow
      obtain ⟨c, hc, rfl⟩ := List.mem_map.mp hmem
      have habove := h.opened.2 tx htx hopen c hc
      have hfloor := le_createdAt_of_floorGuard ((hdb tx htx).checked c hc).2 hchannel
      simp only [fenceBelow]
      omega

/-- The backends that show a start show one no later than the lower bound of the scan. -/
theorem activeAbove_of_scan {s : ℤ} {view : Tx → Visibility} {others : List ActivityRow}
    (hdb : db.Sound) (hs : s ≤ db.clock)
    (hmasked : (db.activity view others).countP ActivityRow.masked = 0) :
    db.ActiveAbove (lower s ((db.activity view others).filterMap ActivityRow.xactStart).min?) := by
  refine ⟨(lower_le _ _).trans hs, ?_⟩
  intro tx htx hphase c hc
  have hrow : (view tx).row tx.start ∈ db.activity view others := by
    apply List.mem_append_left
    apply List.mem_map.mpr ⟨tx, List.mem_filter.mpr ⟨htx, ?_⟩, rfl⟩
    simp only [hphase, true_or, decide_true]
  have hstart : tx.start ∈ (db.activity view others).filterMap ActivityRow.xactStart := by
    rcases (view tx).masked_or_start tx.start with hmask | hstart
    · exact (List.countP_eq_zero.mp hmasked _ hrow hmask).elim
    · exact List.mem_filterMap.mpr ⟨_, hrow, hstart⟩
  exact lt_of_le_of_lt (lower_min?_le hstart) ((hdb tx htx).checked c hc).1

/-- With the prepared transactions, the scan bounds every transaction that can still commit. -/
theorem OpenAbove.of_scans {s : ℤ} {oldest : Option ℤ} (hdb : db.Sound)
    (h : db.ActiveAbove (lower s oldest)) :
    db.OpenAbove (lower s (least oldest db.oldestPrepared)) := by
  have hleft := lower_least_le_left s oldest db.oldestPrepared
  refine ⟨hleft.trans h.1, ?_⟩
  intro tx htx hopen c hc
  rcases hopen with hactive | ⟨stamp, hprepared⟩
  · exact lt_of_le_of_lt hleft (h.2 tx htx hactive c hc)
  · have hstamp : lower s db.oldestPrepared ≤ stamp := by
      apply lower_min?_le
      refine List.mem_filterMap.mpr ⟨tx, htx, ?_⟩
      rw [hprepared]
    exact lt_of_le_of_lt ((lower_least_le_right s _ _).trans hstamp)
      ((hdb tx htx).stamped stamp hprepared c hc)

/-- Every channel row up to `t` that is ever committed is in what the replica has replayed. -/
def Verified (db : Database) (t : ℤ) : Prop :=
  ∃ k ≤ db.replayed, ∃ b, t = fenceBelow b ∧ db.CommitsAbove k b

structure Later (db db' : Database) : Prop where
  sound : db.Sound → db'.Sound
  clock_le : db.clock ≤ db'.clock
  replayed_le : db.replayed ≤ db'.replayed
  wal : db.wal <+: db'.wal
  active : ∀ b, db.ActiveAbove b → db'.ActiveAbove b
  opened : ∀ b, db.OpenAbove b → db'.OpenAbove b
  commits : db.Sound → ∀ k b, db.CommitsAbove k b → db'.CommitsAbove k b

theorem Later.refl (db : Database) : db.Later db :=
  ⟨id, le_rfl, le_rfl, List.prefix_rfl, fun _ h ↦ h, fun _ h ↦ h, fun _ _ _ h ↦ h⟩

theorem Later.trans {db₁ db₂ db₃ : Database} (h : db₁.Later db₂) (h' : db₂.Later db₃) :
    db₁.Later db₃ where
  sound hdb := h'.sound (h.sound hdb)
  clock_le := h.clock_le.trans h'.clock_le
  replayed_le := h.replayed_le.trans h'.replayed_le
  wal := h.wal.trans h'.wal
  active b hb := h'.active b (h.active b hb)
  opened b hb := h'.opened b (h.opened b hb)
  commits hdb k b hb := h'.commits (h.sound hdb) k b (h.commits hdb k b hb)

theorem Moved.later (h : db.Moved db') : db.Later db' where
  sound hdb := hdb.moved h
  clock_le := h.clock_le
  replayed_le := h.replayed_le
  wal := by
    obtain ⟨more, hwal, -⟩ := h.wal
    exact ⟨more, hwal.symm⟩
  active _ hb := hb.moved h
  opened _ hb := hb.moved h
  commits hdb _ _ hb := hb.moved hdb h

theorem Verified.later {t : ℤ} (h : db.Verified t) (hdb : db.Sound) (hlater : db.Later db') :
    db'.Verified t := by
  obtain ⟨k, hk, b, ht, hb⟩ := h
  exact ⟨k, hk.trans hlater.replayed_le, b, ht, hlater.commits hdb k b hb⟩

theorem Verified.mem_visible {t : ℤ} {row : Row} (h : db.Verified t) (hdb : db.Sound)
    (hlater : db.Later db') (hrow : row ∈ db'.committed) (hchannel : row.channelId.isSome)
    (ht : row.createdAt ≤ t) : row ∈ db.visible := by
  obtain ⟨k, hk, b, rfl, hb⟩ := h
  obtain ⟨record, hrecord, hmem⟩ := List.mem_flatten.mp hrow
  have hearly : record ∈ db'.wal.take k := by
    rw [← List.take_append_drop k db'.wal, List.mem_append] at hrecord
    rcases hrecord with hearly | hlate
    · exact hearly
    · have habove := (hlater.commits hdb k b hb).recorded record hlate row hmem hchannel
      omega
  obtain ⟨more, hwal⟩ := hlater.wal
  rw [← hwal, List.take_append_of_le_length hb.le_length] at hearly
  exact List.mem_flatten.mpr ⟨record, (List.take_subset_take_left _ hk) hearly, hmem⟩

end Database

/-- What each stage of the handshake has established. -/
def Probe.Sound (db : Database) : Probe → Prop
  | .idle | .advanced | .failed => True
  | .sampled s => s ≤ db.clock
  | .scanned s oldest masked => masked = 0 → db.ActiveAbove (lower s oldest)
  | .classified s oldest => db.OpenAbove (lower s oldest)
  | .located sample => db.CommitsAbove sample.walLsn (lower sample.sampledAt sample.oldestXactStart)
  | .covered fence => db.Verified fence

theorem Probe.Sound.later {db db' : Database} {probe : Probe} (h : probe.Sound db)
    (hdb : db.Sound) (hlater : db.Later db') : probe.Sound db' := by
  cases probe with
  | idle | advanced | failed => trivial
  | sampled s => exact le_trans h hlater.clock_le
  | scanned s oldest masked => exact fun hmasked ↦ hlater.active _ (h hmasked)
  | classified s oldest => exact hlater.opened _ h
  | located sample => exact hlater.commits hdb _ _ h
  | covered fence => exact Database.Verified.later h hdb hlater

structure World.Inv (w : World) : Prop where
  db : w.db.Sound
  probe : w.probe.Sound w.db
  fence : w.fence.fenceMicros = closed ∨ w.db.Verified w.fence.fenceMicros

namespace World

variable {w w' : World} {ops : List Op} {op : Op} {clock : ℤ}

theorem inv_initial : (World.initial clock).Inv := ⟨nofun, trivial, .inl rfl⟩

/-- A step of the probe takes the writer's clock on and no more. -/
theorem moved_of_probeStep {op : ProbeOp} (h : probeStep w op = some w') :
    w.db.Moved w'.db := by
  have hsame : w.db.Moved w.db :=
    ⟨le_rfl, le_rfl, fun tx htx ↦ .inl ⟨tx, htx, .rfl⟩, [], by simp, by simp⟩
  unfold probeStep at h
  split at h
  case h_1 =>
    obtain ⟨db, hread, rfl⟩ := Option.map_eq_some_iff.mp h
    exact .of_read hread
  all_goals cases h
  all_goals exact hsame

theorem later_of_step (h : w.step op = some w') : w.db.Later w'.db := by
  cases op with
  | db op =>
    obtain ⟨db', hstep, rfl⟩ := Option.map_eq_some_iff.mp h
    exact (Database.moved_of_step hstep).later
  | probe op => exact (moved_of_probeStep h).later

theorem later_of_run (h : w.run ops = some w') : w.db.Later w'.db :=
  foldlM_induction (r := fun w w' ↦ w.db.Later w'.db) (fun _ ↦ .refl _)
    (fun _ _ _ ↦ .trans) (fun _ _ _ ↦ later_of_step) h

theorem Inv.db_step {op : DbOp} {db' : Database} (h : w.Inv) (hstep : w.db.step op = some db') :
    ({ w with db := db' } : World).Inv := by
  have hlater := (Database.moved_of_step hstep).later
  exact ⟨hlater.sound h.db, h.probe.later h.db hlater, h.fence.imp_right fun hv ↦ hv.later h.db hlater⟩

theorem Inv.probe_step {op : ProbeOp} (h : w.Inv) (hstep : probeStep w op = some w') : w'.Inv := by
  have hlater := (moved_of_probeStep hstep).later
  have hdb := hlater.sound h.db
  have hfence := h.fence.imp_right fun hv ↦ hv.later h.db hlater
  have hprobe := h.probe
  unfold probeStep at hstep
  split at hstep
  case h_1 now _ =>
    obtain ⟨db, hread, rfl⟩ := Option.map_eq_some_iff.mp hstep
    obtain ⟨-, rfl⟩ := Database.read_eq_some hread
    exact ⟨hdb, le_max_right _ _, hfence⟩
  case h_2 s view others hphase =>
    rw [hphase] at hprobe
    cases hstep
    exact ⟨hdb, Database.activeAbove_of_scan hdb hprobe, hfence⟩
  case h_3 s oldest masked hphase =>
    rw [hphase] at hprobe
    cases hstep
    refine ⟨hdb, ?_, hfence⟩
    dsimp only
    split
    · trivial
    · exact Database.OpenAbove.of_scans hdb (hprobe (by omega))
  case h_4 s oldest hphase =>
    rw [hphase] at hprobe
    cases hstep
    refine ⟨hdb, ⟨hprobe, le_rfl, ?_⟩, hfence⟩
    rw [List.drop_length]
    nofun
  case h_5 sample reports hphase =>
    rw [hphase] at hprobe
    cases hstep
    refine ⟨hdb, ?_, hfence⟩
    dsimp only
    split
    · split
      · exact ⟨sample.walLsn, ‹_›, _, rfl, hprobe⟩
      · trivial
    · trivial
  case h_6 fence hphase =>
    rw [hphase] at hprobe
    cases hstep
    exact ⟨hdb, trivial, .inr hprobe⟩
  case h_8 =>
    cases hstep
    exact ⟨hdb, trivial, .inl rfl⟩
  all_goals cases hstep
  all_goals exact ⟨hdb, trivial, hfence⟩

theorem Inv.step (h : w.Inv) (hstep : w.step op = some w') : w'.Inv := by
  cases op with
  | db op =>
    obtain ⟨db', hdb, rfl⟩ := Option.map_eq_some_iff.mp hstep
    exact h.db_step hdb
  | probe op => exact h.probe_step hstep

theorem inv_of_run (h : (World.initial clock).run ops = some w) : w.Inv :=
  foldlM_induction (r := fun w w' ↦ w.Inv → w'.Inv) (fun _ ↦ id)
    (fun _ _ _ h h' hw ↦ h' (h hw)) (fun _ _ _ hstep hw ↦ hw.step hstep) h inv_initial

end World

/-- The run takes these operations of the probe in this order. -/
def Ran (probes : List ProbeOp) (ops : List Op) : Prop := List.Sublist (probes.map Op.probe) ops

theorem Ran.append {probes : List ProbeOp} {ops : List Op} (h : Ran probes ops) (more : List Op) :
    Ran probes (ops ++ more) :=
  h.trans (List.sublist_append_left ops more)

theorem Ran.concat {probes : List ProbeOp} {ops : List Op} (h : Ran probes ops) (op : ProbeOp) :
    Ran (probes ++ [op]) (ops ++ [.probe op]) := by
  rw [Ran, List.map_append]
  exact List.Sublist.append h (List.Sublist.refl _)

def CompleteProbe (ops : List Op) : Prop :=
  ∃ now view others, Ran [.sample now, .scanActivity view others, .scanPrepared, .locate,
    .askReplica true, .storeFence] ops

def Probe.Started (ops : List Op) : Probe → Prop
  | .idle | .failed => True
  | .sampled _ => ∃ now, Ran [.sample now] ops
  | .scanned .. => ∃ now view others, Ran [.sample now, .scanActivity view others] ops
  | .classified .. => ∃ now view others,
    Ran [.sample now, .scanActivity view others, .scanPrepared] ops
  | .located _ => ∃ now view others,
    Ran [.sample now, .scanActivity view others, .scanPrepared, .locate] ops
  | .covered _ => ∃ now view others,
    Ran [.sample now, .scanActivity view others, .scanPrepared, .locate, .askReplica true] ops
  | .advanced => CompleteProbe ops

theorem Probe.Started.append {ops : List Op} {probe : Probe} (h : probe.Started ops)
    (more : List Op) : probe.Started (ops ++ more) := by
  cases probe with
  | idle | failed => trivial
  | sampled s =>
    obtain ⟨now, h⟩ := h
    exact ⟨now, h.append more⟩
  | scanned | classified | located | covered | advanced =>
    obtain ⟨now, view, others, h⟩ := h
    exact ⟨now, view, others, h.append more⟩

/-- After a failure: `close` is yet to come, or a probe has run since, or the fence is closed and
the next probe is under way. -/
def World.Failing (ops : List Op) (w : World) : Prop :=
  (w.probe = .failed ∧ ∀ op, Op.probe op ∉ ops) ∨ CompleteProbe ops ∨
    (w.fence.fenceMicros = closed ∧ w.probe.Started ops)

theorem CompleteProbe.append {ops : List Op} (h : CompleteProbe ops) (more : List Op) :
    CompleteProbe (ops ++ more) := by
  obtain ⟨now, view, others, h⟩ := h
  exact ⟨now, view, others, h.append more⟩

/-- The one operation of the probe after an error. -/
theorem closed_of_failed {w w' : World} {op : ProbeOp} (hfailed : w.probe = .failed)
    (h : probeStep w op = some w') : w'.fence.fenceMicros = closed ∧ w'.probe = .idle := by
  unfold probeStep at h
  rw [hfailed] at h
  cases op with
  | close =>
    cases h
    exact ⟨rfl, rfl⟩
  | _ => cases h

theorem World.Failing.probe_step {ops : List Op} {w w' : World} {op : ProbeOp}
    (h : w.Failing ops) (hstep : probeStep w op = some w') :
    w'.Failing (ops ++ [.probe op]) := by
  rcases h with ⟨hfailed, -⟩ | hcomplete | ⟨hclosed, hstarted⟩
  · obtain ⟨hclosed, hidle⟩ := closed_of_failed hfailed hstep
    refine .inr (.inr ⟨hclosed, ?_⟩)
    rw [hidle]
    trivial
  · exact .inr (.inl (hcomplete.append _))
  · right
    unfold probeStep at hstep
    split at hstep
    case h_1 now hphase =>
      obtain ⟨db, -, rfl⟩ := Option.map_eq_some_iff.mp hstep
      exact .inr ⟨hclosed, now, List.sublist_append_right _ _⟩
    case h_2 s view others hphase =>
      rw [hphase] at hstarted
      obtain ⟨now, hstarted⟩ := hstarted
      cases hstep
      exact .inr ⟨hclosed, now, view, others, hstarted.concat _⟩
    case h_3 s oldest masked hphase =>
      rw [hphase] at hstarted
      obtain ⟨now, view, others, hstarted⟩ := hstarted
      cases hstep
      refine .inr ⟨hclosed, ?_⟩
      dsimp only
      split
      · trivial
      · exact ⟨now, view, others, hstarted.concat _⟩
    case h_4 s oldest hphase =>
      rw [hphase] at hstarted
      obtain ⟨now, view, others, hstarted⟩ := hstarted
      cases hstep
      exact .inr ⟨hclosed, now, view, others, hstarted.concat _⟩
    case h_5 sample reports hphase =>
      rw [hphase] at hstarted
      obtain ⟨now, view, others, hstarted⟩ := hstarted
      cases hstep
      refine .inr ⟨hclosed, ?_⟩
      dsimp only
      split
      case isTrue hreports =>
        subst hreports
        split
        · exact ⟨now, view, others, hstarted.concat _⟩
        · trivial
      · trivial
    case h_6 fence hphase =>
      rw [hphase] at hstarted
      obtain ⟨now, view, others, hstarted⟩ := hstarted
      cases hstep
      exact .inl ⟨now, view, others, hstarted.concat _⟩
    case h_7 now hphase =>
      rw [hphase] at hstarted
      exact .inl (CompleteProbe.append hstarted _)
    all_goals cases hstep
    all_goals first
      | exact .inr ⟨rfl, trivial⟩
      | exact .inr ⟨hclosed, trivial⟩

theorem World.Failing.step {ops : List Op} {w w' : World} {op : Op} (h : w.Failing ops)
    (hstep : w.step op = some w') : w'.Failing (ops ++ [op]) := by
  cases op with
  | db op =>
    obtain ⟨db', -, rfl⟩ := Option.map_eq_some_iff.mp hstep
    rcases h with ⟨hfailed, hnone⟩ | hcomplete | ⟨hclosed, hstarted⟩
    · refine .inl ⟨hfailed, fun op' hmem ↦ ?_⟩
      rcases List.mem_append.mp hmem with hmem | hmem
      · exact hnone op' hmem
      · cases List.mem_singleton.mp hmem
    · exact .inr (.inl (hcomplete.append _))
    · exact .inr (.inr ⟨hclosed, hstarted.append _⟩)
  | probe op => exact h.probe_step hstep

theorem World.Failing.run {ops : List Op} {w w' : World} (hfailed : w.probe = .failed)
    (h : w.run ops = some w') : w'.Failing ops := by
  induction ops using List.reverseRecOn generalizing w' with
  | nil =>
    cases h
    exact .inl ⟨hfailed, nofun⟩
  | append_singleton ops op ih =>
    obtain ⟨w₁, hrun, hstep⟩ := foldlM_concat_eq_some.mp h
    exact (ih hrun).step hstep

/-- The two loads of `verified_through` are taken at two points of a run, and the rows at a third:
what the answer covers is visible on the replica, whatever is committed later. After a failed probe
step the fence answers nothing from `close` on, until a probe that has run as a whole since. -/
theorem fenced_read_misses_nothing {clock : ℤ} {ops₁ ops₂ ops₃ : List Op} {w₁ w₂ w₃ : World}
    (h₁ : (World.initial clock).run ops₁ = some w₁) (h₂ : w₁.run ops₂ = some w₂)
    (h₃ : w₂.run ops₃ = some w₃) :
    (∀ now t, (ReplicaFence.mk w₁.fence.fenceMicros w₂.fence.updatedMicros).verifiedThrough now =
        some t →
      ∀ row ∈ w₃.db.committed, row.channelId.isSome → row.createdAt ≤ t → row ∈ w₂.db.visible) ∧
    (w₁.probe = .failed → ∀ now t,
      (ReplicaFence.mk w₂.fence.fenceMicros w₃.fence.updatedMicros).verifiedThrough now = some t →
      (∀ op, Op.probe op ∉ ops₂) ∨ CompleteProbe ops₂) := by
  have hinv := World.inv_of_run h₁
  have hlater := World.later_of_run h₂
  constructor
  · intro now t ht row hrow hchannel hle
    obtain ⟨hopen, hfence⟩ := ReplicaFence.eq_of_verifiedThrough ht
    obtain hclosed | hverified := hinv.fence
    · exact (hopen hclosed).elim
    · rw [show w₁.fence.fenceMicros = t from hfence] at hverified
      exact (hverified.later hinv.db hlater).mem_visible (hlater.sound hinv.db)
        (World.later_of_run h₃) hrow hchannel hle
  · intro hfailed now t ht
    obtain ⟨hopen, -⟩ := ReplicaFence.eq_of_verifiedThrough ht
    rcases World.Failing.run hfailed h₂ with ⟨-, hnone⟩ | hcomplete | ⟨hclosed, -⟩
    · exact .inl hnone
    · exact .inr hcomplete
    · exact (hopen hclosed).elim

def oldRow : Row := ⟨0, seconds 1000, some 0⟩

/-- A row is committed and replayed, then the probe runs while another transaction is open. -/
def probedOps : List Op :=
  [.db (.begin (seconds 1000) (seconds 1000)), .db (.write 0 oldRow),
    .db (.guard 0 (seconds 1500)), .db (.commit 0), .db (.leave 0),
    .db (.begin (seconds 1990) (seconds 1990)), .probe (.sample (seconds 2000)),
    .probe (.scanActivity (fun _ ↦ .shown "client backend" "active") []), .db .replay,
    .probe .scanPrepared, .probe .locate, .probe (.askReplica true), .probe .storeFence,
    .probe (.storeUpdated (seconds 2001))]

def probedWorld : World where
  db :=
    { clock := seconds 2000
      txs := [⟨seconds 1000, [], [(oldRow, seconds 1500)], .done⟩, { start := seconds 1990 }]
      wal := [[oldRow]]
      replayed := 1 }
  fence := ⟨seconds 1025, seconds 2001⟩

theorem fenced_read_sees_old_row : oldRow ∈ probedWorld.db.visible :=
  (@fenced_read_misses_nothing 0 probedOps [] [] probedWorld probedWorld probedWorld rfl rfl rfl).1
    (seconds 2010) (seconds 1025) (by decide) oldRow
    (by decide) rfl (by decide)

end Buzz.Db.Replica
