import Buzz.Db.Events
import Buzz.Lib.Runs

namespace Buzz.Db.Replica

open Buzz.Lib Buzz.Nostr

/-- Instants are in microseconds. -/
def seconds (n : ℤ) : ℤ := n * 1000000

def createdAtFloorSecs : ℤ := 960
def fenceClockMarginSecs : ℤ := 5
def fenceStaleness : ℤ := seconds 30

/-- The sentinel `i64::MIN`. -/
def closed : ℤ := -2 ^ 63

def saturate (n : ℤ) : ℤ := max (-2 ^ 63) (min (2 ^ 63 - 1) n)

def fromTimestampMicros (micros : ℤ) : Option ℤ :=
  (fromTimestamp (micros / 1000000)).map fun _ ↦ micros

structure ReplicaFence where
  fenceMicros : ℤ := closed
  updatedMicros : ℤ := closed
deriving DecidableEq

namespace ReplicaFence

def close (fence : ReplicaFence) : ReplicaFence := { fence with fenceMicros := closed }

def storeFence (fence : ReplicaFence) (t : ℤ) : ReplicaFence := { fence with fenceMicros := t }

def storeUpdated (fence : ReplicaFence) (now : ℤ) : ReplicaFence :=
  { fence with updatedMicros := now }

def verifiedThrough (fence : ReplicaFence) (now : ℤ) : Option ℤ :=
  if fence.fenceMicros = closed then none
  else if fenceStaleness < saturate (now - fence.updatedMicros) then none
  else fromTimestampMicros fence.fenceMicros

variable {fence : ReplicaFence} {now t : ℤ}

theorem eq_of_verifiedThrough (h : fence.verifiedThrough now = some t) :
    fence.fenceMicros ≠ closed ∧ fence.fenceMicros = t := by
  unfold verifiedThrough at h
  split at h
  · cases h
  split at h
  · cases h
  obtain ⟨_, _, rfl⟩ := Option.map_eq_some_iff.mp h
  exact ⟨‹_›, rfl⟩

end ReplicaFence

/-- What of an `events` row the floor guard and the channel windows read. -/
structure Row where
  id : EventId
  createdAt : ℤ
  channelId : Option Uuid
deriving DecidableEq

/-- `events_created_at_floor_guard`, under the session's floor and at a clock reading: whether it
raises. -/
def floorGuard (floorSecs : Option ℤ) (row : Row) (clock : ℤ) : Bool :=
  match floorSecs with
  | none => false
  | some floor => 0 < floor && row.channelId.isSome && row.createdAt < clock - seconds floor

structure ActivityRow where
  backendType : Option String
  state : Option String
  xactStart : Option ℤ
deriving DecidableEq

def ActivityRow.masked (row : ActivityRow) : Bool :=
  row.backendType == none || row.backendType == some "client backend" &&
    (row.state == none || row.state != some "idle" && row.xactStart == none)

/-- How the backend of an open transaction shows to the role that probes. -/
inductive Visibility
  | shown (backendType state : String)
  | unprivileged
  | stateless
  | untracked (state : String) (notIdle : state ≠ "idle")

def Visibility.row (start : ℤ) : Visibility → ActivityRow
  | .shown backendType state => ⟨some backendType, some state, some start⟩
  | .unprivileged => ⟨none, none, none⟩
  | .stateless => ⟨some "client backend", none, none⟩
  | .untracked state _ => ⟨some "client backend", some state, none⟩

theorem Visibility.masked_or_start (view : Visibility) (start : ℤ) :
    (view.row start).masked = true ∨ (view.row start).xactStart = some start := by
  cases view with
  | shown => exact .inr rfl
  | unprivileged => exact .inl rfl
  | stateless => exact .inl rfl
  | untracked state notIdle =>
    left
    simp [row, ActivityRow.masked, notIdle]

def least (a b : Option ℤ) : Option ℤ := Option.merge min a b

structure WriterSample where
  sampledAt : ℤ
  oldestXactStart : Option ℤ
  walLsn : ℕ

def lower (sampledAt : ℤ) (oldestXactStart : Option ℤ) : ℤ :=
  match oldestXactStart with
  | some oldest => min oldest sampledAt
  | none => sampledAt

def fenceBelow (lower : ℤ) : ℤ :=
  lower - seconds createdAtFloorSecs - seconds fenceClockMarginSecs

def WriterSample.fence (sample : WriterSample) : ℤ :=
  fenceBelow (lower sample.sampledAt sample.oldestXactStart)

inductive Phase
  | active (recorded : Bool)
  | prepared (stamp : ℤ) (recorded : Bool)
  | done
deriving DecidableEq

/-- A transaction of the writer: what it has written, less and with the guard's check of it and the
clock reading of that check. -/
structure Tx where
  start : ℤ
  unchecked : List Row := []
  checked : List (Row × ℤ) := []
  phase : Phase := .active false

namespace Tx

def rows (tx : Tx) : List Row := tx.checked.map Prod.fst

def write (row : Row) (tx : Tx) : Option Tx :=
  match tx.phase with
  | .active false => some { tx with unchecked := row :: tx.unchecked }
  | _ => none

/-- The deferred trigger on one row; when it raises the transaction is over. -/
def guard (now : ℤ) (tx : Tx) : Option Tx :=
  match tx.phase, tx.unchecked with
  | .active false, row :: rest =>
    if floorGuard (some createdAtFloorSecs) row now then some { tx with phase := .done }
    else some { tx with unchecked := rest, checked := (row, now) :: tx.checked }
  | _, _ => none

/-- `PREPARE TRANSACTION`: the guard has run, less than the clock margin before the stamp. -/
def prepare (stamp : ℤ) (tx : Tx) : Option Tx :=
  if tx.phase = .active false ∧ tx.unchecked = [] ∧
      ∀ c ∈ tx.checked, stamp < c.2 + seconds fenceClockMarginSecs then
    some { tx with phase := .prepared stamp false }
  else none

def record (tx : Tx) : Option Tx :=
  match tx.phase, tx.unchecked with
  | .active false, [] => some { tx with phase := .active true }
  | .prepared stamp false, [] => some { tx with phase := .prepared stamp true }
  | _, _ => none

/-- The transaction leaves the views, after its commit record or rolled back. -/
def leave (tx : Tx) : Option Tx :=
  match tx.phase with
  | .done => none
  | _ => some { tx with phase := .done }

end Tx

/-- The writer with its log of commit records, and how much of it the replica has replayed. -/
structure Database where
  clock : ℤ
  txs : List Tx := []
  wal : List (List Row) := []
  replayed : ℕ := 0

/-- A transaction shows from a clock reading `now` on, with a `start` stamped by then. -/
inductive DbOp
  | begin (start now : ℤ)
  | write (i : ℕ) (row : Row)
  | guard (i : ℕ) (now : ℤ)
  | prepare (i : ℕ) (stamp : ℤ)
  | commit (i : ℕ)
  | leave (i : ℕ)
  | otherRecord
  | replay

namespace Database

/-- A reading of the writer's clock, which noise sets back by less than the margin. -/
def read (db : Database) (now : ℤ) : Option Database :=
  if db.clock < now + seconds fenceClockMarginSecs then
    some { db with clock := max db.clock now }
  else none

def update (db : Database) (i : ℕ) (f : Tx → Option Tx) : Option Database :=
  (db.txs[i]?.bind f).map fun tx ↦ { db with txs := db.txs.set i tx }

def step (db : Database) : DbOp → Option Database
  | .begin start now =>
    if start ≤ now then (db.read now).map fun db ↦ { db with txs := db.txs ++ [{ start }] } else none
  | .write i row => db.update i (Tx.write row)
  | .guard i now => (db.read now).bind fun db ↦ db.update i (Tx.guard now)
  | .prepare i stamp => db.update i (Tx.prepare stamp)
  | .commit i =>
    (db.update i Tx.record).map fun db' ↦
      { db' with wal := db.wal ++ [(db.txs[i]?.map Tx.rows).getD []] }
  | .leave i => db.update i Tx.leave
  | .otherRecord => some { db with wal := db.wal ++ [[]] }
  | .replay =>
    if db.replayed < db.wal.length then some { db with replayed := db.replayed + 1 } else none

def committed (db : Database) : List Row := db.wal.flatten

def visible (db : Database) : List Row := (db.wal.take db.replayed).flatten

/-- `pg_stat_activity`, with the rows of backends that have no transaction. -/
def activity (db : Database) (view : Tx → Visibility) (others : List ActivityRow) :
    List ActivityRow :=
  (db.txs.filter fun tx ↦ tx.phase = .active false ∨ tx.phase = .active true).map
    (fun tx ↦ (view tx).row tx.start) ++ others

def oldestPrepared (db : Database) : Option ℤ :=
  (db.txs.filterMap fun tx ↦
    match tx.phase with
    | .prepared stamp _ => some stamp
    | _ => none).min?

end Database

/-- Where the probe task is: between the statements of `sample_writer` and `replica_covers`, in the
two stores of `advance`, or at `close` after an error. -/
inductive Probe
  | idle
  | sampled (sampledAt : ℤ)
  | scanned (sampledAt : ℤ) (oldest : Option ℤ) (masked : ℕ)
  | classified (sampledAt : ℤ) (oldest : Option ℤ)
  | located (sample : WriterSample)
  | covered (fence : ℤ)
  | advanced
  | failed

inductive ProbeOp
  | sample (now : ℤ)
  | scanActivity (view : Tx → Visibility) (others : List ActivityRow)
  | scanPrepared
  | locate
  | askReplica (reports : Bool)
  | storeFence
  | storeUpdated (now : ℤ)
  | fail
  | close

inductive Op
  | db (op : DbOp)
  | probe (op : ProbeOp)

structure World where
  db : Database
  probe : Probe := .idle
  fence : ReplicaFence := {}

def World.initial (clock : ℤ) : World := { db := { clock } }

def probeStep (w : World) (op : ProbeOp) : Option World :=
  match w.probe, op with
  | .idle, .sample now => (w.db.read now).map fun db ↦ { w with db, probe := .sampled now }
  | .sampled s, .scanActivity view others =>
    let rows := w.db.activity view others
    some { w with
      probe := .scanned s (rows.filterMap ActivityRow.xactStart).min?
        (rows.countP ActivityRow.masked) }
  | .scanned s oldest masked, .scanPrepared =>
    some { w with probe :=
      if 0 < masked then .failed else .classified s (least oldest w.db.oldestPrepared) }
  | .classified s oldest, .locate =>
    some { w with probe := .located ⟨s, oldest, w.db.wal.length⟩ }
  | .located sample, .askReplica reports =>
    some { w with probe :=
      if reports then
        if sample.walLsn ≤ w.db.replayed then .covered sample.fence else .idle
      else .failed }
  | .covered fence, .storeFence =>
    some { w with fence := w.fence.storeFence fence, probe := .advanced }
  | .advanced, .storeUpdated now =>
    some { w with fence := w.fence.storeUpdated now, probe := .idle }
  | .failed, .close => some { w with fence := w.fence.close, probe := .idle }
  | .idle, .fail | .sampled _, .fail | .scanned .., .fail | .classified .., .fail
  | .located _, .fail => some { w with probe := .failed }
  | _, _ => none

def World.step (w : World) : Op → Option World
  | .db op => (w.db.step op).map fun db ↦ { w with db }
  | .probe op => probeStep w op

def World.run (w : World) (ops : List Op) : Option World := ops.foldlM World.step w

end Buzz.Db.Replica
