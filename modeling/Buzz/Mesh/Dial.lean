import Buzz.Lib.Runs
import Buzz.Mesh.Gossip
import Mathlib.Data.Fintype.Basic

namespace Buzz.Mesh.Dial

open Buzz.Lib
open Buzz.Relay.Tunnel (RuntimeId)

inductive Role
  | dialer
  | acceptor
deriving DecidableEq, Repr

instance : Fintype Role where
  elems := {.dialer, .acceptor}
  complete r := by cases r <;> decide

def Role.other : Role → Role
  | dialer => acceptor
  | acceptor => dialer

inductive PeerTask
  | datagramRecv
  | streamAccept
  | controlStream
deriving DecidableEq, Repr

instance : Fintype PeerTask where
  elems := {.datagramRecv, .streamAccept, .controlStream}
  complete t := by cases t <;> decide

/-- A task is parked at an await or being polled; an abort takes effect at its next await. -/
inductive TaskState
  | absent
  | parked
  | running (aborted : Bool)
  | ended
deriving DecidableEq, Repr

def TaskState.abort : TaskState → TaskState
  | parked => ended
  | running _ => running true
  | s => s

def TaskState.live : TaskState → Bool
  | parked => true
  | running _ => true
  | _ => false

/-- `peer` is one end of a connection, and so are the tasks that the entry would abort;
`controlTx` is the connection whose control stream the writer queue feeds. -/
structure PeerEntry where
  conn : ℕ
  role : Role
  controlTx : Option ℕ
deriving DecidableEq

/-- The connections between runtimes and the peer table of each. An end is resolved when its
connect or accept has been handled; `exchange` is the detached control exchange of the accepting
end, and `streams` says that session streams are open at an end. -/
structure Net where
  conns : ℕ
  node : ℕ → Role → RuntimeId
  closed : ℕ → Bool
  resolved : ℕ → Role → Bool
  tasks : ℕ → Role → PeerTask → TaskState
  exchange : ℕ → Bool
  streams : ℕ → Role → Bool
  peers : RuntimeId → RuntimeId → Option PeerEntry

def newConnectionWins (localId remote : RuntimeId) (newDialedByUs : Bool) : Bool :=
  if localId < remote then newDialedByUs else !newDialedByUs

namespace Net

def start : Net where
  conns := 0
  node _ _ := 0
  closed _ := false
  resolved _ _ := false
  tasks _ _ _ := .absent
  exchange _ := false
  streams _ _ := false
  peers _ _ := none

def resolve (w : Net) (c : ℕ) (r : Role) : Net :=
  { w with resolved := fun c' r' ↦ if c' = c ∧ r' = r then true else w.resolved c' r' }

def setTasks (w : Net) (c : ℕ) (r : Role) (f : PeerTask → TaskState → TaskState) : Net :=
  { w with tasks := fun c' r' t ↦
      if c' = c ∧ r' = r then f t (w.tasks c' r' t) else w.tasks c' r' t }

def abort (w : Net) (e : PeerEntry) : Net := w.setTasks e.conn e.role fun _ s ↦ s.abort

def setPeer (w : Net) (localId remote : RuntimeId) (e : Option PeerEntry) : Net :=
  { w with peers := fun x y ↦ if x = localId ∧ y = remote then e else w.peers x y }

def spawn (w : Net) (c : ℕ) (r : Role) : Net :=
  w.setTasks c r fun t _ ↦
    if t = .controlStream ∧ r = .acceptor then .absent else .parked

/-- What `install_peer` does when the new connection goes in. -/
def insertPeer (w : Net) (c : ℕ) (r : Role) : Net :=
  (w.spawn c r).setPeer (w.node c r) (w.node c r.other)
    (some ⟨c, r, if r = .dialer then some c else none⟩)

def installPeer (w : Net) (c : ℕ) (r : Role) : Bool × Net :=
  let localId := w.node c r
  let remote := w.node c r.other
  match w.peers localId remote with
  | some existing =>
    if !newConnectionWins localId remote (r = .dialer) then (false, w)
    else (true, (w.abort existing).insertPeer c r)
  | none => (true, w.insertPeer c r)

def removePeer (w : Net) (localId remote : RuntimeId) : Net :=
  match w.peers localId remote with
  | some entry => (w.setPeer localId remote none).abort entry
  | none => w

/-- An end lets go of its connection when it has dropped every handle of it. -/
def Holds (w : Net) (c : ℕ) (r : Role) : Prop :=
  w.resolved c r = false ∨
    (∃ e ∈ w.peers (w.node c r) (w.node c r.other), e.conn = c ∧ e.role = r) ∨
    (∃ t ∈ [PeerTask.datagramRecv, .streamAccept, .controlStream], (w.tasks c r t).live = true) ∨
    (r = .acceptor ∧ w.exchange c = true) ∨ w.streams c r = true

instance (w : Net) (c : ℕ) (r : Role) : Decidable (w.Holds c r) :=
  inferInstanceAs (Decidable (_ ∨ _ ∨ _ ∨ _ ∨ _))

end Net

/-- `connected` and `accepted` are the returns of connect and accept; a connection is lost at any
time, and `dropped` when an end holds it no longer. The stream loop ends when its connection does,
the other tasks also at what they cannot decode. -/
inductive Op
  | dial (localId remote : RuntimeId)
  | connected (conn : ℕ)
  | dialFailed (conn : ℕ)
  | accepted (conn : ℕ) (known : Bool)
  | lose (conn : ℕ)
  | dropped (conn : ℕ) (role : Role)
  | wake (conn : ℕ) (role : Role) (task : PeerTask)
  | park (conn : ℕ) (role : Role) (task : PeerTask)
  | ends (conn : ℕ) (role : Role) (task : PeerTask)
  | controlHello (conn : ℕ)
  | exchangeEnds (conn : ℕ)
  | sessionStream (conn : ℕ) (role : Role)
  | sessionsEnd (conn : ℕ) (role : Role)
deriving DecidableEq

namespace Net

def setTask (w : Net) (c : ℕ) (r : Role) (t : PeerTask) (s : TaskState) : Net :=
  w.setTasks c r fun t' s' ↦ if t' = t then s else s'

def step (w : Net) : Op → Option Net
  | .dial x y =>
    if x ≠ y ∧ w.peers x y = none then
      some { w with
        conns := w.conns + 1
        node := fun c r ↦
          if c = w.conns then (match r with | .dialer => x | .acceptor => y) else w.node c r }
    else none
  | .connected c =>
    if c < w.conns ∧ w.resolved c .dialer = false then
      some ((w.resolve c .dialer).installPeer c .dialer).2
    else none
  | .dialFailed c =>
    if c < w.conns ∧ w.resolved c .dialer = false then some (w.resolve c .dialer) else none
  | .accepted c known =>
    if c < w.conns ∧ w.resolved c .acceptor = false then
      let w := w.resolve c .acceptor
      some (if known then (w.installPeer c .acceptor).2 else w)
    else none
  | .lose c =>
    if c < w.conns then
      some { w with closed := fun c' ↦ if c' = c then true else w.closed c' }
    else none
  | .dropped c r =>
    if c < w.conns ∧ ¬w.Holds c r then
      some { w with closed := fun c' ↦ if c' = c then true else w.closed c' }
    else none
  | .wake c r t => if w.tasks c r t = .parked then some (w.setTask c r t (.running false)) else none
  | .park c r t =>
    match w.tasks c r t with
    | .running false => some (w.setTask c r t .parked)
    | .running true => some (w.setTask c r t .ended)
    | _ => none
  | .ends c r t =>
    match w.tasks c r t with
    | .running _ =>
      if t = .streamAccept ∧ w.closed c = false then none
      else
        let w := if t = .controlStream then w else w.removePeer (w.node c r) (w.node c r.other)
        some (w.setTask c r t .ended)
    | _ => none
  | .controlHello c =>
    match w.tasks c .acceptor .streamAccept with
    | .running _ =>
      let localId := w.node c .acceptor
      let remote := w.node c .dialer
      let w := w.setPeer localId remote
        ((w.peers localId remote).map fun e ↦ { e with controlTx := some c })
      some { w with exchange := fun c' ↦ if c' = c then true else w.exchange c' }
    | _ => none
  | .exchangeEnds c =>
    if w.exchange c = true then
      some { w with exchange := fun c' ↦ if c' = c then false else w.exchange c' }
    else none
  | .sessionStream c r =>
    if (∃ e ∈ w.peers (w.node c r) (w.node c r.other), e.conn = c ∧ e.role = r) ∨
        ∃ b, w.tasks c r .streamAccept = .running b then
      some { w with streams := fun c' r' ↦ if c' = c ∧ r' = r then true else w.streams c' r' }
    else none
  | .sessionsEnd c r =>
    some { w with streams := fun c' r' ↦ if c' = c ∧ r' = r then false else w.streams c' r' }

def run (w : Net) (ops : List Op) : Option Net := ops.foldlM step w

def held (w : Net) (x y : RuntimeId) : Option ℕ := (w.peers x y).map PeerEntry.conn

/-- No dial is in progress and every closure has been noticed: all tasks are parked or over, and
an open connection is held at both ends. -/
structure Settled (w : Net) : Prop where
  resolved : ∀ c < w.conns, ∀ r, w.resolved c r = true
  quiet : ∀ c < w.conns, ∀ r t b, w.tasks c r t ≠ .running b
  noticed : ∀ c < w.conns, w.closed c = true → ∀ r t, w.tasks c r t ≠ .parked
  exchanged : ∀ c < w.conns, w.closed c = true → w.exchange c = false
  held : ∀ c < w.conns, w.closed c = false → ∀ r, w.Holds c r

instance (w : Net) : Decidable w.Settled :=
  decidable_of_iff ((∀ c < w.conns, ∀ r, w.resolved c r = true) ∧
    (∀ c < w.conns, ∀ r t b, w.tasks c r t ≠ .running b) ∧
    (∀ c < w.conns, w.closed c = true → ∀ r t, w.tasks c r t ≠ .parked) ∧
    (∀ c < w.conns, w.closed c = true → w.exchange c = false) ∧
    ∀ c < w.conns, w.closed c = false → ∀ r, w.Holds c r)
    ⟨fun h ↦ ⟨h.1, h.2.1, h.2.2.1, h.2.2.2.1, h.2.2.2.2⟩,
      fun h ↦ ⟨h.resolved, h.quiet, h.noticed, h.exchanged, h.held⟩⟩

end Net

end Buzz.Mesh.Dial
