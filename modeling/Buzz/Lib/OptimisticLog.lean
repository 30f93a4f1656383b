import Mathlib.Logic.Function.Basic
import Mathlib.Data.List.Basic

namespace Buzz.Lib

variable {δ κ ν : Type*}

/-- A version of a keyed state, with the version it was made from and the updates made to that. -/
structure LogEntry (δ κ ν : Type*) where
  parent : Option δ
  id : δ
  updates : List (κ × Option ν)
  state : κ → Option ν

section Updates

variable [DecidableEq κ]

/-- Set or delete keys, in order. -/
def applyUpdates (updates : List (κ × Option ν)) (state : κ → Option ν) : κ → Option ν :=
  updates.foldl (fun state u ↦ Function.update state u.1 u.2) state

theorem applyUpdates_cons (u : κ × Option ν) (updates : List (κ × Option ν))
    (state : κ → Option ν) :
    applyUpdates (u :: updates) state = applyUpdates updates (Function.update state u.1 u.2) :=
  rfl

theorem applyUpdates_of_not_mem {updates : List (κ × Option ν)} {k : κ}
    (h : ∀ u ∈ updates, u.1 ≠ k) (state : κ → Option ν) :
    applyUpdates updates state k = state k := by
  induction updates generalizing state with
  | nil => rfl
  | cons u updates ih =>
    rw [applyUpdates_cons, ih fun u' hu' ↦ h u' (List.mem_cons_of_mem _ hu'),
      Function.update_of_ne (h u List.mem_cons_self).symm]

theorem applyUpdates_last {updates : List (κ × Option ν)} {k : κ} {v : Option ν}
    {updates' : List (κ × Option ν)} (h : ∀ u ∈ updates', u.1 ≠ k) (state : κ → Option ν) :
    applyUpdates (updates ++ (k, v) :: updates') state k = v := by
  have hsplit : applyUpdates (updates ++ (k, v) :: updates') state =
      applyUpdates updates' (Function.update (applyUpdates updates state) k v) := by
    rw [applyUpdates, List.foldl_append]
    rfl
  rw [hsplit, applyUpdates_of_not_mem h, Function.update_self]

end Updates

namespace LogEntry

def latest : List (LogEntry δ κ ν) → κ → Option ν
  | [] => fun _ ↦ none
  | e :: _ => e.state

def Prepared [DecidableEq κ] (log : List (LogEntry δ κ ν)) (e : LogEntry δ κ ν) : Prop :=
  (e.parent = none ∧ e.state = applyUpdates e.updates fun _ ↦ none) ∨
    ∃ read ∈ log, e.parent = some read.id ∧ e.state = applyUpdates e.updates read.state

/-- The entry is an atomic update of the current version. -/
def Extends [DecidableEq κ] (log : List (LogEntry δ κ ν)) (e : LogEntry δ κ ν) : Prop :=
  e.parent = log.head?.map LogEntry.id ∧ e.state = applyUpdates e.updates (latest log)

def IsSerial [DecidableEq κ] : List (LogEntry δ κ ν) → Prop
  | [] => True
  | e :: log => Extends log e ∧ IsSerial log

variable [DecidableEq κ] {log : List (LogEntry δ κ ν)} {e : LogEntry δ κ ν}

/-- Compare-and-swap: a prepared entry whose parent is still current extends the log. Versions
with one id may stand at several places as long as they have one state. -/
theorem Prepared.extends (h : Prepared log e) (hcurrent : e.parent = log.head?.map LogEntry.id)
    (hid : ∀ a ∈ log, ∀ b ∈ log, a.id = b.id → a.state = b.state) : Extends log e := by
  refine ⟨hcurrent, ?_⟩
  obtain ⟨hparent, hstate⟩ | ⟨read, hread, hparent, hstate⟩ := h
  · cases log with
    | nil => exact hstate
    | cons e' log =>
      rw [hparent] at hcurrent
      cases hcurrent
  · cases log with
    | nil => cases hread
    | cons e' log =>
      rw [hparent] at hcurrent
      have heq : read.id = e'.id := Option.some.inj hcurrent
      rw [hstate, hid read hread e' List.mem_cons_self heq]
      rfl

theorem IsSerial.append_right {newer older : List (LogEntry δ κ ν)}
    (h : IsSerial (newer ++ older)) : IsSerial older := by
  induction newer with
  | nil => exact h
  | cons e newer ih => exact ih h.2

/-- What an entry leaves under a key stays there until an entry updates the key. -/
theorem IsSerial.persists {newer older : List (LogEntry δ κ ν)} {k : κ}
    (h : IsSerial (newer ++ e :: older))
    (hnewer : ∀ e' ∈ newer, ∀ u ∈ e'.updates, u.1 ≠ k) :
    latest (newer ++ e :: older) k = e.state k := by
  induction newer with
  | nil => rfl
  | cons e' newer ih =>
    obtain ⟨⟨-, hstate⟩, hserial⟩ := h
    rw [List.cons_append, latest, hstate,
      applyUpdates_of_not_mem (hnewer e' List.mem_cons_self)]
    exact ih hserial fun e'' he'' ↦ hnewer e'' (List.mem_cons_of_mem _ he'')

end LogEntry

end Buzz.Lib
