import Mathlib.Data.List.Basic
import Mathlib.Logic.Relation

namespace Buzz.Lib.Locks

inductive Instr (α Λ : Type*)
  | lock (action : α)
  | unlock (lock : Λ)

/-- Actions on shared data under readers-writer locks. All that an action reads and writes is behind
its lock, so it is one step with the acquisition; it says how the call goes on. -/
structure Machine (σ α Λ : Type*) where
  lock : α → Λ
  exclusive : α → Bool
  run : α → σ → σ × List (Instr α Λ)

/-- A running call with the locks that it holds, each shared or exclusive. -/
structure Call (α Λ : Type*) where
  program : List (Instr α Λ)
  held : List (Λ × Bool) := []

structure System (σ α Λ : Type*) where
  data : σ
  calls : List (Call α Λ) := []

variable {σ α Λ : Type*} [DecidableEq Λ]

def Call.blocks (c : Call α Λ) (lock : Λ) (exclusive : Bool) : Bool :=
  c.held.any fun h ↦ decide (h.1 = lock) && (exclusive || h.2)

namespace System

variable (M : Machine σ α Λ)

def start (s : System σ α Λ) (program : List (Instr α Λ)) : System σ α Λ :=
  { s with calls := s.calls ++ [{ program }] }

def free (s : System σ α Λ) (action : α) : Bool :=
  s.calls.all fun c ↦ !c.blocks (M.lock action) (M.exclusive action)

def advance (s : System σ α Λ) (i : ℕ) : System σ α Λ :=
  match s.calls[i]? with
  | none => s
  | some c =>
    match c.program with
    | [] => s
    | .unlock lock :: rest =>
      { s with calls := s.calls.set i ⟨rest, c.held.eraseP fun h ↦ decide (h.1 = lock)⟩ }
    | .lock action :: rest =>
      if s.free M action then
        ⟨(M.run action s.data).1, s.calls.set i ⟨(M.run action s.data).2 ++ rest,
          (M.lock action, M.exclusive action) :: c.held⟩⟩
      else s

def WaitsFor (s : System σ α Λ) (i j : ℕ) : Prop :=
  ∃ c c' action rest, s.calls[i]? = some c ∧ s.calls[j]? = some c' ∧
    c.program = .lock action :: rest ∧
    c'.blocks (M.lock action) (M.exclusive action) = true

/-- Some calls wait for each other in a cycle. -/
def Deadlocked (s : System σ α Λ) : Prop := ∃ i, Relation.TransGen (s.WaitsFor M) i i

end System

/-- A program that, whatever it finds in the data, asks for locks only as `Allowed` with those that it
holds, and releases them in reverse order until it has none. -/
inductive Disciplined (M : Machine σ α Λ) (Allowed : List (Λ × Bool) → α → Prop) :
    List (Λ × Bool) → List (Instr α Λ) → Prop
  | nil : Disciplined M Allowed [] []
  | unlock {lock : Λ} {exclusive : Bool} {held : List (Λ × Bool)} {rest : List (Instr α Λ)} :
      Disciplined M Allowed held rest →
        Disciplined M Allowed ((lock, exclusive) :: held) (.unlock lock :: rest)
  | lock {action : α} {held : List (Λ × Bool)} {rest : List (Instr α Λ)} :
      Allowed held action →
        (∀ data, Disciplined M Allowed ((M.lock action, M.exclusive action) :: held)
          ((M.run action data).2 ++ rest)) →
        Disciplined M Allowed held (.lock action :: rest)

variable {M : Machine σ α Λ} {Allowed : List (Λ × Bool) → α → Prop}

omit [DecidableEq Λ] in
theorem Disciplined.append {held : List (Λ × Bool)} {program rest : List (Instr α Λ)}
    (h : Disciplined M Allowed held program) (hrest : Disciplined M Allowed [] rest) :
    Disciplined M Allowed held (program ++ rest) := by
  induction h with
  | nil => exact hrest
  | unlock _ ih => exact .unlock ih
  | lock hallowed _ ih =>
    refine .lock hallowed fun data ↦ ?_
    rw [List.append_eq, ← List.append_assoc]
    exact ih data

omit [DecidableEq Λ] in
theorem Disciplined.unlock_inv {held : List (Λ × Bool)} {lock : Λ} {rest : List (Instr α Λ)}
    (h : Disciplined M Allowed held (.unlock lock :: rest)) :
    ∃ exclusive held', held = (lock, exclusive) :: held' ∧ Disciplined M Allowed held' rest := by
  cases h with
  | unlock hrest => exact ⟨_, _, rfl, hrest⟩

omit [DecidableEq Λ] in
theorem Disciplined.lock_inv {held : List (Λ × Bool)} {action : α} {rest : List (Instr α Λ)}
    (h : Disciplined M Allowed held (.lock action :: rest)) :
    Allowed held action ∧ ∀ data, Disciplined M Allowed
      ((M.lock action, M.exclusive action) :: held) ((M.run action data).2 ++ rest) := by
  cases h with
  | lock hallowed hnext => exact ⟨hallowed, hnext⟩

namespace System

def AllDisciplined (M : Machine σ α Λ) (Allowed : List (Λ × Bool) → α → Prop)
    (s : System σ α Λ) : Prop :=
  ∀ c ∈ s.calls, Disciplined M Allowed c.held c.program

variable {s : System σ α Λ}

omit [DecidableEq Λ] in
theorem AllDisciplined.start (h : s.AllDisciplined M Allowed) {program : List (Instr α Λ)}
    (hprogram : Disciplined M Allowed [] program) : (s.start program).AllDisciplined M Allowed := by
  intro c hc
  rcases List.mem_append.mp hc with hc | hc
  · exact h c hc
  · rw [List.mem_singleton.mp hc]
    exact hprogram

theorem AllDisciplined.advance (h : s.AllDisciplined M Allowed) (i : ℕ) :
    (s.advance M i).AllDisciplined M Allowed := by
  rw [System.advance]
  cases hi : s.calls[i]? with
  | none => exact h
  | some c =>
    have hc := h c (List.mem_of_getElem? hi)
    simp only
    split
    · exact h
    · next lock rest hprogram =>
      intro c' hc'
      rcases List.mem_or_eq_of_mem_set hc' with hc' | rfl
      · exact h c' hc'
      · rw [hprogram] at hc
        obtain ⟨exclusive, held, hheld, hrest⟩ := hc.unlock_inv
        simp only [hheld, List.eraseP_cons, decide_true]
        exact hrest
    · next action rest hprogram =>
      split
      · intro c' hc'
        rcases List.mem_or_eq_of_mem_set hc' with hc' | rfl
        · exact h c' hc'
        · rw [hprogram] at hc
          exact hc.lock_inv.2 s.data
      · exact h

omit [DecidableEq Λ] in
theorem AllDisciplined.allowed (h : s.AllDisciplined M Allowed) {c : Call α Λ} (hc : c ∈ s.calls)
    {action : α} {rest : List (Instr α Λ)} (hprogram : c.program = .lock action :: rest) :
    Allowed c.held action := by
  have hdisciplined := h c hc
  rw [hprogram] at hdisciplined
  exact hdisciplined.lock_inv.1

end System

theorem exists_next_of_cycle {ι : Type*} {r : ι → ι → Prop} {i : ι}
    (h : Relation.TransGen r i i) : ∃ j, r i j ∧ Relation.TransGen r j j := by
  obtain ⟨j, hij, hji⟩ := Relation.TransGen.head'_iff.mp h
  exact ⟨j, hij, Relation.TransGen.tail' hji hij⟩

end Buzz.Lib.Locks
