import Mathlib.Logic.Basic

namespace Buzz.Lib

universe u

variable {σ ε : Type*} {α β : Type u}

/-- Go on with a result, or return its error and leave the state as it was. -/
def attempt (s : σ) (x : Except ε α) (k : α → Except ε β × σ) : Except ε β × σ :=
  match x with
  | .error err => (.error err, s)
  | .ok a => k a

def okOr (x : Option α) (err : ε) : Except ε α :=
  match x with
  | some a => .ok a
  | none => .error err

/-- Return an error unless `p` holds. -/
def require (p : Prop) [Decidable p] (err : ε) : Except ε PUnit.{u + 1} :=
  if p then .ok ⟨⟩ else .error err

theorem attempt_cases (s : σ) (x : Except ε α) (k : α → Except ε β × σ) :
    (∃ err, x = .error err ∧ attempt s x k = (.error err, s)) ∨
      ∃ a, x = .ok a ∧ attempt s x k = k a := by
  cases x with
  | error err => exact .inl ⟨err, rfl, rfl⟩
  | ok a => exact .inr ⟨a, rfl, rfl⟩

theorem attempt_of_eq_ok {s : σ} {x : Except ε α} {k : α → Except ε β × σ} {a : α}
    (h : x = .ok a) : attempt s x k = k a := by
  rw [h]
  rfl

theorem bind_eq_ok {x : Except ε α} {f : α → Except ε β} {b : β} :
    (x >>= f) = .ok b ↔ ∃ a, x = .ok a ∧ f a = .ok b := by
  cases x with
  | error err => simp [bind, Except.bind]
  | ok a => simp [bind, Except.bind]

theorem map_eq_ok {x : Except ε α} {f : α → β} {b : β} :
    x.map f = .ok b ↔ ∃ a, x = .ok a ∧ f a = b := by
  cases x with
  | error err => simp [Except.map]
  | ok a => simp [Except.map]

theorem mapError_error {ε' : Type*} {f : ε → ε'} {err : ε} :
    (.error err : Except ε α).mapError f = .error (f err) := rfl

theorem mapError_ok {ε' : Type*} {f : ε → ε'} {a : α} :
    (.ok a : Except ε α).mapError f = .ok a := rfl

theorem mapError_eq_ok {ε' : Type*} {x : Except ε α} {f : ε → ε'} {b : α} :
    x.mapError f = .ok b ↔ x = .ok b := by
  cases x with
  | error err => simp [mapError_error]
  | ok b' => simp [mapError_ok]

theorem okOr_eq_ok {x : Option α} {err : ε} {a : α} : okOr x err = .ok a ↔ x = some a := by
  cases x with
  | none => simp [okOr]
  | some b => simp [okOr]

theorem require_eq_ok {p : Prop} [Decidable p] {err : ε} {a : PUnit.{u + 1}} :
    require p err = .ok a ↔ p := by
  by_cases hp : p
  · simp [require, hp]
  · simp [require, hp]

theorem ite_error_eq_ok {p : Prop} [Decidable p] {err : ε} {x : Except ε α} {a : α} :
    (if p then .error err else x) = .ok a ↔ ¬p ∧ x = .ok a := by
  by_cases hp : p
  · simp [hp]
  · simp [hp]

theorem forM_eq_ok {γ : Type*} {f : γ → Except ε Unit} {l : List γ} {u : Unit} :
    l.forM f = .ok u ↔ ∀ a ∈ l, f a = .ok () := by
  induction l with
  | nil => exact iff_of_true rfl (by simp)
  | cons a l ih =>
    rw [List.forM, bind_eq_ok, List.forall_mem_cons]
    exact ⟨fun ⟨_, ha, hl⟩ ↦ ⟨ha, ih.mp hl⟩, fun ⟨ha, hl⟩ ↦ ⟨(), ha, ih.mpr hl⟩⟩

/-- There is a result. -/
def Succeeds (x : Except ε α) : Prop := ∃ a, x = .ok a

theorem not_succeeds_iff {x : Except ε α} : ¬Succeeds x ↔ ∃ err, x = .error err := by
  cases x with
  | error err => simp [Succeeds]
  | ok a => simp [Succeeds]

theorem succeeds_pure (a : α) : Succeeds (pure a : Except ε α) := ⟨a, rfl⟩

theorem succeeds_bind {x : Except ε α} {f : α → Except ε β} :
    Succeeds (x >>= f) ↔ ∃ a, x = .ok a ∧ Succeeds (f a) := by
  simp only [Succeeds, bind_eq_ok]
  exact ⟨fun ⟨b, a, ha, hb⟩ ↦ ⟨a, ha, b, hb⟩, fun ⟨a, ha, b, hb⟩ ↦ ⟨b, a, ha, hb⟩⟩

theorem succeeds_bind_pure {x : Except ε α} {f : α → β} :
    (Succeeds do let a ← x; pure (f a)) ↔ Succeeds x := by
  rw [succeeds_bind]
  exact exists_congr fun a ↦ and_iff_left (succeeds_pure _)

theorem succeeds_mapError_bind {ε' : Type*} {x : Except ε α} {g : ε → ε'} {f : α → Except ε' β} :
    Succeeds (x.mapError g >>= f) ↔ ∃ a, x = .ok a ∧ Succeeds (f a) := by
  simp only [succeeds_bind, mapError_eq_ok]

theorem succeeds_require_bind {p : Prop} [Decidable p] {err : ε} {f : PUnit → Except ε β} :
    Succeeds (require p err >>= f) ↔ p ∧ Succeeds (f ⟨⟩) := by
  rw [succeeds_bind]
  exact ⟨fun ⟨_, hp, hf⟩ ↦ ⟨require_eq_ok.mp hp, hf⟩, fun ⟨hp, hf⟩ ↦ ⟨⟨⟩, require_eq_ok.mpr hp, hf⟩⟩

theorem succeeds_okOr_bind {x : Option α} {err : ε} {f : α → Except ε β} :
    Succeeds (okOr x err >>= f) ↔ ∃ a, x = some a ∧ Succeeds (f a) := by
  simp only [succeeds_bind, okOr_eq_ok]

/-- A text that is found and then parsed. -/
theorem succeeds_okOr_parse_bind {γ : Type u} {x : Option α} {parse : α → Option γ} {err err' : ε}
    {f : γ → Except ε β} :
    (Succeeds do let a ← okOr x err; let c ← okOr (parse a) err'; f c) ↔
      ∃ c, x.bind parse = some c ∧ Succeeds (f c) := by
  simp only [succeeds_okOr_bind, Option.bind_eq_some_iff]
  constructor
  · rintro ⟨a, ha, c, hc, hf⟩
    exact ⟨c, ⟨a, ha, hc⟩, hf⟩
  · rintro ⟨c, ⟨a, ha, hc⟩, hf⟩
    exact ⟨a, ha, c, hc, hf⟩

end Buzz.Lib
