import Mathlib.Data.List.Induction

namespace Buzz.Lib

variable {σ ο : Type*}

/-- When a good state is left exactly by a bad step, a run stays good iff it takes no bad step. -/
theorem forall_prefix_good_iff (step : σ → ο → σ) (Inv Good : σ → Prop) (Bad : σ → ο → Prop)
    {init : σ} (hinit : Inv init) (hgood : Good init)
    (hinv : ∀ s op, Inv s → Inv (step s op))
    (hstep : ∀ s op, Inv s → Good s → (Good (step s op) ↔ ¬Bad s op)) (ops : List ο) :
    (∀ pre, pre <+: ops → Good (pre.foldl step init)) ↔
      ∀ pre op, pre ++ [op] <+: ops → ¬Bad (pre.foldl step init) op := by
  have hreach (pre : List ο) : Inv (pre.foldl step init) :=
    List.foldlRecOn pre step hinit fun s hs op _ ↦ hinv s op hs
  constructor
  · intro h pre op hpre
    have hlast := h (pre ++ [op]) hpre
    rw [List.foldl_append] at hlast
    apply (hstep _ op (hreach pre) ?_).mp hlast
    exact h pre ((List.prefix_append pre [op]).trans hpre)
  · intro h pre
    induction pre using List.reverseRecOn with
    | nil =>
      intro _
      exact hgood
    | append_singleton pre op ih =>
      intro hpre
      rw [List.foldl_append]
      apply (hstep _ op (hreach pre) ?_).mpr (h pre op hpre)
      exact ih ((List.prefix_append pre [op]).trans hpre)

/-- A run without bad steps keeps what the other steps keep. -/
theorem forall_prefix_of_steps (step : σ → ο → σ) (Inv : σ → Prop) (Bad : σ → ο → Prop) {init : σ}
    (hinit : Inv init) (hstep : ∀ s op, Inv s → ¬Bad s op → Inv (step s op)) {ops : List ο}
    (h : ∀ pre op, pre ++ [op] <+: ops → ¬Bad (pre.foldl step init) op) :
    ∀ pre, pre <+: ops → Inv (pre.foldl step init) := by
  intro pre
  induction pre using List.reverseRecOn with
  | nil =>
    intro _
    exact hinit
  | append_singleton pre op ih =>
    intro hpre
    rw [List.foldl_append]
    exact hstep _ op (ih ((List.prefix_append pre [op]).trans hpre)) (h pre op hpre)

theorem forall_step_of_lt {P : List ο → ο → Prop} {ops : List ο}
    (h : ∀ n, (hn : n < ops.length) → P (ops.take n) (ops.get ⟨n, hn⟩)) :
    ∀ pre op, pre ++ [op] <+: ops → P pre op := by
  rintro pre op ⟨post, rfl⟩
  have hlen : pre.length < (pre ++ [op] ++ post).length := by
    simp only [List.length_append, List.length_singleton]
    omega
  have hstep := h pre.length hlen
  simpa using hstep

theorem forall_mem_concat {P : ο → Prop} {log : List ο} {a : ο} (h : ∀ b ∈ log, P b) (ha : P a) :
    ∀ b ∈ log ++ [a], P b :=
  List.forall_mem_append.mpr ⟨h, List.forall_mem_singleton.mpr ha⟩

/-- What each entry of a log has to the entries before it, one entry more. -/
theorem forall_split_concat {P : List ο → ο → Prop} {log : List ο} {a : ο}
    (h : ∀ pre b post, log = pre ++ b :: post → P pre b) (ha : P log a) :
    ∀ pre b post, log ++ [a] = pre ++ b :: post → P pre b := by
  intro pre b post heq
  induction post using List.reverseRecOn with
  | nil =>
    obtain ⟨rfl, hb⟩ := List.append_inj' heq rfl
    rwa [← List.singleton_inj.mp hb]
  | append_singleton post a' _ =>
    rw [← List.cons_append, ← List.append_assoc] at heq
    exact h pre b post (List.append_inj' heq rfl).1

/-- What comes to hold along a run comes to hold at a step. -/
theorem exists_entering_step {P : List ο → Prop} {pre post : List ο} (hnot : ¬P pre)
    (hP : P (pre ++ post)) :
    ∃ mid op, pre <+: mid ∧ mid ++ [op] <+: pre ++ post ∧ ¬P mid ∧ P (mid ++ [op]) := by
  induction post using List.reverseRecOn with
  | nil =>
    rw [List.append_nil] at hP
    exact (hnot hP).elim
  | append_singleton post op ih =>
    rw [← List.append_assoc] at hP ⊢
    by_cases hpost : P (pre ++ post)
    · obtain ⟨mid, op', hpre, hmid, hstep⟩ := ih hpost
      exact ⟨mid, op', hpre, hmid.trans (List.prefix_append _ _), hstep⟩
    · exact ⟨pre ++ post, op, List.prefix_append _ _, List.prefix_refl _, hpost, hP⟩

/-- A run that ends took its last step from the end of a run. -/
theorem foldlM_concat_eq_some {step : σ → ο → Option σ} {init s' : σ} {ops : List ο} {op : ο} :
    (ops ++ [op]).foldlM step init = some s' ↔
      ∃ s, ops.foldlM step init = some s ∧ step s op = some s' := by
  rw [List.foldlM_append, Option.bind_eq_bind, Option.bind_eq_some_iff]
  simp only [List.foldlM_cons, List.foldlM_nil, Option.bind_eq_bind, Option.pure_def,
    Option.bind_fun_some]

/-- A relation that holds along each step holds along a run. -/
theorem foldlM_induction {step : σ → ο → Option σ} {r : σ → σ → Prop} (hrefl : ∀ s, r s s)
    (htrans : ∀ s₁ s₂ s₃, r s₁ s₂ → r s₂ s₃ → r s₁ s₃)
    (hstep : ∀ s op s', step s op = some s' → r s s') {ops : List ο} {s s' : σ}
    (h : ops.foldlM step s = some s') : r s s' := by
  induction ops generalizing s with
  | nil =>
    cases h
    exact hrefl _
  | cons op ops ih =>
    rw [List.foldlM_cons] at h
    obtain ⟨s₁, hs₁, hrest⟩ := Option.bind_eq_some_iff.mp h
    exact htrans s s₁ s' (hstep s op s₁ hs₁) (ih hrest)

/-- What the admitted steps keep holds after a run of admitted steps. -/
theorem foldlM_invariant_of_allowed {step : σ → ο → Option σ} {Inv : σ → Prop} {Ok : σ → ο → Prop}
    {init s : σ} {ops : List ο} (hinit : Inv init)
    (hstep : ∀ s op s', Inv s → Ok s op → step s op = some s' → Inv s')
    (hok : ∀ pre op, pre ++ [op] <+: ops → ∀ t, pre.foldlM step init = some t → Ok t op)
    (hrun : ops.foldlM step init = some s) : Inv s := by
  induction ops using List.reverseRecOn generalizing s with
  | nil =>
    cases hrun
    exact hinit
  | append_singleton ops op ih =>
    obtain ⟨t, ht, hlast⟩ := foldlM_concat_eq_some.mp hrun
    have hinv := ih (fun pre op' hpre ↦ hok pre op' (hpre.trans (List.prefix_append ops [op]))) ht
    exact hstep t op s hinv (hok ops op (List.prefix_refl _) t ht) hlast

theorem foldlM_invariant {step : σ → ο → Option σ} {Inv : σ → Prop} {init s : σ} {ops : List ο}
    (hinit : Inv init) (hstep : ∀ s op s', Inv s → step s op = some s' → Inv s')
    (hrun : ops.foldlM step init = some s) : Inv s := by
  have hok : ∀ pre op, pre ++ [op] <+: ops → ∀ t, pre.foldlM step init = some t → True :=
    fun _ _ _ _ _ ↦ trivial
  exact foldlM_invariant_of_allowed hinit (fun s op s' hs _ ↦ hstep s op s' hs) hok hrun

/-- Each step along the run meets a condition. -/
def StepsAll (step : σ → ο → Option σ) (P : σ → ο → σ → Prop) : σ → List ο → Prop
  | _, [] => True
  | s, op :: ops => ∀ s' ∈ step s op, P s op s' ∧ StepsAll step P s' ops

instance StepsAll.decidable (step : σ → ο → Option σ) (P : σ → ο → σ → Prop)
    [∀ s op s', Decidable (P s op s')] : ∀ s ops, Decidable (StepsAll step P s ops)
  | _, [] => inferInstanceAs (Decidable True)
  | s, op :: ops =>
    have : ∀ s', Decidable (StepsAll step P s' ops) := fun s' ↦ StepsAll.decidable step P s' ops
    inferInstanceAs (Decidable (∀ s' ∈ step s op, P s op s' ∧ StepsAll step P s' ops))

theorem StepsAll.forall_prefix {step : σ → ο → Option σ} {P : σ → ο → σ → Prop} {init : σ}
    {ops : List ο} (h : StepsAll step P init ops) :
    ∀ pre op, pre ++ [op] <+: ops → ∀ s, pre.foldlM step init = some s →
      ∀ s', step s op = some s' → P s op s' := by
  intro pre op hpre s hrun s' hstep
  induction pre generalizing init ops with
  | nil =>
    obtain ⟨post, rfl⟩ := hpre
    cases hrun
    exact (h s' hstep).1
  | cons first pre ih =>
    obtain ⟨post, rfl⟩ := hpre
    rw [List.foldlM_cons] at hrun
    obtain ⟨s₁, hs₁, hrest⟩ := Option.bind_eq_some_iff.mp hrun
    exact ih (h s₁ hs₁).2 ⟨post, rfl⟩ hrest

inductive Answers {α : Type*} (ok : σ → ο → Prop) (step : σ → ο → α × σ) (init : σ) :
    List (ο × α) → σ → Prop
  | nil : Answers ok step init [] init
  | snoc {tr : List (ο × α)} {s : σ} (op : ο) : Answers ok step init tr s → ok s op →
      Answers ok step init (tr ++ [(op, (step s op).1)]) (step s op).2

namespace Answers

variable {α : Type*} {ok : σ → ο → Prop} {step : σ → ο → α × σ} {init : σ} {tr : List (ο × α)}
  {s : σ}

theorem invariant {Inv : List (ο × α) → σ → Prop} (h : Answers ok step init tr s)
    (hinit : Inv [] init)
    (hstep : ∀ tr s op, Inv tr s → ok s op → Inv (tr ++ [(op, (step s op).1)]) (step s op).2) :
    Inv tr s := by
  induction h with
  | nil => exact hinit
  | snoc op _ hop ih => exact hstep _ _ op ih hop

/-- Every answer was given in a state the run had reached. -/
theorem of_append {pre rest : List (ο × α)} {op : ο} {a : α}
    (h : Answers ok step init (pre ++ (op, a) :: rest) s) :
    ∃ s₀, Answers ok step init pre s₀ ∧ ok s₀ op ∧ a = (step s₀ op).1 := by
  generalize htr : pre ++ (op, a) :: rest = tr at h
  induction h generalizing rest with
  | nil => simp at htr
  | @snoc tr s op' h hop ih =>
    induction rest using List.reverseRecOn with
    | nil =>
      obtain ⟨rfl, hlast⟩ := List.append_inj' htr rfl
      obtain ⟨rfl, rfl⟩ := Prod.mk.inj (List.singleton_inj.mp hlast)
      exact ⟨s, h, hop, rfl⟩
    | append_singleton rest last _ =>
      rw [← List.cons_append, ← List.append_assoc] at htr
      exact ih (List.append_inj' htr rfl).1

end Answers

end Buzz.Lib
