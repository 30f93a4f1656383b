import Mathlib.Data.List.Induction
import Mathlib.Order.Defs.Unbundled

namespace Buzz.Lib

variable {κ : Type*} (newer : κ → κ → Prop)

def Covers (h k : κ) : Prop := h = k ∨ newer h k

def Newest (delivered : List κ) : Option κ → Prop
  | none => delivered = []
  | some h => h ∈ delivered ∧ ∀ k ∈ delivered, Covers newer h k

/-- A delivery replaces the head by something newer, or else is refused. -/
inductive LwwStep (k : κ) : Option κ → Option κ → Bool → Prop
  | accept {head : Option κ} (h : ∀ x, head = some x → newer k x) : LwwStep k head (some k) true
  | refuse {x : κ} (h : Covers newer x k) : LwwStep k (some x) (some x) false

variable {newer} {delivered : List κ} {head head' : Option κ} {k : κ} {accepted : Bool}

theorem Covers.trans [IsTrans κ newer] {a b c : κ} (hab : Covers newer a b)
    (hbc : Covers newer b c) : Covers newer a c := by
  rcases hab with rfl | hab
  · exact hbc
  · rcases hbc with rfl | hbc
    · exact .inr hab
    · exact .inr (IsTrans.trans _ _ _ hab hbc)

theorem Newest.covers (h : Newest newer delivered head) (hk : k ∈ delivered) :
    ∃ x, head = some x ∧ Covers newer x k := by
  cases head with
  | none =>
    rw [show delivered = [] from h] at hk
    cases hk
  | some x => exact ⟨x, rfl, h.2 k hk⟩

/-- Whatever the order and the repetitions, the head stays the newest of the deliveries. -/
theorem LwwStep.newest [IsTrans κ newer] (h : LwwStep newer k head head' accepted)
    (hnewest : Newest newer delivered head) : Newest newer (delivered ++ [k]) head' := by
  cases h with
  | accept hnewer =>
    refine ⟨List.mem_append_right _ List.mem_cons_self, ?_⟩
    intro k' hk'
    rcases List.mem_append.mp hk' with hk' | hk'
    · obtain ⟨x, hx, hcovers⟩ := hnewest.covers hk'
      exact Covers.trans (.inr (hnewer x hx)) hcovers
    · exact .inl (List.mem_singleton.mp hk').symm
  | refuse hcovers =>
    refine ⟨List.mem_append_left _ hnewest.1, ?_⟩
    intro k' hk'
    rcases List.mem_append.mp hk' with hk' | hk'
    · exact hnewest.2 k' hk'
    · rw [List.mem_singleton.mp hk']
      exact hcovers

theorem LwwStep.accepted_iff [Std.Irrefl newer] (h : LwwStep newer k head head' accepted) :
    accepted = true ↔ head ≠ some k ∧ head' = some k := by
  cases h with
  | accept hnewer =>
    refine iff_of_true rfl ⟨?_, rfl⟩
    intro heq
    exact Std.Irrefl.irrefl k (hnewer k heq)
  | refuse hcovers =>
    refine iff_of_false Bool.false_ne_true ?_
    intro ⟨hne, heq⟩
    exact hne heq

/-- A register that takes each delivery in turn ends at the newest of them. -/
theorem newest_foldl [IsTrans κ newer] {α : Type*} {key : α → κ} {pick : α → α → α}
    (h : ∀ a b, ∃ accepted, LwwStep newer (key b) (some (key a)) (some (key (pick a b))) accepted)
    (a : α) (as : List α) : Newest newer ((a :: as).map key) (some (key (as.foldl pick a))) := by
  induction as using List.reverseRecOn with
  | nil => exact ⟨List.mem_singleton_self _, fun k hk ↦ .inl (List.mem_singleton.mp hk).symm⟩
  | append_singleton as b ih =>
    obtain ⟨accepted, hstep⟩ := h (as.foldl pick a) b
    rw [List.foldl_append, ← List.cons_append, List.map_append]
    exact hstep.newest ih

theorem Newest.unique [Std.Asymm newer] {delivered' : List κ} (h : Newest newer delivered head)
    (h' : Newest newer delivered' head') (hperm : delivered.Perm delivered') : head = head' := by
  cases head with
  | none =>
    obtain rfl : delivered = [] := h
    obtain rfl := hperm.nil_eq
    cases head' with
    | none => rfl
    | some x' => exact absurd h'.1 List.not_mem_nil
  | some x =>
    obtain ⟨x', rfl, hcovers⟩ := h'.covers (hperm.mem_iff.mp h.1)
    rcases hcovers with rfl | hnewer
    · rfl
    · rcases h.2 x' (hperm.mem_iff.mpr h'.1) with rfl | hnewer'
      · rfl
      · exact absurd hnewer (Std.Asymm.asymm _ _ hnewer')

end Buzz.Lib
