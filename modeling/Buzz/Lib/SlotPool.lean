import Mathlib.Data.List.Nodup
import Mathlib.Tactic.Common

namespace Buzz.Lib

/-- Numbers handed out from a counter that stops at `cap`, given back to a free list. -/
structure SlotPool (cap : ℕ) where
  nextFresh : ℕ
  free : List ℕ
deriving DecidableEq, Repr

namespace SlotPool

variable {cap i : ℕ} {p p' : SlotPool cap} {used used' : List ℕ}

def new : SlotPool cap := ⟨0, []⟩

/-- The last number given back is the first one handed out again. -/
def alloc (p : SlotPool cap) : Option (ℕ × SlotPool cap) :=
  match p.free.getLast? with
  | some i => some (i, { p with free := p.free.dropLast })
  | none =>
    if p.nextFresh = cap then none else some (p.nextFresh, { p with nextFresh := p.nextFresh + 1 })

def release (p : SlotPool cap) (i : ℕ) : SlotPool cap := { p with free := p.free ++ [i] }

/-- The holder has chosen the number itself; the counter jumps over it. -/
def reserve (p : SlotPool cap) (i : ℕ) : SlotPool cap where
  nextFresh := if p.nextFresh ≤ i then min (i + 1) cap else p.nextFresh
  free := p.free.filter (· ≠ i)

/-- No number is in use twice, or in use and free, and the counter is past all of them. -/
structure Covers (p : SlotPool cap) (used : List ℕ) : Prop where
  nodup : (used ++ p.free).Nodup
  le_cap : p.nextFresh ≤ cap
  lt_fresh : ∀ i ∈ used ++ p.free, i < p.nextFresh ∨ p.nextFresh = cap

theorem Covers.used_nodup (h : p.Covers used) : used.Nodup := (List.nodup_append.mp h.nodup).1

theorem covers_new : (new : SlotPool cap).Covers [] where
  nodup := List.nodup_nil
  le_cap := Nat.zero_le _
  lt_fresh _ hi := absurd hi List.not_mem_nil

theorem Covers.perm (h : p.Covers used) (hperm : used.Perm used') : p.Covers used' where
  nodup := (hperm.append_right p.free).nodup_iff.mp h.nodup
  le_cap := h.le_cap
  lt_fresh j hj := h.lt_fresh j ((hperm.append_right p.free).mem_iff.mpr hj)

theorem Covers.alloc (h : p.Covers used) (halloc : p.alloc = some (i, p')) :
    p'.Covers (i :: used) := by
  rw [SlotPool.alloc] at halloc
  split at halloc
  · next j hlast =>
    obtain ⟨rfl, rfl⟩ := Prod.mk.injEq .. ▸ Option.some.inj halloc
    have hfree : p.free = p.free.dropLast ++ [j] := (List.dropLast_append_getLast? j hlast).symm
    have hperm : (used ++ p.free).Perm (j :: used ++ p.free.dropLast) := by
      rw [hfree, List.dropLast_concat, ← List.append_assoc]
      exact List.perm_append_singleton j _
    exact ⟨hperm.nodup_iff.mp h.nodup, h.le_cap, fun k hk ↦ h.lt_fresh k (hperm.mem_iff.mpr hk)⟩
  · split at halloc
    · nomatch halloc
    · next hcap =>
      obtain ⟨rfl, rfl⟩ := Prod.mk.injEq .. ▸ Option.some.inj halloc
      have hlt := fun k hk ↦ (h.lt_fresh k hk).resolve_right hcap
      have hle := h.le_cap
      refine ⟨List.nodup_cons.mpr ⟨fun hk ↦ absurd (hlt _ hk) (Nat.lt_irrefl _), h.nodup⟩, by
        simp only
        omega, fun k hk ↦ .inl ?_⟩
      rcases List.mem_cons.mp hk with rfl | hk
      · exact Nat.lt_succ_self _
      · exact Nat.lt_succ_of_lt (hlt k hk)

theorem Covers.release (h : p.Covers (i :: used)) : (p.release i).Covers used := by
  have hperm : (i :: used ++ p.free).Perm (used ++ (p.free ++ [i])) := by
    rw [← List.append_assoc]
    exact (List.perm_append_singleton i _).symm
  exact ⟨hperm.nodup_iff.mp h.nodup, h.le_cap, fun k hk ↦ h.lt_fresh k (hperm.mem_iff.mpr hk)⟩

theorem Covers.reserve (h : p.Covers used) (hi : i ≤ cap) (hused : i ∉ used) :
    (p.reserve i).Covers (i :: used) where
  nodup := by
    refine List.nodup_cons.mpr ⟨fun hmem ↦ ?_, ?_⟩
    · rcases List.mem_append.mp hmem with hmem | hmem
      · exact hused hmem
      · simp [SlotPool.reserve] at hmem
    · exact h.nodup.sublist ((List.Sublist.refl used).append List.filter_sublist)
  le_cap := by
    have hle := h.le_cap
    simp only [SlotPool.reserve]
    split <;> omega
  lt_fresh k hk := by
    have hle := h.le_cap
    rcases List.mem_cons.mp hk with rfl | hk
    · simp only [SlotPool.reserve]
      split <;> omega
    · have hmem : k ∈ used ++ p.free := by
        rcases List.mem_append.mp hk with hk | hk
        · exact List.mem_append_left _ hk
        · exact List.mem_append_right _ (List.mem_of_mem_filter hk)
      have hlt := h.lt_fresh k hmem
      simp only [SlotPool.reserve]
      split <;> omega

end SlotPool

end Buzz.Lib
