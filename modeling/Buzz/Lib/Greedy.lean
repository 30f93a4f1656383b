import Mathlib.Data.List.Forall2
import Mathlib.Data.List.Nodup
import Mathlib.Algebra.Order.BigOperators.Group.List
import Mathlib.Algebra.Order.Group.Nat
import Mathlib.Algebra.GroupWithZero.Nat

namespace Buzz.Lib

/-- Items that can be reduced, some of them more than once; `base` is what their list weighs
besides them. -/
structure Reduction (α : Type*) where
  base : ℕ
  size : α → ℕ
  weight : α → ℕ
  shrinks : α → Bool
  reduce : α → α
  size_lt : ∀ {a}, shrinks a = true → size (reduce a) < size a
  weight_le : ∀ {a}, shrinks a = true → weight (reduce a) ≤ weight a

namespace Reduction

variable {α : Type*} (r : Reduction α)

def total (l : List α) : ℕ := r.base + (l.map r.weight).sum

/-- The item at a place goes before the one at another: it is larger, or as large and earlier. -/
def Ahead (a : α) (i : ℕ) (b : α) (j : ℕ) : Prop :=
  r.size b < r.size a ∨ r.size a = r.size b ∧ i < j

instance (a : α) (i : ℕ) (b : α) (j : ℕ) : Decidable (r.Ahead a i b j) :=
  inferInstanceAs (Decidable (_ ∨ _))

/-- The first of the largest items that can be reduced. -/
def Picks (l : List α) (i : ℕ) : Prop :=
  ∃ a, l[i]? = some a ∧ r.shrinks a = true ∧
    ∀ {j b}, l[j]? = some b → r.shrinks b = true → j ≠ i → r.Ahead a i b j

/-- Reduce the largest item until the list is light enough, with the places that were reduced; there
is no outcome when nothing is left to reduce. -/
inductive Run (budget : ℕ) : List α → List ℕ → Option (List α) → Prop
  | stuck {l : List α} : (∀ a ∈ l, r.shrinks a = false) → Run budget l [] none
  | done {l : List α} {i : ℕ} : r.Picks l i → r.total (l.modify i r.reduce) ≤ budget →
      Run budget l [i] (some (l.modify i r.reduce))
  | more {l : List α} {i : ℕ} {trace : List ℕ} {out : Option (List α)} : r.Picks l i →
      ¬r.total (l.modify i r.reduce) ≤ budget → Run budget (l.modify i r.reduce) trace out →
      Run budget l (i :: trace) out

def floor (a : α) : α := if _h : r.shrinks a = true then floor (r.reduce a) else a
termination_by r.size a
decreasing_by exact r.size_lt _h

def once (places : List ℕ) (l : List α) : List α :=
  l.mapIdx fun j a ↦ if j ∈ places then r.reduce a else a

/-- The items that go before a reduced one reduced once. -/
def aheadOf (a : α) (i : ℕ) (l : List α) : List α :=
  l.mapIdx fun j b ↦ if r.shrinks b = true ∧ r.Ahead b j a i then r.reduce b else b

structure InTurn (l : List α) (places : List ℕ) : Prop where
  shrinks : ∀ {i}, i ∈ places → ∃ a, l[i]? = some a ∧ r.shrinks a = true
  top : ∀ {i k a b}, i ∈ places → k ∉ places → l[i]? = some a → l[k]? = some b →
    r.shrinks b = true → r.Ahead a i b k
  again : ∀ {i j a b}, i ∈ places → j ∈ places → l[i]? = some a → l[j]? = some b →
    r.shrinks (r.reduce b) = true → r.Ahead a i (r.reduce b) j

variable {r} {l l' : List α} {a b c : α} {i j k : ℕ} {places : List ℕ} {budget : ℕ}

theorem Ahead.trans (h : r.Ahead a i b j) (h' : r.Ahead b j c k) : r.Ahead a i c k := by
  rw [Ahead] at *
  omega

theorem Ahead.asymm (h : r.Ahead a i b j) : ¬r.Ahead b j a i := by
  rw [Ahead] at *
  omega

theorem ahead_of_lt (h : r.size b < r.size a) : r.Ahead a i b j := .inl h

theorem floor_of_shrinks (h : r.shrinks a = true) : r.floor (r.reduce a) = r.floor a := by
  conv => rhs; rw [floor, dif_pos h]

theorem floor_of_not_shrinks (h : r.shrinks a = false) : r.floor a = a := by
  rw [floor, dif_neg (by simp [h])]

theorem weight_floor_le (r : Reduction α) (a : α) : r.weight (r.floor a) ≤ r.weight a := by
  induction a using floor.induct r with
  | case1 a h ih =>
    rw [← floor_of_shrinks h]
    exact ih.trans (r.weight_le h)
  | case2 a h => rw [floor_of_not_shrinks (by simpa using h)]

theorem total_map_floor_le (l : List α) : r.total (l.map r.floor) ≤ r.total l := by
  rw [total, total, List.map_map]
  exact Nat.add_le_add_left (List.sum_le_sum fun a _ ↦ r.weight_floor_le a) _

theorem map_floor_modify (h : r.Picks l i) :
    (l.modify i r.reduce).map r.floor = l.map r.floor := by
  obtain ⟨a, ha, hshrinks, -⟩ := h
  apply List.ext_getElem?
  intro j
  rw [List.getElem?_map, List.getElem?_map, List.getElem?_modify]
  by_cases hij : i = j
  · subst hij
    simp [ha, floor_of_shrinks hshrinks]
  · simp [hij]

theorem map_floor_of_stuck (h : ∀ a ∈ l, r.shrinks a = false) : l.map r.floor = l := by
  have hmap : l.map r.floor = l.map id :=
    List.map_congr_left fun a ha ↦ floor_of_not_shrinks (h a ha)
  rw [hmap, List.map_id]

theorem sum_modify_lt {f : α → α} {m : α → ℕ} (ha : l[i]? = some a) (h : m (f a) < m a) :
    ((l.modify i f).map m).sum < (l.map m).sum := by
  induction l generalizing i with
  | nil => nomatch ha
  | cons b l ih =>
    cases i with
    | zero =>
      obtain rfl : b = a := by simpa using ha
      simpa using h
    | succ i =>
      have hrest := ih (by simpa using ha)
      simpa using hrest

/-- A run comes to an end. -/
theorem Picks.size_lt (h : r.Picks l i) :
    ((l.modify i r.reduce).map r.size).sum < (l.map r.size).sum := by
  obtain ⟨a, ha, hshrinks, -⟩ := h
  exact sum_modify_lt ha (r.size_lt hshrinks)

/-- There is no outcome when the list is too heavy with every item at its floor. -/
theorem Run.eq_none_iff {trace : List ℕ} {out : Option (List α)} (h : r.Run budget l trace out)
    (hover : ¬r.total l ≤ budget) : out = none ↔ ¬r.total (l.map r.floor) ≤ budget := by
  induction h with
  | stuck hstuck => simpa [map_floor_of_stuck hstuck] using hover
  | done hpicks hfits =>
    rw [← map_floor_modify hpicks]
    simpa using (total_map_floor_le _).trans hfits
  | more hpicks hnext _ ih => rw [ih hnext, map_floor_modify hpicks]

section Once

theorem getElem?_once (places : List ℕ) (l : List α) (j : ℕ) :
    (r.once places l)[j]? = l[j]?.map fun a ↦ if j ∈ places then r.reduce a else a := by
  rw [once, List.getElem?_mapIdx]

theorem getElem?_aheadOf (a : α) (i : ℕ) (l : List α) (j : ℕ) : (r.aheadOf a i l)[j]? =
    l[j]?.map fun b ↦ if r.shrinks b = true ∧ r.Ahead b j a i then r.reduce b else b := by
  rw [aheadOf, List.getElem?_mapIdx]

theorem once_nil (l : List α) : r.once [] l = l := by
  apply List.ext_getElem?
  intro j
  simp [getElem?_once]

theorem once_cons (h : i ∉ places) (l : List α) :
    r.once (i :: places) l = (r.once places l).modify i r.reduce := by
  apply List.ext_getElem?
  intro j
  rw [List.getElem?_modify, getElem?_once, getElem?_once]
  by_cases hij : i = j
  · subst hij
    cases l[i]? <;> simp [h]
  · cases l[j]? <;> simp [hij, Ne.symm hij]

theorem inTurn_nil (l : List α) : r.InTurn l [] where
  shrinks := nofun
  top := nofun
  again := nofun

/-- A place that is picked for the first time comes in its turn. -/
theorem InTurn.cons (h : r.InTurn l places) (hpicks : r.Picks (r.once places l) i)
    (hi : i ∉ places) : r.InTurn l (i :: places) := by
  obtain ⟨a, ha, hshrinks, hahead⟩ := hpicks
  have hold {j : ℕ} (hj : j ∉ places) : (r.once places l)[j]? = l[j]? := by
    simp [getElem?_once, hj]
  have hreduced {j : ℕ} {b : α} (hj : j ∈ places) (hb : l[j]? = some b) :
      (r.once places l)[j]? = some (r.reduce b) := by
    simp [getElem?_once, hj, hb]
  rw [hold hi] at ha
  constructor
  · intro j hj
    rcases List.mem_cons.mp hj with rfl | hj
    · exact ⟨a, ha, hshrinks⟩
    · exact h.shrinks hj
  · intro j k c b hj hk hc hb hb'
    rw [List.mem_cons, not_or] at hk
    rcases List.mem_cons.mp hj with rfl | hj
    · obtain rfl := Option.some.inj (ha.symm.trans hc)
      exact hahead ((hold hk.2).trans hb) hb' hk.1
    · exact h.top hj hk.2 hc hb hb'
  · intro j k c b hj hk hc hb hb'
    rcases List.mem_cons.mp hj with rfl | hj' <;> rcases List.mem_cons.mp hk with rfl | hk'
    · obtain rfl := Option.some.inj (ha.symm.trans hc)
      obtain rfl := Option.some.inj (ha.symm.trans hb)
      exact ahead_of_lt (r.size_lt hshrinks)
    · obtain rfl := Option.some.inj (ha.symm.trans hc)
      exact hahead (hreduced hk' hb) hb' (fun heq ↦ hi (heq ▸ hk'))
    · obtain rfl := Option.some.inj (ha.symm.trans hb)
      exact (h.top hj' hi hc ha hshrinks).trans (ahead_of_lt (r.size_lt hshrinks) (j := k))
    · exact h.again hj' hk' hc hb hb'

/-- A place that is picked again has all those done that go before it. -/
theorem InTurn.once_eq_aheadOf (h : r.InTurn l places) (hpicks : r.Picks (r.once places l) i)
    (hi : i ∈ places) : ∃ a, l[i]? = some a ∧ r.shrinks a = true ∧
      r.shrinks (r.reduce a) = true ∧ r.once places l = r.aheadOf (r.reduce a) i l := by
  obtain ⟨c, hc, hagain, hahead⟩ := hpicks
  obtain ⟨a, ha, hshrinks⟩ := h.shrinks hi
  have hreduce : c = r.reduce a := by
    rw [getElem?_once, ha, Option.map_some, if_pos hi] at hc
    exact (Option.some.inj hc).symm
  subst c
  refine ⟨a, ha, hshrinks, hagain, List.ext_getElem? fun j ↦ ?_⟩
  rw [getElem?_once, getElem?_aheadOf]
  cases hb : l[j]? with
  | none => rfl
  | some b =>
    have hiff : j ∈ places ↔ r.shrinks b = true ∧ r.Ahead b j (r.reduce a) i := by
      constructor
      · intro hj
        obtain ⟨b', hb', hshrinks'⟩ := h.shrinks hj
        obtain rfl := Option.some.inj (hb'.symm.trans hb)
        exact ⟨hshrinks', h.again hj hi hb ha hagain⟩
      · rintro ⟨hshrinks', hbefore⟩
        by_contra hj
        have hsame : (r.once places l)[j]? = some b := by simp [getElem?_once, hj, hb]
        exact (hahead hsame hshrinks' fun heq ↦ hj (heq ▸ hi)).asymm hbefore
    simp only [Option.map_some, hiff]

theorem InTurn.total_aheadOf_le (h : r.InTurn l places) (ha : l[i]? = some a)
    (hshrinks : r.shrinks a = true) (hagain : r.shrinks (r.reduce a) = true) :
    r.total (r.aheadOf (r.reduce a) i l) ≤ r.total (r.once places l) := by
  refine Nat.add_le_add_left
    (List.Forall₂.sum_le_sum (List.forall₂_iff_get.mpr ⟨by simp [once, aheadOf], ?_⟩)) _
  intro j hj hj'
  have hlt : j < l.length := by simpa [aheadOf] using hj
  have hb := List.getElem?_eq_getElem hlt
  simp only [List.get_eq_getElem, List.getElem_map, once, aheadOf, List.getElem_mapIdx]
  by_cases hplace : j ∈ places
  · obtain ⟨b, hb', hshrinks'⟩ := h.shrinks hplace
    obtain rfl := Option.some.inj (hb.symm.trans hb')
    have hbefore : r.Ahead l[j] j (r.reduce a) i := by
      by_cases hi : i ∈ places
      · exact h.again hplace hi hb ha hagain
      · exact (h.top hplace hi hb ha hshrinks).trans (ahead_of_lt (r.size_lt hshrinks) (j := i))
    rw [if_pos hplace, if_pos ⟨hshrinks', hbefore⟩]
  · rw [if_neg hplace]
    split
    case isTrue hbefore => exact r.weight_le hbefore.1
    case isFalse => exact le_rfl

end Once

section Outcome

def NoSecondTurn (r : Reduction α) (budget : ℕ) (l : List α) : Prop :=
  ∀ {i a}, l[i]? = some a → r.shrinks a = true → r.shrinks (r.reduce a) = true →
    r.total (r.aheadOf (r.reduce a) i l) ≤ budget

theorem not_noSecondTurn (h : r.InTurn l places) (hpicks : r.Picks (r.once places l) i)
    (hi : i ∈ places) (hover : ¬r.total (r.once places l) ≤ budget) :
    ¬r.NoSecondTurn budget l := by
  intro hfirst
  obtain ⟨a, ha, hshrinks, hagain, heq⟩ := h.once_eq_aheadOf hpicks hi
  rw [heq] at hover
  exact hover (hfirst ha hshrinks hagain)

theorem InTurn.noSecondTurn (h : r.InTurn l places)
    (hfits : r.total (r.once places l) ≤ budget) : r.NoSecondTurn budget l :=
  fun ha hshrinks hagain ↦ (h.total_aheadOf_le ha hshrinks hagain).trans hfits

theorem InTurn.run_iff {trace : List ℕ} {out : Option (List α)} {current : List α}
    (hrun : r.Run budget current trace out) (hout : out ≠ none) (h : r.InTurn l places)
    (hcurrent : current = r.once places l) (hover : ¬r.total current ≤ budget) :
    trace.Nodup ∧ trace.Disjoint places ↔ r.NoSecondTurn budget l := by
  induction hrun generalizing places with
  | stuck => exact absurd rfl hout
  | @done current i hpicks hfits =>
    subst hcurrent
    by_cases hi : i ∈ places
    · exact iff_of_false (fun hdisjoint ↦ hdisjoint.2 List.mem_cons_self hi)
        (not_noSecondTurn h hpicks hi hover)
    · rw [← once_cons hi] at hfits
      exact iff_of_true ⟨List.nodup_singleton i, by simpa using hi⟩
        ((h.cons hpicks hi).noSecondTurn hfits)
  | @more current i trace out hpicks hnext hrun ih =>
    subst hcurrent
    by_cases hi : i ∈ places
    · exact iff_of_false (fun hdisjoint ↦ hdisjoint.2 List.mem_cons_self hi)
        (not_noSecondTurn h hpicks hi hover)
    · rw [← ih hout (h.cons hpicks hi) (once_cons hi l).symm hnext, List.nodup_cons,
        List.disjoint_cons_left, List.disjoint_cons_right]
      tauto

/-- In a run with an outcome no place is reduced twice when none has a second turn. -/
theorem Run.nodup_iff {trace : List ℕ} {out : List α} (hrun : r.Run budget l trace (some out))
    (hover : ¬r.total l ≤ budget) : trace.Nodup ↔ r.NoSecondTurn budget l := by
  rw [← InTurn.run_iff hrun (by simp) (inTurn_nil l) (once_nil l).symm hover]
  simp

theorem exists_once_of_run {trace : List ℕ} {out current : List α} {result : Option (List α)}
    (hrun : r.Run budget current trace result) (hresult : result = some out)
    (hcurrent : current = r.once places l) (hnodup : trace.Nodup)
    (hdisjoint : trace.Disjoint places) : ∃ all, out = r.once all l := by
  induction hrun generalizing places with
  | stuck => nomatch hresult
  | @done current i hpicks hfits =>
    subst hcurrent
    obtain rfl := Option.some.inj hresult
    exact ⟨i :: places, (once_cons (by simpa using hdisjoint) l).symm⟩
  | @more current i trace out hpicks hnext hrun ih =>
    subst hcurrent
    rw [List.nodup_cons] at hnodup
    rw [List.disjoint_cons_left] at hdisjoint
    exact ih hresult (once_cons hdisjoint.1 l).symm hnodup.2
      (List.disjoint_cons_right.mpr ⟨hnodup.1, hdisjoint.2⟩)

/-- A run that reduces no place twice leaves each item as it is or reduced once. -/
theorem Run.exists_once {trace : List ℕ} {out : List α} (hrun : r.Run budget l trace (some out))
    (hnodup : trace.Nodup) : ∃ places, out = r.once places l :=
  exists_once_of_run hrun rfl (once_nil l).symm hnodup (by simp)

theorem Run.total_le {trace : List ℕ} {out : Option (List α)} (hrun : r.Run budget l trace out) :
    ∀ {outcome}, out = some outcome → r.total outcome ≤ budget := by
  induction hrun with
  | stuck => nofun
  | done hpicks hfits =>
    rintro outcome ⟨⟩
    exact hfits
  | more hpicks hnext hrun ih => exact ih

end Outcome

end Reduction

end Buzz.Lib
