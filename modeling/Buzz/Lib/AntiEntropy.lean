import Mathlib.Order.WithBot
import Mathlib.Order.BoundedOrder.Lattice
import Mathlib.Logic.Function.Basic

namespace Buzz.Lib.AntiEntropy

variable {κ ν β : Type*} [DecidableEq κ] [LinearOrder β] (key : ν → κ) (version : ν → β)

abbrev Replica (κ ν : Type*) := κ → Option ν

omit [DecidableEq κ] [LinearOrder β] in
/-- The version held under each key, least where nothing is held. -/
def level (t : Replica κ ν) (k : κ) : WithBot β :=
  match t k with
  | none => ⊥
  | some r => version r

/-- Take a record that is newer than what is held. -/
def absorb (t : Replica κ ν) (r : ν) : Replica κ ν :=
  if level version t (key r) < version r then Function.update t (key r) (some r) else t

def absorbAll (t : Replica κ ν) (rs : List ν) : Replica κ ν := rs.foldl (absorb key version) t

def offer : List ν → κ → WithBot β
  | [], _ => ⊥
  | r :: rs, k => if key r = k then max (version r : WithBot β) (offer rs k) else offer rs k

def Keyed (t : Replica κ ν) : Prop := ∀ k r, t k = some r → key r = k

/-- The records of `t` that are newer than the digest `d`. -/
def IsDelta (t : Replica κ ν) (d : κ → WithBot β) (rs : List ν) : Prop :=
  ∀ r, r ∈ rs ↔ t (key r) = some r ∧ d (key r) < version r

variable {key version} {t s : Replica κ ν} {r : ν} {rs : List ν} {d : κ → WithBot β} {k : κ}

omit [DecidableEq κ] [LinearOrder β] in
theorem level_of_eq_some (h : t k = some r) : level version t k = version r := by
  rw [level, h]

omit [DecidableEq κ] [LinearOrder β] in
theorem level_of_eq_none (h : t k = none) : level version t k = ⊥ := by
  rw [level, h]

omit [DecidableEq κ] in
theorem isSome_iff_bot_lt : (t k).isSome ↔ ⊥ < level version t k := by
  cases h : t k with
  | none =>
    rw [level_of_eq_none h]
    exact iff_of_false Bool.false_ne_true (lt_irrefl _)
  | some r =>
    rw [level_of_eq_some h]
    exact iff_of_true rfl (WithBot.bot_lt_coe _)

omit [DecidableEq κ] in
theorem isSome_of_level_le (h : level version t k ≤ level version s k) (ht : (t k).isSome) :
    (s k).isSome :=
  isSome_iff_bot_lt.mpr (lt_of_lt_of_le (isSome_iff_bot_lt.mp ht) h)

theorem absorb_of_eq_none (h : t (key r) = none) :
    absorb key version t r = Function.update t (key r) (some r) := by
  rw [absorb, level_of_eq_none h, if_pos (WithBot.bot_lt_coe _)]

theorem absorb_of_eq_some {r' : ν} (h : t (key r) = some r') : absorb key version t r =
    if version r' < version r then Function.update t (key r) (some r) else t := by
  rw [absorb, level_of_eq_some h]
  exact if_congr WithBot.coe_lt_coe rfl rfl

theorem absorbAll_cons : absorbAll key version t (r :: rs) =
    absorbAll key version (absorb key version t r) rs := rfl

theorem absorbAll_append {rs' : List ν} : absorbAll key version t (rs ++ rs') =
    absorbAll key version (absorbAll key version t rs) rs' :=
  List.foldl_append

theorem level_absorb : level version (absorb key version t r) k =
    if key r = k then max (level version t k) (version r) else level version t k := by
  rw [absorb]
  split
  case isTrue hlt =>
    split
    case isTrue hk =>
      subst hk
      rw [max_eq_right hlt.le, level, Function.update_self]
    case isFalse hk => rw [level, Function.update_of_ne (Ne.symm hk), level]
  case isFalse hlt =>
    split
    case isTrue hk =>
      subst hk
      rw [max_eq_left (not_lt.mp hlt)]
    case isFalse => rfl

theorem level_absorbAll :
    level version (absorbAll key version t rs) = level version t ⊔ offer key version rs := by
  induction rs generalizing t with
  | nil =>
    funext k
    exact (sup_bot_eq _).symm
  | cons r rs ih =>
    funext k
    rw [absorbAll_cons, ih, Pi.sup_apply, Pi.sup_apply, level_absorb, offer]
    split
    · exact max_assoc _ _ _
    · rfl

theorem offer_le_iff {b : κ → WithBot β} :
    offer key version rs ≤ b ↔ ∀ r ∈ rs, (version r : WithBot β) ≤ b (key r) := by
  induction rs with
  | nil => exact iff_of_true (fun _ ↦ bot_le) fun _ h ↦ absurd h List.not_mem_nil
  | cons r rs ih =>
    rw [List.forall_mem_cons, ← ih]
    constructor
    · intro h
      refine ⟨?_, fun k ↦ ?_⟩
      · refine le_trans ?_ (h (key r))
        rw [offer, if_pos rfl]
        exact le_max_left _ _
      · refine le_trans ?_ (h k)
        rw [offer]
        split
        · exact le_max_right _ _
        · exact le_rfl
    · rintro ⟨hr, hrs⟩ k
      rw [offer]
      split
      case isTrue hk => exact max_le (hk ▸ hr) (hrs k)
      case isFalse => exact hrs k

theorem le_offer (h : r ∈ rs) : (version r : WithBot β) ≤ offer key version rs (key r) :=
  offer_le_iff.mp le_rfl r h

theorem IsDelta.level_le (hkeyed : Keyed key s) (h : IsDelta key version s d rs) :
    level version s ≤ d ⊔ offer key version rs := by
  intro k
  cases hs : s k with
  | none =>
    rw [level_of_eq_none hs]
    exact bot_le
  | some r =>
    obtain rfl := hkeyed k r hs
    rw [level_of_eq_some hs, Pi.sup_apply, le_sup_iff]
    rcases lt_or_ge (d (key r)) (version r) with hlt | hge
    · exact .inr (le_offer ((h r).mpr ⟨hs, hlt⟩))
    · exact .inl hge

theorem level_le_absorbAll : level version t ≤ level version (absorbAll key version t rs) := by
  rw [level_absorbAll]
  exact le_sup_left

theorem absorb_eq_self (h : (version r : WithBot β) ≤ level version t (key r)) :
    absorb key version t r = t :=
  if_neg (not_lt.mpr h)

/-- Stale records can be left out of a message. -/
theorem absorbAll_filter {p : ν → Bool}
    (h : ∀ r ∈ rs, p r = false → (version r : WithBot β) ≤ level version t (key r)) :
    absorbAll key version t (rs.filter p) = absorbAll key version t rs := by
  induction rs generalizing t with
  | nil => rfl
  | cons r rs ih =>
    obtain ⟨hr, hrs⟩ := List.forall_mem_cons.mp h
    cases hp : p r with
    | false =>
      rw [List.filter_cons_of_neg (by simp [hp]), absorbAll_cons, absorb_eq_self (hr hp)]
      exact ih hrs
    | true =>
      rw [List.filter_cons_of_pos hp, absorbAll_cons, absorbAll_cons]
      refine ih fun r' hr' hp' ↦ (hrs r' hr' hp').trans ?_
      rw [level_absorb]
      split
      · exact le_max_left _ _
      · exact le_rfl

/-- What is held under a key is what was held, or a record of the message. -/
theorem absorbAll_eq_some (h : absorbAll key version t rs k = some r) : t k = some r ∨ r ∈ rs := by
  induction rs generalizing t with
  | nil => exact .inl h
  | cons r' rs ih =>
    rcases ih h with hheld | hmem
    · rw [absorb] at hheld
      split at hheld
      · by_cases hk : k = key r'
        · rw [hk, Function.update_self] at hheld
          cases hheld
          exact .inr List.mem_cons_self
        · rw [Function.update_of_ne hk] at hheld
          exact .inl hheld
      · exact .inl hheld
    · exact .inr (List.mem_cons_of_mem _ hmem)

end Buzz.Lib.AntiEntropy
