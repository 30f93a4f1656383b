import Mathlib.Data.List.Basic

namespace Buzz.Lib

/-- What becomes of a place in a list that is edited. -/
inductive Fate (ρ : Type*)
  | stays (i : ℕ)
  | leaves (why : ρ)
deriving DecidableEq

namespace Fate

variable {α ρ σ ο : Type*} {l : List α} {p : α → Bool} {why : ρ}

def andThen (next : ℕ → Fate ρ) : Fate ρ → Fate ρ
  | stays i => next i
  | leaves why => leaves why

def dropFront (n : ℕ) (why : ρ) (i : ℕ) : Fate ρ := if i < n then leaves why else stays (i - n)

/-- The list gets a front of `n`, and loses its back beyond the cap. -/
def putFront (n cap : ℕ) (why : ρ) (i : ℕ) : Fate ρ :=
  if n + i < cap then stays (n + i) else leaves why

def keepIf (l : List α) (p : α → Bool) (why : ρ) (i : ℕ) : Fate ρ :=
  if l[i]?.any p then stays ((l.take i).countP p) else leaves why

def eraseFirst (l : List α) (p : α → Bool) (why : ρ) (i : ℕ) : Fate ρ :=
  let k := l.findIdx p
  if i < k then stays i else if i = k then leaves why else stays (i - 1)

/-- The places of a list that becomes another; those that stay keep their order. -/
structure Edits (move : ℕ → Fate ρ) (l l' : List α) : Prop where
  kept : ∀ {i i' a}, l[i]? = some a → move i = stays i' → l'[i']? = some a
  order : ∀ {i j i' j'}, i < j → move i = stays i' → move j = stays j' → i' < j'

def FrontFirst (move : ℕ → Fate ρ) (why : ρ) : Prop :=
  ∀ ⦃i j⦄, i < j → move j = leaves why → ∃ why', move i = leaves why'

theorem edits_refl (l : List α) : Edits (stays : ℕ → Fate ρ) l l where
  kept := by
    rintro i _ a ha ⟨⟩
    exact ha
  order := by
    rintro i j _ _ hij ⟨⟩ ⟨⟩
    exact hij

theorem Edits.append {l' : List α} {move : ℕ → Fate ρ} (h : Edits move l l') (back : List α) :
    Edits move l (l' ++ back) where
  kept := by
    intro i i' a ha hmove
    have hkept := h.kept ha hmove
    rw [List.getElem?_append_left (List.getElem?_eq_some_iff.mp hkept).1, hkept]
  order := h.order

theorem Edits.andThen {l' l'' : List α} {move next : ℕ → Fate ρ} (h : Edits move l l')
    (hnext : Edits next l' l'') : Edits (fun i ↦ (move i).andThen next) l l'' where
  kept := by
    intro i i' a ha hmove
    cases hi : move i with
    | stays j => exact hnext.kept (h.kept ha hi) (by simpa [hi, Fate.andThen] using hmove)
    | leaves why => simp [hi, Fate.andThen] at hmove
  order := by
    intro i j i' j' hij hi' hj'
    cases hi : move i with
    | leaves why => simp [hi, Fate.andThen] at hi'
    | stays k =>
      cases hj : move j with
      | leaves why => simp [hj, Fate.andThen] at hj'
      | stays k' =>
        rw [hi] at hi'
        rw [hj] at hj'
        exact hnext.order (h.order hij hi hj) hi' hj'

theorem edits_dropFront (n : ℕ) (why : ρ) : Edits (dropFront n why) l (l.drop n) where
  kept := by
    intro i i' a ha hmove
    rw [dropFront] at hmove
    split at hmove
    · nomatch hmove
    · obtain rfl := (stays.inj hmove).symm
      rw [List.getElem?_drop, Nat.add_sub_cancel' (by omega), ha]
  order := by
    intro i j i' j' hij hi hj
    rw [dropFront] at hi hj
    split at hi <;> split at hj <;> simp_all
    omega

theorem edits_putFront (front : List α) (cap : ℕ) (why : ρ) :
    Edits (putFront front.length cap why) l ((front ++ l).take cap) where
  kept := by
    intro i i' a ha hmove
    rw [putFront] at hmove
    split at hmove
    · obtain rfl := (stays.inj hmove).symm
      rw [List.getElem?_take_of_lt ‹_›, List.getElem?_append_right (Nat.le_add_right _ _),
        Nat.add_sub_cancel_left, ha]
    · nomatch hmove
  order := by
    intro i j i' j' hij hi hj
    rw [putFront] at hi hj
    split at hi <;> split at hj <;> simp_all
    omega

theorem getElem?_filter_countP {i : ℕ} {a : α} (h : l[i]? = some a) (hp : p a = true) :
    (l.filter p)[(l.take i).countP p]? = some a := by
  induction l generalizing i with
  | nil => simp at h
  | cons b l ih =>
    cases i with
    | zero =>
      obtain rfl : b = a := by simpa using h
      simp [hp]
    | succ i =>
      have hrest := ih (by simpa using h)
      rw [List.take_succ_cons, List.countP_cons, List.filter_cons]
      split <;> simp_all

theorem countP_take_lt {i j : ℕ} {a : α} (hij : i < j) (h : l[i]? = some a) (hp : p a = true) :
    (l.take i).countP p < (l.take j).countP p := by
  have hnext : (l.take (i + 1)).countP p = (l.take i).countP p + 1 := by
    rw [List.take_add_one, h]
    simp [hp]
  have hmono : (l.take (i + 1)).countP p ≤ (l.take j).countP p :=
    (List.take_sublist_take_left hij).countP_le
  omega

theorem edits_keepIf (why : ρ) : Edits (keepIf l p why) l (l.filter p) where
  kept := by
    intro i i' a ha hmove
    rw [keepIf, ha] at hmove
    split at hmove
    · obtain rfl := (stays.inj hmove).symm
      exact getElem?_filter_countP ha (by simpa using ‹_›)
    · nomatch hmove
  order := by
    intro i j i' j' hij hi hj
    rw [keepIf] at hi hj
    split at hi
    case isFalse => nomatch hi
    case isTrue hpi =>
      split at hj
      case isFalse => nomatch hj
      case isTrue =>
        obtain rfl := stays.inj hi
        obtain rfl := stays.inj hj
        obtain ⟨a, ha, hp⟩ := (Option.any_eq_true _ _).mp hpi
        exact countP_take_lt hij ha hp

theorem eraseP_eq_eraseIdx_findIdx (l : List α) (p : α → Bool) :
    l.eraseP p = l.eraseIdx (l.findIdx p) := by
  induction l with
  | nil => rfl
  | cons a l ih =>
    rw [List.eraseP_cons, List.findIdx_cons]
    cases p a <;> simp [ih]

theorem edits_eraseFirst (why : ρ) : Edits (eraseFirst l p why) l (l.eraseP p) where
  kept := by
    intro i i' a ha hmove
    rw [eraseP_eq_eraseIdx_findIdx]
    rw [eraseFirst] at hmove
    split at hmove
    · obtain rfl := stays.inj hmove
      rw [List.getElem?_eraseIdx_of_lt ‹_›, ha]
    · split at hmove
      · nomatch hmove
      · obtain rfl := (stays.inj hmove).symm
        rw [List.getElem?_eraseIdx_of_ge (by omega), Nat.sub_add_cancel (by omega), ha]
  order := by
    intro i j i' j' hij hi hj
    rw [eraseFirst] at hi hj
    grind

section Reasons

variable {why' : ρ} (h : why ≠ why')
include h

theorem dropFront_ne (n i : ℕ) : dropFront n why i ≠ leaves why' := by
  rw [dropFront]
  split
  · exact fun heq ↦ h (leaves.inj heq)
  · nofun

theorem putFront_ne (n cap i : ℕ) : putFront n cap why i ≠ leaves why' := by
  rw [putFront]
  split
  · nofun
  · exact fun heq ↦ h (leaves.inj heq)

theorem keepIf_ne (l : List α) (p : α → Bool) (i : ℕ) : keepIf l p why i ≠ leaves why' := by
  rw [keepIf]
  split
  · nofun
  · exact fun heq ↦ h (leaves.inj heq)

theorem eraseFirst_ne (l : List α) (p : α → Bool) (i : ℕ) :
    eraseFirst l p why i ≠ leaves why' := by
  rw [eraseFirst]
  split
  · nofun
  · split
    · exact fun heq ↦ h (leaves.inj heq)
    · nofun

end Reasons

theorem frontFirst_of_ne {move : ℕ → Fate ρ} (h : ∀ i, move i ≠ leaves why) :
    FrontFirst move why :=
  fun _ j _ hj ↦ absurd hj (h j)

theorem frontFirst_dropFront (n : ℕ) : FrontFirst (dropFront n why) why := by
  intro i j hij hj
  refine ⟨why, ?_⟩
  rw [dropFront] at hj ⊢
  split at hj
  · rw [if_pos (by omega)]
  · nomatch hj

theorem FrontFirst.andThen {l' : List α} {move next : ℕ → Fate ρ} (h : FrontFirst move why)
    (hedits : Edits move l l') (hnext : FrontFirst next why) :
    FrontFirst (fun i ↦ (move i).andThen next) why := by
  intro i j hij hj
  dsimp only at hj ⊢
  cases hi : move i with
  | leaves why' => exact ⟨why', rfl⟩
  | stays k =>
    cases hj' : move j with
    | stays k' =>
      rw [hj'] at hj
      exact hnext (hedits.order hij hi hj') hj
    | leaves why' =>
      rw [hj'] at hj
      obtain rfl := leaves.inj hj
      obtain ⟨why', hwhy'⟩ := h hij hj'
      rw [hwhy'] at hi
      nomatch hi

section Run

variable (step : σ → ο → σ) (move : σ → ο → ℕ → Fate ρ)

def follow : σ → List ο → ℕ → Fate ρ
  | _, [], i => stays i
  | s, op :: ops, i => (move s op i).andThen (follow (step s op) ops)

variable {step move} {view : σ → List α}

theorem follow_append (s : σ) (pre post : List ο) (i : ℕ) : follow step move s (pre ++ post) i =
    (follow step move s pre i).andThen (follow step move (pre.foldl step s) post) := by
  induction pre generalizing s i with
  | nil => rfl
  | cons op pre ih =>
    rw [List.cons_append, follow, follow]
    cases move s op i with
    | leaves why => rfl
    | stays k => exact ih (step s op) k

theorem edits_follow (h : ∀ s op, Edits (move s op) (view s) (view (step s op))) (s : σ)
    (ops : List ο) : Edits (follow step move s ops) (view s) (view (ops.foldl step s)) := by
  induction ops generalizing s with
  | nil => exact edits_refl (view s)
  | cons op ops ih => exact (h s op).andThen (ih (step s op))

theorem follow_ne (h : ∀ s op i, move s op i ≠ leaves why) (s : σ) (ops : List ο) (i : ℕ) :
    follow step move s ops i ≠ leaves why := by
  induction ops generalizing s i with
  | nil => nofun
  | cons op ops ih =>
    rw [follow]
    have hne := h s op i
    cases hi : move s op i with
    | stays k => exact ih (step s op) k
    | leaves why' =>
      rw [hi] at hne
      exact hne

theorem frontFirst_follow (h : ∀ s op, Edits (move s op) (view s) (view (step s op)))
    (hfirst : ∀ s op, FrontFirst (move s op) why) (s : σ) (ops : List ο) :
    FrontFirst (follow step move s ops) why := by
  induction ops generalizing s with
  | nil => exact frontFirst_of_ne fun i ↦ by simp [follow]
  | cons op ops ih => exact FrontFirst.andThen (hfirst s op) (h s op) (ih (step s op))

theorem exists_leaving (h : ∀ s op, Edits (move s op) (view s) (view (step s op))) {s : σ}
    {ops : List ο} {i : ℕ} {a : α} (ha : (view s)[i]? = some a)
    (hleaves : follow step move s ops i = leaves why) : ∃ pre op post j, ops = pre ++ op :: post ∧
      (view (pre.foldl step s))[j]? = some a ∧ move (pre.foldl step s) op j = leaves why := by
  induction ops generalizing s i with
  | nil => nomatch hleaves
  | cons op ops ih =>
    rw [follow] at hleaves
    cases hi : move s op i with
    | leaves why' =>
      rw [hi] at hleaves
      obtain rfl := leaves.inj hleaves
      exact ⟨[], op, ops, i, rfl, ha, hi⟩
    | stays k =>
      rw [hi] at hleaves
      obtain ⟨pre, op', post, j, rfl, hj, hmove⟩ := ih ((h s op).kept ha hi) hleaves
      exact ⟨op :: pre, op', post, j, rfl, hj, hmove⟩

end Run

end Fate

end Buzz.Lib
