import Mathlib.Algebra.Order.Ring.Int
import Mathlib.Data.Finset.Max
import Mathlib.Data.List.Count
import Mathlib.Logic.Function.Basic
import Mathlib.Tactic.SplitIfs

namespace Buzz.Lib

/-- Something admitted under a key at some time, in the window that started at `start`. -/
structure Charge (κ : Type*) where
  key : κ
  time : ℤ
  start : ℤ
deriving DecidableEq, Repr

variable {κ : Type*} [DecidableEq κ] {length max clock now : ℤ} {row row' : κ → Option (ℤ × ℤ)}
  {log : List (Charge κ)} {k : κ} {s n : ℤ}

def inWindow (log : List (Charge κ)) (k : κ) (start : ℤ) : ℕ :=
  log.countP fun c ↦ c.key = k && c.start = start

def between (log : List (Charge κ)) (k : κ) (t t' : ℤ) : ℕ :=
  log.countP fun c ↦ c.key = k && (decide (t ≤ c.time) && decide (c.time ≤ t'))

def during (log : List (Charge κ)) (k : κ) (t t' : ℤ) : ℕ :=
  log.countP fun c ↦ c.key = k && (decide (t ≤ c.time) && decide (c.time < t'))

/-- What a quota is for: a window admits the maximum at most, an interval of a window's length
twice that, and the row of a key has the window that goes on and what it admitted. -/
structure QuotaHolds (length max : ℤ) (row : κ → Option (ℤ × ℤ)) (clock : ℤ)
    (log : List (Charge κ)) : Prop where
  window : ∀ c ∈ log, (during log c.key c.start (c.start + length) : ℤ) ≤ max
  interval : ∀ k t, (between log k t (t + length) : ℤ) ≤ 2 * max
  counted : ∀ c ∈ log, clock < c.start + length →
    row c.key = some (c.start, (during log c.key c.start (c.start + length) : ℤ))

/-- The row that a charge leaves: a fresh window when there is none or the last one is over, else
one more in the window while there is room. -/
def Charges (length max : ℤ) (old : Option (ℤ × ℤ)) (now : ℤ) (new : ℤ × ℤ) : Prop :=
  match old with
  | none => new = (now, 1)
  | some (s, n) => if s + length ≤ now then new = (now, 1) else n < max ∧ new = (s, n + 1)

/-- The rows count what was admitted in the windows that go on; the windows of a key do not
overlap, and none has more than the maximum. -/
structure QuotaInv (length max : ℤ) (row : κ → Option (ℤ × ℤ)) (clock : ℤ)
    (log : List (Charge κ)) : Prop where
  within : ∀ c ∈ log, c.start ≤ c.time ∧ c.time < c.start + length ∧ c.time ≤ clock
  apart : ∀ c ∈ log, ∀ c' ∈ log, c.key = c'.key → c.start < c'.start → c.start + length ≤ c'.start
  bounded : ∀ k start, (inWindow log k start : ℤ) ≤ max
  current : ∀ k s n, row k = some (s, n) → s ≤ clock ∧ (inWindow log k s : ℤ) = n ∧
    ∀ c ∈ log, c.key = k → c.start = s ∨ c.start + length ≤ s
  past : ∀ k, row k = none → ∀ c ∈ log, c.key = k → c.start + length ≤ clock

theorem countP_or_le {α : Type*} (p q : α → Bool) (l : List α) :
    l.countP (fun a ↦ p a || q a) ≤ l.countP p + l.countP q := by
  induction l with
  | nil => simp
  | cons a l ih =>
    simp only [List.countP_cons]
    cases p a <;> cases q a <;> simp <;> omega

theorem inWindow_concat (log : List (Charge κ)) (c : Charge κ) (k : κ) (start : ℤ) :
    inWindow (log ++ [c]) k start =
      inWindow log k start + if c.key = k ∧ c.start = start then 1 else 0 := by
  rw [inWindow, List.countP_append, List.countP_singleton, inWindow]
  simp only [Bool.and_eq_true, decide_eq_true_eq]

theorem inWindow_eq_zero (h : ∀ c ∈ log, c.key = k → c.start ≠ s) : inWindow log k s = 0 := by
  rw [inWindow, List.countP_eq_zero]
  intro c hc
  simp only [Bool.and_eq_true, decide_eq_true_eq, not_and]
  exact h c hc

namespace QuotaInv

theorem start (hmax : 0 ≤ max) (clock : ℤ) :
    QuotaInv length max (fun _ : κ ↦ none) clock [] where
  within := by simp
  apart := by simp
  bounded k start := by simpa [inWindow] using hmax
  current k s n h := by cases h
  past := by simp

theorem tick (h : QuotaInv length max row clock log) (hle : clock ≤ now) :
    QuotaInv length max row now log where
  within c hc := by
    obtain ⟨hstart, hend, htime⟩ := h.within c hc
    exact ⟨hstart, hend, htime.trans hle⟩
  apart := h.apart
  bounded := h.bounded
  current k s n hrow := by
    obtain ⟨hs, hcount⟩ := h.current k s n hrow
    exact ⟨hs.trans hle, hcount⟩
  past k hrow c hc hkey := (h.past k hrow c hc hkey).trans hle

theorem of_windows
    (hwithin : ∀ c ∈ log, c.start ≤ c.time ∧ c.time < c.start + length ∧ c.time ≤ clock)
    (hapart : ∀ c ∈ log, ∀ c' ∈ log, c.key = c'.key → c.start < c'.start →
      c.start + length ≤ c'.start)
    (hbounded : ∀ k start, (inWindow log k start : ℤ) ≤ max) :
    ∃ row, QuotaInv length max row clock log := by
  classical
  let goesOn (k : κ) (c : Charge κ) : Prop := c ∈ log ∧ c.key = k ∧ clock < c.start + length
  refine ⟨fun k ↦ if h : ∃ c, goesOn k c then some (h.choose.start, inWindow log k h.choose.start)
    else none, hwithin, hapart, hbounded, ?_, ?_⟩
  · intro k s n hrow
    split_ifs at hrow with hgoes
    obtain ⟨hc, hkey, hlt⟩ := hgoes.choose_spec
    obtain ⟨rfl, rfl⟩ := Prod.mk.inj (Option.some.inj hrow)
    obtain ⟨hstart, -, htime⟩ := hwithin _ hc
    refine ⟨hstart.trans htime, rfl, fun c' hc' hkey' ↦ ?_⟩
    rcases lt_trichotomy c'.start hgoes.choose.start with hbefore | heq | hafter
    · exact .inr (hapart c' hc' _ hc (hkey'.trans hkey.symm) hbefore)
    · exact .inl heq
    · have hnext := hapart _ hc c' hc' (hkey.trans hkey'.symm) hafter
      obtain ⟨hstart', -, htime'⟩ := hwithin c' hc'
      omega
  · intro k hrow c hc hkey
    split_ifs at hrow with hgoes
    by_contra hlt
    exact hgoes ⟨c, hc, hkey, not_le.mp hlt⟩

/-- Rows may go once their window is over. -/
theorem drop (h : QuotaInv length max row clock log)
    (hrows : ∀ k, row' k = row k ∨
      row' k = none ∧ ∀ s n, row k = some (s, n) → s + length ≤ clock) :
    QuotaInv length max row' clock log where
  within := h.within
  apart := h.apart
  bounded := h.bounded
  current k s n hrow := by
    rcases hrows k with heq | ⟨hnone, -⟩
    · exact h.current k s n (heq.symm.trans hrow)
    · rw [hnone] at hrow
      cases hrow
  past k hrow c hc hkey := by
    rcases hrows k with heq | ⟨-, hover⟩
    · exact h.past k (heq.symm.trans hrow) c hc hkey
    · cases hold : row k with
      | none => exact h.past k hold c hc hkey
      | some q =>
        obtain ⟨s, n⟩ := q
        have hend := hover s n hold
        obtain ⟨-, -, hstarts⟩ := h.current k s n hold
        obtain ⟨hstart, hwithin, -⟩ := h.within c hc
        rcases hstarts c hc hkey with hs | hs
        · omega
        · omega

/-- What a charge finds: its window goes on, counts it, and all earlier ones are over. -/
theorem charges_spec (h : QuotaInv length max row clock log) (hlength : 0 < length) (hmax : 1 ≤ max)
    (hnow : clock ≤ now) (hcharges : Charges length max (row k) now (s, n)) :
    s ≤ now ∧ now < s + length ∧ (inWindow log k s : ℤ) + 1 = n ∧ n ≤ max ∧
      ∀ c ∈ log, c.key = k → c.start = s ∨ c.start + length ≤ s := by
  have hfresh (hpast : ∀ c ∈ log, c.key = k → c.start + length ≤ now) (hnew : (s, n) = (now, 1)) :
      s ≤ now ∧ now < s + length ∧ (inWindow log k s : ℤ) + 1 = n ∧ n ≤ max ∧
        ∀ c ∈ log, c.key = k → c.start = s ∨ c.start + length ≤ s := by
    cases hnew
    have hzero : inWindow log k now = 0 := by
      apply inWindow_eq_zero
      intro c hc hkey heq
      have hend := hpast c hc hkey
      omega
    rw [hzero]
    exact ⟨le_rfl, by omega, rfl, hmax, fun c hc hkey ↦ .inr (hpast c hc hkey)⟩
  cases hrow : row k with
  | none =>
    rw [hrow] at hcharges
    exact hfresh (fun c hc hkey ↦ (h.past k hrow c hc hkey).trans hnow) hcharges
  | some q =>
    obtain ⟨s₀, m⟩ := q
    obtain ⟨hs₀, hcount, hstarts⟩ := h.current k s₀ m hrow
    rw [hrow, Charges] at hcharges
    split_ifs at hcharges with hend
    · refine hfresh (fun c hc hkey ↦ ?_) hcharges
      rcases hstarts c hc hkey with heq | hpast
      · omega
      · omega
    · obtain ⟨hroom, hnew⟩ := hcharges
      cases hnew
      exact ⟨hs₀.trans hnow, by omega, by omega, by omega, hstarts⟩

theorem charge (h : QuotaInv length max row clock log) (hlength : 0 < length) (hmax : 1 ≤ max)
    (hnow : clock ≤ now) (hcharges : Charges length max (row k) now (s, n)) :
    QuotaInv length max (Function.update row k (some (s, n))) now (log ++ [⟨k, now, s⟩]) := by
  obtain ⟨hstart, hend, hcount, hroom, hstarts⟩ := h.charges_spec hlength hmax hnow hcharges
  have hticked := h.tick hnow
  constructor
  case within =>
    intro c hc
    rcases List.mem_append.mp hc with hold | hnew
    · exact hticked.within c hold
    · rw [List.mem_singleton.mp hnew]
      exact ⟨hstart, hend, le_rfl⟩
  case apart =>
    intro c hc c' hc' hkey hlt
    rcases List.mem_append.mp hc with hold | hnew
    · rcases List.mem_append.mp hc' with hold' | hnew'
      · exact h.apart c hold c' hold' hkey hlt
      · rw [List.mem_singleton.mp hnew'] at hkey hlt ⊢
        rcases hstarts c hold hkey with heq | hpast
        · exact absurd hlt (by rw [heq]; exact lt_irrefl s)
        · exact hpast
    · rw [List.mem_singleton.mp hnew] at hkey hlt ⊢
      rcases List.mem_append.mp hc' with hold' | hnew'
      · rcases hstarts c' hold' hkey.symm with heq | hpast
        · exact absurd hlt (by rw [heq]; exact lt_irrefl s)
        · dsimp only at hlt
          omega
      · rw [List.mem_singleton.mp hnew'] at hlt
        exact absurd hlt (lt_irrefl s)
  case bounded =>
    intro k' start
    rw [inWindow_concat]
    split_ifs with hsame
    · obtain ⟨rfl, rfl⟩ := hsame
      push_cast
      omega
    · exact_mod_cast h.bounded k' start
  case current =>
    intro k' s' n' hrow
    by_cases hk : k' = k
    · subst hk
      rw [Function.update_self] at hrow
      cases hrow
      refine ⟨hstart, ?_, fun c hc hkey ↦ ?_⟩
      · rw [inWindow_concat, if_pos ⟨rfl, rfl⟩]
        exact_mod_cast hcount
      · rcases List.mem_append.mp hc with hold | hnew
        · exact hstarts c hold hkey
        · rw [List.mem_singleton.mp hnew]
          exact .inl rfl
    · rw [Function.update_of_ne hk] at hrow
      obtain ⟨hs', hcount', hstarts'⟩ := hticked.current k' s' n' hrow
      refine ⟨hs', ?_, fun c hc hkey ↦ ?_⟩
      · rw [inWindow_concat, if_neg fun hsame ↦ hk hsame.1.symm]
        exact hcount'
      · rcases List.mem_append.mp hc with hold | hnew
        · exact hstarts' c hold hkey
        · rw [List.mem_singleton.mp hnew] at hkey
          exact absurd hkey.symm hk
  case past =>
    intro k' hrow c hc hkey
    by_cases hk : k' = k
    · subst hk
      rw [Function.update_self] at hrow
      cases hrow
    · rw [Function.update_of_ne hk] at hrow
      rcases List.mem_append.mp hc with hold | hnew
      · exact hticked.past k' hrow c hold hkey
      · rw [List.mem_singleton.mp hnew] at hkey
        exact absurd hkey.symm hk

/-- What lies in two windows is at most what both admit. -/
theorem between_le_of_windows (h : QuotaInv length max row clock log) {t t' s s' : ℤ}
    (hstarts : ∀ c ∈ log, c.key = k → t ≤ c.time → c.time ≤ t' → c.start = s ∨ c.start = s') :
    (between log k t t' : ℤ) ≤ 2 * max := by
  have hcount : between log k t t' ≤ inWindow log k s + inWindow log k s' := by
    calc between log k t t'
        ≤ log.countP fun c ↦ c.key = k && c.start = s || c.key = k && c.start = s' := by
          apply List.countP_mono_left
          intro c hc hin
          simp only [Bool.and_eq_true, decide_eq_true_eq] at hin
          simp only [Bool.or_eq_true, Bool.and_eq_true, decide_eq_true_eq]
          obtain ⟨hkey, ht, ht'⟩ := hin
          exact (hstarts c hc hkey ht ht').imp (⟨hkey, ·⟩) (⟨hkey, ·⟩)
      _ ≤ inWindow log k s + inWindow log k s' := countP_or_le _ _ log
  have hfirst := h.bounded k s
  have hsecond := h.bounded k s'
  omega

/-- Between two instants that are a window apart a key is admitted at most twice the maximum. -/
theorem between_le (h : QuotaInv length max row clock log) (hmax : 0 ≤ max) (k : κ) (t : ℤ) :
    (between log k t (t + length) : ℤ) ≤ 2 * max := by
  by_cases hany : ∃ c ∈ log, c.key = k ∧ t ≤ c.time ∧ c.time ≤ t + length
  · obtain ⟨c₀, hc₀, hfirst⟩ := (log.toFinset.filter fun c ↦
      c.key = k ∧ t ≤ c.time ∧ c.time ≤ t + length).exists_min_image Charge.start (by
        obtain ⟨c, hc, hin⟩ := hany
        exact ⟨c, Finset.mem_filter.mpr ⟨List.mem_toFinset.mpr hc, hin⟩⟩)
    obtain ⟨hmem₀, hkey₀, ht₀, ht₀'⟩ := Finset.mem_filter.mp hc₀
    have hlog₀ := List.mem_toFinset.mp hmem₀
    have hlater (c : Charge κ) (hc : c ∈ log) (hkey : c.key = k) (ht : t ≤ c.time)
        (ht' : c.time ≤ t + length) (hne : c.start ≠ c₀.start) :
        c₀.start + length ≤ c.start ∧ c.start < c₀.start + length + length := by
      have hle := hfirst c (Finset.mem_filter.mpr ⟨List.mem_toFinset.mpr hc, hkey, ht, ht'⟩)
      have happart := h.apart c₀ hlog₀ c hc (hkey₀.trans hkey.symm)
        (lt_of_le_of_ne hle hne.symm)
      obtain ⟨hstart, -, -⟩ := h.within c hc
      obtain ⟨-, hend₀, -⟩ := h.within c₀ hlog₀
      omega
    by_cases hother : ∃ c ∈ log, c.key = k ∧ t ≤ c.time ∧ c.time ≤ t + length ∧
        c.start ≠ c₀.start
    · obtain ⟨c₁, hlog₁, hkey₁, ht₁, ht₁', hne₁⟩ := hother
      have hlater₁ := hlater c₁ hlog₁ hkey₁ ht₁ ht₁' hne₁
      apply h.between_le_of_windows
      intro c hc hkey ht ht'
      by_cases hne : c.start = c₀.start
      · exact .inl hne
      right
      have hlater := hlater c hc hkey ht ht' hne
      rcases lt_trichotomy c.start c₁.start with hlt | heq | hgt
      · have happart := h.apart c hc c₁ hlog₁ (hkey.trans hkey₁.symm) hlt
        omega
      · exact heq
      · have happart := h.apart c₁ hlog₁ c hc (hkey₁.trans hkey.symm) hgt
        omega
    · have hsame (c : Charge κ) (hc : c ∈ log) (hkey : c.key = k) (ht : t ≤ c.time)
          (ht' : c.time ≤ t + length) : c.start = c₀.start ∨ c.start = c₀.start := by
        by_contra hne
        exact hother ⟨c, hc, hkey, ht, ht', fun heq ↦ hne (.inl heq)⟩
      exact h.between_le_of_windows hsame
  · have hzero : between log k t (t + length) = 0 := by
      rw [between, List.countP_eq_zero]
      intro c hc hin
      simp only [Bool.and_eq_true, decide_eq_true_eq] at hin
      exact hany ⟨c, hc, hin⟩
    rw [hzero]
    omega

theorem during_eq_inWindow (h : QuotaInv length max row clock log) {c : Charge κ} (hc : c ∈ log) :
    during log c.key c.start (c.start + length) = inWindow log c.key c.start := by
  apply List.countP_congr
  intro c' hc'
  simp only [Bool.and_eq_true, decide_eq_true_eq, and_congr_right_iff]
  intro hkey
  obtain ⟨hstart, hend, -⟩ := h.within c' hc'
  constructor
  · rintro ⟨hle, hlt⟩
    rcases lt_trichotomy c'.start c.start with hbefore | heq | hafter
    · have happart := h.apart c' hc' c hc hkey hbefore
      omega
    · exact heq
    · have happart := h.apart c hc c' hc' hkey.symm hafter
      omega
  · rintro heq
    rw [← heq]
    exact ⟨hstart, hend⟩

theorem holds (h : QuotaInv length max row clock log) (hmax : 0 ≤ max) :
    QuotaHolds length max row clock log where
  window c hc := by
    rw [h.during_eq_inWindow hc]
    exact h.bounded c.key c.start
  interval := h.between_le hmax
  counted c hc hgoes := by
    rw [h.during_eq_inWindow hc]
    cases hrow : row c.key with
    | none =>
      have hover := h.past c.key hrow c hc rfl
      omega
    | some q =>
      obtain ⟨s, n⟩ := q
      obtain ⟨hs, hcount, hstarts⟩ := h.current c.key s n hrow
      rcases hstarts c hc rfl with heq | hpast
      · rw [heq, hcount]
      · omega

end QuotaInv

end Buzz.Lib
