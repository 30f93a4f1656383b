import Mathlib.Data.List.Basic
import Mathlib.Data.List.Nodup
import Mathlib.Order.Nat

namespace Buzz.Lib

/-- A stretch of positions, not empty, that is put to some use. -/
structure Span (α : Type*) where
  start : ℕ
  len : ℕ
  value : α
  len_pos : 0 < len
deriving DecidableEq, Repr

namespace Span

variable {α : Type*}

def Covers (s : Span α) (i : ℕ) : Prop := s.start ≤ i ∧ i < s.start + s.len

def Disjoint (s t : Span α) : Prop := s.start + s.len ≤ t.start ∨ t.start + t.len ≤ s.start

instance (s : Span α) (i : ℕ) : Decidable (s.Covers i) := inferInstanceAs (Decidable (_ ∧ _))

instance (s t : Span α) : Decidable (s.Disjoint t) := inferInstanceAs (Decidable (_ ∨ _))

theorem Disjoint.not_covers {s t : Span α} (h : s.Disjoint t) : ¬s.Covers t.start := by
  have := t.len_pos
  simp only [Disjoint, Covers] at *
  omega

theorem covers_start (s : Span α) : s.Covers s.start :=
  ⟨le_rfl, Nat.lt_add_of_pos_right s.len_pos⟩

end Span

section Select

variable {α : Type*}

/-- Go through the candidates and choose each one that is admitted beside those chosen before. -/
def select (admits : List α → α → Bool) (chosen cands : List α) : List α :=
  cands.foldl (fun chosen c ↦ if admits chosen c then chosen ++ [c] else chosen) chosen

variable {admits admits' : List α → α → Bool} {chosen cands : List α}

@[simp] theorem select_nil : select admits chosen [] = chosen := rfl

theorem select_cons {c : α} : select admits chosen (c :: cands) =
    select admits (if admits chosen c then chosen ++ [c] else chosen) cands := rfl

theorem select_append {cands' : List α} :
    select admits chosen (cands ++ cands') = select admits (select admits chosen cands) cands' :=
  List.foldl_append

theorem prefix_select : chosen <+: select admits chosen cands := by
  induction cands generalizing chosen with
  | nil => exact List.prefix_rfl
  | cons c cands ih =>
    rw [select_cons]
    split
    · exact (List.prefix_append _ _).trans ih
    · exact ih

/-- Candidates none of which is admitted change nothing. -/
theorem select_eq_self (h : ∀ c ∈ cands, admits chosen c = false) :
    select admits chosen cands = chosen := by
  induction cands with
  | nil => rfl
  | cons c cands ih =>
    rw [select_cons, h c List.mem_cons_self]
    exact ih fun c' hc' ↦ h c' (List.mem_cons_of_mem _ hc')

/-- What holds between what is chosen and what is admitted beside it holds of all that is chosen. -/
theorem pairwise_select {r : α → α → Prop} (hr : ∀ chosen c, admits chosen c → ∀ s ∈ chosen, r s c)
    (h : chosen.Pairwise r) : (select admits chosen cands).Pairwise r := by
  induction cands generalizing chosen with
  | nil => exact h
  | cons c cands ih =>
    rw [select_cons]
    split
    · next hadmits =>
      refine ih (List.pairwise_append.mpr ⟨h, List.pairwise_singleton _ _, fun s hs c' hc' ↦ ?_⟩)
      rw [List.mem_singleton.mp hc']
      exact hr chosen c hadmits s hs
    · exact ih h

/-- A second chance changes nothing: what was turned down beside some stays so beside more. -/
theorem mem_of_mem_select (hmono : ∀ chosen more c, admits chosen c = false →
    admits (chosen ++ more) c = false) {c : α} (hc : admits chosen c = false)
    (h : c ∈ select admits chosen cands) : c ∈ chosen := by
  induction cands generalizing chosen with
  | nil => exact h
  | cons c' cands ih =>
    rw [select_cons] at h
    split at h
    · next hadmits =>
      rcases List.mem_append.mp (ih (hmono _ _ _ hc) h) with hold | hnew
      · exact hold
      · obtain rfl := List.mem_singleton.mp hnew
        rw [hc] at hadmits
        cases hadmits
    · exact ih hc h

/-- Two rules, one of them stricter, choose the same exactly when no candidate that only the other
one admits comes up. -/
theorem select_eq_select_iff
    (hstrict : ∀ chosen c, admits' chosen c = true → admits chosen c = true)
    (hmono : ∀ chosen more c, admits' chosen c = false → admits' (chosen ++ more) c = false)
    (hchosen : ∀ chosen, ∀ c ∈ chosen, admits chosen c = false) :
    select admits chosen cands = select admits' chosen cands ↔
      ∀ before c after, cands = before ++ c :: after →
        admits (select admits' chosen before) c = true →
        admits' (select admits' chosen before) c = true := by
  induction cands generalizing chosen with
  | nil => simp
  | cons c cands ih =>
    have hsplit : (∀ before c' after, c :: cands = before ++ c' :: after →
        admits (select admits' chosen before) c' = true →
        admits' (select admits' chosen before) c' = true) ↔
        (admits chosen c = true → admits' chosen c = true) ∧
          ∀ before c' after, cands = before ++ c' :: after →
            admits (select admits' chosen (c :: before)) c' = true →
            admits' (select admits' chosen (c :: before)) c' = true := by
      constructor
      · intro h
        exact ⟨h [] c cands rfl, fun before c' after heq ↦
          h (c :: before) c' after (by rw [heq]; rfl)⟩
      · rintro ⟨hhead, htail⟩ before c' after heq
        cases before with
        | nil =>
          obtain ⟨rfl, -⟩ := List.cons.inj heq
          exact hhead
        | cons b before =>
          obtain ⟨rfl, htl⟩ := List.cons.inj heq
          exact htail before c' after htl
    rw [hsplit, select_cons, select_cons]
    cases hadmits : admits chosen c with
    | false =>
      have hadmits' : admits' chosen c = false := by
        by_contra h
        rw [hstrict chosen c (by simpa using h)] at hadmits
        cases hadmits
      simpa [hadmits', select_cons] using ih
    | true =>
      cases hadmits' : admits' chosen c with
      | true => simpa [hadmits', select_cons] using ih
      | false =>
        simp only [if_true, Bool.false_eq_true, if_false, true_implies, false_and, iff_false]
        intro heq
        have hmem : c ∈ select admits (chosen ++ [c]) cands :=
          prefix_select.subset (by simp)
        rw [heq] at hmem
        have hin := hchosen chosen c (mem_of_mem_select hmono hadmits' hmem)
        rw [hadmits] at hin
        cases hin

end Select

section Spans

variable {α : Type*}

def startFree (chosen : List (Span α)) (c : Span α) : Bool :=
  chosen.all fun s ↦ !decide (s.Covers c.start)

def clear (chosen : List (Span α)) (c : Span α) : Bool :=
  chosen.all fun s ↦ decide (s.Disjoint c)

variable {chosen cands : List (Span α)} {c : Span α}

theorem startFree_iff : startFree chosen c = true ↔ ∀ s ∈ chosen, ¬s.Covers c.start := by
  simp [startFree]

theorem clear_iff : clear chosen c = true ↔ ∀ s ∈ chosen, s.Disjoint c := by
  simp [clear]

theorem startFree_mono {more : List (Span α)} (h : startFree chosen c = false) :
    startFree (chosen ++ more) c = false := by
  simp only [startFree, List.all_append, Bool.and_eq_false_iff] at h ⊢
  exact .inl h

theorem clear_mono {more : List (Span α)} (h : clear chosen c = false) :
    clear (chosen ++ more) c = false := by
  simp only [clear, List.all_append, Bool.and_eq_false_iff] at h ⊢
  exact .inl h

theorem startFree_eq_false {s : Span α} (hs : s ∈ chosen) (hcovers : s.Covers c.start) :
    startFree chosen c = false := by
  rw [← Bool.not_eq_true, startFree_iff]
  exact fun h ↦ h s hs hcovers

/-- The looser rule does as the stricter one exactly when no candidate starts outside of what is
chosen and runs into it. -/
theorem select_startFree_eq_iff : select startFree chosen cands = select clear chosen cands ↔
    ∀ before c after, cands = before ++ c :: after →
      (∀ s ∈ select clear chosen before, ¬s.Covers c.start) →
      ∀ s ∈ select clear chosen before, s.Disjoint c := by
  simp only [← startFree_iff, ← clear_iff]
  apply select_eq_select_iff
  · intro chosen c h
    exact startFree_iff.mpr fun s hs ↦ (clear_iff.mp h s hs).not_covers
  · exact fun _ _ _ ↦ clear_mono
  · exact fun _ c hc ↦ startFree_eq_false hc c.covers_start

theorem nodup_start : ((select startFree [] cands).map Span.start).Nodup := by
  rw [List.Nodup, List.pairwise_map]
  refine pairwise_select (fun chosen c h s hs heq ↦ ?_) List.Pairwise.nil
  exact startFree_iff.mp h s hs (heq ▸ s.covers_start)

/-- Where no earlier span reaches a position, the first candidate that starts there is chosen. -/
theorem mem_select_startFree_iff {i : ℕ} (hchosen : ∀ s ∈ chosen, ¬s.Covers i)
    (hcands : ∀ s ∈ cands, s.start < i → ¬s.Covers i) {s : Span α} :
    (s ∈ select startFree chosen cands ∧ s.start = i) ↔
      cands.find? (fun t ↦ decide (t.start = i)) = some s := by
  induction cands generalizing chosen with
  | nil =>
    refine iff_of_false ?_ (by simp)
    rintro ⟨hs, rfl⟩
    exact hchosen s hs s.covers_start
  | cons c cands ih =>
    rw [select_cons]
    by_cases hstart : c.start = i
    · have hfree : startFree chosen c = true := by
        rw [startFree_iff, hstart]
        exact hchosen
      rw [if_pos hfree, List.find?_cons_of_pos (by simpa using hstart)]
      have hc : c ∈ select startFree (chosen ++ [c]) cands := prefix_select.subset (by simp)
      constructor
      · rintro ⟨hs, rfl⟩
        have hnot : startFree (chosen ++ [c]) s = false :=
          startFree_eq_false (s := c) (by simp) (hstart ▸ c.covers_start)
        rcases List.mem_append.mp (mem_of_mem_select (fun _ _ _ ↦ startFree_mono) hnot hs) with
          hold | hnew
        · exact absurd s.covers_start (hchosen s hold)
        · rw [List.mem_singleton.mp hnew]
      · rintro ⟨⟩
        exact ⟨hc, hstart⟩
    · rw [List.find?_cons_of_neg (by simpa using hstart)]
      refine ih (fun s hs ↦ ?_) fun s hs ↦ hcands s (List.mem_cons_of_mem _ hs)
      split at hs
      · rcases List.mem_append.mp hs with hold | hnew
        · exact hchosen s hold
        · obtain rfl := List.mem_singleton.mp hnew
          have hlt := hcands s List.mem_cons_self
          simp only [Span.Covers] at hlt ⊢
          omega
      · exact hchosen s hs

end Spans

section FirstOccurrences

variable {α : Type*}

structure FirstOccurrences (occurs : ℕ → α → Prop) (found : List α) : Prop where
  mem_iff : ∀ a, a ∈ found ↔ ∃ n, occurs n a
  nodup : found.Nodup
  ordered : found.Pairwise fun a b ↦ ∃ n, occurs n a ∧ ∀ m, occurs m b → n < m

/-- What a scan adds to the elements that it already has. -/
structure Collects (occurs : ℕ → α → Prop) (found found' : List α) (new : List α) : Prop where
  eq : found' = found ++ new
  mem_iff : ∀ a, a ∈ new ↔ a ∉ found ∧ ∃ n, occurs n a
  nodup : new.Nodup
  ordered : new.Pairwise fun a b ↦ ∃ n, occurs n a ∧ ∀ m, occurs m b → n < m

variable {occurs occurs' : ℕ → α → Prop} {found found' new : List α} {a : α} {k : ℕ}

theorem collects_nil (h : ∀ n a, ¬occurs n a) : Collects occurs found found [] where
  eq := (List.append_nil found).symm
  mem_iff a := by simp [h]
  nodup := List.nodup_nil
  ordered := .nil

/-- Text that is passed over without an occurrence only moves the positions. -/
theorem Collects.shift (h : Collects occurs' found found' new)
    (hshift : ∀ n a, occurs n a ↔ ∃ m, n = k + m ∧ occurs' m a) :
    Collects occurs found found' new where
  eq := h.eq
  mem_iff a := by
    rw [h.mem_iff]
    simp [hshift]
  nodup := h.nodup
  ordered := by
    refine h.ordered.imp ?_
    rintro a b ⟨n, hn, hbefore⟩
    refine ⟨k + n, (hshift _ _).mpr ⟨n, rfl, hn⟩, ?_⟩
    intro m hm
    obtain ⟨m, rfl, hm'⟩ := (hshift _ _).mp hm
    exact Nat.add_lt_add_left (hbefore m hm') k

/-- An occurrence before all the others comes first. -/
theorem Collects.cons_of_lt [DecidableEq α]
    (h : Collects occurs' (if a ∈ found then found else found ++ [a]) found' new)
    (hcons : ∀ n b, occurs n b ↔ n = k ∧ b = a ∨ occurs' n b) (hlt : ∀ n b, occurs' n b → k < n) :
    ∃ new', Collects occurs found found' new' := by
  have hfront : occurs k a := (hcons k a).mpr (.inl ⟨rfl, rfl⟩)
  have hrest {b : α} (hne : b ≠ a) : (∃ n, occurs n b) ↔ ∃ n, occurs' n b := by
    simp [hcons, hne]
  have hordered : new.Pairwise fun b c ↦ ∃ n, occurs n b ∧ ∀ m, occurs m c → n < m := by
    refine h.ordered.imp_of_mem ?_
    rintro b c - hc ⟨n, hn, hbefore⟩
    refine ⟨n, (hcons _ _).mpr (.inr hn), ?_⟩
    intro m hm
    have hne : c ≠ a := by
      rintro rfl
      have hnot := ((h.mem_iff c).mp hc).1
      split_ifs at hnot with hmem
      · exact hnot hmem
      · simp at hnot
    obtain ⟨-, heq⟩ | hm' := (hcons _ _).mp hm
    · exact absurd heq hne
    · exact hbefore m hm'
  have hmem := h.mem_iff
  by_cases ha : a ∈ found
  · rw [if_pos ha] at h hmem
    refine ⟨new, h.eq, fun b ↦ ?_, h.nodup, hordered⟩
    by_cases hba : b = a
    · subst hba
      simp [hmem, ha]
    · rw [hmem, hrest hba]
  · rw [if_neg ha] at h hmem
    refine ⟨a :: new, ?_, ?_, ?_, ?_⟩
    · rw [h.eq, List.append_assoc, List.singleton_append]
    · intro b
      by_cases hba : b = a
      · subst hba
        simp only [List.mem_cons_self, ha, true_iff, not_false_iff, true_and]
        exact ⟨k, hfront⟩
      · simp [hmem, hba, hrest hba]
    · refine List.nodup_cons.mpr ⟨?_, h.nodup⟩
      simp [hmem]
    · refine List.pairwise_cons.mpr ⟨?_, hordered⟩
      intro b hb
      refine ⟨k, hfront, ?_⟩
      intro m hm
      obtain ⟨-, rfl⟩ | hm' := (hcons _ _).mp hm
      · simp [hmem] at hb
      · exact hlt m b hm'

/-- An occurrence at the front comes before those in the text after it. -/
theorem Collects.cons [DecidableEq α]
    (h : Collects occurs' (if a ∈ found then found else found ++ [a]) found' new)
    (hcons : ∀ n b, occurs n b ↔ n = 0 ∧ b = a ∨ ∃ m, n = k + 1 + m ∧ occurs' m b) :
    ∃ new', Collects occurs found found' new' := by
  have hshifted : Collects (fun n b ↦ ∃ m, n = k + 1 + m ∧ occurs' m b)
      (if a ∈ found then found else found ++ [a]) found' new := h.shift fun _ _ ↦ Iff.rfl
  refine hshifted.cons_of_lt hcons ?_
  rintro n b ⟨m, rfl, -⟩
  omega

/-- Occurrences listed by their positions. -/
theorem collects_of_sorted [DecidableEq α] {l : List (ℕ × α)}
    (h : l.Pairwise fun x y ↦ x.1 < y.1) (found : List α) :
    ∃ new, Collects (fun n a ↦ (n, a) ∈ l) found
      (l.foldl (fun out x ↦ if x.2 ∈ out then out else out ++ [x.2]) found) new := by
  induction l generalizing found with
  | nil => exact ⟨[], collects_nil (by simp)⟩
  | cons x l ih =>
    obtain ⟨hlt, hl⟩ := List.pairwise_cons.mp h
    obtain ⟨new, hnew⟩ := ih hl (if x.2 ∈ found then found else found ++ [x.2])
    refine hnew.cons_of_lt (fun n b ↦ ?_) fun n b hb ↦ hlt (n, b) hb
    rw [List.mem_cons, Prod.ext_iff]

theorem Collects.firstOccurrences (h : Collects occurs [] found' new) :
    FirstOccurrences occurs found' := by
  obtain rfl : found' = new := h.eq
  refine ⟨fun a ↦ ?_, h.nodup, h.ordered⟩
  rw [h.mem_iff]
  simp

end FirstOccurrences

end Buzz.Lib
