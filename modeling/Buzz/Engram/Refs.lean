import Buzz.Engram.Slug
import Buzz.Lib.Spans
import Mathlib.Algebra.Group.Even
import Mathlib.Algebra.Ring.Parity

namespace Buzz.Engram

open Buzz.Lib

/-- From inside a reference, the text up to its `]]` and the text after it; an inner `[[` or the
end of the text comes first otherwise. -/
def closing : List Char → Option (List Char × List Char)
  | '[' :: '[' :: _ => none
  | ']' :: ']' :: after => some ([], after)
  | c :: rest => (closing rest).map fun (candidate, after) ↦ (c :: candidate, after)
  | [] => none

theorem closing_eq_some {start candidate after : List Char}
    (h : closing start = some (candidate, after)) : start = candidate ++ ']' :: ']' :: after := by
  induction start using closing.induct generalizing candidate after with
  | case1 => simp [closing] at h
  | case2 => simp_all [closing]
  | case3 c rest hopen hclose ih =>
    rw [closing.eq_3 c rest hopen hclose] at h
    obtain ⟨⟨candidate', after'⟩, hrest, heq⟩ := Option.map_eq_some_iff.mp h
    obtain ⟨rfl, rfl⟩ := Prod.mk.inj heq
    rw [ih hrest, List.cons_append]
  | case4 => simp [closing] at h

def keep (out : List String) (candidate : List Char) : List String :=
  match validateSlug (String.ofList candidate) with
  | .ok () => if String.ofList candidate ∈ out then out else out ++ [String.ofList candidate]
  | .error _ => out

def scanRefs (text : List Char) (out : List String) : List String :=
  if (String.ofList text).utf8ByteSize ≤ 3 then out
  else
    match text with
    | '[' :: '[' :: start =>
      match _hclosing : closing start with
      | some (candidate, after) => scanRefs after (keep out candidate)
      | none => scanRefs start out
    | _ :: rest => scanRefs rest out
    | [] => out
termination_by text.length
decreasing_by
  · rw [closing_eq_some _hclosing]
    simp only [List.length_cons, List.length_append]
    omega
  · simp only [List.length_cons]
    omega
  · simp only [List.length_cons]
    omega

def extractRefs (body : String) : List String := scanRefs body.toList []

def openRun (pre : List Char) : ℕ := (pre.reverse.takeWhile (· = '[')).length

def LiteralRefAt (text : List Char) (n : ℕ) (s : String) : Prop :=
  ∃ pre post, text = pre ++ '[' :: '[' :: (s.toList ++ ']' :: ']' :: post) ∧ pre.length = n ∧
    validateSlug s = .ok ()

/-- A slug between brackets whose opening ones are not the second half of a `[[` and the first of
another. -/
def RefAt (text : List Char) (n : ℕ) (s : String) : Prop :=
  ∃ pre post, text = pre ++ '[' :: '[' :: (s.toList ++ ']' :: ']' :: post) ∧ pre.length = n ∧
    validateSlug s = .ok () ∧ Even (openRun pre)

section OpenRun

theorem openRun_append (pre pre' : List Char) : openRun (pre ++ pre') =
    if openRun pre' = pre'.length then pre'.length + openRun pre else openRun pre' := by
  rw [openRun, List.reverse_append, List.takeWhile_append, List.length_reverse, ← openRun]
  split_ifs
  · rw [List.length_append, List.length_reverse, openRun]
  · rfl

theorem openRun_append_of_ne (pre pre' : List Char) {c : Char} (h : c ≠ '[') :
    openRun (pre ++ c :: pre') = openRun pre' := by
  have hzero : openRun (pre ++ [c]) = 0 := by
    rw [openRun, List.reverse_append, List.reverse_singleton, List.singleton_append,
      List.takeWhile_cons_of_neg (by simpa using h), List.length_nil]
  rw [List.append_cons, openRun_append, hzero]
  split_ifs with hrun
  · rw [Nat.add_zero, hrun]
  · rfl

/-- Two brackets more or less leave the parity as it is. -/
theorem even_openRun_cons_cons (pre : List Char) :
    Even (openRun ('[' :: '[' :: pre)) ↔ Even (openRun pre) := by
  have htwo : openRun ['[', '['] = 2 := rfl
  have happend := openRun_append ['[', '['] pre
  rw [List.cons_append, List.singleton_append, htwo] at happend
  rw [happend]
  split_ifs with hrun
  · rw [hrun, Nat.even_add]
    simp
  · rfl

end OpenRun

section Closing

variable {start candidate after : List Char}

/-- The next `[[` is past the reference that closes. -/
theorem exists_after_of_closing (h : closing start = some (candidate, after)) {pre rest : List Char}
    (hstart : start = pre ++ '[' :: '[' :: rest) :
    ∃ pre', pre = candidate ++ ']' :: ']' :: pre' ∧ after = pre' ++ '[' :: '[' :: rest := by
  induction start using closing.induct generalizing candidate after pre with
  | case1 => simp [closing] at h
  | case2 after' =>
    simp only [closing, Option.some.injEq, Prod.mk.injEq] at h
    obtain ⟨rfl, rfl⟩ := h
    match pre, hstart with
    | [c], hstart => simp at hstart
    | c :: d :: pre', hstart =>
      simp only [List.cons_append, List.cons.injEq] at hstart
      obtain ⟨rfl, rfl, hrest⟩ := hstart
      exact ⟨pre', rfl, hrest⟩
  | case3 c tail hopen hclose ih =>
    rw [closing.eq_3 c tail hopen hclose] at h
    obtain ⟨⟨candidate', after'⟩, htail, heq⟩ := Option.map_eq_some_iff.mp h
    obtain ⟨rfl, rfl⟩ := Prod.mk.inj heq
    match pre, hstart with
    | [], hstart =>
      simp only [List.nil_append, List.cons.injEq] at hstart
      exact (hopen rest hstart.1 hstart.2).elim
    | d :: pre', hstart =>
      simp only [List.cons_append, List.cons.injEq] at hstart
      obtain ⟨rfl, hstart⟩ := hstart
      obtain ⟨pre'', rfl, hafter⟩ := ih htail hstart
      exact ⟨pre'', rfl, hafter⟩
  | case4 => simp [closing] at h

theorem closing_slug {s : String} (h : validateSlug s = .ok ()) (post : List Char) :
    closing (s.toList ++ ']' :: ']' :: post) = some (s.toList, post) := by
  have hplain : ∀ c ∈ s.toList, c ≠ '[' ∧ c ≠ ']' := fun c hc ↦ not_bracket_of_validateSlug h hc
  generalize s.toList = slug at *
  induction slug with
  | nil => rfl
  | cons c cs ih =>
    obtain ⟨hopen, hclose⟩ := hplain c List.mem_cons_self
    rw [List.cons_append, closing.eq_3 c _ (fun _ hc _ ↦ hopen hc) (fun _ hc _ ↦ hclose hc),
      ih fun d hd ↦ hplain d (List.mem_cons_of_mem c hd)]
    rfl

end Closing

section Steps

variable {start candidate after rest : List Char} {n : ℕ} {s : String}

theorem not_refAt_of_short {text : List Char} (h : (String.ofList text).utf8ByteSize ≤ 3) :
    ¬RefAt text n s := by
  rintro ⟨pre, post, rfl, -⟩
  have hlen := length_le_utf8ByteSize (pre ++ '[' :: '[' :: (s.toList ++ ']' :: ']' :: post))
  simp only [List.length_append, List.length_cons] at hlen
  omega

/-- Behind a `[[` that does not close, the references are those of the text after it. -/
theorem refAt_open (h : closing start = none) :
    RefAt ('[' :: '[' :: start) n s ↔ ∃ m, n = 2 + m ∧ RefAt start m s := by
  constructor
  · rintro ⟨pre, post, htext, rfl, hs, heven⟩
    match pre, htext with
    | [], htext =>
      simp only [List.nil_append, List.cons.injEq, true_and] at htext
      rw [htext, closing_slug hs] at h
      nomatch h
    | [c], htext =>
      simp only [List.singleton_append, List.cons.injEq] at htext
      obtain ⟨rfl, -⟩ := htext
      exact absurd heven (by decide)
    | c :: d :: pre, htext =>
      simp only [List.cons_append, List.cons.injEq] at htext
      obtain ⟨rfl, rfl, htext⟩ := htext
      refine ⟨pre.length, by simp only [List.length_cons]; omega, pre, post, htext, rfl, hs, ?_⟩
      exact (even_openRun_cons_cons pre).mp heven
  · rintro ⟨m, rfl, pre, post, rfl, rfl, hs, heven⟩
    refine ⟨'[' :: '[' :: pre, post, rfl, by simp only [List.length_cons]; omega, hs, ?_⟩
    exact (even_openRun_cons_cons pre).mpr heven

/-- A `[[` that closes is a reference if what it holds is a slug; the others come after it. -/
theorem refAt_closed (h : closing start = some (candidate, after)) :
    RefAt ('[' :: '[' :: start) n s ↔
      (n = 0 ∧ s = String.ofList candidate ∧ validateSlug s = .ok ()) ∨
        ∃ m, n = candidate.length + 4 + m ∧ RefAt after m s := by
  constructor
  · rintro ⟨pre, post, htext, rfl, hs, heven⟩
    match pre, htext with
    | [], htext =>
      simp only [List.nil_append, List.cons.injEq, true_and] at htext
      rw [htext, closing_slug hs] at h
      obtain ⟨hcandidate, -⟩ := Prod.mk.inj (Option.some.inj h)
      exact .inl ⟨rfl, by rw [← hcandidate, String.ofList_toList], hs⟩
    | [c], htext =>
      simp only [List.singleton_append, List.cons.injEq] at htext
      obtain ⟨rfl, -⟩ := htext
      exact absurd heven (by decide)
    | c :: d :: pre, htext =>
      simp only [List.cons_append, List.cons.injEq] at htext
      obtain ⟨rfl, rfl, htext⟩ := htext
      obtain ⟨pre', rfl, hafter⟩ := exists_after_of_closing h htext
      refine .inr ⟨pre'.length, ?_, pre', post, hafter, rfl, hs, ?_⟩
      · simp only [List.length_cons, List.length_append]
        omega
      · rw [even_openRun_cons_cons, List.append_cons, openRun_append_of_ne _ _ (by decide)] at heven
        exact heven
  · have hstart := closing_eq_some h
    rintro (⟨rfl, rfl, hs⟩ | ⟨m, rfl, pre, post, rfl, rfl, hs, heven⟩)
    · exact ⟨[], after, by simp [hstart], rfl, hs, by decide⟩
    · refine ⟨'[' :: '[' :: (candidate ++ ']' :: ']' :: pre), post, by simp [hstart], ?_, hs, ?_⟩
      · simp only [List.length_cons, List.length_append]
        omega
      · rw [even_openRun_cons_cons, List.append_cons, openRun_append_of_ne _ _ (by decide)]
        exact heven

theorem refAt_cons {c : Char} (h : ∀ tail, c = '[' → rest = '[' :: tail → False) :
    RefAt (c :: rest) n s ↔ ∃ m, n = 1 + m ∧ RefAt rest m s := by
  have hrun {pre tail : List Char} (hrest : rest = pre ++ '[' :: '[' :: tail) :
      openRun (c :: pre) = openRun pre := by
    by_cases hc : c = '['
    · match pre, hrest with
      | [], hrest => exact (h _ hc hrest).elim
      | d :: pre, hrest =>
        have hd : d ≠ '[' := fun hd ↦ h _ hc (hd ▸ hrest)
        exact (openRun_append_of_ne [c] pre hd).trans (openRun_append_of_ne [] pre hd).symm
    · exact openRun_append_of_ne [] pre hc
  constructor
  · rintro ⟨pre, post, htext, rfl, hs, heven⟩
    match pre, htext with
    | [], htext =>
      simp only [List.nil_append, List.cons.injEq] at htext
      exact (h _ htext.1 htext.2).elim
    | d :: pre, htext =>
      simp only [List.cons_append, List.cons.injEq] at htext
      obtain ⟨rfl, htext⟩ := htext
      refine ⟨pre.length, by simp only [List.length_cons]; omega, pre, post, htext, rfl, hs, ?_⟩
      exact hrun htext ▸ heven
  · rintro ⟨m, rfl, pre, post, htext, rfl, hs, heven⟩
    refine ⟨c :: pre, post, by rw [htext, List.cons_append], ?_, hs, (hrun htext).symm ▸ heven⟩
    simp only [List.length_cons]
    omega

end Steps

/-- The scan adds the references of the text that it goes over, as they first occur. -/
theorem collects_scanRefs (text : List Char) (out : List String) :
    ∃ new, Collects (RefAt text) out (scanRefs text out) new := by
  induction text, out using scanRefs.induct with
  | case1 text out hshort =>
    rw [scanRefs.eq_def, if_pos hshort]
    exact ⟨[], collects_nil fun _ _ ↦ not_refAt_of_short hshort⟩
  | case2 out start candidate after hclosing hlong ih =>
    obtain ⟨new, hnew⟩ := ih
    have hscan : scanRefs ('[' :: '[' :: start) out = scanRefs after (keep out candidate) := by
      rw [scanRefs.eq_def, if_neg hlong]
      simp only
      split
      · next heq =>
        rw [hclosing] at heq
        cases heq
        rfl
      · next heq =>
        rw [hclosing] at heq
        nomatch heq
    rw [hscan]
    cases hs : validateSlug (String.ofList candidate) with
    | ok =>
      have hkeep : keep out candidate = if String.ofList candidate ∈ out then out
          else out ++ [String.ofList candidate] := by
        simp only [keep, hs]
      rw [hkeep] at hnew ⊢
      refine hnew.cons (k := candidate.length + 3) fun n s ↦ ?_
      rw [refAt_closed hclosing]
      constructor
      · rintro (⟨rfl, rfl, -⟩ | hafter)
        · exact .inl ⟨rfl, rfl⟩
        · exact .inr hafter
      · rintro (⟨rfl, rfl⟩ | hafter)
        · exact .inl ⟨rfl, rfl, hs⟩
        · exact .inr hafter
    | error e =>
      have hkeep : keep out candidate = out := by
        simp only [keep, hs]
      rw [hkeep] at hnew ⊢
      refine ⟨new, hnew.shift (k := candidate.length + 4) fun n s ↦ ?_⟩
      rw [refAt_closed hclosing, or_iff_right]
      rintro ⟨-, rfl, hok⟩
      rw [hs] at hok
      nomatch hok
  | case3 out start hclosing hlong ih =>
    obtain ⟨new, hnew⟩ := ih
    have hscan : scanRefs ('[' :: '[' :: start) out = scanRefs start out := by
      rw [scanRefs.eq_def, if_neg hlong]
      simp only
      split
      · next heq =>
        rw [hclosing] at heq
        nomatch heq
      · rfl
    rw [hscan]
    exact ⟨new, hnew.shift fun n s ↦ refAt_open hclosing⟩
  | case4 out c rest hopen hlong ih =>
    obtain ⟨new, hnew⟩ := ih
    rw [scanRefs.eq_def, if_neg hlong]
    split
    · next start heq =>
      obtain ⟨rfl, rfl⟩ := List.cons_eq_cons.mp heq
      exact (hopen start rfl rfl).elim
    · next heq =>
      obtain ⟨rfl, rfl⟩ := List.cons_eq_cons.mp heq
      exact ⟨new, hnew.shift fun n s ↦ refAt_cons hopen⟩
    · next heq => nomatch heq
  | case5 out hlong => exact absurd (Nat.zero_le 3) hlong

/-- The references of a text are the slugs in brackets after an even run of opening brackets, in
the order of their first occurrences. -/
theorem extractRefs_firstOccurrences (body : String) :
    FirstOccurrences (RefAt body.toList) (extractRefs body) := by
  obtain ⟨new, hnew⟩ := collects_scanRefs body.toList []
  exact hnew.firstOccurrences

/-- The second and third of three brackets do not open a reference. -/
theorem extractRefs_triple :
    ¬FirstOccurrences (LiteralRefAt "[[[mem/x]]".toList) (extractRefs "[[[mem/x]]") := by
  intro h
  have hmem : "mem/x" ∈ extractRefs "[[[mem/x]]" :=
    (h.mem_iff "mem/x").mpr ⟨1, ['['], [], by decide, rfl, by decide⟩
  have hnone : extractRefs "[[[mem/x]]" = [] := by decide +kernel
  rw [hnone] at hmem
  nomatch hmem

end Buzz.Engram
