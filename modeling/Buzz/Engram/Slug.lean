import Buzz.Lib.Texts
import Mathlib.Data.Nat.Notation
import Mathlib.Tactic.SplitIfs
import Mathlib.Data.List.Basic

namespace Buzz.Engram

open Buzz.Lib

def coreSlug : String := "core"

def slugMaxLen : ℕ := 255

def memFront : List Char := "mem/".toList

inductive SlugError
  | tooLong (len : ℕ)
  | expected (slug : String)
  | emptyAfterMem
  | segment (i : ℕ) (segment : String) (why : String)
deriving DecidableEq, Repr

def isLowerAlnum (c : Char) : Bool := 'a' ≤ c && c ≤ 'z' || '0' ≤ c && c ≤ '9'

def isSegmentChar (c : Char) : Bool := isLowerAlnum c || c = '_' || c = '-'

def validateSegment : List Char → Except String Unit
  | [] => .error "empty"
  | first :: rest =>
    if 64 < (String.ofList (first :: rest)).utf8ByteSize then .error "longer than 64 bytes"
    else if !isLowerAlnum first then .error "first byte must be [a-z0-9]"
    else if !rest.all isSegmentChar then .error "only [a-z0-9_-] allowed after the first byte"
    else .ok ()

def validateSegments : ℕ → List (List Char) → Except SlugError Unit
  | _, [] => .ok ()
  | i, s :: segments =>
    match validateSegment s with
    | .error why => .error (.segment i (String.ofList s) why)
    | .ok () => validateSegments (i + 1) segments

def validateSlug (slug : String) : Except SlugError Unit :=
  if slug = coreSlug then .ok ()
  else if slugMaxLen < slug.utf8ByteSize then .error (.tooLong slug.utf8ByteSize)
  else if memFront.isPrefixOf slug.toList then
    let rest := slug.toList.drop memFront.length
    if rest.isEmpty then .error .emptyAfterMem
    else validateSegments 1 (rest.splitOn '/')
  else .error (.expected slug)

theorem forall_validateSegment {i : ℕ} {segments : List (List Char)}
    (h : validateSegments i segments = .ok ()) : ∀ s ∈ segments, validateSegment s = .ok () := by
  induction segments generalizing i with
  | nil => simp
  | cons s segments ih =>
    rw [validateSegments] at h
    split at h
    · nomatch h
    · next hs =>
      intro s' hs'
      rcases List.mem_cons.mp hs' with rfl | hs'
      · exact hs
      · exact ih h s' hs'

theorem isSegmentChar_of_validateSegment {s : List Char} (h : validateSegment s = .ok ()) :
    ∀ c ∈ s, isSegmentChar c = true := by
  cases s with
  | nil => simp
  | cons first rest =>
    rw [validateSegment] at h
    split_ifs at h with hlen hfirst hrest
    simp only [Bool.not_eq_true', Bool.not_eq_false] at hfirst hrest
    intro c hc
    rcases List.mem_cons.mp hc with rfl | hc
    · rw [isSegmentChar, hfirst, Bool.true_or, Bool.true_or]
    · exact List.all_eq_true.mp hrest c hc

/-- A slug has none of the characters that mark a reference. -/
theorem isSegmentChar_or_slash_of_validateSlug {slug : String} (h : validateSlug slug = .ok ()) :
    ∀ c ∈ slug.toList, isSegmentChar c = true ∨ c = '/' := by
  intro c hc
  rw [validateSlug] at h
  dsimp only at h
  split_ifs at h with hcore hlen hmem hempty
  · have hplain : coreSlug.toList.all isSegmentChar = true := by decide
    rw [hcore] at hc
    exact .inl (List.all_eq_true.mp hplain c hc)
  · have hsplit : slug.toList = memFront ++ slug.toList.drop memFront.length :=
      (List.prefix_iff_eq_append.mp (List.isPrefixOf_iff_prefix.mp hmem)).symm
    rw [hsplit, List.mem_append] at hc
    rcases hc with hc | hc
    · have hfront : memFront.all (fun c ↦ isSegmentChar c || c = '/') = true := by decide
      simpa using List.all_eq_true.mp hfront c hc
    · rcases mem_splitOn_or '/' hc with rfl | ⟨s, hs, hc⟩
      · exact .inr rfl
      · exact .inl (isSegmentChar_of_validateSegment (forall_validateSegment h s hs) c hc)

theorem not_bracket_of_validateSlug {slug : String} (h : validateSlug slug = .ok ()) {c : Char}
    (hc : c ∈ slug.toList) : c ≠ '[' ∧ c ≠ ']' := by
  have hplain := isSegmentChar_or_slash_of_validateSlug h c hc
  constructor
  · rintro rfl
    revert hplain
    decide
  · rintro rfl
    revert hplain
    decide

end Buzz.Engram
