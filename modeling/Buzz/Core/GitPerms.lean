import Mathlib.Data.List.Basic
import Mathlib.Order.Basic

namespace Buzz.Core.GitPerms

inductive MemberRole
  | owner | admin | member | guest | bot
deriving DecidableEq, Repr

namespace MemberRole

def asStr : MemberRole → String
  | owner => "owner"
  | admin => "admin"
  | member => "member"
  | guest => "guest"
  | bot => "bot"

def permissionLevel : MemberRole → ℕ
  | owner => 4
  | admin => 3
  | member => 2
  | guest => 1
  | bot => 0

def hasAtLeast (role required : MemberRole) : Bool :=
  required.permissionLevel ≤ role.permissionLevel

def parse (s : String) : Option MemberRole :=
  if s = "owner" then some owner
  else if s = "admin" then some admin
  else if s = "member" then some member
  else if s = "guest" then some guest
  else if s = "bot" then some bot
  else none

theorem permissionLevel_injective : Function.Injective permissionLevel := by
  intro a b h
  cases a <;> cases b <;> first | rfl | cases h

end MemberRole

def maxProtectionRules : ℕ := 50
def maxPatternLength : ℕ := 256
def maxWildcardsPerPattern : ℕ := 3

inductive PatternSegment
  | literal (lit : String)
  | wildcard
  | recursiveWildcard
deriving DecidableEq, Repr

inductive PatternError
  | empty
  | tooLong
  | missingRefsPrefix
  | invalidSegment (segment : String)
  | tooManyWildcards
deriving DecidableEq, Repr

def splitSlash (s : String) : List String := (s.toList.splitOn '/').map String.ofList

structure RefPattern where
  raw : String
  segments : List PatternSegment
  recursiveLast : PatternSegment.recursiveWildcard ∉ segments.dropLast
deriving DecidableEq

namespace RefPattern

def countWildcard (wildcardCount : ℕ) (segment : PatternSegment) :
    Except PatternError (PatternSegment × ℕ) :=
  if wildcardCount + 1 > maxWildcardsPerPattern then .error .tooManyWildcards
  else .ok (segment, wildcardCount + 1)

def isLiteralChar (c : Char) : Bool := c.isAlphanum || c = '.' || c = '_' || c = '-'

def parsePart (isLast : Bool) (wildcardCount : ℕ) (part : String) :
    Except PatternError (PatternSegment × ℕ) :=
  if part = "**" then
    if !isLast then .error (.invalidSegment "** must be the last segment")
    else countWildcard wildcardCount .recursiveWildcard
  else if part = "*" then countWildcard wildcardCount .wildcard
  else if part.isEmpty then .error (.invalidSegment "")
  else if part.toList.any fun c ↦ c = '*' || c = '?' || c = '[' || c = ']' then
    .error (.invalidSegment part)
  else if !part.toList.all isLiteralChar then .error (.invalidSegment part)
  else .ok (.literal part, wildcardCount)

def parseParts : ℕ → List String → Except PatternError (List PatternSegment)
  | _, [] => .ok []
  | wildcardCount, part :: parts =>
    match parsePart parts.isEmpty wildcardCount part with
    | .error e => .error e
    | .ok (segment, wildcardCount) =>
      match parseParts wildcardCount parts with
      | .error e => .error e
      | .ok segments => .ok (segment :: segments)

theorem ne_recursiveWildcard_of_parsePart {n : ℕ} {part : String} {r : PatternSegment × ℕ}
    (h : parsePart false n part = .ok r) : r.1 ≠ .recursiveWildcard := by
  simp only [parsePart, countWildcard, Bool.not_false, if_true] at h
  split_ifs at h <;> cases h <;> simp

theorem length_of_parseParts {n : ℕ} {parts : List String} {segments : List PatternSegment}
    (h : parseParts n parts = .ok segments) : segments.length = parts.length := by
  induction parts generalizing n segments with
  | nil =>
    cases h
    rfl
  | cons part parts ih =>
    rw [parseParts] at h
    split at h
    · cases h
    · split at h
      · cases h
      · next hrest =>
        cases h
        rw [List.length_cons, List.length_cons, ih hrest]

theorem recursiveLast_of_parseParts {n : ℕ} {parts : List String} {segments : List PatternSegment}
    (h : parseParts n parts = .ok segments) :
    PatternSegment.recursiveWildcard ∉ segments.dropLast := by
  induction parts generalizing n segments with
  | nil =>
    cases h
    simp
  | cons part parts ih =>
    rw [parseParts] at h
    split at h
    · cases h
    · next hpart =>
      split at h
      · cases h
      · next hrest =>
        cases h
        have hlen := length_of_parseParts hrest
        have hlast := ih hrest
        cases parts with
        | nil =>
          rw [List.length_eq_zero_iff.mp hlen]
          simp
        | cons part' parts =>
          obtain ⟨s, ss, rfl⟩ := List.exists_cons_of_length_eq_add_one hlen
          rw [List.dropLast_cons_cons, List.mem_cons, not_or]
          exact ⟨(ne_recursiveWildcard_of_parsePart hpart).symm, hlast⟩

def parse (pattern : String) : Except PatternError RefPattern :=
  if pattern.isEmpty then .error .empty
  else if pattern.utf8ByteSize > maxPatternLength then .error .tooLong
  else if !"refs/".toList.isPrefixOf pattern.toList then .error .missingRefsPrefix
  else
    match h : parseParts 0 (splitSlash pattern) with
    | .error e => .error e
    | .ok segments => .ok ⟨pattern, segments, recursiveLast_of_parseParts h⟩

/-- One step of the zipped comparison; `none` is the source's `unreachable!()`. -/
def matchSegment : PatternSegment → String → Option Bool
  | .wildcard, _ => some true
  | .literal lit, s => some (lit == s)
  | .recursiveWildcard, _ => none

def matchSegments : List (PatternSegment × String) → Option Bool
  | [] => some true
  | (segment, s) :: rest =>
    match matchSegment segment s with
    | none => none
    | some true => matchSegments rest
    | some false => some false

def matchRef (p : RefPattern) (refName : String) : Option Bool :=
  let refSegments := splitSlash refName
  if p.segments.getLast? = some .recursiveWildcard then
    let prefixLen := p.segments.length - 1
    if refSegments.length ≤ prefixLen then some false
    else matchSegments ((p.segments.take prefixLen).zip (refSegments.take prefixLen))
  else if refSegments.length ≠ p.segments.length then some false
  else matchSegments (p.segments.zip refSegments)

inductive SegmentsMatch : List PatternSegment → List String → Prop
  | nil : SegmentsMatch [] []
  | literal (lit : String) {ps : List PatternSegment} {ss : List String} :
      SegmentsMatch ps ss → SegmentsMatch (.literal lit :: ps) (lit :: ss)
  | wildcard (s : String) {ps : List PatternSegment} {ss : List String} :
      SegmentsMatch ps ss → SegmentsMatch (.wildcard :: ps) (s :: ss)
  | recursiveWildcard {ss : List String} : ss ≠ [] → SegmentsMatch [.recursiveWildcard] ss

theorem matchSegments_zip {ps : List PatternSegment} {ss : List String}
    (hlen : ps.length = ss.length) (hrec : .recursiveWildcard ∉ ps) :
    ∃ b, matchSegments (ps.zip ss) = some b ∧ (b = true ↔ SegmentsMatch ps ss) := by
  induction ps generalizing ss with
  | nil =>
    obtain rfl := List.length_eq_zero_iff.mp hlen.symm
    exact ⟨true, rfl, fun _ ↦ .nil, fun _ ↦ rfl⟩
  | cons q ps ih =>
    obtain ⟨s, ss, rfl⟩ := List.exists_cons_of_length_eq_add_one hlen.symm
    rw [List.mem_cons, not_or] at hrec
    obtain ⟨b, hb, hmatch⟩ := ih (by simpa using hlen) hrec.2
    cases q with
    | recursiveWildcard => exact absurd rfl hrec.1
    | wildcard =>
      refine ⟨b, by simpa [matchSegments, matchSegment] using hb, ?_⟩
      rw [hmatch]
      refine ⟨.wildcard s, ?_⟩
      intro h
      cases h
      assumption
    | literal lit =>
      by_cases hs : lit = s
      · subst hs
        refine ⟨b, by simpa [matchSegments, matchSegment] using hb, ?_⟩
        rw [hmatch]
        refine ⟨.literal lit, ?_⟩
        intro h
        cases h
        assumption
      · have hne : (lit == s) = false := by simpa using hs
        refine ⟨false, by simp [matchSegments, matchSegment, hne], nofun, ?_⟩
        intro h
        cases h
        exact absurd rfl hs

theorem segmentsMatch_recursive {ps : List PatternSegment} (ss : List String)
    (hrec : .recursiveWildcard ∉ ps) : SegmentsMatch (ps ++ [.recursiveWildcard]) ss ↔
      ps.length < ss.length ∧ SegmentsMatch ps (ss.take ps.length) := by
  induction ps generalizing ss with
  | nil =>
    constructor
    · intro h
      cases h with
      | recursiveWildcard hne => exact ⟨List.length_pos_iff.mpr hne, .nil⟩
    · intro h
      exact .recursiveWildcard (List.length_pos_iff.mp h.1)
  | cons q ps ih =>
    rw [List.mem_cons, not_or] at hrec
    cases ss with
    | nil =>
      refine ⟨fun h ↦ ?_, fun h ↦ absurd h.1 (Nat.not_lt_zero _)⟩
      cases q with
      | recursiveWildcard => exact absurd rfl hrec.1
      | wildcard => cases h
      | literal lit => cases h
    | cons s ss =>
      have hlt : (q :: ps).length < (s :: ss).length ↔ ps.length < ss.length := by simp
      rw [hlt, List.length_cons, List.take_succ_cons, List.cons_append]
      have ih := ih ss hrec.2
      cases q with
      | recursiveWildcard => exact absurd rfl hrec.1
      | wildcard =>
        constructor
        · intro h
          cases h with
          | wildcard _ h => exact ⟨(ih.mp h).1, .wildcard s (ih.mp h).2⟩
        · rintro ⟨hl, h⟩
          cases h with
          | wildcard _ h => exact .wildcard s (ih.mpr ⟨hl, h⟩)
      | literal lit =>
        constructor
        · intro h
          cases h with
          | literal _ h => exact ⟨(ih.mp h).1, .literal _ (ih.mp h).2⟩
        · rintro ⟨hl, h⟩
          cases h with
          | literal _ h => exact .literal _ (ih.mpr ⟨hl, h⟩)

theorem SegmentsMatch.length_eq {ps : List PatternSegment} {ss : List String}
    (h : SegmentsMatch ps ss) (hrec : .recursiveWildcard ∉ ps) : ps.length = ss.length := by
  induction h with
  | nil => rfl
  | literal lit _ ih =>
    rw [List.length_cons, List.length_cons, ih (List.not_mem_of_not_mem_cons hrec)]
  | wildcard s _ ih =>
    rw [List.length_cons, List.length_cons, ih (List.not_mem_of_not_mem_cons hrec)]
  | recursiveWildcard => exact absurd (List.mem_singleton.mpr rfl) hrec

/-- The comparison never reaches its `unreachable!()` and decides what the segments mean. -/
theorem matchRef_spec (p : RefPattern) (refName : String) :
    ∃ b, p.matchRef refName = some b ∧
      (b = true ↔ SegmentsMatch p.segments (splitSlash refName)) := by
  obtain ⟨raw, segments, hlast⟩ := p
  unfold matchRef
  simp only
  split
  · next hrec =>
    obtain ⟨ps, rfl⟩ : ∃ ps, segments = ps ++ [.recursiveWildcard] :=
      ⟨segments.dropLast, (List.dropLast_append_getLast? _ hrec).symm⟩
    rw [List.dropLast_concat] at hlast
    have hmeans := segmentsMatch_recursive (splitSlash refName) hlast
    rw [List.length_append, List.length_singleton, Nat.add_sub_cancel, List.take_left' rfl]
    split
    · next hle =>
      refine ⟨false, rfl, ?_⟩
      rw [hmeans]
      refine ⟨nofun, fun h ↦ ?_⟩
      omega
    · next hle =>
      have hlen : ps.length = ((splitSlash refName).take ps.length).length := by
        rw [List.length_take]
        omega
      obtain ⟨b, hb, hmatch⟩ := matchSegments_zip hlen hlast
      refine ⟨b, hb, ?_⟩
      rw [hmatch, hmeans]
      exact ⟨fun h ↦ ⟨by omega, h⟩, And.right⟩
  · next hrec =>
    have hnot : .recursiveWildcard ∉ segments := by
      intro hmem
      have hne := List.ne_nil_of_mem hmem
      rw [← List.dropLast_concat_getLast hne, List.mem_append] at hmem
      rcases hmem with hmem | hmem
      · exact hlast hmem
      · rw [List.getLast?_eq_some_getLast hne] at hrec
        exact hrec (congrArg some (List.mem_singleton.mp hmem).symm)
    split
    · next hne =>
      refine ⟨false, rfl, ?_⟩
      refine ⟨nofun, fun h ↦ ?_⟩
      exact absurd (h.length_eq hnot).symm hne
    · next heq => exact matchSegments_zip (not_not.mp heq).symm hnot

theorem isSome_matchRef (p : RefPattern) (refName : String) :
    (p.matchRef refName).isSome = true := by
  obtain ⟨b, hb, _⟩ := matchRef_spec p refName
  rw [hb]
  rfl

def matchesRef (p : RefPattern) (refName : String) : Bool :=
  (p.matchRef refName).get (isSome_matchRef p refName)

theorem matchesRef_iff {p : RefPattern} {refName : String} :
    p.matchesRef refName = true ↔ SegmentsMatch p.segments (splitSlash refName) := by
  obtain ⟨b, hb, hmatch⟩ := matchRef_spec p refName
  rw [← hmatch, matchesRef, Option.get_of_eq_some _ hb]

end RefPattern

end Buzz.Core.GitPerms
