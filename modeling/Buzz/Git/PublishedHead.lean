import Buzz.Git.PublishSpec

namespace Buzz.Git

open Buzz.Lib

section Branches

theorem isPublishedBranch_iff {refs : Refs} {name : String} :
    isPublishedBranch refs name ↔ isBranchName name ∧ name ∈ refs.keys := by
  have hmem : refs.containsKey name ↔ name ∈ refs.keys := by
    simp only [SortedMap.containsKey, Option.isSome_iff_exists, SortedMap.keys, List.mem_map]
    constructor
    · rintro ⟨oid, hget⟩
      exact ⟨(name, oid), SortedMap.mem_entries_iff.mpr hget, rfl⟩
    · rintro ⟨⟨name, oid⟩, hentry, rfl⟩
      exact ⟨oid, SortedMap.mem_entries_iff.mp hentry⟩
  simp only [isPublishedBranch, Bool.and_eq_true, hmem]

def HasBranch (refs : Refs) : Prop := ∃ name, isPublishedBranch refs name

theorem isBranchName_preferred {name : String} (h : name ∈ ["refs/heads/main", "refs/heads/master"]) :
    isBranchName name := by
  simp only [List.mem_cons, List.not_mem_nil, or_false] at h
  rcases h with rfl | rfl
  · decide
  · decide

variable {refs : Refs} {observedHead parentHead : String}

theorem resolvePublishedHead_live (h : HasBranch refs) :
    isPublishedBranch refs (resolvePublishedHead refs observedHead parentHead) := by
  rw [resolvePublishedHead]
  split
  · assumption
  split
  · assumption
  split
  · next preferred hfind =>
    have hbranch := isBranchName_preferred (List.mem_of_find?_eq_some hfind)
    have hkey := List.find?_some hfind
    simp [isPublishedBranch, hbranch, hkey]
  · split
    · next branch hfind =>
      apply isPublishedBranch_iff.mpr
      exact ⟨List.find?_some hfind, List.mem_of_find?_eq_some hfind⟩
    · next hnone =>
      obtain ⟨name, hname⟩ := h
      obtain ⟨hbranch, hmem⟩ := isPublishedBranch_iff.mp hname
      exact absurd hbranch (List.find?_eq_none.mp hnone name hmem)

theorem resolvePublishedHead_observed (h : isPublishedBranch refs observedHead) :
    resolvePublishedHead refs observedHead parentHead = observedHead := by
  simp [resolvePublishedHead, h]

theorem resolvePublishedHead_parent (hobserved : isPublishedBranch refs observedHead = false)
    (hparent : isPublishedBranch refs parentHead) :
    resolvePublishedHead refs observedHead parentHead = parentHead := by
  simp [resolvePublishedHead, hobserved, hparent]

theorem resolvePublishedHead_dangling (h : ¬HasBranch refs) :
    resolvePublishedHead refs observedHead parentHead =
      if observedHead.isEmpty then parentHead else observedHead := by
  have hnone (name : String) : isPublishedBranch refs name = false := by
    by_contra hname
    exact h ⟨name, by simpa using hname⟩
  have hpreferred : ["refs/heads/main", "refs/heads/master"].find? refs.containsKey = none := by
    apply List.find?_eq_none.mpr
    intro name hname hkey
    have hpublished := hnone name
    simp [isPublishedBranch, isBranchName_preferred hname, hkey] at hpublished
  have hkeys : refs.keys.find? isBranchName = none := by
    apply List.find?_eq_none.mpr
    intro name hname hbranch
    apply h
    exact ⟨name, isPublishedBranch_iff.mpr ⟨hbranch, hname⟩⟩
  simp only [resolvePublishedHead, hnone, hpreferred, hkeys]
  cases observedHead.isEmpty <;> simp

end Branches

namespace Manifest

def validateHead (m : Manifest) : Option ManifestError :=
  if m.head.isEmpty then some .emptyHead
  else if !isSafeRefname m.head then some (.unsafeRefName m.head)
  else none

theorem isEmpty_of_isSafeRefname {name : String} (h : isSafeRefname name) :
    name.isEmpty = false := by
  rw [Bool.eq_false_iff, ne_eq, String.isEmpty_iff]
  rintro rfl
  revert h
  decide

theorem validateHead_eq_none {m : Manifest} : m.validateHead = none ↔ isSafeRefname m.head := by
  constructor
  · intro h
    by_contra hunsafe
    simp only [Bool.not_eq_true] at hunsafe
    rw [validateHead, hunsafe] at h
    split at h
    · cases h
    · cases h
  · intro h
    simp [validateHead, isEmpty_of_isSafeRefname h, h]

theorem validateHead_of_validate {m : Manifest} (h : m.validate = none) :
    m.validateHead = none := by
  rw [validate] at h
  split at h
  · cases h
  split at h
  · cases h
  split at h
  · cases h
  split at h
  · cases h
  next hempty hunsafe =>
    simp [validateHead, hempty, hunsafe]

/-- Counts aside, what the head check refuses is refused with the same error. -/
theorem validate_of_validateHead {m : Manifest} {e : ManifestError}
    (hpacks : m.packs.length ≤ maxManifestPacks) (hrefs : m.refs.len ≤ maxManifestRefs)
    (h : m.validateHead = some e) : m.validate = some e := by
  rw [validateHead] at h
  rw [validate, if_neg (by omega), if_neg (by omega)]
  split at h
  · next hempty => simpa [hempty] using h
  · next hempty =>
    split at h
    · next hunsafe => simpa [hempty, hunsafe] using h
    · cases h

end Manifest

inductive Composed (parent : Manifest) (parentDigest : Option String) (head : String)
    (refs : Refs) : Manifest → Prop
  | after (newPackKey : Option String) :
    Composed parent parentDigest head refs (composeAfter parent parentDigest head refs newPackKey)
  | compacted (compactedPackKeys : List String) :
    Composed parent parentDigest head refs
      (composeCompactedAfter parentDigest head refs compactedPackKeys)

section Composed

variable {parent m : Manifest} {parentDigest : Option String} {head : String} {refs : Refs}

theorem Composed.head_eq (h : Composed parent parentDigest head refs m) : m.head = head := by
  cases h with
  | after => rfl
  | compacted => rfl

theorem Composed.refs_eq (h : Composed parent parentDigest head refs m) : m.refs = refs := by
  cases h with
  | after => rfl
  | compacted => rfl

theorem composeManifest_composed {parent : ParentState} {limits : PublishLimits} {work : PackWork}
    (h : composeManifest parent limits work refs head = .ok m) :
    Composed parent.parent parent.parentDigest head refs m := by
  rw [composeManifest] at h
  split at h
  · split at h
    · next keys _ =>
      cases h
      exact .compacted keys
    · obtain ⟨key, rfl⟩ := composeDelta_ok h
      exact .after key
  · obtain ⟨key, rfl⟩ := composeDelta_ok h
    exact .after key

/-- Whatever passes the checks of a push has a live head, or no branch that could be one. -/
theorem prepareManifest_live {parent : ParentState} {limits : PublishLimits} {work : PackWork}
    {lines : List (String × String)} {observedHead : String}
    (h : prepareManifest parent limits work lines observedHead = .ok m) :
    m.validate = none ∧ (HasBranch m.refs → isPublishedBranch m.refs m.head) := by
  rw [prepareManifest] at h
  split at h
  · cases h
  next refs _ =>
  simp only at h
  split at h
  · cases h
  next manifest hcompose =>
  split at h
  · cases h
  next hvalid =>
  cases h
  have hcomposed := composeManifest_composed hcompose
  rw [hcomposed.head_eq, hcomposed.refs_eq]
  exact ⟨hvalid, resolvePublishedHead_live⟩

end Composed

/-- Where the published head comes from, and that it is refused just in case its name is. -/
theorem published_head_live (parent : Manifest) (parentDigest : Option String)
    (observedHead : String) (refs : Refs) :
    let head := resolvePublishedHead refs observedHead parent.head
    (HasBranch refs → isPublishedBranch refs head) ∧
    (isPublishedBranch refs observedHead → head = observedHead) ∧
    (isPublishedBranch refs observedHead = false → isPublishedBranch refs parent.head →
      head = parent.head) ∧
    (¬HasBranch refs → head = if observedHead.isEmpty then parent.head else observedHead) ∧
    ∀ m, Composed parent parentDigest head refs m → m.head = head ∧ m.refs = refs ∧
      (m.validateHead = none ↔ isSafeRefname head) ∧
      (HasBranch refs → (∀ name ∈ refs.keys, isSafeRefname name) → m.validateHead = none) := by
  intro head
  refine ⟨resolvePublishedHead_live, resolvePublishedHead_observed, resolvePublishedHead_parent,
    resolvePublishedHead_dangling, ?_⟩
  intro m hm
  have hcheck : m.validateHead = none ↔ isSafeRefname head := by
    rw [Manifest.validateHead_eq_none, hm.head_eq]
  refine ⟨hm.head_eq, hm.refs_eq, hcheck, ?_⟩
  intro hbranch hsafe
  apply hcheck.mpr
  exact hsafe head (isPublishedBranch_iff.mp (resolvePublishedHead_live hbranch)).2

/-- A branch that the workspace points at is published although that of the parent lives on. -/
theorem observed_head_replaces_parent_head :
    ∃ (parent : Manifest) (observedHead : String) (refs : Refs),
      isPublishedBranch refs parent.head ∧
      resolvePublishedHead refs observedHead parent.head ≠ parent.head := by
  let oid := "1111111111111111111111111111111111111111"
  refine ⟨⟨1, "refs/heads/main", ∅, [], none⟩, "refs/heads/dev",
    (SortedMap.insert ∅ "refs/heads/main" oid).insert "refs/heads/dev" oid, ?_⟩
  decide

end Buzz.Git
