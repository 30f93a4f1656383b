import Buzz.Acp.Observer
import Buzz.Lib.Decimal
import Buzz.Lib.Greedy
import Buzz.Lib.JsonLeaves
import Buzz.Lib.JsonSplice

namespace Buzz.Acp

open Buzz.Lib

def observerMaxPlaintextLen : ℕ := 65535

def observerLeafRetainBytes : ℕ := 3000

def elisionMarker (removedBytes : ℕ) : List Char :=
  "…[elided ".toList ++ (toString removedBytes).toList ++ " bytes]…".toList

def elisionBoundaries (s : List Char) : ℕ × ℕ :=
  let headEnd := Utf8.floorCharBoundary s (min observerLeafRetainBytes (Utf8.len s))
  let tailStart := Utf8.ceilCharBoundary s (Utf8.len s - observerLeafRetainBytes)
  (headEnd, max tailStart headEnd)

def leafShrinks (leaf : String) : Bool :=
  let s := leaf.toList
  let (headEnd, tailStart) := elisionBoundaries s
  headEnd < tailStart &&
    headEnd + Utf8.len (elisionMarker (tailStart - headEnd)) + (Utf8.len s - tailStart) < Utf8.len s

def elideLeaf (leaf : String) : String :=
  let s := leaf.toList
  let (headEnd, tailStart) := elisionBoundaries s
  String.ofList (Utf8.sliceTo s headEnd ++ elisionMarker (tailStart - headEnd) ++
    Utf8.sliceFrom s tailStart)

def maxShrinkableLen (value : Json) : Option ℕ :=
  value.maxLeaf fun s ↦ if leafShrinks s then some (Utf8.len s.toList) else none

/-- A leaf is given by its number among the string values, in the order of the walk. -/
def findLeafWithLen (value : Json) (target : ℕ) : Option ℕ :=
  value.findLeaf fun s ↦ Utf8.len s.toList = target && leafShrinks s

def largestShrinkableLeaf (value : Json) : Option ℕ :=
  (maxShrinkableLen value).bind (findLeafWithLen value)

def elideLeafAt (value : Json) (leaf : ℕ) : Json :=
  value.mapLeaves (fun j s ↦ if j = leaf then elideLeaf s else s) 0

def optionalString (s : Option String) : Json := s.elim .null .str

def ObserverEvent.toJson (event : ObserverEvent) : Json :=
  .obj ([("seq", .num (toString event.seq)), ("timestamp", .str event.timestamp),
    ("kind", .str event.kind),
    ("agentIndex", event.agentIndex.elim .null fun n ↦ .num (toString n)),
    ("channelId", optionalString event.channelId), ("sessionId", optionalString event.sessionId),
    ("turnId", optionalString event.turnId)] ++
    (event.startedAt.map fun s ↦ ("startedAt", .str s)).toList ++ [("payload", event.payload)])

def serializedLen (event : ObserverEvent) : ℕ := Utf8.len event.toJson.render

def stub (event : ObserverEvent) : Json :=
  .obj [("elided", .str (event.kind ++ " payload too large")),
    ("originalBytes", .num (toString (Utf8.len event.payload.render)))]

section Elision

theorem clean_toDigits (n : ℕ) : Json.Clean (Nat.toDigits 10 n) := by
  intro c hc
  have hdigit := List.all_eq_true.mp (Decimal.all_isDigit_toDigits n) c hc
  have hrange : 48 ≤ c.toNat ∧ c.toNat ≤ 57 := by
    rw [Char.isDigit, Bool.and_eq_true, decide_eq_true_eq, decide_eq_true_eq] at hdigit
    exact hdigit
  refine ⟨?_, ?_, by omega⟩
  · rintro rfl
    exact absurd hrange (by decide)
  · rintro rfl
    exact absurd hrange (by decide)

theorem elisionMarker_eq (n : ℕ) : elisionMarker n =
    "…[elided ".toList ++ Nat.toDigits 10 n ++ " bytes]…".toList := by
  rw [← Decimal.toList_toString]
  rfl

theorem clean_elisionMarker (n : ℕ) : Json.Clean (elisionMarker n) := by
  have hfront : Json.Clean "…[elided ".toList := by decide
  have hback : Json.Clean " bytes]…".toList := by decide
  intro c hc
  rw [elisionMarker_eq, List.mem_append, List.mem_append] at hc
  rcases hc with (hc | hc) | hc
  · exact hfront c hc
  · exact clean_toDigits n c hc
  · exact hback c hc

theorem elisionBoundaries_spec (s : List Char) : ∃ head mid tail, s = head ++ mid ++ tail ∧
    Utf8.sliceTo s (elisionBoundaries s).1 = head ∧
    Utf8.sliceFrom s (elisionBoundaries s).2 = tail ∧ (elisionBoundaries s).1 = Utf8.len head ∧
    (elisionBoundaries s).2 = Utf8.len head + Utf8.len mid := by
  have hhead : Utf8.isCharBoundary s (elisionBoundaries s).1 = true :=
    Utf8.isCharBoundary_floor s _
  have htail : Utf8.isCharBoundary s (elisionBoundaries s).2 = true := by
    change Utf8.isCharBoundary s (max (Utf8.ceilCharBoundary s _) (elisionBoundaries s).1) = true
    rcases max_choice (Utf8.ceilCharBoundary s (Utf8.len s - observerLeafRetainBytes))
      (elisionBoundaries s).1 with h | h
    · rw [h]
      exact Utf8.isCharBoundary_ceil (Nat.sub_le _ _)
    · rw [h]
      exact hhead
  have hle : (elisionBoundaries s).1 ≤ (elisionBoundaries s).2 := le_max_right _ _
  obtain ⟨mid, hs, hmid⟩ := Utf8.exists_middle hhead htail hle
  refine ⟨_, mid, _, hs, rfl, rfl, (Utf8.len_sliceTo hhead).symm, ?_⟩
  rw [Utf8.len_sliceTo hhead, hmid]
  omega

/-- The marker tells how much was left out between the head and the tail. -/
def Elision (s s' : String) : Prop :=
  ∃ head mid tail, s.toList = head ++ mid ++ tail ∧
    s'.toList = head ++ elisionMarker (Utf8.len mid) ++ tail

theorem elideLeaf_spec (s : String) : ∃ head mid tail, s.toList = head ++ mid ++ tail ∧
    (elideLeaf s).toList = head ++ elisionMarker (Utf8.len mid) ++ tail ∧
    (leafShrinks s = true → Utf8.len (elisionMarker (Utf8.len mid)) < Utf8.len mid) := by
  obtain ⟨head, mid, tail, hs, hhead, htail, hstart, hend⟩ := elisionBoundaries_spec s.toList
  have hmid : (elisionBoundaries s.toList).2 - (elisionBoundaries s.toList).1 = Utf8.len mid := by
    omega
  have hlen := congrArg Utf8.len hs
  rw [Utf8.len_append, Utf8.len_append] at hlen
  refine ⟨head, mid, tail, hs, ?_, fun hshrinks ↦ ?_⟩
  · rw [elideLeaf]
    dsimp only
    rw [String.toList_ofList, hhead, htail, hmid]
  · rw [leafShrinks] at hshrinks
    dsimp only at hshrinks
    rw [Bool.and_eq_true, decide_eq_true_eq, decide_eq_true_eq, hmid] at hshrinks
    omega

theorem elideLeaf_elision (s : String) : Elision s (elideLeaf s) := by
  obtain ⟨head, mid, tail, hs, helided, -⟩ := elideLeaf_spec s
  exact ⟨head, mid, tail, hs, helided⟩

theorem len_elideLeaf_lt {s : String} (h : leafShrinks s = true) :
    Utf8.len (elideLeaf s).toList < Utf8.len s.toList := by
  obtain ⟨head, mid, tail, hs, helided, hlt⟩ := elideLeaf_spec s
  have hmarker := hlt h
  rw [hs, helided]
  simp only [Utf8.len_append]
  omega

theorem escapedLen_elideLeaf_le {s : String} (h : leafShrinks s = true) :
    Json.escapedLen (elideLeaf s) ≤ Json.escapedLen s := by
  obtain ⟨head, mid, tail, hs, helided, hlt⟩ := elideLeaf_spec s
  have hmarker := hlt h
  have hmid := Json.len_le_escaped mid
  rw [Json.escapedLen, Json.escapedLen, hs, helided]
  simp only [List.flatMap_append, Utf8.len_append,
    Json.flatMap_escapeChar_of_clean (clean_elisionMarker _)]
  omega

end Elision

/-- The leaves of a document that takes `base` bytes without them. -/
def leafReduction (base : ℕ) : Reduction String where
  base
  size := fun s ↦ Utf8.len s.toList
  weight := Json.escapedLen
  shrinks := leafShrinks
  reduce := elideLeaf
  size_lt := len_elideLeaf_lt
  weight_le := escapedLen_elideLeaf_le

section Largest

variable {v : Json} {leaf : ℕ}

theorem leaves_elideLeafAt (v : Json) (leaf : ℕ) :
    (elideLeafAt v leaf).leaves = v.leaves.modify leaf elideLeaf := by
  rw [elideLeafAt, Json.leaves_mapLeaves]
  apply List.ext_getElem?
  intro j
  rw [List.getElem?_mapIdx, List.getElem?_modify, Nat.zero_add]
  by_cases h : leaf = j
  · simp [h]
  · simp [h, Ne.symm h]

theorem isGreatest_maxShrinkableLen (v : Json) : Json.IsGreatest
    (v.leaves.filterMap fun s ↦ if leafShrinks s then some (Utf8.len s.toList) else none)
    (maxShrinkableLen v) :=
  Json.maxLeaf_isGreatest _ v

theorem mem_shrinkableLens {s : String} (hs : s ∈ v.leaves) (h : leafShrinks s = true) :
    Utf8.len s.toList ∈
      v.leaves.filterMap fun s ↦ if leafShrinks s then some (Utf8.len s.toList) else none :=
  List.mem_filterMap.mpr ⟨s, hs, if_pos h⟩

theorem not_shrinks_of_largest_eq_none (h : largestShrinkableLeaf v = none) :
    ∀ s ∈ v.leaves, leafShrinks s = false := by
  intro s hs
  by_contra hshrinks
  rw [Bool.not_eq_false] at hshrinks
  have hmem := mem_shrinkableLens hs hshrinks
  have hgreatest := isGreatest_maxShrinkableLen v
  rw [largestShrinkableLeaf] at h
  cases hmax : maxShrinkableLen v with
  | none =>
    rw [hmax, Json.IsGreatest] at hgreatest
    rw [hgreatest] at hmem
    nomatch hmem
  | some best =>
    rw [hmax] at h hgreatest
    obtain ⟨s', hs', hbest⟩ := List.mem_filterMap.mp hgreatest.1
    split at hbest
    case isFalse => nomatch hbest
    case isTrue hshrinks' =>
      have hfind : findLeafWithLen v best = none := h
      rw [findLeafWithLen, Json.findLeaf_eq, List.findIdx?_eq_none_iff] at hfind
      have hnot := hfind s' hs'
      simp [Option.some.inj hbest, hshrinks'] at hnot

theorem picks_of_largest_eq_some (base : ℕ) (h : largestShrinkableLeaf v = some leaf) :
    (leafReduction base).Picks v.leaves leaf := by
  obtain ⟨best, hbest, hfind⟩ := Option.bind_eq_some_iff.mp h
  have hgreatest := isGreatest_maxShrinkableLen v
  rw [hbest] at hgreatest
  rw [findLeafWithLen, Json.findLeaf_eq, List.findIdx?_eq_some_iff_getElem] at hfind
  obtain ⟨hlt, hleaf, hfirst⟩ := hfind
  rw [Bool.and_eq_true, decide_eq_true_eq] at hleaf
  refine ⟨v.leaves[leaf], List.getElem?_eq_getElem hlt, hleaf.2, ?_⟩
  intro j s hj hshrinks hne
  have hle := hgreatest.2 _ (mem_shrinkableLens (List.mem_of_getElem? hj) hshrinks)
  rcases hle.lt_or_eq with hless | heq
  · exact .inl (hless.trans_eq hleaf.1.symm)
  · refine .inr ⟨hleaf.1.trans heq.symm, ?_⟩
    by_contra hbefore
    obtain ⟨hj', rfl⟩ := List.getElem?_eq_some_iff.mp hj
    have hshrinks' : leafShrinks v.leaves[j] = true := hshrinks
    exact hfirst j (by omega) (by simp [heq, hshrinks'])

theorem sum_leaves_elideLeafAt_lt (h : largestShrinkableLeaf v = some leaf) :
    ((elideLeafAt v leaf).leaves.map fun s ↦ Utf8.len s.toList).sum <
      (v.leaves.map fun s ↦ Utf8.len s.toList).sum := by
  rw [leaves_elideLeafAt]
  exact (picks_of_largest_eq_some 0 h).size_lt

end Largest

def trim (event : ObserverEvent) (payload : Json) : List ℕ × Option Json :=
  match _h : largestShrinkableLeaf payload with
  | none => ([], none)
  | some leaf =>
    let payload' := elideLeafAt payload leaf
    if serializedLen { event with payload := payload' } ≤ observerMaxPlaintextLen then
      ([leaf], some payload')
    else
      let rest := trim event payload'
      (leaf :: rest.1, rest.2)
termination_by (payload.leaves.map fun s ↦ Utf8.len s.toList).sum
decreasing_by exact sum_leaves_elideLeafAt_lt _h

def fitObserverEventToBudget (event : ObserverEvent) : ObserverEvent :=
  if serializedLen event ≤ observerMaxPlaintextLen then event
  else { event with payload := (trim event event.payload).2.getD (stub event) }

end Buzz.Acp
