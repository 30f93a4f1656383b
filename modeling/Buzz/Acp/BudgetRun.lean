import Buzz.Acp.Budget

namespace Buzz.Acp

open Buzz.Lib

def Fits (event : ObserverEvent) (payload : Json) : Prop :=
  serializedLen { event with payload } ≤ observerMaxPlaintextLen

instance (event : ObserverEvent) (payload : Json) : Decidable (Fits event payload) :=
  inferInstanceAs (Decidable (_ ≤ _))

def floorLeaf (s : String) : String :=
  if _h : leafShrinks s = true then floorLeaf (elideLeaf s) else s
termination_by Utf8.len s.toList
decreasing_by exact len_elideLeaf_lt _h

def floored (event : ObserverEvent) : Json := event.payload.mapLeaves (fun _ s ↦ floorLeaf s) 0

def elidedBefore (event : ObserverEvent) (i : ℕ) (elided : String) : Json :=
  event.payload.mapLeaves (fun j s ↦
    if leafShrinks s = true ∧ (Utf8.len elided.toList < Utf8.len s.toList ∨
      Utf8.len s.toList = Utf8.len elided.toList ∧ j < i) then elideLeaf s else s) 0

def Stubbed (event : ObserverEvent) : Prop :=
  ¬Fits event event.payload ∧ (trim event event.payload).2 = none

/-- The leaves that the loop elides, in its order. -/
def elisions (event : ObserverEvent) : List ℕ :=
  if Fits event event.payload then [] else (trim event event.payload).1

structure TrimmedFaithfully (event : ObserverEvent) : Prop where
  unchanged : Fits event event.payload → fitObserverEventToBudget event = event
  fits : serializedLen (fitObserverEventToBudget event) ≤ observerMaxPlaintextLen
  envelope : fitObserverEventToBudget event =
    { event with payload := (fitObserverEventToBudget event).payload }
  shape : ¬Stubbed event → (fitObserverEventToBudget event).payload.shape = event.payload.shape
  leaves : ¬Stubbed event → List.Forall₂ (fun s s' ↦ s' = s ∨ Elision s s') event.payload.leaves
    (fitObserverEventToBudget event).payload.leaves
  once : ¬Stubbed event → (elisions event).Nodup

/-- When the stub is not too large either, and no elided leaf has a second turn. -/
def Trims (event : ObserverEvent) : Prop :=
  Fits event event.payload ∨
  (¬Fits event (floored event) ∧ Fits event (stub event)) ∨
  (Fits event (floored event) ∧ ∀ {i s}, event.payload.leaves[i]? = some s →
    leafShrinks s = true → leafShrinks (elideLeaf s) = true →
    Fits event (elidedBefore event i (elideLeaf s)))

variable {event : ObserverEvent} {payload : Json}

/-- The length of a frame is that of the frame without its leaves and of the leaves. -/
theorem serializedLen_eq (event : ObserverEvent) (payload : Json) :
    serializedLen { event with payload } = serializedLen { event with payload := payload.shape } +
      Json.escapedTotal payload.leaves := by
  have hpayload := Json.len_render_eq payload
  simp only [serializedLen, ObserverEvent.toJson, Json.len_render_obj, List.map_append,
    List.sum_append, List.map_cons, List.map_nil, List.sum_cons, List.sum_nil, List.length_append,
    List.length_cons, List.length_nil]
  omega

def payloadReduction (event : ObserverEvent) : Reduction String :=
  leafReduction (serializedLen { event with payload := event.payload.shape })

theorem total_leaves (h : payload.shape = event.payload.shape) :
    (payloadReduction event).total payload.leaves = serializedLen { event with payload } := by
  rw [serializedLen_eq event payload, h]
  rfl

theorem shape_elideLeafAt (v : Json) (leaf : ℕ) : (elideLeafAt v leaf).shape = v.shape :=
  Json.shape_mapLeaves _ v

theorem trim_of_none (h : largestShrinkableLeaf payload = none) :
    trim event payload = ([], none) := by
  rw [trim]
  split
  case h_1 => rfl
  case h_2 leaf hsome => simp [h] at hsome

theorem trim_of_fits {leaf : ℕ} (h : largestShrinkableLeaf payload = some leaf)
    (hfits : Fits event (elideLeafAt payload leaf)) :
    trim event payload = ([leaf], some (elideLeafAt payload leaf)) := by
  rw [trim]
  split
  case h_1 hnone => simp [h] at hnone
  case h_2 leaf' hsome =>
    obtain rfl := Option.some.inj (h.symm.trans hsome)
    exact if_pos hfits

theorem trim_of_over {leaf : ℕ} (h : largestShrinkableLeaf payload = some leaf)
    (hover : ¬Fits event (elideLeafAt payload leaf)) :
    trim event payload = (leaf :: (trim event (elideLeafAt payload leaf)).1,
      (trim event (elideLeafAt payload leaf)).2) := by
  rw [trim]
  split
  case h_1 hnone => simp [h] at hnone
  case h_2 leaf' hsome =>
    obtain rfl := Option.some.inj (h.symm.trans hsome)
    exact if_neg hover

theorem trim_run (h : payload.shape = event.payload.shape) :
    (payloadReduction event).Run observerMaxPlaintextLen payload.leaves (trim event payload).1
      ((trim event payload).2.map Json.leaves) := by
  induction payload using trim.induct event with
  | case1 payload hnone =>
    rw [trim_of_none hnone]
    exact .stuck (not_shrinks_of_largest_eq_none hnone)
  | case2 payload leaf hsome payload' hfits =>
    have hshape : payload'.shape = event.payload.shape := (shape_elideLeafAt payload leaf).trans h
    have hpicks : (payloadReduction event).Picks payload.leaves leaf :=
      picks_of_largest_eq_some _ hsome
    have htotal := total_leaves hshape
    rw [trim_of_fits hsome hfits]
    rw [leaves_elideLeafAt] at htotal
    dsimp only [Option.map_some]
    rw [leaves_elideLeafAt]
    exact .done hpicks (htotal.le.trans hfits)
  | case3 payload leaf hsome payload' hover ih =>
    have hshape : payload'.shape = event.payload.shape := (shape_elideLeafAt payload leaf).trans h
    have hpicks : (payloadReduction event).Picks payload.leaves leaf :=
      picks_of_largest_eq_some _ hsome
    have htotal := total_leaves hshape
    have hrest := ih hshape
    rw [trim_of_over hsome hover]
    rw [leaves_elideLeafAt] at htotal hrest
    exact .more hpicks (fun hle ↦ hover (htotal.ge.trans hle)) hrest

theorem trim_payload_run (event : ObserverEvent) : (payloadReduction event).Run
    observerMaxPlaintextLen event.payload.leaves (trim event event.payload).1
    ((trim event event.payload).2.map Json.leaves) :=
  trim_run rfl

theorem trim_shape {out : Json} (h : (trim event payload).2 = some out) :
    out.shape = payload.shape := by
  induction payload using trim.induct event with
  | case1 payload hnone =>
    rw [trim_of_none hnone] at h
    nomatch h
  | case2 payload leaf hsome payload' hfits =>
    rw [trim_of_fits hsome hfits] at h
    obtain rfl := Option.some.inj h
    exact shape_elideLeafAt payload leaf
  | case3 payload leaf hsome payload' hover ih =>
    rw [trim_of_over hsome hover] at h
    exact (ih h).trans (shape_elideLeafAt payload leaf)

section Condition

theorem floorLeaf_eq (event : ObserverEvent) (s : String) :
    floorLeaf s = (payloadReduction event).floor s := by
  induction s using floorLeaf.induct with
  | case1 s h ih =>
    rw [floorLeaf, dif_pos h, ih]
    exact Reduction.floor_of_shrinks (r := payloadReduction event) h
  | case2 s h =>
    rw [floorLeaf, dif_neg h]
    exact (Reduction.floor_of_not_shrinks (r := payloadReduction event)
      (Bool.not_eq_true _ ▸ h)).symm

theorem leaves_floored (event : ObserverEvent) :
    (floored event).leaves = event.payload.leaves.map (payloadReduction event).floor := by
  rw [floored, Json.leaves_mapLeaves]
  apply List.ext_getElem?
  intro j
  rw [List.getElem?_mapIdx, List.getElem?_map]
  simp only [floorLeaf_eq event]

theorem leaves_elidedBefore (event : ObserverEvent) (i : ℕ) (elided : String) :
    (elidedBefore event i elided).leaves =
      (payloadReduction event).aheadOf elided i event.payload.leaves := by
  rw [elidedBefore, Json.leaves_mapLeaves, Reduction.aheadOf]
  simp only [Nat.zero_add]
  rfl

theorem fits_floored_iff (event : ObserverEvent) : Fits event (floored event) ↔
    (payloadReduction event).total (event.payload.leaves.map (payloadReduction event).floor) ≤
      observerMaxPlaintextLen := by
  have htotal : (payloadReduction event).total (floored event).leaves = _ :=
    total_leaves (Json.shape_mapLeaves _ _)
  rw [← leaves_floored, htotal, Fits]

theorem stubbed_iff (event : ObserverEvent) :
    Stubbed event ↔ ¬Fits event event.payload ∧ ¬Fits event (floored event) := by
  rw [Stubbed, fits_floored_iff, and_congr_right_iff]
  intro hover
  have hiff := (trim_payload_run event).eq_none_iff (by rwa [total_leaves rfl])
  rw [← hiff, Option.map_eq_none_iff]

/-- Outside the stub no leaf is elided twice when no elided leaf has a second turn. -/
theorem elisions_nodup_iff (h : ¬Fits event event.payload) {out : Json}
    (hout : (trim event event.payload).2 = some out) :
    (elisions event).Nodup ↔ ∀ {i s}, event.payload.leaves[i]? = some s →
      leafShrinks s = true → leafShrinks (elideLeaf s) = true →
      Fits event (elidedBefore event i (elideLeaf s)) := by
  have hrun := trim_payload_run event
  rw [hout, Option.map_some] at hrun
  have hiff := hrun.nodup_iff (by rwa [total_leaves rfl])
  rw [elisions, if_neg h, hiff]
  have hfits (i : ℕ) (s : String) : Fits event (elidedBefore event i s) ↔
      (payloadReduction event).total ((payloadReduction event).aheadOf s i event.payload.leaves) ≤
        observerMaxPlaintextLen := by
    have htotal : (payloadReduction event).total (elidedBefore event i s).leaves = _ :=
      total_leaves (Json.shape_mapLeaves _ _)
    rw [← leaves_elidedBefore, htotal, Fits]
  simp only [hfits]
  exact Iff.rfl

end Condition

section Outcome

theorem fit_of_fits (h : Fits event event.payload) : fitObserverEventToBudget event = event :=
  if_pos h

theorem fit_of_over (h : ¬Fits event event.payload) : fitObserverEventToBudget event =
    { event with payload := (trim event event.payload).2.getD (stub event) } :=
  if_neg h

theorem trim_fits {out : Json} (hout : (trim event event.payload).2 = some out) :
    Fits event out := by
  have hrun := trim_payload_run event
  rw [hout, Option.map_some] at hrun
  have hle := hrun.total_le rfl
  rwa [total_leaves (trim_shape hout)] at hle

/-- A leaf that is elided once keeps a head and a tail. -/
theorem forall₂_once (event : ObserverEvent) (places : List ℕ) (strings : List String) :
    List.Forall₂ (fun s s' ↦ s' = s ∨ Elision s s') strings
      ((payloadReduction event).once places strings) := by
  refine List.forall₂_iff_get.mpr ⟨by simp [Reduction.once], fun j hj hj' ↦ ?_⟩
  simp only [List.get_eq_getElem, Reduction.once, List.getElem_mapIdx]
  split
  · exact .inr (elideLeaf_elision _)
  · exact .inl rfl

theorem forall₂_trim {out : Json} (h : ¬Fits event event.payload)
    (hout : (trim event event.payload).2 = some out) (hnodup : (elisions event).Nodup) :
    List.Forall₂ (fun s s' ↦ s' = s ∨ Elision s s') event.payload.leaves out.leaves := by
  have hrun := trim_payload_run event
  rw [hout, Option.map_some] at hrun
  rw [elisions, if_neg h] at hnodup
  obtain ⟨places, hplaces⟩ := hrun.exists_once hnodup
  rw [hplaces]
  exact forall₂_once event places event.payload.leaves

theorem exists_out (h : ¬Fits event event.payload) (hstub : ¬Stubbed event) :
    ∃ out, (trim event event.payload).2 = some out :=
  Option.ne_none_iff_exists'.mp fun hnone ↦ hstub ⟨h, hnone⟩

theorem not_stubbed (h : Fits event (floored event)) : ¬Stubbed event :=
  fun hstub ↦ (stubbed_iff event).mp hstub |>.2 h

theorem trims_of_faithful (h : TrimmedFaithfully event) : Trims event := by
  by_cases hfits : Fits event event.payload
  · exact .inl hfits
  by_cases hfloor : Fits event (floored event)
  · obtain ⟨out, hout⟩ := exists_out hfits (not_stubbed hfloor)
    exact .inr (.inr ⟨hfloor, (elisions_nodup_iff hfits hout).mp (h.once (not_stubbed hfloor))⟩)
  · have hstub := (stubbed_iff event).mpr ⟨hfits, hfloor⟩
    have hle := h.fits
    rw [fit_of_over hfits, hstub.2] at hle
    exact .inr (.inl ⟨hfloor, hle⟩)

theorem Trims.elisions_nodup (h : Trims event) (hstub : ¬Stubbed event) :
    (elisions event).Nodup := by
  by_cases hfits : Fits event event.payload
  · rw [elisions, if_pos hfits]
    exact List.nodup_nil
  obtain ⟨out, hout⟩ := exists_out hfits hstub
  rcases h with h | h | h
  · exact absurd h hfits
  · exact absurd ((stubbed_iff event).mpr ⟨hfits, h.1⟩) hstub
  · exact (elisions_nodup_iff hfits hout).mpr h.2

theorem Trims.serializedLen_le (h : Trims event) :
    serializedLen (fitObserverEventToBudget event) ≤ observerMaxPlaintextLen := by
  by_cases hfits : Fits event event.payload
  · rw [fit_of_fits hfits]
    exact hfits
  rw [fit_of_over hfits]
  cases hout : (trim event event.payload).2 with
  | some out => exact trim_fits hout
  | none =>
    have hfloor := ((stubbed_iff event).mp ⟨hfits, hout⟩).2
    rcases h with h | h | h
    · exact absurd h hfits
    · exact h.2
    · exact absurd h.1 hfloor

/-- A frame is trimmed faithfully exactly when it fits, or its stub is needed and fits, or no elided
leaf comes up again before the frame fits. -/
theorem fit_faithful_iff (event : ObserverEvent) : TrimmedFaithfully event ↔ Trims event := by
  refine ⟨trims_of_faithful, fun h ↦ ⟨fit_of_fits, h.serializedLen_le, ?_, ?_, ?_,
    h.elisions_nodup⟩⟩
  · by_cases hfits : Fits event event.payload
    · rw [fit_of_fits hfits]
    · rw [fit_of_over hfits]
  · intro hstub
    by_cases hfits : Fits event event.payload
    · rw [fit_of_fits hfits]
    · obtain ⟨out, hout⟩ := exists_out hfits hstub
      rw [fit_of_over hfits, hout]
      exact trim_shape hout
  · intro hstub
    by_cases hfits : Fits event event.payload
    · rw [fit_of_fits hfits]
      exact List.forall₂_same.mpr fun s _ ↦ .inl rfl
    · obtain ⟨out, hout⟩ := exists_out hfits hstub
      rw [fit_of_over hfits, hout]
      exact forall₂_trim hfits hout (h.elisions_nodup hstub)

end Outcome

section Crowded

/-- A leaf between ends of the retained size. -/
theorem elisionBoundaries_of_parts {head mid tail : List Char}
    (hhead : Utf8.len head = observerLeafRetainBytes)
    (htail : Utf8.len tail = observerLeafRetainBytes) :
    elisionBoundaries (head ++ mid ++ tail) = (Utf8.len head, Utf8.len (head ++ mid)) := by
  have hlen : Utf8.len (head ++ mid ++ tail) = Utf8.len (head ++ mid) + Utf8.len tail :=
    Utf8.len_append _ _
  have hstart := Utf8.isCharBoundary_append head (mid ++ tail)
  rw [← List.append_assoc] at hstart
  have hend := Utf8.isCharBoundary_append (head ++ mid) tail
  have hge : Utf8.len head ≤ Utf8.len (head ++ mid) := by simp
  rw [elisionBoundaries, hlen, ← htail, Nat.add_sub_cancel, min_eq_left (by omega),
    Utf8.ceil_of_boundary hend, htail, ← hhead, Utf8.floor_of_boundary hstart]
  rw [max_eq_left hge]

theorem elideLeaf_of_parts {head mid tail : List Char}
    (hhead : Utf8.len head = observerLeafRetainBytes)
    (htail : Utf8.len tail = observerLeafRetainBytes) :
    elideLeaf (String.ofList (head ++ mid ++ tail)) =
      String.ofList (head ++ elisionMarker (Utf8.len mid) ++ tail) := by
  have hstart := Utf8.sliceTo_append head (mid ++ tail)
  rw [← List.append_assoc] at hstart
  rw [elideLeaf]
  dsimp only
  rw [String.toList_ofList, elisionBoundaries_of_parts hhead htail, hstart, Utf8.sliceFrom_append,
    Utf8.len_append, Nat.add_sub_cancel_left]

theorem leafShrinks_of_parts {head mid tail : List Char}
    (hhead : Utf8.len head = observerLeafRetainBytes)
    (htail : Utf8.len tail = observerLeafRetainBytes) :
    leafShrinks (String.ofList (head ++ mid ++ tail)) = true ↔
      Utf8.len (elisionMarker (Utf8.len mid)) < Utf8.len mid := by
  rw [leafShrinks]
  dsimp only
  rw [String.toList_ofList, elisionBoundaries_of_parts hhead htail, Bool.and_eq_true,
    decide_eq_true_eq, decide_eq_true_eq]
  simp only [Utf8.len_append, Nat.add_sub_cancel_left]
  omega

theorem leafShrinks_short {s : String} (h : Utf8.len s.toList ≤ observerLeafRetainBytes) :
    leafShrinks s = false := by
  have hbounds : elisionBoundaries s.toList = (Utf8.len s.toList, Utf8.len s.toList) := by
    rw [elisionBoundaries, min_eq_right h, Nat.sub_eq_zero_of_le h,
      Utf8.floor_of_boundary (Utf8.isCharBoundary_len _),
      Utf8.ceil_of_boundary (Utf8.isCharBoundary_zero _)]
    simp
  rw [leafShrinks, hbounds]
  simp

theorem floorLeaf_of_shrinks {s : String} (h : leafShrinks s = true) :
    floorLeaf s = floorLeaf (elideLeaf s) := by
  rw [floorLeaf, dif_pos h]

theorem floorLeaf_of_not_shrinks {s : String} (h : leafShrinks s = false) : floorLeaf s = s := by
  rw [floorLeaf, dif_neg (by simp [h])]

theorem escapedLen_of_clean {s : String} (h : Json.Clean s.toList) :
    Json.escapedLen s = Utf8.len s.toList := by
  rw [Json.escapedLen, Json.flatMap_escapeChar_of_clean h]

/-- A text of one letter. -/
def repeated (n : ℕ) : String := String.ofList (List.replicate n 'a')

def retained : List Char := List.replicate observerLeafRetainBytes 'a'

def marked (n : ℕ) : String := String.ofList (retained ++ elisionMarker n ++ retained)

def crowdedRest : List String :=
  List.replicate 9 (repeated 6000) ++ [repeated 2700, repeated 2638]

def crowdedLeaves : List String := repeated 7000 :: crowdedRest

def crowdedFrame : ObserverEvent where
  seq := 1
  timestamp := "2026-01-01T00:00:00Z"
  kind := "acp_read"
  agentIndex := some 0
  channelId := none
  sessionId := none
  turnId := none
  startedAt := none
  payload := .arr (crowdedLeaves.map .str)

theorem len_replicate_one {c : Char} (h : c.utf8Size = 1) (n : ℕ) :
    Utf8.len (List.replicate n c) = n := by
  rw [Utf8.len_replicate, h, Nat.mul_one]

theorem len_retained : Utf8.len retained = observerLeafRetainBytes := len_replicate_one rfl _

theorem repeated_eq {n total : ℕ}
    (h : observerLeafRetainBytes + n + observerLeafRetainBytes = total) :
    repeated total = String.ofList (retained ++ List.replicate n 'a' ++ retained) := by
  rw [retained, List.replicate_append_replicate, List.replicate_append_replicate, h, repeated]

theorem elideLeaf_repeated {n total : ℕ}
    (h : observerLeafRetainBytes + n + observerLeafRetainBytes = total) :
    elideLeaf (repeated total) = marked n := by
  rw [repeated_eq h, elideLeaf_of_parts len_retained len_retained, len_replicate_one rfl, marked]

theorem shrinks_repeated {n total m : ℕ}
    (h : observerLeafRetainBytes + n + observerLeafRetainBytes = total)
    (hmarker : Utf8.len (elisionMarker n) = m) :
    leafShrinks (repeated total) = true ↔ m < n := by
  rw [repeated_eq h, leafShrinks_of_parts len_retained len_retained, len_replicate_one rfl, hmarker]

theorem elideLeaf_marked {n m : ℕ} (h : Utf8.len (elisionMarker n) = m) :
    elideLeaf (marked n) = marked m := by
  rw [marked, elideLeaf_of_parts len_retained len_retained, h, marked]

theorem shrinks_marked {n m k : ℕ} (h : Utf8.len (elisionMarker n) = m)
    (hmarker : Utf8.len (elisionMarker m) = k) : leafShrinks (marked n) = true ↔ k < m := by
  rw [marked, leafShrinks_of_parts len_retained len_retained, h, hmarker]

theorem len_marker_thousand : Utf8.len (elisionMarker 1000) = 25 := rfl

theorem len_marker_again : Utf8.len (elisionMarker 25) = 23 := rfl

theorem len_marker_last : Utf8.len (elisionMarker 23) = 23 := rfl

theorem shrinks_long : leafShrinks (repeated 7000) = true :=
  (shrinks_repeated rfl len_marker_thousand).mpr (by norm_num)

theorem elideLeaf_long : elideLeaf (repeated 7000) = marked 1000 := elideLeaf_repeated rfl

theorem shrinks_again : leafShrinks (marked 1000) = true :=
  (shrinks_marked len_marker_thousand len_marker_again).mpr (by norm_num)

theorem floorLeaf_long : floorLeaf (repeated 7000) = marked 25 := by
  have hlast : leafShrinks (marked 25) = false :=
    Bool.eq_false_iff.mpr ((shrinks_marked len_marker_again len_marker_last).not.mpr (by norm_num))
  rw [floorLeaf_of_shrinks shrinks_long, elideLeaf_long, floorLeaf_of_shrinks shrinks_again,
    elideLeaf_marked len_marker_thousand, floorLeaf_of_not_shrinks hlast]

theorem escapedLen_repeated (n : ℕ) : Json.escapedLen (repeated n) = n := by
  have hclean : Json.Clean (repeated n).toList := by
    intro c hc
    rw [repeated, String.toList_ofList] at hc
    rw [List.eq_of_mem_replicate hc]
    decide
  rw [escapedLen_of_clean hclean, repeated, String.toList_ofList, len_replicate_one rfl]

theorem escapedLen_marked (n : ℕ) :
    Json.escapedLen (marked n) = 6000 + Utf8.len (elisionMarker n) := by
  have hretained : Json.Clean retained := by
    intro c hc
    rw [List.eq_of_mem_replicate hc]
    decide
  have hclean : Json.Clean (marked n).toList := by
    intro c hc
    rw [marked, String.toList_ofList, List.mem_append, List.mem_append] at hc
    rcases hc with (hc | hc) | hc
    · exact hretained c hc
    · exact clean_elisionMarker n c hc
    · exact hretained c hc
  rw [escapedLen_of_clean hclean, marked, String.toList_ofList, Utf8.len_append, Utf8.len_append,
    len_retained, observerLeafRetainBytes]
  omega

theorem elemLeaves_map_str (strings : List String) :
    Json.elemLeaves (strings.map .str) = strings := by
  induction strings with
  | nil => rfl
  | cons s strings ih => rw [List.map_cons, Json.elemLeaves, ih, Json.leaves, List.singleton_append]

theorem mapElems_map_str (strings : List String) (n : ℕ) :
    Json.mapElems (fun _ _ ↦ "") n (strings.map .str) =
      List.replicate strings.length (.str "") := by
  induction strings generalizing n with
  | nil => rfl
  | cons s strings ih =>
    rw [List.map_cons, Json.mapElems, ih, Json.mapLeaves, List.length_cons, List.replicate_succ]

theorem crowded_base : serializedLen { crowdedFrame with payload := crowdedFrame.payload.shape } =
    173 := by
  have hshape : crowdedFrame.payload.shape = .arr (List.replicate 12 (.str "")) := by
    change Json.mapLeaves _ 0 (.arr (crowdedLeaves.map .str)) = _
    rw [Json.mapLeaves, mapElems_map_str]
    rfl
  rw [hshape]
  simp only [serializedLen, ObserverEvent.toJson, crowdedFrame, optionalString, Option.elim,
    Option.map_none, Option.toList_none, List.append_nil, List.cons_append, List.nil_append,
    List.map_cons, List.map_nil, List.map_replicate, Json.render]
  decide +kernel

theorem leaves_crowded : crowdedFrame.payload.leaves = crowdedLeaves := by
  change Json.leaves (.arr (crowdedLeaves.map .str)) = _
  rw [Json.leaves, elemLeaves_map_str]

theorem not_shrinks_rest {s : String} (h : s ∈ crowdedRest) : leafShrinks s = false := by
  have hshort (n : ℕ) (hn : n ≤ observerLeafRetainBytes) : leafShrinks (repeated n) = false := by
    apply leafShrinks_short
    rwa [repeated, String.toList_ofList, len_replicate_one rfl]
  have hmarker : Utf8.len (elisionMarker 0) = 22 := rfl
  rw [crowdedRest, List.mem_append, List.mem_cons, List.mem_singleton] at h
  rcases h with h | rfl | rfl
  · rw [List.eq_of_mem_replicate h]
    exact Bool.eq_false_iff.mpr ((shrinks_repeated rfl hmarker).not.mpr (by norm_num))
  · exact hshort 2700 (by decide)
  · exact hshort 2638 (by decide)

/-- The frame with another long leaf fits when that leaf does. -/
theorem fits_crowded_iff {payload : Json} {s : String}
    (hshape : payload.shape = crowdedFrame.payload.shape)
    (hleaves : payload.leaves = s :: crowdedRest) :
    Fits crowdedFrame payload ↔ Json.escapedLen s ≤ 6024 := by
  have hrest : Json.escapedTotal (s :: crowdedRest) = Json.escapedLen s + 59338 := by
    simp [Json.escapedTotal, crowdedRest, escapedLen_repeated]
  have hmax : observerMaxPlaintextLen = 65535 := rfl
  rw [Fits, serializedLen_eq, hshape, crowded_base, hleaves, hrest, hmax]
  omega

theorem leaves_mapLeaves_crowded (g : ℕ → String → String)
    (hrest : ∀ j, ∀ s ∈ crowdedRest, g j s = s) :
    (crowdedFrame.payload.mapLeaves g 0).leaves = g 0 (repeated 7000) :: crowdedRest := by
  have hsame : (crowdedRest.mapIdx fun j s ↦ g (0 + (j + 1)) s) = crowdedRest := by
    apply List.ext_getElem?
    intro j
    rw [List.getElem?_mapIdx]
    cases hs : crowdedRest[j]? with
    | none => rfl
    | some s => rw [Option.map_some, hrest _ s (List.mem_of_getElem? hs)]
  rw [Json.leaves_mapLeaves, leaves_crowded, crowdedLeaves, List.mapIdx_cons, hsame, Nat.zero_add]

theorem fits_floored_crowded : Fits crowdedFrame (floored crowdedFrame) := by
  have hleaves := leaves_mapLeaves_crowded (fun _ s ↦ floorLeaf s)
    fun _ s hs ↦ floorLeaf_of_not_shrinks (not_shrinks_rest hs)
  have hfits := fits_crowded_iff (Json.shape_mapLeaves _ _) hleaves
  rw [floorLeaf_long, escapedLen_marked, len_marker_again] at hfits
  exact hfits.mpr (by norm_num)

theorem over_crowded : ¬Fits crowdedFrame crowdedFrame.payload := by
  rw [fits_crowded_iff rfl leaves_crowded, escapedLen_repeated]
  norm_num

theorem over_elidedBefore_crowded :
    ¬Fits crowdedFrame (elidedBefore crowdedFrame 0 (marked 1000)) := by
  have hleaves := leaves_mapLeaves_crowded (fun j s ↦
    if leafShrinks s = true ∧ (Utf8.len (marked 1000).toList < Utf8.len s.toList ∨
      Utf8.len s.toList = Utf8.len (marked 1000).toList ∧ j < 0) then elideLeaf s else s)
    fun j s hs ↦ if_neg fun h ↦ by simp [not_shrinks_rest hs] at h
  have hlonger : Utf8.len (marked 1000).toList < Utf8.len (repeated 7000).toList := by
    rw [← elideLeaf_long]
    exact len_elideLeaf_lt shrinks_long
  rw [if_pos ⟨shrinks_long, .inl hlonger⟩, elideLeaf_long] at hleaves
  rw [elidedBefore, fits_crowded_iff (Json.shape_mapLeaves _ _) hleaves, escapedLen_marked,
    len_marker_thousand]
  norm_num

/-- The leaf of a frame is elided twice, and its marker tells how long the first marker was. -/
theorem elided_leaf_comes_up_again :
    serializedLen { crowdedFrame with payload := .null } ≤ observerMaxPlaintextLen ∧
      ¬TrimmedFaithfully crowdedFrame := by
  constructor
  · simp only [serializedLen, ObserverEvent.toJson, crowdedFrame, optionalString, Option.elim,
      Option.map_none, Option.toList_none, List.append_nil, List.cons_append, List.nil_append,
      List.map_cons, List.map_nil, Json.render]
    decide +kernel
  · intro h
    have hstub := not_stubbed fits_floored_crowded
    obtain ⟨out, hout⟩ := exists_out over_crowded hstub
    have hleaf : crowdedFrame.payload.leaves[0]? = some (repeated 7000) := by
      rw [leaves_crowded]
      rfl
    have hfits := (elisions_nodup_iff over_crowded hout).mp (h.once hstub) hleaf shrinks_long
    rw [elideLeaf_long] at hfits
    exact over_elidedBefore_crowded (hfits shrinks_again)

end Crowded

end Buzz.Acp
