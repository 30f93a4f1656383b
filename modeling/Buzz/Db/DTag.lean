import Buzz.Db.Events
import Buzz.Lib.Json

namespace Buzz.Db

open Buzz.Lib Buzz.Nostr Buzz.Core

abbrev TagArray := List String

def isDTag (parts : TagArray) : Bool := parts.head? = some "d"

def valueOfDTag (parts : TagArray) : Option String := if isDTag parts then parts[1]? else none

def firstDValue (tags : List TagArray) : String := (tags.findSome? valueOfDTag).getD ""

def extractDTagOf (kind : ℕ) (tags : List TagArray) : Option String :=
  if isParameterizedReplaceable kind then some (firstDValue tags) else none

def tagsColumn (tags : List TagArray) : Json := .arr (tags.map fun parts ↦ .arr (parts.map .str))

/-- `->>` with the index of an element. -/
def arrowText (i : ℕ) : Json → Option String
  | .arr elems => elems[i]?.bind fun
    | .null => none
    | .str s => some s
    | v => some (String.ofList v.render)
  | _ => none

def jsonbArrayElements : Json → List Json
  | .arr elems => elems
  | _ => []

/-- `COALESCE((SELECT elem->>1 .. WHERE elem->>0 = 'd' LIMIT 1), '')`. -/
def backfillValue (tags : Json) : String :=
  (((jsonbArrayElements tags).find? fun elem ↦ arrowText 0 elem = some "d").bind
    (arrowText 1)).getD ""

def backfilled (kind : ℕ) (tags : Json) (dTag : Option String) : Option String :=
  if 30000 ≤ kind ∧ kind ≤ 39999 ∧ dTag = none then some (backfillValue tags) else dTag

theorem findSome?_valueOfDTag (tags : List TagArray) :
    tags.findSome? valueOfDTag = ((tags.filter isDTag).filterMap (·[1]?)).head? := by
  induction tags with
  | nil => rfl
  | cons parts tags ih =>
    rw [List.findSome?_cons, ih, valueOfDTag]
    by_cases hd : isDTag parts = true
    · rw [if_pos hd, List.filter_cons_of_pos hd]
      cases hvalue : parts[1]? with
      | none => simp [hvalue]
      | some v => simp [hvalue]
    · rw [if_neg hd, List.filter_cons_of_neg hd]

theorem firstDValue_eq (tags : List TagArray) :
    firstDValue tags = ((tags.filter isDTag).filterMap (·[1]?)).head?.getD "" :=
  congrArg (·.getD "") (findSome?_valueOfDTag tags)

theorem firstDValue_asSlice (event : Event) :
    firstDValue (event.tags.map Tag.asSlice) = (event.tagContents "d").head?.getD "" := by
  rw [firstDValue_eq, Event.tagContents, List.filter_map, List.filterMap_map]
  have hkind : (isDTag ∘ Tag.asSlice) = fun t ↦ t.kind == "d" := by
    funext t
    simp [isDTag, Tag.asSlice, Tag.kind, Bool.beq_eq_decide_eq]
  have hcontent : ((·[1]?) ∘ Tag.asSlice : Tag → Option String) = Tag.content := by
    funext t
    simp [Tag.asSlice, Tag.content, List.head?_eq_getElem?]
  rw [hkind, hcontent]

theorem extractDTagOf_asSlice (event : Event) :
    extractDTagOf (eventKindU32 event) (event.tags.map Tag.asSlice) = extractDTag event := by
  rw [extractDTagOf, extractDTag, firstDValue_asSlice]

theorem arrowText_strs (i : ℕ) (parts : TagArray) :
    arrowText i (.arr (parts.map .str)) = parts[i]? := by
  rw [arrowText, List.getElem?_map]
  cases parts[i]? with
  | none => rfl
  | some s => rfl

/-- The subquery reads the first `d` tag, with a value or without. -/
theorem backfillValue_eq (tags : List TagArray) :
    backfillValue (tagsColumn tags) = ((tags.filter isDTag).head?.bind (·[1]?)).getD "" := by
  have hpred : ((fun elem ↦ decide (arrowText 0 elem = some "d")) ∘
      fun parts : TagArray ↦ Json.arr (parts.map .str)) = isDTag := by
    funext parts
    simp only [Function.comp_apply, arrowText_strs, isDTag, List.head?_eq_getElem?]
  rw [backfillValue, tagsColumn, jsonbArrayElements, List.find?_map, hpred, List.head?_filter]
  cases tags.find? isDTag with
  | none => rfl
  | some parts => exact congrArg (·.getD "") (arrowText_strs 1 parts)

def FirstHasValue (tags : List TagArray) : Prop :=
  ∀ parts rest, tags.filter isDTag = parts :: rest →
    2 ≤ parts.length ∨ (rest.filterMap (·[1]?)).head?.getD "" = ""

theorem backfillValue_eq_iff (tags : List TagArray) :
    backfillValue (tagsColumn tags) = firstDValue tags ↔ FirstHasValue tags := by
  rw [backfillValue_eq, firstDValue_eq, FirstHasValue]
  cases tags.filter isDTag with
  | nil => simp
  | cons parts rest =>
    cases hvalue : parts[1]? with
    | none =>
      have hlen : ¬2 ≤ parts.length := by
        have := List.getElem?_eq_none_iff.mp hvalue
        omega
      have hrest : (parts :: rest).filterMap (·[1]?) = rest.filterMap (·[1]?) :=
        List.filterMap_cons_none hvalue
      rw [hrest, List.head?_cons, Option.bind_some, hvalue, Option.getD_none]
      constructor
      · rintro heq parts' rest' hcons
        obtain ⟨rfl, rfl⟩ := List.cons.inj hcons
        exact .inr heq.symm
      · intro h
        exact ((h parts rest rfl).resolve_left hlen).symm
    | some v =>
      have hlen : 2 ≤ parts.length := (List.getElem?_eq_some_iff.mp hvalue).choose
      simp [hvalue, hlen]

theorem backfilled_of_parameterized {kind : ℕ} (h : isParameterizedReplaceable kind = true)
    (tags : Json) : backfilled kind tags none = some (backfillValue tags) := by
  simp only [isParameterizedReplaceable, Bool.and_eq_true, decide_eq_true_eq] at h
  exact if_pos ⟨h.1, h.2, rfl⟩

theorem backfilled_of_other {kind : ℕ} (h : isParameterizedReplaceable kind = false)
    (tags : Json) (dTag : Option String) : backfilled kind tags dTag = dTag := by
  refine if_neg ?_
  rintro ⟨hlow, hhigh, -⟩
  simp [isParameterizedReplaceable, hlow, hhigh] at h

/-- The backfill agrees with the insertion exactly where the first `d` tag has a value or none of
the later ones has another. -/
theorem backfilled_eq_extractDTag_iff (kind : ℕ) (tags : List TagArray) :
    backfilled kind (tagsColumn tags) none = extractDTagOf kind tags ↔
      (isParameterizedReplaceable kind = true → FirstHasValue tags) := by
  rw [extractDTagOf]
  cases hkind : isParameterizedReplaceable kind with
  | false => simp [backfilled_of_other hkind]
  | true => simp [backfilled_of_parameterized hkind, backfillValue_eq_iff]

/-- A `d` tag without value hides the value of the next one from the backfill. -/
theorem valueless_d_tag_backfilled :
    backfilled 30023 (tagsColumn [["d"], ["d", "slug"]]) none = some "" ∧
      extractDTagOf 30023 [["d"], ["d", "slug"]] = some "slug" := by
  decide

end Buzz.Db
