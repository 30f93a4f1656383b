import Mathlib.Data.List.Sort
import Buzz.Lib.JsonRoundTrip
import Buzz.Lib.SortedMap

namespace Buzz.Lib.Json

/-- The document with the fields of every object sorted by key. -/
def canonical : Json → Json
  | .null => .null
  | .bool b => .bool b
  | .num lexeme => .num lexeme
  | .str s => .str s
  | .arr elems => .arr (elems.map canonical)
  | .obj fields => ofFields (fields.map fun field ↦ (field.1, canonical field.2))
decreasing_by
  · have hlt := List.sizeOf_lt_of_mem ‹_›
    simp only [arr.sizeOf_spec]
    omega
  · have hlt := List.sizeOf_lt_of_mem ‹_›
    obtain ⟨k, v⟩ := field
    simp only [Prod.mk.sizeOf_spec, obj.sizeOf_spec] at hlt ⊢
    omega

def mapNumbers (f : String → String) : Json → Json
  | .null => .null
  | .bool b => .bool b
  | .num lexeme => .num (f lexeme)
  | .str s => .str s
  | .arr elems => .arr (elems.map (mapNumbers f))
  | .obj fields => .obj (fields.map fun field ↦ (field.1, mapNumbers f field.2))
decreasing_by
  · have hlt := List.sizeOf_lt_of_mem ‹_›
    simp only [arr.sizeOf_spec]
    omega
  · have hlt := List.sizeOf_lt_of_mem ‹_›
    obtain ⟨k, v⟩ := field
    simp only [Prod.mk.sizeOf_spec, obj.sizeOf_spec] at hlt ⊢
    omega

/-- Present the fields of every object in another order of the keys. -/
def reorder (le : String → String → Bool) : Json → Json
  | .null => .null
  | .bool b => .bool b
  | .num lexeme => .num lexeme
  | .str s => .str s
  | .arr elems => .arr (elems.map (reorder le))
  | .obj fields => .obj ((fields.map fun field ↦ (field.1, reorder le field.2)).insertionSort
      fun a b ↦ le a.1 b.1)
decreasing_by
  · have hlt := List.sizeOf_lt_of_mem ‹_›
    simp only [arr.sizeOf_spec]
    omega
  · have hlt := List.sizeOf_lt_of_mem ‹_›
    obtain ⟨k, v⟩ := field
    simp only [Prod.mk.sizeOf_spec, obj.sizeOf_spec] at hlt ⊢
    omega

def numbers : Json → List String
  | .null => []
  | .bool _ => []
  | .num lexeme => [lexeme]
  | .str _ => []
  | .arr elems => elems.flatMap numbers
  | .obj fields => fields.flatMap fun field ↦ numbers field.2
decreasing_by
  · have hlt := List.sizeOf_lt_of_mem ‹_›
    simp only [arr.sizeOf_spec]
    omega
  · have hlt := List.sizeOf_lt_of_mem ‹_›
    obtain ⟨k, v⟩ := field
    simp only [Prod.mk.sizeOf_spec, obj.sizeOf_spec] at hlt ⊢
    omega

def strings : Json → List String
  | .null => []
  | .bool _ => []
  | .num _ => []
  | .str s => [s]
  | .arr elems => elems.flatMap strings
  | .obj fields => fields.flatMap fun field ↦ field.1 :: strings field.2
decreasing_by
  · have hlt := List.sizeOf_lt_of_mem ‹_›
    simp only [arr.sizeOf_spec]
    omega
  · have hlt := List.sizeOf_lt_of_mem ‹_›
    obtain ⟨k, v⟩ := field
    simp only [Prod.mk.sizeOf_spec, obj.sizeOf_spec] at hlt ⊢
    omega

/-- At most `n` arrays and objects enclose one another. -/
def nestedWithin : ℕ → Json → Bool
  | 0, .arr _ => false
  | 0, .obj _ => false
  | n + 1, .arr elems => elems.all (nestedWithin n)
  | n + 1, .obj fields => fields.all fun field ↦ nestedWithin n field.2
  | _, _ => true

inductive Keyed : Json → Prop
  | null : Keyed .null
  | bool (b : Bool) : Keyed (.bool b)
  | num (lexeme : String) : Keyed (.num lexeme)
  | str (s : String) : Keyed (.str s)
  | arr {elems : List Json} (h : ∀ v ∈ elems, Keyed v) : Keyed (.arr elems)
  | obj {fields : List (String × Json)} (hkeys : (fields.map Prod.fst).Nodup)
      (h : ∀ field ∈ fields, Keyed field.2) : Keyed (.obj fields)

section Lemmas

theorem keys_map (f : Json → Json) (fields : List (String × Json)) :
    (fields.map fun field ↦ (field.1, f field.2)).map Prod.fst = fields.map Prod.fst := by
  rw [List.map_map]
  rfl

theorem canonical_obj {fields : List (String × Json)} (h : (fields.map Prod.fst).Nodup) :
    ∃ sorted, canonical (.obj fields) = .obj sorted ∧
      sorted.Perm (fields.map fun field ↦ (field.1, canonical field.2)) ∧
      sorted.Pairwise fun a b ↦ StringLt a.1 b.1 := by
  rw [canonical]
  apply ofFields_distinct
  rw [keys_map]
  exact h

theorem Keyed.canonical {v : Json} (h : v.Keyed) : v.canonical.Keyed := by
  induction h with
  | null => rw [Json.canonical]; exact .null
  | bool b => rw [Json.canonical]; exact .bool b
  | num lexeme => rw [Json.canonical]; exact .num lexeme
  | str s => rw [Json.canonical]; exact .str s
  | @arr elems h ih =>
    rw [Json.canonical]
    refine .arr fun v hv ↦ ?_
    obtain ⟨w, hw, rfl⟩ := List.mem_map.mp hv
    exact ih w hw
  | @obj fields hkeys h ih =>
    obtain ⟨sorted, heq, hperm, _⟩ := canonical_obj hkeys
    rw [heq]
    refine .obj ?_ fun field hfield ↦ ?_
    · rw [(hperm.map Prod.fst).nodup_iff, keys_map]
      exact hkeys
    · obtain ⟨field', hfield', rfl⟩ := List.mem_map.mp (hperm.mem_iff.mp hfield)
      exact ih field' hfield'

/-- Sorting undoes any order the fields were presented in. -/
theorem canonical_reorder (le : String → String → Bool) {v : Json} (h : v.Keyed) :
    (v.reorder le).canonical = v.canonical := by
  induction h with
  | null => rw [reorder]
  | bool b => rw [reorder]
  | num lexeme => rw [reorder]
  | str s => rw [reorder]
  | @arr elems h ih =>
    rw [reorder, Json.canonical, Json.canonical, List.map_map]
    exact congrArg _ (List.map_congr_left ih)
  | @obj fields hkeys h ih =>
    have hsort := List.perm_insertionSort (fun a b : String × Json ↦ le a.1 b.1)
      (fields.map fun field ↦ (field.1, reorder le field.2))
    have hmap := hsort.map fun field ↦ (field.1, Json.canonical field.2)
    have hfields : (fields.map fun field ↦ (field.1, reorder le field.2)).map
        (fun field ↦ (field.1, Json.canonical field.2)) =
        fields.map fun field ↦ (field.1, Json.canonical field.2) := by
      rw [List.map_map]
      exact List.map_congr_left fun field hfield ↦ congrArg (field.1, ·) (ih field hfield)
    rw [hfields] at hmap
    rw [reorder, Json.canonical, Json.canonical]
    symm
    apply ofFields_perm _ hmap.symm
    rw [keys_map]
    exact hkeys

theorem canonical_mapNumbers (f : String → String) {v : Json} (h : v.Keyed) :
    (v.mapNumbers f).canonical = v.canonical.mapNumbers f := by
  induction h with
  | null => rw [mapNumbers, Json.canonical, mapNumbers]
  | bool b => rw [mapNumbers, Json.canonical, mapNumbers]
  | num lexeme => rw [mapNumbers, Json.canonical, Json.canonical, mapNumbers]
  | str s => rw [mapNumbers, Json.canonical, mapNumbers]
  | @arr elems h ih =>
    rw [mapNumbers, Json.canonical, Json.canonical, mapNumbers, List.map_map, List.map_map]
    exact congrArg _ (List.map_congr_left ih)
  | @obj fields hkeys h ih =>
    obtain ⟨sorted, heq, hmap⟩ := ofFields_map (mapNumbers f)
      (fields.map fun field ↦ (field.1, Json.canonical field.2))
    have hfields : (fields.map fun field ↦ (field.1, mapNumbers f field.2)).map
        (fun field ↦ (field.1, Json.canonical field.2)) =
        (fields.map fun field ↦ (field.1, Json.canonical field.2)).map
        (fun field ↦ (field.1, mapNumbers f field.2)) := by
      rw [List.map_map, List.map_map]
      exact List.map_congr_left fun field hfield ↦ congrArg (field.1, ·) (ih field hfield)
    rw [mapNumbers, Json.canonical, hfields, hmap, Json.canonical, heq, mapNumbers]

theorem Keyed.mapNumbers (f : String → String) {v : Json} (h : v.Keyed) :
    (v.mapNumbers f).Keyed := by
  induction h with
  | null => rw [Json.mapNumbers]; exact .null
  | bool b => rw [Json.mapNumbers]; exact .bool b
  | num lexeme => rw [Json.mapNumbers]; exact .num (f lexeme)
  | str s => rw [Json.mapNumbers]; exact .str s
  | @arr elems h ih =>
    rw [Json.mapNumbers]
    refine .arr fun v hv ↦ ?_
    obtain ⟨w, hw, rfl⟩ := List.mem_map.mp hv
    exact ih w hw
  | @obj fields hkeys h ih =>
    rw [Json.mapNumbers]
    refine .obj ?_ fun field hfield ↦ ?_
    · rw [keys_map]
      exact hkeys
    · obtain ⟨field', hfield', rfl⟩ := List.mem_map.mp hfield
      exact ih field' hfield'

theorem mapNumbers_mapNumbers {f g : String → String} {v : Json} (h : v.Keyed) :
    (v.mapNumbers f).mapNumbers g = v.mapNumbers (g ∘ f) := by
  induction h with
  | null => simp only [Json.mapNumbers]
  | bool b => simp only [Json.mapNumbers]
  | num lexeme => rw [Json.mapNumbers, Json.mapNumbers, Json.mapNumbers]; rfl
  | str s => simp only [Json.mapNumbers]
  | @arr elems h ih =>
    rw [Json.mapNumbers, Json.mapNumbers, Json.mapNumbers, List.map_map]
    exact congrArg _ (List.map_congr_left ih)
  | @obj fields hkeys h ih =>
    rw [Json.mapNumbers, Json.mapNumbers, Json.mapNumbers, List.map_map]
    exact congrArg _ (List.map_congr_left fun field hfield ↦
      congrArg (field.1, ·) (ih field hfield))

theorem numbers_mapNumbers (f : String → String) {v : Json} (h : v.Keyed) :
    (v.mapNumbers f).numbers = v.numbers.map f := by
  induction h with
  | null => rw [Json.mapNumbers, numbers]; rfl
  | bool b => rw [Json.mapNumbers, numbers]; rfl
  | num lexeme => rw [Json.mapNumbers, numbers, numbers]; rfl
  | str s => rw [Json.mapNumbers, numbers]; rfl
  | @arr elems h ih =>
    rw [Json.mapNumbers, numbers, numbers, List.flatMap_map, List.map_flatMap]
    exact List.flatMap_congr ih
  | @obj fields hkeys h ih =>
    rw [Json.mapNumbers, numbers, numbers, List.flatMap_map, List.map_flatMap]
    exact List.flatMap_congr ih

theorem mem_numbers_canonical {v : Json} (h : v.Keyed) {lexeme : String} :
    lexeme ∈ v.canonical.numbers ↔ lexeme ∈ v.numbers := by
  induction h with
  | null => rw [Json.canonical]
  | bool b => rw [Json.canonical]
  | num lexeme => rw [Json.canonical]
  | str s => rw [Json.canonical]
  | @arr elems h ih =>
    rw [Json.canonical, numbers, numbers, List.flatMap_map, List.mem_flatMap, List.mem_flatMap]
    exact exists_congr fun v ↦ and_congr_right fun hv ↦ ih v hv
  | @obj fields hkeys h ih =>
    obtain ⟨sorted, heq, hperm, _⟩ := canonical_obj hkeys
    rw [heq, numbers, numbers, (hperm.flatMap_right _).mem_iff, List.flatMap_map, List.mem_flatMap,
      List.mem_flatMap]
    exact exists_congr fun field ↦ and_congr_right fun hfield ↦ ih field hfield

theorem mapNumbers_eq_self {f : String → String} {v : Json} (h : v.Keyed)
    (hf : ∀ lexeme ∈ v.numbers, f lexeme = lexeme) : v.mapNumbers f = v := by
  induction h with
  | null => rw [Json.mapNumbers]
  | bool b => rw [Json.mapNumbers]
  | num lexeme =>
    rw [numbers] at hf
    rw [Json.mapNumbers, hf lexeme (List.mem_singleton_self _)]
  | str s => rw [Json.mapNumbers]
  | @arr elems h ih =>
    rw [numbers] at hf
    rw [Json.mapNumbers]
    refine congrArg _ ((List.map_congr_left fun v hv ↦ ?_).trans (List.map_id elems))
    exact ih v hv fun lexeme hl ↦ hf lexeme (List.mem_flatMap.mpr ⟨v, hv, hl⟩)
  | @obj fields hkeys h ih =>
    rw [numbers] at hf
    rw [Json.mapNumbers]
    refine congrArg _ ((List.map_congr_left fun field hfield ↦ ?_).trans (List.map_id fields))
    have hfix := ih field hfield fun lexeme hl ↦ hf lexeme (List.mem_flatMap.mpr ⟨field, hfield, hl⟩)
    rw [hfix]
    rfl

theorem mapNumbers_eq_self_iff {f : String → String} {v : Json} (h : v.Keyed) :
    v.mapNumbers f = v ↔ ∀ lexeme ∈ v.numbers, f lexeme = lexeme := by
  refine ⟨fun heq lexeme hl ↦ ?_, mapNumbers_eq_self h⟩
  have hmap := numbers_mapNumbers f h
  rw [heq] at hmap
  exact List.map_inj_left.mp (hmap.symm.trans (List.map_id _).symm) lexeme hl

structure NumberLexeme (lexeme : String) : Prop where
  starts : ∃ c cs, lexeme.toList = c :: cs ∧ (c.isDigit = true ∨ c = '-')
  chars : ∀ c ∈ lexeme.toList, isNumberChar c = true
  valid : validNumber lexeme.toList = true

/-- The text of a sorted document is read back as that document. -/
theorem parses_canonical {v : Json} (h : v.Keyed) (hnum : ∀ lexeme ∈ v.numbers, NumberLexeme lexeme) :
    Parses ofFields v.canonical v.canonical.render := by
  induction h with
  | null =>
    rw [Json.canonical, render]
    exact parses_keyword rfl rfl (by decide) fun n rest ↦ rfl
  | bool b =>
    rw [Json.canonical]
    cases b <;> rw [render]
    · exact parses_keyword rfl rfl (by decide) fun n rest ↦ rfl
    · exact parses_keyword rfl rfl (by decide) fun n rest ↦ rfl
  | num lexeme =>
    rw [numbers] at hnum
    obtain ⟨⟨c, cs, hcons, hstart⟩, hchars, hvalid⟩ := hnum lexeme (List.mem_singleton_self _)
    rw [Json.canonical, render]
    exact parses_num hcons hstart hchars hvalid
  | str s =>
    rw [Json.canonical, render]
    exact parses_str s
  | @arr elems h ih =>
    rw [numbers] at hnum
    rw [Json.canonical, render]
    refine parses_arr (List.forall₂_map_right_iff.mpr (List.forall₂_same.mpr fun v hv ↦ ?_))
    obtain ⟨w, hw, rfl⟩ := List.mem_map.mp hv
    exact ih w hw fun lexeme hl ↦ hnum lexeme (List.mem_flatMap.mpr ⟨w, hw, hl⟩)
  | @obj fields hkeys h ih =>
    rw [numbers] at hnum
    obtain ⟨sorted, heq, hperm, hpair⟩ := canonical_obj hkeys
    rw [heq, render, ← ofFields_sorted hpair]
    refine parses_obj (List.forall₂_map_right_iff.mpr (List.forall₂_same.mpr fun field hfield ↦ ?_))
    obtain ⟨field', hfield', rfl⟩ := List.mem_map.mp (hperm.mem_iff.mp hfield)
    exact ⟨_, rfl, ih field' hfield' fun lexeme hl ↦
      hnum lexeme (List.mem_flatMap.mpr ⟨field', hfield', hl⟩)⟩

theorem render_canonical_injective {v w : Json} (hv : v.Keyed) (hw : w.Keyed)
    (hnumv : ∀ lexeme ∈ v.numbers, NumberLexeme lexeme)
    (hnumw : ∀ lexeme ∈ w.numbers, NumberLexeme lexeme)
    (h : v.canonical.render = w.canonical.render) : v.canonical = w.canonical := by
  have hparsev := (parses_canonical hv hnumv).parseWith le_rfl
  have hparsew := (parses_canonical hw hnumw).parseWith le_rfl
  rw [h, hparsew] at hparsev
  exact (Option.some.inj hparsev).symm

end Lemmas

end Buzz.Lib.Json
