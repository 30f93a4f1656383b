import Buzz.Lib.Json
import Buzz.Lib.Utf8
import Mathlib.Tactic.SplitIfs

namespace Buzz.Lib.Json

mutual

/-- The string values of a document, in the order of a walk through it. -/
def leaves : Json → List String
  | .str s => [s]
  | .arr elems => elemLeaves elems
  | .obj fields => fieldLeaves fields
  | _ => []

def elemLeaves : List Json → List String
  | [] => []
  | v :: vs => leaves v ++ elemLeaves vs

def fieldLeaves : List (String × Json) → List String
  | [] => []
  | (_, v) :: fields => leaves v ++ fieldLeaves fields

end

mutual

/-- Change the string values, each of which is given by its number in the walk, from `n` on. -/
def mapLeaves (g : ℕ → String → String) : ℕ → Json → Json
  | n, .str s => .str (g n s)
  | n, .arr elems => .arr (mapElems g n elems)
  | n, .obj fields => .obj (mapFields g n fields)
  | _, v => v
termination_by structural _ v => v

def mapElems (g : ℕ → String → String) : ℕ → List Json → List Json
  | _, [] => []
  | n, v :: vs => mapLeaves g n v :: mapElems g (n + (leaves v).length) vs
termination_by structural _ vs => vs

def mapFields (g : ℕ → String → String) : ℕ → List (String × Json) → List (String × Json)
  | _, [] => []
  | n, (key, v) :: fields =>
    (key, mapLeaves g n v) :: mapFields g (n + (leaves v).length) fields
termination_by structural _ fields => fields

end

theorem length_mapElems (g : ℕ → String → String) (n : ℕ) (vs : List Json) :
    (mapElems g n vs).length = vs.length := by
  induction vs generalizing n with
  | nil => rfl
  | cons v vs ih => rw [mapElems, List.length_cons, List.length_cons, ih]

theorem length_mapFields (g : ℕ → String → String) (n : ℕ) (fields : List (String × Json)) :
    (mapFields g n fields).length = fields.length := by
  induction fields generalizing n with
  | nil => rfl
  | cons field fields ih => rw [mapFields, List.length_cons, List.length_cons, ih]

mutual

theorem leaves_mapLeaves (g : ℕ → String → String) (n : ℕ) : ∀ v : Json,
    leaves (mapLeaves g n v) = (leaves v).mapIdx fun j s ↦ g (n + j) s
  | .str s => by simp [leaves, mapLeaves]
  | .arr elems => by simp [leaves, mapLeaves, elemLeaves_mapElems g n elems]
  | .obj fields => by simp [leaves, mapLeaves, fieldLeaves_mapFields g n fields]
  | .null => by simp [leaves, mapLeaves]
  | .bool b => by simp [leaves, mapLeaves]
  | .num lexeme => by simp [leaves, mapLeaves]

theorem elemLeaves_mapElems (g : ℕ → String → String) (n : ℕ) : ∀ vs : List Json,
    elemLeaves (mapElems g n vs) = (elemLeaves vs).mapIdx fun j s ↦ g (n + j) s
  | [] => by simp [elemLeaves, mapElems]
  | v :: vs => by
    rw [mapElems, elemLeaves, elemLeaves, leaves_mapLeaves g n v,
      elemLeaves_mapElems g (n + (leaves v).length) vs, List.mapIdx_append]
    simp only [Nat.add_assoc, Nat.add_comm (leaves v).length]

theorem fieldLeaves_mapFields (g : ℕ → String → String) (n : ℕ) : ∀ fields : List (String × Json),
    fieldLeaves (mapFields g n fields) = (fieldLeaves fields).mapIdx fun j s ↦ g (n + j) s
  | [] => by simp [fieldLeaves, mapFields]
  | (key, v) :: fields => by
    rw [mapFields, fieldLeaves, fieldLeaves, leaves_mapLeaves g n v,
      fieldLeaves_mapFields g (n + (leaves v).length) fields, List.mapIdx_append]
    simp only [Nat.add_assoc, Nat.add_comm (leaves v).length]

end

theorem length_leaves_mapLeaves (g : ℕ → String → String) (n : ℕ) (v : Json) :
    (leaves (mapLeaves g n v)).length = (leaves v).length := by
  rw [leaves_mapLeaves, List.length_mapIdx]

mutual

theorem mapLeaves_mapLeaves (g h : ℕ → String → String) (n : ℕ) : ∀ v : Json,
    mapLeaves g n (mapLeaves h n v) = mapLeaves (fun j s ↦ g j (h j s)) n v
  | .str s => by simp [mapLeaves]
  | .arr elems => by simp [mapLeaves, mapElems_mapElems g h n elems]
  | .obj fields => by simp [mapLeaves, mapFields_mapFields g h n fields]
  | .null => by simp [mapLeaves]
  | .bool b => by simp [mapLeaves]
  | .num lexeme => by simp [mapLeaves]

theorem mapElems_mapElems (g h : ℕ → String → String) (n : ℕ) : ∀ vs : List Json,
    mapElems g n (mapElems h n vs) = mapElems (fun j s ↦ g j (h j s)) n vs
  | [] => by simp [mapElems]
  | v :: vs => by
    rw [mapElems, mapElems, mapElems, mapLeaves_mapLeaves g h n v, length_leaves_mapLeaves,
      mapElems_mapElems g h _ vs]

theorem mapFields_mapFields (g h : ℕ → String → String) (n : ℕ) : ∀ fields : List (String × Json),
    mapFields g n (mapFields h n fields) = mapFields (fun j s ↦ g j (h j s)) n fields
  | [] => by simp [mapFields]
  | (key, v) :: fields => by
    rw [mapFields, mapFields, mapFields, mapLeaves_mapLeaves g h n v, length_leaves_mapLeaves,
      mapFields_mapFields g h _ fields]

end

mutual

/-- The first string value with a property, by its number. -/
def findLeaf (p : String → Bool) : Json → Option ℕ
  | .str s => if p s then some 0 else none
  | .arr elems => findElem p elems
  | .obj fields => findField p fields
  | _ => none

def findElem (p : String → Bool) : List Json → Option ℕ
  | [] => none
  | v :: vs => (findLeaf p v).or ((findElem p vs).map (· + (leaves v).length))

def findField (p : String → Bool) : List (String × Json) → Option ℕ
  | [] => none
  | (_, v) :: fields => (findLeaf p v).or ((findField p fields).map (· + (leaves v).length))

end

mutual

theorem findLeaf_eq (p : String → Bool) : ∀ v : Json, findLeaf p v = (leaves v).findIdx? p
  | .str s => by simp [findLeaf, leaves, List.findIdx?_cons]
  | .arr elems => by rw [findLeaf, leaves, findElem_eq p elems]
  | .obj fields => by rw [findLeaf, leaves, findField_eq p fields]
  | .null => by simp [findLeaf, leaves]
  | .bool b => by simp [findLeaf, leaves]
  | .num lexeme => by simp [findLeaf, leaves]

theorem findElem_eq (p : String → Bool) : ∀ vs : List Json,
    findElem p vs = (elemLeaves vs).findIdx? p
  | [] => by simp [findElem, elemLeaves]
  | v :: vs => by
    rw [findElem, elemLeaves, findLeaf_eq p v, findElem_eq p vs, List.findIdx?_append]

theorem findField_eq (p : String → Bool) : ∀ fields : List (String × Json),
    findField p fields = (fieldLeaves fields).findIdx? p
  | [] => by simp [findField, fieldLeaves]
  | (key, v) :: fields => by
    rw [findField, fieldLeaves, findLeaf_eq p v, findField_eq p fields, List.findIdx?_append]

end

def maxOption : Option ℕ → Option ℕ → Option ℕ
  | some a, some b => some (max a b)
  | some a, none => some a
  | none, b => b

mutual

def maxLeaf (m : String → Option ℕ) : Json → Option ℕ
  | .str s => m s
  | .arr elems => maxElem m elems
  | .obj fields => maxField m fields
  | _ => none

def maxElem (m : String → Option ℕ) : List Json → Option ℕ
  | [] => none
  | v :: vs => maxOption (maxLeaf m v) (maxElem m vs)

def maxField (m : String → Option ℕ) : List (String × Json) → Option ℕ
  | [] => none
  | (_, v) :: fields => maxOption (maxLeaf m v) (maxField m fields)

end

def IsGreatest (l : List ℕ) : Option ℕ → Prop
  | none => l = []
  | some m => m ∈ l ∧ ∀ n ∈ l, n ≤ m

theorem IsGreatest.append {l l' : List ℕ} {o o' : Option ℕ} (h : IsGreatest l o)
    (h' : IsGreatest l' o') : IsGreatest (l ++ l') (maxOption o o') := by
  cases o with
  | none =>
    rw [IsGreatest] at h
    subst h
    exact h'
  | some m =>
    cases o' with
    | none =>
      rw [IsGreatest] at h'
      subst h'
      simpa [maxOption] using h
    | some m' =>
      obtain ⟨hmem, hle⟩ := h
      obtain ⟨hmem', hle'⟩ := h'
      refine ⟨?_, fun n hn ↦ ?_⟩
      · rcases max_choice m m' with heq | heq
        · rw [heq]
          exact List.mem_append_left l' hmem
        · rw [heq]
          exact List.mem_append_right l hmem'
      · rcases List.mem_append.mp hn with hn | hn
        · exact (hle n hn).trans (le_max_left m m')
        · exact (hle' n hn).trans (le_max_right m m')

mutual

theorem maxLeaf_isGreatest (m : String → Option ℕ) : ∀ v : Json,
    IsGreatest ((leaves v).filterMap m) (maxLeaf m v)
  | .str s => by
    rw [leaves, maxLeaf]
    cases hm : m s with
    | none => simp [IsGreatest, hm]
    | some n => simp [IsGreatest, hm]
  | .arr elems => by
    rw [leaves, maxLeaf]
    exact maxElem_isGreatest m elems
  | .obj fields => by
    rw [leaves, maxLeaf]
    exact maxField_isGreatest m fields
  | .null => by simp [leaves, maxLeaf, IsGreatest]
  | .bool b => by simp [leaves, maxLeaf, IsGreatest]
  | .num lexeme => by simp [leaves, maxLeaf, IsGreatest]

theorem maxElem_isGreatest (m : String → Option ℕ) : ∀ vs : List Json,
    IsGreatest ((elemLeaves vs).filterMap m) (maxElem m vs)
  | [] => by simp [elemLeaves, maxElem, IsGreatest]
  | v :: vs => by
    rw [elemLeaves, maxElem, List.filterMap_append]
    exact (maxLeaf_isGreatest m v).append (maxElem_isGreatest m vs)

theorem maxField_isGreatest (m : String → Option ℕ) : ∀ fields : List (String × Json),
    IsGreatest ((fieldLeaves fields).filterMap m) (maxField m fields)
  | [] => by simp [fieldLeaves, maxField, IsGreatest]
  | (key, v) :: fields => by
    rw [fieldLeaves, maxField, List.filterMap_append]
    exact (maxLeaf_isGreatest m v).append (maxField_isGreatest m fields)

end

/-- The document with every string value emptied. -/
def shape (v : Json) : Json := mapLeaves (fun _ _ ↦ "") 0 v

def escapedLen (s : String) : ℕ := Utf8.len (s.toList.flatMap escapeChar)

theorem shape_mapLeaves (g : ℕ → String → String) (v : Json) :
    shape (mapLeaves g 0 v) = shape v :=
  mapLeaves_mapLeaves (fun _ _ ↦ "") g 0 v

section RenderLength

theorem len_joinComma (texts : List (List Char)) :
    Utf8.len (joinComma texts) = (texts.map Utf8.len).sum + (texts.length - 1) := by
  induction texts with
  | nil => rfl
  | cons text texts ih =>
    cases texts with
    | nil => simp [joinComma]
    | cons next texts =>
      have hcomma : Char.utf8Size ',' = 1 := rfl
      rw [joinComma, Utf8.len_append, Utf8.len_cons, ih, hcomma]
      · simp only [List.map_cons, List.sum_cons, List.length_cons]
        omega
      · nofun

theorem len_renderStr (s : String) : Utf8.len (renderStr s.toList) = escapedLen s + 2 := by
  have hquote : Char.utf8Size '"' = 1 := rfl
  rw [renderStr, Utf8.len_cons, Utf8.len_append, Utf8.len_cons, hquote, escapedLen, Utf8.len_nil]
  omega

theorem len_renderField (key : String) (value : List Char) :
    Utf8.len (renderField key value) = escapedLen key + 3 + Utf8.len value := by
  have hcolon : Char.utf8Size ':' = 1 := rfl
  rw [renderField, Utf8.len_append, len_renderStr, Utf8.len_cons, hcolon]
  omega

theorem len_render_arr (elems : List Json) : Utf8.len (render (.arr elems)) =
    (elems.map fun v ↦ Utf8.len (render v)).sum + (elems.length - 1) + 2 := by
  have hopen : Char.utf8Size '[' = 1 := rfl
  have hclose : Char.utf8Size ']' = 1 := rfl
  rw [render, renderArr, Utf8.len_cons, Utf8.len_append, len_joinComma, Utf8.len_cons,
    Utf8.len_nil, hopen, hclose, List.map_map, List.length_map]
  simp only [Function.comp_def]
  omega

theorem len_render_obj (fields : List (String × Json)) : Utf8.len (render (.obj fields)) =
    (fields.map fun field ↦ escapedLen field.1 + 3 + Utf8.len (render field.2)).sum +
      (fields.length - 1) + 2 := by
  have hopen : Char.utf8Size '\x7b' = 1 := rfl
  have hclose : Char.utf8Size '\x7d' = 1 := rfl
  rw [render, renderObj, Utf8.len_cons, Utf8.len_append, len_joinComma, Utf8.len_cons,
    Utf8.len_nil, hopen, hclose, List.map_map, List.length_map]
  simp only [Function.comp_def, len_renderField]
  omega

/-- The bytes of the string values of a document, without the quotes. -/
def escapedTotal (strings : List String) : ℕ := (strings.map escapedLen).sum

theorem escapedTotal_append (strings strings' : List String) :
    escapedTotal (strings ++ strings') = escapedTotal strings + escapedTotal strings' := by
  simp [escapedTotal]

mutual

/-- A document changes its length by as much as its string values do. -/
theorem len_render_mapLeaves (g : ℕ → String → String) (n : ℕ) : ∀ v : Json,
    Utf8.len (render (mapLeaves g n v)) + escapedTotal (leaves v) =
      Utf8.len (render v) + escapedTotal (leaves (mapLeaves g n v))
  | .str s => by
    simp only [mapLeaves, leaves, render, len_renderStr, escapedTotal, List.map_cons, List.map_nil,
      List.sum_cons, List.sum_nil]
    omega
  | .arr elems => by
    have helems := len_mapElems g n elems
    rw [mapLeaves, len_render_arr, len_render_arr, length_mapElems, leaves, leaves]
    omega
  | .obj fields => by
    have hfields := len_mapFields g n fields
    rw [mapLeaves, len_render_obj, len_render_obj, length_mapFields, leaves, leaves]
    omega
  | .null => by simp [mapLeaves]
  | .bool b => by simp [mapLeaves]
  | .num lexeme => by simp [mapLeaves]

theorem len_mapElems (g : ℕ → String → String) (n : ℕ) : ∀ vs : List Json,
    ((mapElems g n vs).map fun v ↦ Utf8.len (render v)).sum + escapedTotal (elemLeaves vs) =
      (vs.map fun v ↦ Utf8.len (render v)).sum + escapedTotal (elemLeaves (mapElems g n vs))
  | [] => by simp [mapElems]
  | v :: vs => by
    have hv := len_render_mapLeaves g n v
    have hvs := len_mapElems g (n + (leaves v).length) vs
    rw [mapElems, elemLeaves, elemLeaves, escapedTotal_append, escapedTotal_append, List.map_cons,
      List.map_cons, List.sum_cons, List.sum_cons]
    omega

theorem len_mapFields (g : ℕ → String → String) (n : ℕ) : ∀ fields : List (String × Json),
    ((mapFields g n fields).map fun field ↦
        escapedLen field.1 + 3 + Utf8.len (render field.2)).sum +
        escapedTotal (fieldLeaves fields) =
      (fields.map fun field ↦ escapedLen field.1 + 3 + Utf8.len (render field.2)).sum +
        escapedTotal (fieldLeaves (mapFields g n fields))
  | [] => by simp [mapFields]
  | (key, v) :: fields => by
    have hv := len_render_mapLeaves g n v
    have hfields := len_mapFields g (n + (leaves v).length) fields
    simp only [mapFields, fieldLeaves, escapedTotal_append, List.map_cons, List.sum_cons]
    omega

end

theorem escapedTotal_shape (v : Json) : escapedTotal (leaves (shape v)) = 0 := by
  have hzero : escapedLen "" = 0 := rfl
  rw [shape, leaves_mapLeaves, escapedTotal]
  refine List.sum_eq_zero fun n hn ↦ ?_
  obtain ⟨s, hs, rfl⟩ := List.mem_map.mp hn
  obtain ⟨j, hj, rfl⟩ := List.mem_mapIdx.mp hs
  exact hzero

theorem len_render_eq (v : Json) :
    Utf8.len (render v) = Utf8.len (render (shape v)) + escapedTotal (leaves v) := by
  have hbalance := len_render_mapLeaves (fun _ _ ↦ "") 0 v
  have hzero := escapedTotal_shape v
  rw [shape] at *
  omega

end RenderLength

section Escape

theorem utf8Size_le_len_short {e : Char × Char} (h : e ∈ shortEscapes) :
    e.1.utf8Size ≤ Utf8.len ['\\', e.2] := by
  simp only [shortEscapes, List.mem_cons, List.not_mem_nil, or_false] at h
  rcases h with rfl | rfl | rfl | rfl | rfl | rfl | rfl <;> decide

theorem utf8Size_le_len_escapeChar (c : Char) : c.utf8Size ≤ Utf8.len (escapeChar c) := by
  rcases escapeChar_cases c with ⟨e, he, rfl, hescape⟩ | ⟨_, _, _, hescape⟩ | ⟨_, _, _, hescape⟩
  · rw [hescape]
    exact utf8Size_le_len_short he
  · have hfour := c.utf8Size_le_four
    have hlen : Utf8.len ['\\', 'u', '0', '0'] = 4 := by decide
    have hsplit := Utf8.len_append ['\\', 'u', '0', '0']
      [Nat.digitChar (c.toNat / 16), Nat.digitChar (c.toNat % 16)]
    rw [List.cons_append, List.cons_append, List.cons_append, List.cons_append,
      List.nil_append] at hsplit
    rw [hescape]
    omega
  · simp [hescape]

theorem len_le_escaped (text : List Char) : Utf8.len text ≤ Utf8.len (text.flatMap escapeChar) := by
  induction text with
  | nil => exact le_rfl
  | cons c text ih =>
    rw [List.flatMap_cons, Utf8.len_cons, Utf8.len_append]
    have hc := utf8Size_le_len_escapeChar c
    omega

end Escape

section ParseBound

variable {n k : ℕ} {c : Char} {cs rest : List Char}

theorem length_skipWs_le (cs : List Char) : (skipWs cs).length ≤ cs.length :=
  (List.dropWhile_suffix isWs).length_le

theorem hex4_length {m : ℕ} (h : hex4 cs = some (m, rest)) : rest.length ≤ cs.length := by
  rw [hex4, Option.ite_none_right_eq_some] at h
  obtain ⟨-, h⟩ := h
  obtain ⟨m', -, heq⟩ := Option.map_eq_some_iff.mp h
  cases heq
  exact (List.drop_suffix 4 cs).length_le

theorem lowSurrogate_length {m : ℕ} (h : lowSurrogate m cs = some (c, rest)) :
    rest.length ≤ cs.length := by
  unfold lowSurrogate at h
  split at h
  · next cs =>
    obtain ⟨⟨m', rest'⟩, hhex, h⟩ := Option.bind_eq_some_iff.mp h
    obtain ⟨-, h⟩ := Option.ite_none_right_eq_some.mp h
    obtain rfl := (Prod.mk.inj (Option.some.inj h)).2
    have hlen := hex4_length hhex
    simp only [List.length_cons]
    omega
  · cases h

theorem escape_length (h : escape cs = some (c, rest)) : rest.length ≤ cs.length := by
  cases cs with
  | nil => cases h
  | cons d cs =>
    rw [escape] at h
    split_ifs at h
    · obtain ⟨⟨m, rest'⟩, hhex, h⟩ := Option.bind_eq_some_iff.mp h
      have hlen := hex4_length hhex
      dsimp only at h
      split_ifs at h
      · have hlow := lowSurrogate_length h
        simp only [List.length_cons]
        omega
      · cases h
        simp only [List.length_cons]
        omega
    · obtain ⟨e, -, heq⟩ := Option.map_eq_some_iff.mp h
      cases heq
      simp

/-- A step inside a string reads at least one character. -/
theorem strUnit_length {u : Option Char} (h : strUnit cs = some (u, rest)) :
    rest.length < cs.length := by
  cases cs with
  | nil => cases h
  | cons d cs =>
    rw [strUnit] at h
    split_ifs at h
    · cases h
      simp
    · obtain ⟨⟨e, rest'⟩, hescape, heq⟩ := Option.map_eq_some_iff.mp h
      cases heq
      have hlen := escape_length hescape
      simp only [List.length_cons]
      omega
    · cases h
      simp

theorem parseStrBody_length {d : List Char} (h : parseStrBody n cs = some (d, rest)) :
    d.length + rest.length ≤ cs.length := by
  induction n generalizing cs d with
  | zero => cases h
  | succ n ih =>
    rw [parseStrBody] at h
    split at h
    · cases h
    · next rest' hunit =>
      cases h
      have hlen := strUnit_length hunit
      simp only [List.length_nil]
      omega
    · next c rest' hunit =>
      have hlen := strUnit_length hunit
      obtain ⟨⟨d', rest''⟩, hbody, heq⟩ := Option.map_eq_some_iff.mp h
      cases heq
      have hrest := ih hbody
      simp only [List.length_cons]
      omega

theorem mem_fieldLeaves {s : String} {fields : List (String × Json)} :
    s ∈ fieldLeaves fields ↔ ∃ f ∈ fields, s ∈ leaves f.2 := by
  induction fields with
  | nil => simp [fieldLeaves]
  | cons f fields ih => simp [fieldLeaves, ih]

theorem mem_insertField {fields : List (String × Json)} {f g : String × Json}
    (h : g ∈ insertField fields f) : g = f ∨ g ∈ fields := by
  induction fields with
  | nil => exact .inl (List.mem_singleton.mp h)
  | cons e fields ih =>
    rw [insertField] at h
    split_ifs at h
    · exact List.mem_cons.mp h
    · exact (List.mem_cons.mp h).imp_right (List.mem_cons_of_mem e)
    · rcases List.mem_cons.mp h with rfl | h
      · exact .inr List.mem_cons_self
      · exact (ih h).imp_right (List.mem_cons_of_mem e)

theorem mem_foldl_insertField {g : String × Json} {fields acc : List (String × Json)}
    (h : g ∈ fields.foldl insertField acc) : g ∈ acc ∨ g ∈ fields := by
  induction fields generalizing acc with
  | nil => exact .inl h
  | cons f fields ih =>
    rcases ih h with hacc | hrest
    · exact (mem_insertField hacc).elim (fun heq ↦ .inr (heq ▸ List.mem_cons_self)) .inl
    · exact .inr (List.mem_cons_of_mem f hrest)

theorem mem_leaves_ofFields {s : String} {fields : List (String × Json)}
    (h : s ∈ leaves (ofFields fields)) : s ∈ fieldLeaves fields := by
  rw [ofFields, leaves, mem_fieldLeaves] at h
  obtain ⟨g, hg, hs⟩ := h
  rcases mem_foldl_insertField hg with hnil | hmem
  · cases hnil
  · exact mem_fieldLeaves.mpr ⟨g, hmem, hs⟩

/-- What a parser has read from `cs`: the rest is no longer, nor is any of the strings. -/
def Within (cs : List Char) (strings : List String) (rest : List Char) : Prop :=
  rest.length ≤ cs.length ∧ ∀ s ∈ strings, s.toList.length ≤ cs.length

theorem Within.mono {cs' : List Char} {strings : List String} (h : Within cs' strings rest)
    (hle : cs'.length ≤ cs.length) : Within cs strings rest :=
  ⟨h.1.trans hle, fun s hs ↦ (h.2 s hs).trans hle⟩

theorem within_nil (h : rest.length ≤ cs.length) : Within cs [] rest :=
  ⟨h, fun s hs ↦ by cases hs⟩

/-- One thing after the other, the second from what the first has left. -/
theorem Within.append {tail tail' : List Char} {strings strings' : List String}
    (h : Within cs strings tail) (h' : Within tail' strings' rest)
    (hle : tail'.length ≤ tail.length) : Within cs (strings ++ strings') rest := by
  have hle' := hle.trans h.1
  refine ⟨h'.1.trans hle', fun s hs ↦ ?_⟩
  rcases List.mem_append.mp hs with hs | hs
  · exact h.2 s hs
  · exact (h'.2 s hs).trans hle'

theorem parseKeyword_within {keyword : String} {value v : Json} (hvalue : leaves value = [])
    (h : parseKeyword keyword value cs = some (v, rest)) : Within cs (leaves v) rest := by
  obtain ⟨-, h⟩ := Option.ite_none_right_eq_some.mp h
  cases h
  rw [hvalue]
  exact within_nil (List.drop_suffix _ cs).length_le

theorem parseNumber_within {v : Json} (h : parseNumber cs = some (v, rest)) :
    Within cs (leaves v) rest := by
  obtain ⟨-, h⟩ := Option.ite_none_right_eq_some.mp h
  cases h
  exact within_nil (List.dropWhile_suffix isNumberChar).length_le

theorem parse_within (n : ℕ) : ∀ cs,
    (∀ v rest, parseValue ofFields n cs = some (v, rest) → Within cs (leaves v) rest) ∧
    (∀ vs rest, parseElems ofFields n cs = some (vs, rest) → Within cs (elemLeaves vs) rest) ∧
    (∀ f rest, parseField ofFields n cs = some (f, rest) → Within cs (leaves f.2) rest) ∧
    (∀ fs rest, parseFields ofFields n cs = some (fs, rest) → Within cs (fieldLeaves fs) rest) := by
  induction n with
  | zero => exact fun cs ↦ ⟨nofun, nofun, nofun, nofun⟩
  | succ n ih =>
    intro cs
    refine ⟨fun v rest h ↦ ?_, fun vs rest h ↦ ?_, fun f rest h ↦ ?_, fun fs rest h ↦ ?_⟩
    · rw [parseValue] at h
      have hws := length_skipWs_le cs
      split at h
      · cases h
      · next c tail htail =>
        rw [htail, List.length_cons] at hws
        have hws' := length_skipWs_le tail
        split_ifs at h
        · obtain ⟨⟨d, rest'⟩, hbody, heq⟩ := Option.map_eq_some_iff.mp h
          cases heq
          have hlen := parseStrBody_length hbody
          refine ⟨by omega, fun s hs ↦ ?_⟩
          rw [List.mem_singleton.mp hs, String.toList_ofList]
          omega
        · cases h
          apply within_nil
          rw [List.length_tail]
          omega
        · obtain ⟨⟨vs, rest'⟩, helems, heq⟩ := Option.map_eq_some_iff.mp h
          cases heq
          exact ((ih tail).2.1 vs rest helems).mono (by omega)
        · cases h
          apply within_nil
          rw [List.length_tail]
          omega
        · obtain ⟨⟨fs, rest'⟩, hfields, heq⟩ := Option.map_eq_some_iff.mp h
          cases heq
          have hwithin : Within cs (fieldLeaves fs) rest :=
            ((ih tail).2.2.2 fs rest hfields).mono (by omega)
          exact ⟨hwithin.1, fun s hs ↦ hwithin.2 s (mem_leaves_ofFields hs)⟩
        · exact (parseKeyword_within rfl h).mono hws
        · exact (parseKeyword_within rfl h).mono hws
        · exact (parseKeyword_within rfl h).mono hws
        · exact (parseNumber_within h).mono hws
    · rw [parseElems] at h
      split at h
      · cases h
      · next v tail hvalue =>
        have hv := (ih cs).1 v tail hvalue
        have hws := length_skipWs_le tail
        split at h
        · next tail' htail =>
          rw [htail, List.length_cons] at hws
          obtain ⟨⟨vs', rest'⟩, helems, heq⟩ := Option.map_eq_some_iff.mp h
          cases heq
          exact hv.append ((ih tail').2.1 vs' rest helems) (by omega)
        · next tail' htail =>
          rw [htail, List.length_cons] at hws
          cases h
          exact hv.append (within_nil le_rfl) (by omega)
        · cases h
    · rw [parseField] at h
      have hws := length_skipWs_le cs
      split at h
      · next tail htail =>
        rw [htail, List.length_cons] at hws
        split at h
        · cases h
        · next key tail' hbody =>
          have hlen := parseStrBody_length hbody
          have hws' := length_skipWs_le tail'
          split at h
          · next tail'' htail' =>
            rw [htail', List.length_cons] at hws'
            obtain ⟨⟨v, rest'⟩, hvalue, heq⟩ := Option.map_eq_some_iff.mp h
            cases heq
            exact ((ih tail'').1 v rest hvalue).mono (by omega)
          · cases h
      · cases h
    · rw [parseFields] at h
      split at h
      · cases h
      · next f tail hfield =>
        have hf := (ih cs).2.2.1 f tail hfield
        have hws := length_skipWs_le tail
        split at h
        · next tail' htail =>
          rw [htail, List.length_cons] at hws
          obtain ⟨⟨fs', rest'⟩, hfields, heq⟩ := Option.map_eq_some_iff.mp h
          cases heq
          exact hf.append ((ih tail').2.2.2 fs' rest hfields) (by omega)
        · next tail' htail =>
          rw [htail, List.length_cons] at hws
          cases h
          exact hf.append (within_nil le_rfl) (by omega)
        · cases h

theorem mem_elemLeaves {v : Json} {vs : List Json} {s : String} (hv : v ∈ vs) (hs : s ∈ leaves v) :
    s ∈ elemLeaves vs := by
  induction vs with
  | nil => cases hv
  | cons w vs ih =>
    rw [elemLeaves, List.mem_append]
    rcases List.mem_cons.mp hv with rfl | hv
    · exact .inl hs
    · exact .inr (ih hv)

theorem length_le_of_parse {text s : String} {v : Json} (h : parse text = some v)
    (hs : s ∈ leaves v) : s.toList.length ≤ text.toList.length := by
  obtain ⟨⟨v', rest⟩, hvalue, heq⟩ := Option.bind_eq_some_iff.mp h
  obtain ⟨-, hv⟩ := Option.ite_none_right_eq_some.mp heq
  cases hv
  exact ((parse_within _ text.toList).1 v rest hvalue).2 s hs

end ParseBound

end Buzz.Lib.Json
