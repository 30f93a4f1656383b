import Buzz.Engram.Slug
import Buzz.Lib.Attempt
import Buzz.Lib.JsonNormal

namespace Buzz.Engram

open Buzz.Lib Buzz.Lib.Json

/-- The failures of a body; what the deserializer says about a text is left out. -/
inductive EngramError
  | invalidSlug (e : SlugError)
  | invalidJson
  | duplicateMember (name : String)
  | trailingData
  | invalidBody (why : String)
deriving DecidableEq, Repr

inductive Body
  | core (profile : String)
  | memory (slug : String) (value : Option String)
deriving DecidableEq, Repr

namespace Body

def slug : Body → String
  | .core _ => coreSlug
  | .memory slug _ => slug

end Body

def writeJsonString (s : String) : List Char := renderStr s.toList

def slugText : List Char := "\"slug\":".toList

def valueText : List Char := ",\"value\":".toList

def valueNullText : List Char := ",\"value\":null".toList

def profileText : List Char := ",\"profile\":".toList

def Body.toJsonText (body : Body) : List Char :=
  '{' :: (slugText ++ writeJsonString body.slug ++
    (match body with
      | .memory _ (some v) => valueText ++ writeJsonString v
      | .memory _ none => valueNullText
      | .core profile => profileText ++ writeJsonString profile) ++
    ['}'])

def Body.toJsonBytes (body : Body) : ByteArray := (String.ofList body.toJsonText).toUTF8

mutual

def strictValue : Json → Except EngramError Json
  | .arr elems => (visitSeq elems).map .arr
  | .obj fields => (visitMap [] fields).map ofFields
  | .null => .ok .null
  | .bool b => .ok (.bool b)
  | .num lexeme => .ok (.num lexeme)
  | .str s => .ok (.str s)

def visitSeq : List Json → Except EngramError (List Json)
  | [] => .ok []
  | v :: elems =>
    match strictValue v with
    | .error e => .error e
    | .ok v => (visitSeq elems).map (v :: ·)

def visitMap : List String → List (String × Json) → Except EngramError (List (String × Json))
  | _, [] => .ok []
  | seen, (k, v) :: fields =>
    if k ∈ seen then .error (.duplicateMember k)
    else
      match strictValue v with
      | .error e => .error e
      | .ok v => (visitMap (k :: seen) fields).map ((k, v) :: ·)

end

def parseStrictJson (bytes : ByteArray) : Except EngramError Json :=
  match String.fromUTF8? bytes with
  | none => .error .invalidJson
  | some text =>
    match readDocument text.toList with
    | none => .error .invalidJson
    | some (document, rest) =>
      match strictValue document with
      | .error e => .error e
      | .ok v => if (skipWs rest).isEmpty then .ok v else .error .trailingData

def Body.fromJsonBytes (bytes : ByteArray) : Except EngramError Body :=
  match parseStrictJson bytes with
  | .error e => .error e
  | .ok (.obj fields) =>
    match fields.lookup "slug" with
    | some (.str slug) =>
      match validateSlug slug with
      | .error e => .error (.invalidSlug e)
      | .ok () =>
        if slug = coreSlug then
          match fields.lookup "profile" with
          | some (.str profile) => .ok (.core profile)
          | some _ => .error (.invalidBody "\x60profile\x60 is not a string")
          | none => .error (.invalidBody "core missing \x60profile\x60")
        else
          match fields.lookup "value" with
          | some (.str value) => .ok (.memory slug (some value))
          | some .null => .ok (.memory slug none)
          | some _ => .error (.invalidBody "\x60value\x60 is not a string")
          | none => .error (.invalidBody "memory missing \x60value\x60")
    | some _ => .error (.invalidBody "\x60slug\x60 is not a string")
    | none => .error (.invalidBody "missing \x60slug\x60")
  | .ok _ => .error (.invalidBody "top-level not an object")

/-- The bodies that the agent may write. -/
def Body.Valid : Body → Prop
  | .core _ => True
  | .memory slug _ => validateSlug slug = .ok () ∧ slug ≠ coreSlug

section Strict

mutual

/-- The visitor takes the documents without repeated names, and reads them as the plain one does. -/
theorem keyed_of_strictValue : ∀ {v w : Json}, strictValue v = .ok w → v.Keyed ∧ w = v.canonical
  | .arr elems, w, h => by
    rw [strictValue] at h
    obtain ⟨ws, hws, rfl⟩ := map_eq_ok.mp h
    obtain ⟨hkeyed, rfl⟩ := keyed_of_visitSeq hws
    exact ⟨.arr hkeyed, by rw [canonical]⟩
  | .obj fields, w, h => by
    rw [strictValue] at h
    obtain ⟨out, hout, rfl⟩ := map_eq_ok.mp h
    obtain ⟨hnodup, -, hkeyed, rfl⟩ := keyed_of_visitMap hout
    exact ⟨.obj hnodup hkeyed, by rw [canonical]⟩
  | .null, w, h => by
    rw [strictValue] at h
    cases h
    exact ⟨.null, by rw [canonical]⟩
  | .bool b, w, h => by
    rw [strictValue] at h
    cases h
    exact ⟨.bool b, by rw [canonical]⟩
  | .num lexeme, w, h => by
    rw [strictValue] at h
    cases h
    exact ⟨.num lexeme, by rw [canonical]⟩
  | .str s, w, h => by
    rw [strictValue] at h
    cases h
    exact ⟨.str s, by rw [canonical]⟩

theorem keyed_of_visitSeq : ∀ {elems ws : List Json}, visitSeq elems = .ok ws →
    (∀ v ∈ elems, v.Keyed) ∧ ws = elems.map canonical
  | [], ws, h => by
    cases h
    simp
  | v :: elems, ws, h => by
    rw [visitSeq] at h
    split at h
    · cases h
    · next w hv =>
      obtain ⟨ws', hws, rfl⟩ := map_eq_ok.mp h
      obtain ⟨hkeyed, rfl⟩ := keyed_of_strictValue hv
      obtain ⟨hrest, rfl⟩ := keyed_of_visitSeq hws
      exact ⟨List.forall_mem_cons.mpr ⟨hkeyed, hrest⟩, rfl⟩

theorem keyed_of_visitMap : ∀ {seen : List String} {fields out : List (String × Json)},
    visitMap seen fields = .ok out → (fields.map Prod.fst).Nodup ∧
      (∀ k ∈ seen, k ∉ fields.map Prod.fst) ∧ (∀ f ∈ fields, f.2.Keyed) ∧
      out = fields.map fun f ↦ (f.1, f.2.canonical)
  | _, [], out, h => by
    cases h
    simp
  | seen, (k, v) :: fields, out, h => by
    rw [visitMap] at h
    split at h
    · cases h
    · next hk =>
      split at h
      · cases h
      · next w hv =>
        obtain ⟨out', hout, rfl⟩ := map_eq_ok.mp h
        obtain ⟨hkeyed, rfl⟩ := keyed_of_strictValue hv
        obtain ⟨hnodup, hseen, hrest, rfl⟩ := keyed_of_visitMap hout
        refine ⟨List.nodup_cons.mpr ⟨hseen k List.mem_cons_self, hnodup⟩, ?_, ?_, rfl⟩
        · intro k' hk'
          refine List.not_mem_cons_of_ne_of_not_mem ?_ (hseen k' (List.mem_cons_of_mem k hk'))
          rintro rfl
          exact hk hk'
        · exact List.forall_mem_cons.mpr ⟨hkeyed, hrest⟩

end

end Strict

theorem fromUTF8?_toUTF8 (s : String) : String.fromUTF8? s.toUTF8 = some s := by
  have hvalid : s.toUTF8.IsValidUTF8 := s.isValidUTF8
  rw [String.fromUTF8?, dif_pos hvalid]
  rfl

/-- A text that repeats a member name, or goes on after the document, is no body. -/
theorem parseStrictJson_eq_ok {bytes : ByteArray} {v : Json} (h : parseStrictJson bytes = .ok v) :
    ∃ text document rest, String.fromUTF8? bytes = some text ∧
      readDocument text.toList = some (document, rest) ∧ document.Keyed ∧ v = document.canonical ∧
      (skipWs rest).isEmpty = true := by
  rw [parseStrictJson] at h
  split at h
  · cases h
  · next text htext =>
    split at h
    · cases h
    · next document rest hread =>
      split at h
      · cases h
      · next hv =>
        split_ifs at h with hrest
        obtain ⟨hkeyed, rfl⟩ := keyed_of_strictValue hv
        exact ⟨text, document, rest, htext, hread, hkeyed, (Except.ok.inj h).symm, hrest⟩

section RoundTrip

def Body.member : Body → String × Json
  | .core profile => ("profile", .str profile)
  | .memory _ (some value) => ("value", .str value)
  | .memory _ none => ("value", .null)

def Body.memberText : Body → List Char
  | .core profile => renderStr profile.toList
  | .memory _ (some value) => renderStr value.toList
  | .memory _ none => "null".toList

theorem toJsonText_eq (body : Body) : body.toJsonText =
    renderObj [renderField "slug" (renderStr body.slug.toList),
      renderField body.member.1 body.memberText] := by
  have hslug : slugText = renderStr "slug".toList ++ [':'] := rfl
  have hvalue : valueText = ',' :: (renderStr "value".toList ++ [':']) := rfl
  have hprofile : profileText = ',' :: (renderStr "profile".toList ++ [':']) := rfl
  have hnull : valueNullText = ',' :: (renderStr "value".toList ++ ':' :: "null".toList) := rfl
  simp only [renderObj, joinComma, renderField, Body.toJsonText, hslug]
  cases body with
  | core profile => simp [hprofile, writeJsonString, Body.member, Body.memberText]
  | memory slug value =>
    cases value with
    | some value => simp [hvalue, writeJsonString, Body.member, Body.memberText]
    | none => simp [hnull, Body.member, Body.memberText, writeJsonString]

theorem parses_member (body : Body) : Parses .obj body.member.2 body.memberText := by
  cases body with
  | core profile => exact parses_str profile
  | memory slug value =>
    cases value with
    | some value => exact parses_str value
    | none => exact parses_keyword rfl rfl (by decide) fun n rest ↦ rfl

theorem strictValue_members {slug key : String} {v : Json} (hkey : key ≠ "slug")
    (hv : strictValue v = .ok v) : strictValue (.obj [("slug", .str slug), (key, v)]) =
      .ok (ofFields [("slug", .str slug), (key, v)]) := by
  simp only [strictValue, visitMap, List.not_mem_nil, if_false, List.mem_singleton, hkey, hv]
  rfl

theorem strictValue_body (body : Body) :
    strictValue (.obj [("slug", .str body.slug), body.member]) =
    .ok (ofFields [("slug", .str body.slug), body.member]) := by
  match body with
  | .core profile => exact strictValue_members (by decide) (by rw [strictValue])
  | .memory slug (some value) => exact strictValue_members (by decide) (by rw [strictValue])
  | .memory slug none => exact strictValue_members (by decide) (by rw [strictValue])

theorem readDocument_body (body : Body) : readDocument body.toJsonText =
    some (.obj [("slug", .str body.slug), body.member], []) := by
  rw [toJsonText_eq]
  have hfields : List.Forall₂ (ParsesField .obj) [("slug", .str body.slug), body.member]
      [renderField "slug" (renderStr body.slug.toList),
        renderField body.member.1 body.memberText] :=
    .cons ⟨_, rfl, parses_str _⟩ (.cons ⟨_, rfl, parses_member body⟩ .nil)
  exact (parses_obj hfields).readDocument

theorem parseStrictJson_toJsonBytes (body : Body) : parseStrictJson body.toJsonBytes =
    .ok (ofFields [("slug", .str body.slug), body.member]) := by
  rw [parseStrictJson, Body.toJsonBytes, fromUTF8?_toUTF8]
  simp only [String.toList_ofList, readDocument_body, strictValue_body]
  rfl

theorem ofFields_value (v w : Json) :
    ofFields [("slug", v), ("value", w)] = .obj [("slug", v), ("value", w)] := by
  have hlt : keyLt "value".toList "slug".toList = false := by decide
  have hne : "value" ≠ "slug" := by decide
  simp only [ofFields, List.foldl_cons, List.foldl_nil, insertField, hlt, hne, Bool.false_eq_true,
    if_false]

theorem ofFields_profile (v w : Json) :
    ofFields [("slug", v), ("profile", w)] = .obj [("profile", w), ("slug", v)] := by
  have hlt : keyLt "profile".toList "slug".toList = true := by decide
  simp only [ofFields, List.foldl_cons, List.foldl_nil, insertField, hlt, if_true]

theorem fromJsonBytes_toJsonBytes {body : Body} (h : body.Valid) :
    Body.fromJsonBytes body.toJsonBytes = .ok body := by
  rw [Body.fromJsonBytes, parseStrictJson_toJsonBytes]
  match body with
  | .core profile =>
    have hcore : validateSlug coreSlug = .ok () := by rw [validateSlug, if_pos rfl]
    rw [Body.member, ofFields_profile]
    simp [Body.slug, hcore, List.lookup_cons]
  | .memory slug (some value) =>
    obtain ⟨hslug, hcore⟩ := h
    rw [Body.member, ofFields_value]
    simp [Body.slug, hslug, hcore, List.lookup_cons]
  | .memory slug none =>
    obtain ⟨hslug, hcore⟩ := h
    rw [Body.member, ofFields_value]
    simp [Body.slug, hslug, hcore, List.lookup_cons]

end RoundTrip

/-- A valid body reads back, and a document that repeats a member name at any depth or is followed
by anything but white space does not read as a body. -/
theorem body_roundTrip :
    (∀ body : Body, body.Valid → Body.fromJsonBytes body.toJsonBytes = .ok body) ∧
    ∀ bytes text document rest, String.fromUTF8? bytes = some text →
      readDocument text.toList = some (document, rest) →
      (¬document.Keyed ∨ skipWs rest ≠ []) → ∃ e, Body.fromJsonBytes bytes = .error e := by
  refine ⟨fun body h ↦ fromJsonBytes_toJsonBytes h, ?_⟩
  intro bytes text document rest htext hread hbad
  cases hparse : parseStrictJson bytes with
  | error e =>
    refine ⟨e, ?_⟩
    rw [Body.fromJsonBytes, hparse]
  | ok v =>
    obtain ⟨text', document', rest', htext', hread', hkeyed, -, hrest⟩ :=
      parseStrictJson_eq_ok hparse
    obtain rfl := Option.some.inj (htext.symm.trans htext')
    obtain ⟨rfl, rfl⟩ := Prod.mk.inj (Option.some.inj (hread.symm.trans hread'))
    rcases hbad with hrepeats | htrailing
    · exact absurd hkeyed hrepeats
    · exact absurd (List.isEmpty_iff.mp hrest) htrailing

theorem body_roundTrip_tombstone :
    Body.fromJsonBytes (Body.memory "mem/x" none).toJsonBytes = .ok (.memory "mem/x" none) :=
  body_roundTrip.1 (.memory "mem/x" none) (by constructor <;> decide)

end Buzz.Engram
