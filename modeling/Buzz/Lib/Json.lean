import Buzz.Lib.Hex
import Mathlib.Data.List.Basic

namespace Buzz.Lib

/-- A JSON document. A number keeps its lexeme; the fields of an object are sorted by key. -/
inductive Json
  | null
  | bool (b : Bool)
  | num (lexeme : String)
  | str (s : String)
  | arr (elems : List Json)
  | obj (fields : List (String × Json))

namespace Json

def keyLt : List Char → List Char → Bool
  | _, [] => false
  | [], _ :: _ => true
  | a :: as, b :: bs => a.toNat < b.toNat || (a = b && keyLt as bs)

/-- Insertion into the sorted field list; a later duplicate replaces the value. -/
def insertField (fields : List (String × Json)) (field : String × Json) : List (String × Json) :=
  match fields with
  | [] => [field]
  | f :: fs =>
    if keyLt field.1.toList f.1.toList then field :: f :: fs
    else if field.1 = f.1 then field :: fs
    else f :: insertField fs field

def ofFields (fields : List (String × Json)) : Json := .obj (fields.foldl insertField [])

section Render

/-- The escapes of a compact serializer: quotes, backslashes and control characters only. -/
def escapeChar (c : Char) : List Char :=
  if c = '"' then ['\\', '"']
  else if c = '\\' then ['\\', '\\']
  else if c = '\x08' then ['\\', 'b']
  else if c = '\x0c' then ['\\', 'f']
  else if c = '\n' then ['\\', 'n']
  else if c = '\r' then ['\\', 'r']
  else if c = '\t' then ['\\', 't']
  else if c.toNat < 0x20 then ['\\', 'u', '0', '0', Nat.digitChar (c.toNat / 16),
    Nat.digitChar (c.toNat % 16)]
  else [c]

def shortEscapes : List (Char × Char) :=
  [('"', '"'), ('\\', '\\'), ('\x08', 'b'), ('\x0c', 'f'), ('\n', 'n'), ('\r', 'r'), ('\t', 't')]

theorem escapeChar_short {e : Char × Char} (h : e ∈ shortEscapes) :
    escapeChar e.1 = ['\\', e.2] := by
  simp only [shortEscapes, List.mem_cons, List.not_mem_nil, or_false] at h
  rcases h with rfl | rfl | rfl | rfl | rfl | rfl | rfl <;> rfl

/-- A character has a short escape, is some other control character, or is left as it is. -/
theorem escapeChar_cases (c : Char) :
    (∃ e ∈ shortEscapes, c = e.1 ∧ escapeChar c = ['\\', e.2]) ∨
      (c.toNat < 0x20 ∧ c ≠ '"' ∧ c ≠ '\\' ∧
        escapeChar c = ['\\', 'u', '0', '0', Nat.digitChar (c.toNat / 16),
          Nat.digitChar (c.toNat % 16)]) ∨
      (0x20 ≤ c.toNat ∧ c ≠ '"' ∧ c ≠ '\\' ∧ escapeChar c = [c]) := by
  by_cases hshort : ∃ e ∈ shortEscapes, c = e.1
  · obtain ⟨e, he, rfl⟩ := hshort
    exact .inl ⟨e, he, rfl, escapeChar_short he⟩
  have hne (e : Char × Char) (he : e ∈ shortEscapes) : c ≠ e.1 := fun h ↦ hshort ⟨e, he, h⟩
  have hq := hne ('"', '"') (by decide)
  have hb := hne ('\\', '\\') (by decide)
  have hescape : escapeChar c = if c.toNat < 0x20 then ['\\', 'u', '0', '0',
      Nat.digitChar (c.toNat / 16), Nat.digitChar (c.toNat % 16)] else [c] := by
    rw [escapeChar, if_neg hq, if_neg hb, if_neg (hne ('\x08', 'b') (by decide)),
      if_neg (hne ('\x0c', 'f') (by decide)), if_neg (hne ('\n', 'n') (by decide)),
      if_neg (hne ('\r', 'r') (by decide)), if_neg (hne ('\t', 't') (by decide))]
  rw [hescape]
  rcases Nat.lt_or_ge c.toNat 0x20 with hctl | hctl
  · exact .inr (.inl ⟨hctl, hq, hb, if_pos hctl⟩)
  · exact .inr (.inr ⟨hctl, hq, hb, if_neg (Nat.not_lt_of_ge hctl)⟩)

def renderStr (s : List Char) : List Char := '"' :: (s.flatMap escapeChar ++ ['"'])

def renderField (key : String) (value : List Char) : List Char :=
  renderStr key.toList ++ ':' :: value

def joinComma : List (List Char) → List Char
  | [] => []
  | [text] => text
  | text :: texts => text ++ ',' :: joinComma texts

def renderArr (texts : List (List Char)) : List Char := '[' :: (joinComma texts ++ [']'])

def renderObj (texts : List (List Char)) : List Char := '{' :: (joinComma texts ++ ['}'])

/-- The compact text of a document, fields in the order given. -/
def render : Json → List Char
  | .null => "null".toList
  | .bool true => "true".toList
  | .bool false => "false".toList
  | .num lexeme => lexeme.toList
  | .str s => renderStr s.toList
  | .arr elems => renderArr (elems.map render)
  | .obj fields => renderObj (fields.map fun field ↦ renderField field.1 (render field.2))
decreasing_by
  · have hlt := List.sizeOf_lt_of_mem ‹_›
    simp only [arr.sizeOf_spec]
    omega
  · have hlt := List.sizeOf_lt_of_mem ‹_›
    obtain ⟨k, v⟩ := field
    simp only [Prod.mk.sizeOf_spec, obj.sizeOf_spec] at hlt ⊢
    omega

end Render

section Parse

def isWs (c : Char) : Bool := c = ' ' || c = '\n' || c = '\r' || c = '\t'

def skipWs (cs : List Char) : List Char := cs.dropWhile isWs

/-- Four hexadecimal digits of either case. -/
def hex4 (cs : List Char) : Option (ℕ × List Char) :=
  if (cs.take 4).length = 4 then (Hex.parseHex (cs.take 4)).map (·, cs.drop 4) else none

def simpleEscape (c : Char) : Option Char :=
  if c = '"' then some '"'
  else if c = '\\' then some '\\'
  else if c = '/' then some '/'
  else if c = 'b' then some '\x08'
  else if c = 'f' then some '\x0c'
  else if c = 'n' then some '\n'
  else if c = 'r' then some '\r'
  else if c = 't' then some '\t'
  else none

/-- The second half of a surrogate pair whose first half is `n`. -/
def lowSurrogate (n : ℕ) : List Char → Option (Char × List Char)
  | '\\' :: 'u' :: cs =>
    (hex4 cs).bind fun (m, rest) ↦
      if 0xDC00 ≤ m ∧ m ≤ 0xDFFF then
        some (Char.ofNat (0x10000 + (n - 0xD800) * 0x400 + (m - 0xDC00)), rest)
      else none
  | _ => none

def unicodeEscape (cs : List Char) : Option (Char × List Char) :=
  (hex4 cs).bind fun (n, rest) ↦
    if 0xD800 ≤ n ∧ n ≤ 0xDBFF then lowSurrogate n rest
    else if 0xDC00 ≤ n ∧ n ≤ 0xDFFF then none
    else some (Char.ofNat n, rest)

def escape : List Char → Option (Char × List Char)
  | [] => none
  | c :: cs => if c = 'u' then unicodeEscape cs else (simpleEscape c).map (·, cs)

/-- One step inside a string: `some (none, _)` is its closing quote. -/
def strUnit : List Char → Option (Option Char × List Char)
  | [] => none
  | c :: cs =>
    if c = '"' then some (none, cs)
    else if c = '\\' then (escape cs).map fun (e, rest) ↦ (some e, rest)
    else if c.toNat < 0x20 then none
    else some (some c, cs)

def parseStrBody : ℕ → List Char → Option (List Char × List Char)
  | 0, _ => none
  | n + 1, cs =>
    match strUnit cs with
    | none => none
    | some (none, rest) => some ([], rest)
    | some (some c, rest) => (parseStrBody n rest).map fun (d, rest) ↦ (c :: d, rest)

def isNumberChar (c : Char) : Bool :=
  c.isDigit || c = '-' || c = '+' || c = '.' || c = 'e' || c = 'E'

def dropDigits (cs : List Char) : Option (List Char) :=
  match cs with
  | c :: cs => if c.isDigit then some (cs.dropWhile Char.isDigit) else none
  | [] => none

def dropInt (cs : List Char) : Option (List Char) :=
  let cs := if cs.head? = some '-' then cs.tail else cs
  if cs.head? = some '0' then some cs.tail else dropDigits cs

def dropFrac (cs : List Char) : Option (List Char) :=
  if cs.head? = some '.' then dropDigits cs.tail else some cs

def dropExp (cs : List Char) : Option (List Char) :=
  if cs.head? = some 'e' ∨ cs.head? = some 'E' then
    let cs := cs.tail
    dropDigits (if cs.head? = some '+' ∨ cs.head? = some '-' then cs.tail else cs)
  else some cs

def validNumber (cs : List Char) : Bool :=
  ((dropInt cs).bind dropFrac).bind dropExp == some []

def parseNumber (cs : List Char) : Option (Json × List Char) :=
  let lexeme := cs.takeWhile isNumberChar
  if validNumber lexeme then some (.num (String.ofList lexeme), cs.dropWhile isNumberChar)
  else none

def parseKeyword (keyword : String) (value : Json) (cs : List Char) : Option (Json × List Char) :=
  if keyword.toList.isPrefixOf cs then some (value, cs.drop keyword.length) else none

section Document

variable (mk : List (String × Json) → Json)

mutual

/-- `mk` is given the members of an object in their order, with repetitions. -/
def parseValue : ℕ → List Char → Option (Json × List Char)
  | 0, _ => none
  | n + 1, cs =>
    match skipWs cs with
    | [] => none
    | c :: rest =>
      if c = '"' then (parseStrBody n rest).map fun (d, rest) ↦ (.str (String.ofList d), rest)
      else if c = '[' then
        if (skipWs rest).head? = some ']' then some (.arr [], (skipWs rest).tail)
        else (parseElems n rest).map fun (elems, rest) ↦ (.arr elems, rest)
      else if c = '{' then
        if (skipWs rest).head? = some '}' then some (mk [], (skipWs rest).tail)
        else (parseFields n rest).map fun (fields, rest) ↦ (mk fields, rest)
      else if c = 'n' then parseKeyword "null" .null (c :: rest)
      else if c = 't' then parseKeyword "true" (.bool true) (c :: rest)
      else if c = 'f' then parseKeyword "false" (.bool false) (c :: rest)
      else parseNumber (c :: rest)

def parseElems : ℕ → List Char → Option (List Json × List Char)
  | 0, _ => none
  | n + 1, cs =>
    match parseValue n cs with
    | none => none
    | some (v, rest) =>
      match skipWs rest with
      | ',' :: rest => (parseElems n rest).map fun (vs, rest) ↦ (v :: vs, rest)
      | ']' :: rest => some ([v], rest)
      | _ => none

def parseField : ℕ → List Char → Option ((String × Json) × List Char)
  | 0, _ => none
  | n + 1, cs =>
    match skipWs cs with
    | '"' :: rest =>
      match parseStrBody n rest with
      | none => none
      | some (k, rest) =>
        match skipWs rest with
        | ':' :: rest => (parseValue n rest).map fun (v, rest) ↦ ((String.ofList k, v), rest)
        | _ => none
    | _ => none

def parseFields : ℕ → List Char → Option (List (String × Json) × List Char)
  | 0, _ => none
  | n + 1, cs =>
    match parseField n cs with
    | none => none
    | some (f, rest) =>
      match skipWs rest with
      | ',' :: rest => (parseFields n rest).map fun (fs, rest) ↦ (f :: fs, rest)
      | '}' :: rest => some ([f], rest)
      | _ => none

end

def parseWith (fuel : ℕ) (text : List Char) : Option Json :=
  (parseValue mk fuel text).bind fun (v, rest) ↦ if (skipWs rest).isEmpty then some v else none

end Document

/-- `serde_json::from_str`; of two nested calls at least one reads a character. -/
def parse (text : String) : Option Json := parseWith ofFields (2 * text.length + 2) text.toList

/-- The document as it is written, where a struct that serde derives finds repeated fields. -/
def parseRaw (text : String) : Option Json := parseWith .obj (2 * text.length + 2) text.toList

/-- The document as it is written, and what follows it. -/
def readDocument (text : List Char) : Option (Json × List Char) :=
  parseValue .obj (2 * text.length + 2) text

/-- A struct that serde derives refuses to take one of its own fields twice. -/
def noDuplicateField (names : List String) (fields : List (String × Json)) : Bool :=
  names.all fun name ↦ decide (fields.countP (fun f ↦ f.1 == name) ≤ 1)

end Parse

def get (key : String) : Json → Option Json
  | .obj fields => fields.lookup key
  | _ => none

def asStr : Json → Option String
  | .str s => some s
  | _ => none

/-- Change a member in place, as through `get_mut`. -/
def modify (key : String) (f : Json → Json) : Json → Json
  | .obj fields => .obj (fields.map fun field ↦ if field.1 = key then (field.1, f field.2) else field)
  | v => v

def setMember (key : String) (v value : Json) : Json :=
  match v with
  | .obj fields =>
    if (fields.lookup key).isSome then
      .obj (fields.map fun field ↦ if field.1 = key then (field.1, value) else field)
    else .obj (insertField fields (key, value))
  | v => v

variable {key key' : String} {f : Json → Json} {v w : Json}

theorem lookup_map_update (fields : List (String × Json)) (key : String) (f : Json → Json)
    (key' : String) :
    (fields.map fun field ↦ if field.1 = key then (field.1, f field.2) else field).lookup key' =
      if key' = key then (fields.lookup key').map f else fields.lookup key' := by
  induction fields with
  | nil => simp
  | cons field fields ih =>
    rw [List.map_cons, List.lookup_cons, List.lookup_cons]
    by_cases hfield : field.1 = key <;> by_cases hkey : key' = field.1
    · simp [hkey, hfield]
    · have hkey' : ¬key' = key := fun h ↦ hkey (h.trans hfield.symm)
      simp only [hfield, if_true, beq_eq_false_iff_ne.mpr hkey', ih, if_neg hkey']
    · simp [hkey, hfield]
    · simp only [hfield, if_false, beq_eq_false_iff_ne.mpr hkey, ih]

theorem get_modify (key : String) (f : Json → Json) (v : Json) :
    (v.modify key f).get key = (v.get key).map f := by
  cases v with
  | obj fields => simp [modify, get, lookup_map_update]
  | _ => rfl

theorem get_modify_of_ne (h : key' ≠ key) : (v.modify key f).get key' = v.get key' := by
  cases v with
  | obj fields => simp [modify, get, lookup_map_update, h]
  | _ => rfl

theorem get_setMember (h : v.get key = some w) (value : Json) :
    (setMember key v value).get key = some value := by
  cases v with
  | obj fields =>
    have hlookup : fields.lookup key = some w := h
    simp [setMember, get, hlookup, lookup_map_update fields key (fun _ ↦ value)]
  | _ => nomatch h

end Json

end Buzz.Lib
