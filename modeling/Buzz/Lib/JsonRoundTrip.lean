import Buzz.Lib.Json
import Mathlib.Data.List.Forall2
import Mathlib.Data.List.TakeWhile

namespace Buzz.Lib.Json

section Strings

theorem parseHex_control (i : Fin 32) :
    Hex.parseHex ['0', '0', Nat.digitChar (i.val / 16), Nat.digitChar (i.val % 16)] =
      some i.val := by
  revert i
  decide

theorem strUnit_short {e : Char × Char} (h : e ∈ shortEscapes) (cs : List Char) :
    strUnit ('\\' :: e.2 :: cs) = some (some e.1, cs) := by
  simp only [shortEscapes, List.mem_cons, List.not_mem_nil, or_false] at h
  rcases h with rfl | rfl | rfl | rfl | rfl | rfl | rfl <;> rfl

theorem strUnit_escapeChar (c : Char) (cs : List Char) :
    strUnit (escapeChar c ++ cs) = some (some c, cs) := by
  rcases escapeChar_cases c with ⟨e, he, rfl, hescape⟩ | ⟨hctl, -, -, hescape⟩ |
    ⟨hctl, hq, hb, hescape⟩
  · rw [hescape]
    exact strUnit_short he cs
  · have hhex := parseHex_control ⟨c.toNat, hctl⟩
    have hu : unicodeEscape ('0' :: '0' :: Nat.digitChar (c.toNat / 16) ::
        Nat.digitChar (c.toNat % 16) :: cs) = some (c, cs) := by
      simp only [unicodeEscape, hex4, List.take_succ_cons, List.take_zero, List.drop_succ_cons,
        List.drop_zero, List.length_cons, List.length_nil, if_true, hhex, Option.map_some,
        Option.bind_some]
      rw [if_neg (by omega), if_neg (by omega), Char.ofNat_toNat]
    simp only [hescape, List.cons_append, List.nil_append, strUnit, escape]
    rw [if_neg (by decide), if_pos trivial, if_pos trivial, hu]
    rfl
  · simp only [hescape, List.cons_append, List.nil_append, strUnit]
    rw [if_neg hq, if_neg hb, if_neg (Nat.not_lt_of_ge hctl)]

theorem parseStrBody_escape {s : List Char} {n : ℕ} (hn : s.length < n) (rest : List Char) :
    parseStrBody n (s.flatMap escapeChar ++ '"' :: rest) = some (s, rest) := by
  induction s generalizing n with
  | nil =>
    cases n with
    | zero => omega
    | succ n => rfl
  | cons c s ih =>
    cases n with
    | zero => omega
    | succ n =>
      have hlen : s.length < n := by simpa using hn
      rw [List.flatMap_cons, List.append_assoc, parseStrBody, strUnit_escapeChar]
      simp only [ih hlen, Option.map_some]

/-- With too little fuel nothing is read; with any fuel nothing else is. -/
theorem parseStrBody_escape_inv {s : List Char} {n : ℕ} {rest : List Char}
    {p : List Char × List Char} (h : parseStrBody n (s.flatMap escapeChar ++ '"' :: rest) = some p) :
    p = (s, rest) := by
  induction s generalizing n p with
  | nil =>
    cases n with
    | zero => cases h
    | succ n =>
      cases h
      rfl
  | cons c s ih =>
    cases n with
    | zero => cases h
    | succ n =>
      rw [List.flatMap_cons, List.append_assoc, parseStrBody, strUnit_escapeChar] at h
      obtain ⟨p', hp, rfl⟩ := Option.map_eq_some_iff.mp h
      rw [ih hp]

theorem parseStrBody_control {s rest : List Char} {c : Char} (hc : c.toNat < 0x20) (n : ℕ) :
    parseStrBody n (s.flatMap escapeChar ++ c :: rest) = none := by
  have hunit : strUnit (c :: rest) = none := by
    have hquote : c ≠ '"' := by
      rintro rfl
      revert hc
      decide
    have hslash : c ≠ '\\' := by
      rintro rfl
      revert hc
      decide
    rw [strUnit, if_neg hquote, if_neg hslash, if_pos hc]
  induction s generalizing n with
  | nil =>
    cases n with
    | zero => rfl
    | succ n => rw [List.flatMap_nil, List.nil_append, parseStrBody, hunit]
  | cons d s ih =>
    cases n with
    | zero => rfl
    | succ n =>
      rw [List.flatMap_cons, List.append_assoc, parseStrBody, strUnit_escapeChar]
      simp only [ih, Option.map_none]

theorem length_le_length_escape (s : List Char) : s.length ≤ (s.flatMap escapeChar).length := by
  have hone (c : Char) : 1 ≤ (escapeChar c).length := by
    rcases escapeChar_cases c with ⟨_, _, _, hescape⟩ | ⟨_, _, _, hescape⟩ | ⟨_, _, _, hescape⟩
    all_goals simp [hescape]
  induction s with
  | nil => exact le_rfl
  | cons c s ih =>
    have hc := hone c
    rw [List.flatMap_cons, List.length_append, List.length_cons]
    omega

end Strings

/-- A text that may stand after a number without extending it. -/
def Follows (rest : List Char) : Prop := ∀ c, rest.head? = some c → isNumberChar c = false

variable {mk : List (String × Json) → Json}

/-- The parser reads `text` as `v` wherever it stands. -/
structure Parses (mk : List (String × Json) → Json) (v : Json) (text : List Char) : Prop where
  starts : ∃ c cs, text = c :: cs ∧ isWs c = false ∧ c ≠ ']'
  reads : ∀ n rest, 2 * text.length ≤ n → Follows rest →
    parseValue mk n (text ++ rest) = some (v, rest)

theorem skipWs_cons {c : Char} (h : isWs c = false) (cs : List Char) :
    skipWs (c :: cs) = c :: cs := by
  simp [skipWs, h]

theorem parses_str (s : String) : Parses mk (.str s) (renderStr s.toList) := by
  refine ⟨⟨'"', _, rfl, by decide, by decide⟩, ?_⟩
  intro n rest hn _
  have hlen := length_le_length_escape s.toList
  simp only [renderStr, List.length_cons, List.length_append, List.length_nil] at hn
  cases n with
  | zero => omega
  | succ n =>
    have hbody := parseStrBody_escape (s := s.toList) (n := n) (by omega) rest
    simp only [renderStr, List.cons_append, List.append_assoc, List.nil_append, parseValue]
    rw [skipWs_cons (by decide)]
    simp only [if_true, hbody, Option.map_some, String.ofList_toList]

section Numbers

theorem Follows.takeWhile {rest : List Char} (h : Follows rest) :
    rest.takeWhile isNumberChar = [] ∧ rest.dropWhile isNumberChar = rest := by
  cases rest with
  | nil => exact ⟨rfl, rfl⟩
  | cons c rest =>
    have hc := h c rfl
    simp [hc]

theorem parses_num {lexeme : String} {c : Char} {cs : List Char} (hcons : lexeme.toList = c :: cs)
    (hstart : c.isDigit = true ∨ c = '-') (hchars : ∀ c ∈ lexeme.toList, isNumberChar c = true)
    (hvalid : validNumber lexeme.toList = true) : Parses mk (.num lexeme) lexeme.toList := by
  have hother : isWs c = false ∧ c ≠ ']' ∧ c ≠ '"' ∧ c ≠ '[' ∧ c ≠ '{' ∧ c ≠ 'n' ∧ c ≠ 't' ∧
      c ≠ 'f' := by
    rcases hstart with hdigit | rfl
    · have hne (c' : Char) (h' : c'.isDigit = false) : c ≠ c' := by
        rintro rfl
        rw [h'] at hdigit
        cases hdigit
      refine ⟨?_, hne _ rfl, hne _ rfl, hne _ rfl, hne _ rfl, hne _ rfl, hne _ rfl, hne _ rfl⟩
      simp [isWs, hne ' ' rfl, hne '\n' rfl, hne '\r' rfl, hne '\t' rfl]
    · decide
  obtain ⟨hws, hb, hq, ha, ho, hn', ht', hf'⟩ := hother
  refine ⟨⟨c, cs, hcons, hws, hb⟩, ?_⟩
  intro n rest hn hrest
  rw [hcons] at hn
  cases n with
  | zero => simp at hn
  | succ n =>
    have htake : (lexeme.toList ++ rest).takeWhile isNumberChar = lexeme.toList := by
      rw [List.takeWhile_append_of_pos hchars, hrest.takeWhile.1, List.append_nil]
    have hdrop : (lexeme.toList ++ rest).dropWhile isNumberChar = rest := by
      rw [List.dropWhile_append_of_pos hchars, hrest.takeWhile.2]
    rw [hcons, List.cons_append] at htake hdrop
    rw [hcons, List.cons_append, parseValue, skipWs_cons hws]
    simp only [hq, ha, ho, hn', ht', hf', if_false, parseNumber, htake, hdrop]
    rw [← hcons, hvalid, if_pos rfl, String.ofList_toList]

theorem toDigits_head {n : ℕ} (hn : 0 < n) :
    ∃ c cs, Nat.toDigits 10 n = c :: cs ∧ c ≠ '0' := by
  induction n using Nat.strong_induction_on with
  | _ n ih =>
    by_cases h : n < 10
    · refine ⟨Nat.digitChar n, [], Nat.toDigits_of_lt_base h, ?_⟩
      interval_cases n <;> decide
    · obtain ⟨c, cs, hd, hc⟩ := ih (n / 10) (by omega) (by omega)
      rw [Nat.toDigits_of_base_le (by decide) (by omega), hd]
      exact ⟨c, cs ++ [_], rfl, hc⟩

theorem validNumber_toDigits (n : ℕ) : validNumber (Nat.toDigits 10 n) = true := by
  have hdigits (c : Char) (hc : c ∈ Nat.toDigits 10 n) : c.isDigit = true :=
    Nat.isDigit_of_mem_toDigits (by decide) (by decide) hc
  rcases Nat.eq_zero_or_pos n with rfl | hn
  · decide
  · obtain ⟨c, cs, hd, hc⟩ := toDigits_head hn
    rw [hd] at hdigits ⊢
    have hcd := hdigits c List.mem_cons_self
    have hminus : c ≠ '-' := by
      rintro rfl
      cases hcd
    have hrest : cs.dropWhile Char.isDigit = [] :=
      List.dropWhile_eq_nil_iff.mpr fun c' h ↦ hdigits c' (List.mem_cons_of_mem c h)
    simp [validNumber, dropInt, dropDigits, dropFrac, dropExp, hc, hminus, hcd, hrest]

theorem parses_nat (n : ℕ) : Parses mk (.num (toString n)) (toString n).toList := by
  have hlist : (toString n).toList = Nat.toDigits 10 n := Nat.toList_repr
  have hdigits (c : Char) (hc : c ∈ Nat.toDigits 10 n) : c.isDigit = true :=
    Nat.isDigit_of_mem_toDigits (by decide) (by decide) hc
  obtain ⟨c, cs, hcons⟩ := List.exists_cons_of_ne_nil (Nat.toDigits_ne_nil (n := n) (b := 10))
  refine parses_num (hlist.trans hcons) (.inl ?_) ?_ ?_
  · exact hdigits c (hcons ▸ List.mem_cons_self)
  · intro c hc
    rw [hlist] at hc
    simp [isNumberChar, hdigits c hc]
  · rw [hlist]
    exact validNumber_toDigits n

end Numbers

section Compound

theorem follows_comma (cs : List Char) : Follows (',' :: cs) := by
  rintro c ⟨rfl⟩
  rfl

theorem follows_bracket (cs : List Char) : Follows (']' :: cs) := by
  rintro c ⟨rfl⟩
  rfl

theorem follows_brace (cs : List Char) : Follows ('}' :: cs) := by
  rintro c ⟨rfl⟩
  rfl

theorem joinComma_cons {text : List Char} {texts : List (List Char)} (h : texts ≠ []) :
    joinComma (text :: texts) = text ++ ',' :: joinComma texts := by
  cases texts with
  | nil => exact absurd rfl h
  | cons t ts => rfl

theorem joinComma_ne_nil {text : List Char} (h : text ≠ []) (texts : List (List Char)) :
    joinComma (text :: texts) ≠ [] := by
  cases texts with
  | nil => exact h
  | cons t ts => simp [joinComma]

theorem joinComma_concat {texts : List (List Char)} (h : texts ≠ []) (text : List Char) :
    joinComma (texts ++ [text]) = joinComma texts ++ ',' :: text := by
  induction texts with
  | nil => exact absurd rfl h
  | cons first texts ih =>
    by_cases hts : texts = []
    · rw [hts]
      rfl
    · rw [List.cons_append, joinComma_cons (by simp), ih hts, joinComma_cons hts, List.append_assoc,
        List.cons_append]

theorem parseElems_joinComma {vs : List Json} {texts : List (List Char)}
    (h : List.Forall₂ (Parses mk) vs texts) (hne : texts ≠ []) {n : ℕ} (rest : List Char)
    (hn : 2 * (joinComma texts).length + 1 ≤ n) :
    parseElems mk n (joinComma texts ++ ']' :: rest) = some (vs, rest) := by
  induction h generalizing n with
  | nil => exact absurd rfl hne
  | @cons v text vs texts hv hvs ih =>
    cases n with
    | zero => omega
    | succ n =>
      by_cases hts : texts = []
      · subst hts
        obtain rfl := List.forall₂_nil_right_iff.mp hvs
        have hread := hv.reads n (']' :: rest) (by simp only [joinComma] at hn; omega)
          (follows_bracket rest)
        rw [joinComma, parseElems, hread]
        rfl
      · rw [joinComma_cons hts] at hn ⊢
        simp only [List.length_append, List.length_cons] at hn
        have hread := hv.reads n (',' :: (joinComma texts ++ ']' :: rest)) (by omega)
          (follows_comma _)
        have hrest := ih hts (n := n) (by omega)
        rw [List.append_assoc, List.cons_append, parseElems, hread]
        simp only [skipWs_cons (show isWs ',' = false from rfl), hrest, Option.map_some]

theorem head_joinComma {vs : List Json} {texts : List (List Char)}
    (h : List.Forall₂ (Parses mk) vs texts) (hne : texts ≠ []) :
    ∃ c cs, joinComma texts = c :: cs ∧ isWs c = false ∧ c ≠ ']' := by
  cases h with
  | nil => exact absurd rfl hne
  | @cons v text vs texts hv hvs =>
    obtain ⟨c, cs, rfl, hws, hb⟩ := hv.starts
    cases texts with
    | nil => exact ⟨c, cs, rfl, hws, hb⟩
    | cons t ts => exact ⟨c, cs ++ ',' :: joinComma (t :: ts), rfl, hws, hb⟩

theorem parses_arr {vs : List Json} {texts : List (List Char)}
    (h : List.Forall₂ (Parses mk) vs texts) : Parses mk (.arr vs) (renderArr texts) := by
  refine ⟨⟨'[', _, rfl, by decide, by decide⟩, ?_⟩
  intro n rest hn _
  simp only [renderArr, List.length_cons, List.length_append, List.length_nil] at hn
  cases n with
  | zero => omega
  | succ n =>
    simp only [renderArr, List.cons_append, List.append_assoc, List.nil_append, parseValue]
    rw [skipWs_cons (show isWs '[' = false from rfl)]
    by_cases hne : texts = []
    · subst hne
      obtain rfl := List.forall₂_nil_right_iff.mp h
      rfl
    · obtain ⟨c, cs, hj, hws, hb⟩ := head_joinComma h hne
      have helems := parseElems_joinComma h hne (n := n) rest (by omega)
      have hskip : skipWs (joinComma texts ++ ']' :: rest) = joinComma texts ++ ']' :: rest := by
        rw [hj, List.cons_append]
        exact skipWs_cons hws _
      have hhead : (joinComma texts ++ ']' :: rest).head? ≠ some ']' := by
        rw [hj]
        simpa using hb
      simp only [hskip, hhead, helems, Option.map_some, if_true, if_false, Char.reduceEq]

def ParsesField (mk : List (String × Json) → Json) (field : String × Json) (text : List Char) :
    Prop :=
  ∃ value, text = renderField field.1 value ∧ Parses mk field.2 value

theorem parseField_render {field : String × Json} {text : List Char}
    (h : ParsesField mk field text) {n : ℕ} {rest : List Char} (hn : 2 * text.length ≤ n)
    (hrest : Follows rest) : parseField mk n (text ++ rest) = some (field, rest) := by
  obtain ⟨value, rfl, hv⟩ := h
  have hlen := length_le_length_escape field.1.toList
  simp only [renderField, renderStr, List.length_cons, List.length_append, List.length_nil] at hn
  cases n with
  | zero => omega
  | succ n =>
    have hkey := parseStrBody_escape (s := field.1.toList) (n := n) (by omega)
      (':' :: (value ++ rest))
    have hread := hv.reads n rest (by omega) hrest
    simp only [renderField, renderStr, List.cons_append, List.append_assoc, List.nil_append,
      parseField]
    rw [skipWs_cons (show isWs '"' = false from rfl)]
    simp only [hkey, skipWs_cons (show isWs ':' = false from rfl), hread, Option.map_some,
      String.ofList_toList]

theorem parseFields_joinComma {fields : List (String × Json)} {texts : List (List Char)}
    (h : List.Forall₂ (ParsesField mk) fields texts) (hne : texts ≠ []) {n : ℕ} (rest : List Char)
    (hn : 2 * (joinComma texts).length + 1 ≤ n) :
    parseFields mk n (joinComma texts ++ '}' :: rest) = some (fields, rest) := by
  induction h generalizing n with
  | nil => exact absurd rfl hne
  | @cons f text fs texts hf hfs ih =>
    cases n with
    | zero => omega
    | succ n =>
      by_cases hts : texts = []
      · subst hts
        obtain rfl := List.forall₂_nil_right_iff.mp hfs
        have hread := parseField_render hf (n := n) (by simp only [joinComma] at hn; omega)
          (follows_brace rest)
        rw [joinComma, parseFields, hread]
        rfl
      · rw [joinComma_cons hts] at hn ⊢
        simp only [List.length_append, List.length_cons] at hn
        have hread := parseField_render hf (n := n) (by omega)
          (follows_comma (joinComma texts ++ '}' :: rest))
        have hrest := ih hts (n := n) (by omega)
        rw [List.append_assoc, List.cons_append, parseFields, hread]
        simp only [skipWs_cons (show isWs ',' = false from rfl), hrest, Option.map_some]

theorem head_joinComma_fields {fields : List (String × Json)} {texts : List (List Char)}
    (h : List.Forall₂ (ParsesField mk) fields texts) (hne : texts ≠ []) :
    ∃ cs, joinComma texts = '"' :: cs := by
  cases h with
  | nil => exact absurd rfl hne
  | @cons f text fs texts hf hfs =>
    obtain ⟨value, rfl, _⟩ := hf
    cases texts with
    | nil => exact ⟨_, rfl⟩
    | cons t ts => exact ⟨_, rfl⟩

theorem parses_obj {fields : List (String × Json)} {texts : List (List Char)}
    (h : List.Forall₂ (ParsesField mk) fields texts) : Parses mk (mk fields) (renderObj texts) := by
  refine ⟨⟨'{', _, rfl, by decide, by decide⟩, ?_⟩
  intro n rest hn _
  simp only [renderObj, List.length_cons, List.length_append, List.length_nil] at hn
  cases n with
  | zero => omega
  | succ n =>
    simp only [renderObj, List.cons_append, List.append_assoc, List.nil_append, parseValue]
    rw [skipWs_cons (show isWs '{' = false from rfl)]
    by_cases hne : texts = []
    · subst hne
      obtain rfl := List.forall₂_nil_right_iff.mp h
      rfl
    · obtain ⟨cs, hj⟩ := head_joinComma_fields h hne
      have hfields := parseFields_joinComma h hne (n := n) rest (by omega)
      have hskip : skipWs (joinComma texts ++ '}' :: rest) = joinComma texts ++ '}' :: rest := by
        rw [hj, List.cons_append]
        exact skipWs_cons (by decide) _
      have hhead : (joinComma texts ++ '}' :: rest).head? ≠ some '}' := by
        rw [hj]
        simp
      simp only [hskip, hhead, hfields, Option.map_some, if_true, if_false, Char.reduceEq]

end Compound

/-- An object with a control character in its first string is not read. -/
theorem parseValue_control (key : String) {s rest : List Char} {c : Char} (hc : c.toNat < 0x20)
    (n : ℕ) :
    parseValue mk n ('{' :: renderField key ('"' :: (s.flatMap escapeChar ++ c :: rest))) =
      none := by
  have hstr (n : ℕ) : parseValue mk n ('"' :: (s.flatMap escapeChar ++ c :: rest)) = none := by
    cases n with
    | zero => rfl
    | succ n =>
      rw [parseValue, skipWs_cons (by decide)]
      simp only [if_true, parseStrBody_control hc, Option.map_none]
  have hfield (n : ℕ) :
      parseField mk n (renderField key ('"' :: (s.flatMap escapeChar ++ c :: rest))) = none := by
    cases n with
    | zero => rfl
    | succ n =>
      simp only [renderField, renderStr, List.cons_append, List.append_assoc, List.nil_append,
        parseField]
      rw [skipWs_cons (show isWs '"' = false from rfl)]
      split
      · rename_i heq
        cases heq
        split
        · rfl
        · rename_i hkey
          cases parseStrBody_escape_inv hkey
          simp only [skipWs_cons (show isWs ':' = false from rfl), hstr, Option.map_none]
      · rfl
  cases n with
  | zero => rfl
  | succ n =>
    rw [parseValue, skipWs_cons (by decide)]
    have hfields : parseFields mk n (renderField key ('"' :: (s.flatMap escapeChar ++ c :: rest))) =
        none := by
      cases n with
      | zero => rfl
      | succ n => rw [parseFields, hfield]
    have hhead : (skipWs (renderField key ('"' :: (s.flatMap escapeChar ++ c :: rest)))).head? ≠
        some '}' := by
      rw [renderField, renderStr, List.cons_append, skipWs_cons (by decide)]
      simp
    simp only [hhead, hfields, Option.map_none, if_true, if_false, Char.reduceEq]

theorem Parses.parseWith {v : Json} {text : List Char} (h : Parses mk v text) {n : ℕ}
    (hn : 2 * text.length ≤ n) : parseWith mk n text = some v := by
  have hread := h.reads n [] hn (by intro c hc; cases hc)
  rw [List.append_nil] at hread
  simp only [Json.parseWith, hread, Option.bind_some]
  rfl

theorem Parses.parse {v : Json} {text : String} (h : Parses ofFields v text.toList) :
    parse text = some v := by
  have hlen : text.toList.length = text.length := String.length_toList
  exact h.parseWith (by omega)

theorem Parses.parseRaw {v : Json} {text : String} (h : Parses .obj v text.toList) :
    parseRaw text = some v := by
  have hlen : text.toList.length = text.length := String.length_toList
  exact h.parseWith (by omega)

theorem Parses.readDocument {v : Json} {text : List Char} (h : Parses .obj v text) :
    readDocument text = some (v, []) := by
  have hread := h.reads (2 * text.length + 2) [] (by omega) (by intro c hc; cases hc)
  rwa [List.append_nil] at hread

/-- Naturals for numbers, and sorted object fields. -/
inductive Canonical : Json → Prop
  | null : Canonical .null
  | bool (b : Bool) : Canonical (.bool b)
  | nat (n : ℕ) : Canonical (.num (toString n))
  | str (s : String) : Canonical (.str s)
  | arr {elems : List Json} (h : ∀ v ∈ elems, Canonical v) : Canonical (.arr elems)
  | obj {fields : List (String × Json)} (hsorted : ofFields fields = .obj fields)
      (h : ∀ f ∈ fields, Canonical f.2) : Canonical (.obj fields)

theorem parses_keyword {v : Json} {keyword : String} {c : Char} {cs : List Char}
    (hcons : keyword.toList = c :: cs) (hws : isWs c = false) (hb : c ≠ ']')
    (hread : ∀ n rest, parseValue mk (n + 1) (c :: cs ++ rest) = some (v, rest)) :
    Parses mk v keyword.toList := by
  refine ⟨⟨c, cs, hcons, hws, hb⟩, ?_⟩
  intro n rest hn _
  rw [hcons] at hn ⊢
  cases n with
  | zero => simp at hn
  | succ n => exact hread n rest

/-- What the compact serializer writes, the parser reads back. -/
theorem Canonical.parses {v : Json} (h : v.Canonical)
    (hmk : ∀ fields, ofFields fields = .obj fields → mk fields = .obj fields) :
    Parses mk v v.render := by
  induction h with
  | null =>
    rw [render]
    exact parses_keyword rfl rfl (by decide) fun n rest ↦ rfl
  | bool b =>
    cases b <;> rw [render]
    · exact parses_keyword rfl rfl (by decide) fun n rest ↦ rfl
    · exact parses_keyword rfl rfl (by decide) fun n rest ↦ rfl
  | nat n =>
    rw [render]
    exact parses_nat n
  | str s =>
    rw [render]
    exact parses_str s
  | @arr elems h ih =>
    rw [render]
    exact parses_arr (List.forall₂_map_right_iff.mpr (List.forall₂_same.mpr ih))
  | @obj fields hsorted h ih =>
    rw [render, ← hmk fields hsorted]
    refine parses_obj (List.forall₂_map_right_iff.mpr (List.forall₂_same.mpr ?_))
    intro f hf
    exact ⟨_, rfl, ih f hf⟩

end Buzz.Lib.Json
