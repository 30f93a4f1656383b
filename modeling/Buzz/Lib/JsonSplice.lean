import Buzz.Lib.Collections
import Buzz.Lib.JsonRoundTrip

namespace Buzz.Lib.Json

def CleanChar (c : Char) : Prop := c ≠ '"' ∧ c ≠ '\\' ∧ 0x20 ≤ c.toNat

/-- A string that needs no escape. -/
def Clean (s : List Char) : Prop := ∀ c ∈ s, CleanChar c

instance (c : Char) : Decidable (CleanChar c) := inferInstanceAs (Decidable (_ ∧ _ ∧ _))

instance (s : List Char) : Decidable (Clean s) := List.decidableBAll CleanChar s

theorem escapeChar_of_clean {c : Char} (h : CleanChar c) : escapeChar c = [c] := by
  obtain ⟨hq, hb, hctl⟩ := h
  have hne (c' : Char) (hlt : c'.toNat < 0x20) : c ≠ c' := by
    rintro rfl
    omega
  unfold escapeChar
  rw [if_neg hq, if_neg hb, if_neg (hne _ (by decide)), if_neg (hne _ (by decide)),
    if_neg (hne _ (by decide)), if_neg (hne _ (by decide)), if_neg (hne _ (by decide)),
    if_neg (by omega)]

theorem flatMap_escapeChar_of_clean {s : List Char} (h : Clean s) : s.flatMap escapeChar = s := by
  induction s with
  | nil => rfl
  | cons c s ih =>
    rw [List.flatMap_cons, escapeChar_of_clean (h c List.mem_cons_self),
      ih fun c' hc ↦ h c' (List.mem_cons_of_mem c hc)]
    rfl

theorem renderStr_of_clean {s : List Char} (h : Clean s) : renderStr s = '"' :: (s ++ ['"']) := by
  rw [renderStr, flatMap_escapeChar_of_clean h]

theorem parseHex_eq_none_of_quote {cs : List Char} (h : '"' ∈ cs) : Hex.parseHex cs = none := by
  cases hp : Hex.parseHex cs with
  | none => rfl
  | some m =>
    obtain ⟨b₁, b₂, hb⟩ := foldlM_eq_some_of_mem hp h
    cases hb

section Splice

variable {s t : List Char}

/-- Hexadecimal digits never reach past the quote that ends a spliced string. -/
theorem hex4_splice {m : ℕ} {rest : List Char} (h : hex4 (s ++ '"' :: t) = some (m, rest)) :
    ∃ u v, s = u ++ v ∧ rest = v ++ '"' :: t := by
  unfold hex4 at h
  split_ifs at h
  by_cases hs : 4 ≤ s.length
  · rw [List.take_append_of_le_length hs, List.drop_append_of_le_length hs] at h
    obtain ⟨m', _, hm⟩ := Option.map_eq_some_iff.mp h
    cases hm
    exact ⟨s.take 4, s.drop 4, (List.take_append_drop 4 s).symm, rfl⟩
  · have hmem : '"' ∈ (s ++ '"' :: t).take 4 := by
      obtain ⟨k, hk⟩ : ∃ k, 4 - s.length = k + 1 := ⟨3 - s.length, by omega⟩
      rw [List.take_append, hk]
      simp
    rw [parseHex_eq_none_of_quote hmem] at h
    cases h

theorem lowSurrogate_splice {n : ℕ} {e : Char} {rest : List Char}
    (h : lowSurrogate n (s ++ '"' :: t) = some (e, rest)) :
    ∃ u v, s = u ++ v ∧ rest = v ++ '"' :: t := by
  match s with
  | [] => cases h
  | [c] =>
    unfold lowSurrogate at h
    split at h
    · next heq => cases heq
    · cases h
  | c₁ :: c₂ :: s =>
    unfold lowSurrogate at h
    split at h
    · next cs heq =>
      simp only [List.cons_append, List.cons.injEq] at heq
      obtain ⟨_, _, rfl⟩ := heq
      obtain ⟨⟨m, rest'⟩, hhex, hm⟩ := Option.bind_eq_some_iff.mp h
      obtain ⟨u, v, rfl, hrest⟩ := hex4_splice hhex
      simp only at hm
      split_ifs at hm
      obtain ⟨_, rfl⟩ := Prod.mk.inj (Option.some.inj hm)
      exact ⟨c₁ :: c₂ :: u, v, rfl, hrest⟩
    · cases h

theorem unicodeEscape_splice {e : Char} {rest : List Char}
    (h : unicodeEscape (s ++ '"' :: t) = some (e, rest)) :
    ∃ u v, s = u ++ v ∧ rest = v ++ '"' :: t := by
  obtain ⟨⟨m, rest'⟩, hhex, hm⟩ := Option.bind_eq_some_iff.mp h
  obtain ⟨u, v, rfl, hrest⟩ := hex4_splice hhex
  simp only at hm
  split_ifs at hm
  · rw [hrest] at hm
    obtain ⟨u', v', rfl, hrest'⟩ := lowSurrogate_splice hm
    exact ⟨u ++ u', v', (List.append_assoc u u' v').symm, hrest'⟩
  · obtain ⟨_, rfl⟩ := Prod.mk.inj (Option.some.inj hm)
    exact ⟨u, v, rfl, hrest⟩

/-- An escape stays inside a spliced string, or its last backslash escapes the closing quote. -/
theorem escape_splice {e : Char} {rest : List Char} (h : escape (s ++ '"' :: t) = some (e, rest)) :
    (s = [] ∧ rest = t) ∨ ∃ c u v, s = c :: (u ++ v) ∧ rest = v ++ '"' :: t := by
  cases s with
  | nil =>
    refine .inl ⟨rfl, ?_⟩
    simp only [List.nil_append, escape, Char.reduceEq, if_false] at h
    cases h
    rfl
  | cons c s =>
    refine .inr ?_
    simp only [List.cons_append, escape] at h
    split_ifs at h
    · obtain ⟨u, v, rfl, hrest⟩ := unicodeEscape_splice h
      exact ⟨c, u, v, rfl, hrest⟩
    · obtain ⟨e', _, he⟩ := Option.map_eq_some_iff.mp h
      cases he
      exact ⟨c, [], s, rfl, rfl⟩

theorem strUnit_cons {c : Char} {cs rest : List Char} {e : Option Char}
    (h : strUnit (c :: cs) = some (e, rest)) :
    (c = '"' ∧ e = none ∧ rest = cs) ∨ (CleanChar c ∧ e = some c ∧ rest = cs) ∨
      (c = '\\' ∧ ∃ d, e = some d ∧ escape cs = some (d, rest)) := by
  simp only [strUnit] at h
  split_ifs at h with hq hb hctl
  · cases h
    exact .inl ⟨hq, rfl, rfl⟩
  · obtain ⟨⟨d, rest'⟩, hesc, hd⟩ := Option.map_eq_some_iff.mp h
    cases hd
    exact .inr (.inr ⟨hb, d, rfl, hesc⟩)
  · cases h
    exact .inr (.inl ⟨⟨hq, hb, by omega⟩, rfl, rfl⟩)

/-- Reading a raw string that was put between quotes: an escape inside it makes the result
shorter, and an escaped closing quote makes it run on into the text behind. -/
theorem parseStrBody_splice {n : ℕ} {d rest : List Char}
    (h : parseStrBody n (s ++ '"' :: ',' :: '{' :: '"' :: t) = some (d, rest)) :
    (d.length ≤ s.length ∧ (d.length = s.length → Clean s)) ∨
      (s.getLast? = some '\\' ∧ d.getLast? = some '{') := by
  induction n generalizing s d with
  | zero => cases h
  | succ n ih =>
    rw [parseStrBody] at h
    cases s with
    | nil =>
      cases h
      exact .inl ⟨le_rfl, fun _ c hc ↦ absurd hc List.not_mem_nil⟩
    | cons c s =>
      rw [List.cons_append] at h
      cases hu : strUnit (c :: (s ++ '"' :: ',' :: '{' :: '"' :: t)) with
      | none =>
        rw [hu] at h
        cases h
      | some unit =>
        obtain ⟨e, rest'⟩ := unit
        rw [hu] at h
        rcases strUnit_cons hu with ⟨rfl, rfl, rfl⟩ | ⟨hclean, rfl, rfl⟩ | ⟨rfl, e, rfl, hesc⟩
        · cases h
          exact .inl ⟨Nat.zero_le _, fun hlen ↦ by simp at hlen⟩
        · obtain ⟨⟨d', r⟩, hbody, hd⟩ := Option.map_eq_some_iff.mp h
          cases hd
          rcases ih hbody with ⟨hle, heq⟩ | ⟨hs, hd'⟩
          · refine .inl ⟨by simpa using hle, ?_⟩
            intro hlen c' hc'
            rcases List.mem_cons.mp hc' with rfl | hc'
            · exact hclean
            · exact heq (by simpa using hlen) c' hc'
          · refine .inr ⟨?_, ?_⟩
            · rw [List.getLast?_cons, hs]
              rfl
            · rw [List.getLast?_cons, hd']
              rfl
        · obtain ⟨⟨d', r⟩, hbody, hd⟩ := Option.map_eq_some_iff.mp h
          cases hd
          rcases escape_splice hesc with ⟨rfl, rfl⟩ | ⟨c, u, v, rfl, rfl⟩
          · refine .inr ⟨rfl, ?_⟩
            cases n with
            | zero => cases hbody
            | succ n =>
              cases n with
              | zero => cases hbody
              | succ n =>
                cases n with
                | zero => cases hbody
                | succ n =>
                  cases hbody
                  rfl
          · rcases ih hbody with ⟨hle, _⟩ | ⟨hs, hd'⟩
            · refine .inl ?_
              simp only [List.length_cons, List.length_append] at hle ⊢
              exact ⟨by omega, fun hlen ↦ by omega⟩
            · have hlast : ∀ w : List Char, (w ++ v).getLast? = some '\\' := by
                intro w
                rw [List.getLast?_append, hs]
                rfl
              refine .inr ⟨hlast ('\\' :: c :: u), ?_⟩
              rw [List.getLast?_cons, hd']
              rfl

/-- A raw string between quotes reads as itself only if it needs no escape. -/
theorem clean_of_parseStrBody {n : ℕ} {rest : List Char}
    (h : parseStrBody n (s ++ '"' :: ',' :: '{' :: '"' :: t) = some (s, rest)) : Clean s := by
  rcases parseStrBody_splice h with ⟨_, hclean⟩ | ⟨hb, ho⟩
  · exact hclean rfl
  · rw [hb] at ho
    cases ho

theorem parseElems_inv {n : ℕ} {cs rest : List Char} {vs : List Json}
    (h : parseElems ofFields (n + 1) cs = some (vs, rest)) :
    ∃ v rest', parseValue ofFields n cs = some (v, rest') ∧ vs.head? = some v ∧
      ∀ rest'', skipWs rest' = ',' :: rest'' → parseElems ofFields n rest'' = some (vs.tail, rest) := by
  rw [parseElems] at h
  cases hv : parseValue ofFields n cs with
  | none =>
    rw [hv] at h
    cases h
  | some p =>
    obtain ⟨v, rest'⟩ := p
    rw [hv] at h
    simp only at h
    split at h
    · next tail htail =>
      obtain ⟨⟨ws, r⟩, helems, hw⟩ := Option.map_eq_some_iff.mp h
      cases hw
      refine ⟨v, rest', rfl, rfl, ?_⟩
      intro rest'' hrest
      rw [htail] at hrest
      cases hrest
      exact helems
    · next tail htail =>
      cases h
      refine ⟨v, rest', rfl, rfl, ?_⟩
      intro rest'' hrest
      rw [htail] at hrest
      cases hrest
    · cases h

theorem parseValue_quote_inv {n : ℕ} {cs rest : List Char} {v : Json}
    (h : parseValue ofFields n ('"' :: cs) = some (v, rest)) :
    ∃ p, parseStrBody (n - 1) cs = some (p, rest) ∧ v = .str (String.ofList p) := by
  cases n with
  | zero => cases h
  | succ n =>
    rw [parseValue, skipWs_cons (by decide)] at h
    obtain ⟨⟨d, r⟩, hd, hw⟩ := Option.map_eq_some_iff.mp h
    cases hw
    exact ⟨d, hd, rfl⟩

/-- In an array whose second element is a raw string between quotes, followed by an object, that
element reads as the raw string only if it needs no escape. -/
theorem clean_of_parse_splice {n : ℕ} {a s' : String} {v₁ : Json} {vs : List Json}
    (h : parseWith ofFields n ('[' :: (renderStr a.toList ++ ',' :: '"' ::
      (s ++ '"' :: ',' :: '{' :: '"' :: t))) = some (.arr (v₁ :: .str s' :: vs)))
    (hs : s'.toList = s) : Clean s := by
  obtain ⟨⟨v, rest⟩, hv, hend⟩ := Option.bind_eq_some_iff.mp h
  simp only at hend
  split_ifs at hend
  cases hend
  cases n with
  | zero => cases hv
  | succ n =>
    rw [parseValue, skipWs_cons (by decide)] at hv
    have hhead : (skipWs (renderStr a.toList ++ ',' :: '"' ::
        (s ++ '"' :: ',' :: '{' :: '"' :: t))).head? = some '"' := by
      rw [renderStr, List.cons_append, skipWs_cons (by decide)]
      rfl
    simp only [Char.reduceEq, if_false, if_true, hhead, Option.some.injEq] at hv
    obtain ⟨⟨ws, r⟩, helems, hw⟩ := Option.map_eq_some_iff.mp hv
    cases hw
    cases n with
    | zero => cases helems
    | succ n =>
      obtain ⟨v, rest', hval, hvh, htail⟩ := parseElems_inv helems
      obtain ⟨a', ha, rfl⟩ := parseValue_quote_inv hval
      have hbody : parseStrBody (n - 1) (a.toList.flatMap escapeChar ++ '"' ::
          ',' :: '"' :: (s ++ '"' :: ',' :: '{' :: '"' :: t)) = some (a', rest') := by
        simpa using ha
      cases parseStrBody_escape_inv hbody
      have hrest := htail _ (skipWs_cons (by decide) _)
      cases n with
      | zero => cases hrest
      | succ n =>
        obtain ⟨v, rest', hval, hvh, -⟩ := parseElems_inv hrest
        obtain ⟨d, hd, rfl⟩ := parseValue_quote_inv hval
        cases hvh
        rw [String.toList_ofList] at hs
        rw [hs] at hd
        exact clean_of_parseStrBody hd

end Splice

end Buzz.Lib.Json
