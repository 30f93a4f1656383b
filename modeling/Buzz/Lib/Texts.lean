import Buzz.Lib.Utf8
import Mathlib.Data.List.Basic
import Mathlib.Data.List.DropRight

namespace Buzz.Lib

theorem mem_splitOn_or (sep : Char) {c : Char} {text : List Char} (h : c ∈ text) :
    c = sep ∨ ∃ part ∈ text.splitOn sep, c ∈ part := by
  have hjoin : [sep].intercalate (text.splitOn sep) = text := List.intercalate_splitOn sep
  rw [← hjoin] at h
  generalize text.splitOn sep = parts at h
  induction parts with
  | nil => simp [List.intercalate] at h
  | cons part parts ih =>
    cases parts with
    | nil =>
      rw [List.intercalate_singleton] at h
      exact .inr ⟨part, List.mem_cons_self, h⟩
    | cons next parts =>
      rw [List.intercalate_cons_cons] at h
      simp only [List.mem_append, List.mem_singleton] at h
      rcases h with (h | h) | h
      · exact .inr ⟨part, List.mem_cons_self, h⟩
      · exact .inl h
      · rcases ih h with h | ⟨other, hother, h⟩
        · exact .inl h
        · exact .inr ⟨other, List.mem_cons_of_mem _ hother, h⟩

theorem intercalate_append {sep : List Char} {xs ys : List (List Char)} (hxs : xs ≠ [])
    (hys : ys ≠ []) :
    sep.intercalate (xs ++ ys) = sep.intercalate xs ++ (sep ++ sep.intercalate ys) := by
  induction xs with
  | nil => exact absurd rfl hxs
  | cons x xs ih =>
    by_cases hnil : xs = []
    · rw [hnil, List.singleton_append, List.intercalate_cons_of_ne_nil hys,
        List.intercalate_singleton, List.append_assoc]
    · rw [List.cons_append, List.intercalate_cons_of_ne_nil (by simp [hnil]), ih hnil,
        List.intercalate_cons_of_ne_nil hnil]
      simp only [List.append_assoc]

def splitOnce (sep : Char) : List Char → Option (List Char × List Char)
  | [] => none
  | c :: text => if c = sep then some ([], text) else (splitOnce sep text).map (Prod.map (c :: ·) id)

theorem splitOnce_eq_some {sep : Char} {text before after : List Char} :
    splitOnce sep text = some (before, after) ↔ sep ∉ before ∧ text = before ++ sep :: after := by
  induction text generalizing before with
  | nil => simp [splitOnce]
  | cons c text ih =>
    rw [splitOnce]
    split
    · rename_i hc
      cases before with
      | nil => simp [hc]
      | cons d before =>
        simp only [Option.some.injEq, Prod.mk.injEq, reduceCtorEq, false_and, List.mem_cons,
          not_or, List.cons_append, List.cons.injEq, false_iff, not_and]
        exact fun hd hcd ↦ absurd (hc.symm.trans hcd) hd.1
    · rename_i hc
      rw [Option.map_eq_some_iff]
      constructor
      · rintro ⟨⟨init, rest⟩, hsplit, heq⟩
        cases heq
        obtain ⟨hinit, rfl⟩ := ih.mp hsplit
        exact ⟨by simp [hinit, Ne.symm hc], rfl⟩
      · rintro ⟨hbefore, htext⟩
        cases before with
        | nil =>
          cases htext
          exact absurd rfl hc
        | cons d before =>
          cases htext
          exact ⟨(before, after), ih.mpr ⟨fun h ↦ hbefore (by simp [h]), rfl⟩, rfl⟩

theorem splitOnce_append {sep : Char} {before : List Char} (h : sep ∉ before)
    (after : List Char) : splitOnce sep (before ++ sep :: after) = some (before, after) :=
  splitOnce_eq_some.mpr ⟨h, rfl⟩

/-- Parts without the separator, each behind one, are read back. -/
theorem splitOn_append_flatMap {sep : Char} {part : List Char} {parts : List (List Char)}
    (hpart : sep ∉ part) (hparts : ∀ other ∈ parts, sep ∉ other) :
    (part ++ parts.flatMap (sep :: ·)).splitOn sep = part :: parts := by
  induction parts generalizing part with
  | nil => simpa using List.splitOn_eq_singleton hpart
  | cons other parts ih =>
    obtain ⟨hother, hparts⟩ := List.forall_mem_cons.mp hparts
    rw [List.flatMap_cons, List.cons_append, List.splitOn_append_cons_self,
      List.splitOn_eq_singleton hpart, ih hother hparts, List.singleton_append]

theorem utf8ByteSize_cons (c : Char) (cs : List Char) :
    (String.ofList (c :: cs)).utf8ByteSize = c.utf8Size + (String.ofList cs).utf8ByteSize := by
  have hcons : String.ofList (c :: cs) = String.singleton c ++ String.ofList cs := by
    apply String.ext
    simp
  rw [hcons, String.utf8ByteSize_append, String.utf8ByteSize_singleton]

theorem utf8ByteSize_ofList (cs : List Char) : (String.ofList cs).utf8ByteSize = Utf8.len cs := by
  induction cs with
  | nil => rfl
  | cons c cs ih => rw [utf8ByteSize_cons, ih, Utf8.len_cons]

theorem Utf8.len_toList (s : String) : Utf8.len s.toList = s.utf8ByteSize := by
  rw [← utf8ByteSize_ofList, String.ofList_toList]

theorem length_le_utf8ByteSize (cs : List Char) : cs.length ≤ (String.ofList cs).utf8ByteSize := by
  induction cs with
  | nil => exact Nat.zero_le _
  | cons c cs ih =>
    have hpos := c.utf8Size_pos
    rw [utf8ByteSize_cons, List.length_cons]
    omega

theorem utf8ByteSize_le_mul_length (cs : List Char) :
    (String.ofList cs).utf8ByteSize ≤ 4 * cs.length := by
  induction cs with
  | nil => exact Nat.zero_le _
  | cons c cs ih =>
    have hfour := c.utf8Size_le_four
    rw [utf8ByteSize_cons, List.length_cons]
    omega

/-- What the tables of Unicode say of a character, and of the lower case of a text. -/
structure Unicode where
  isWhitespace : Char → Bool
  isAlphanumeric : Char → Bool
  toLowercase : Char → List Char
  lowercase : List Char → List Char

def Unicode.ascii : Unicode where
  isWhitespace c := c = ' ' || '\t'.toNat ≤ c.toNat && c.toNat ≤ '\r'.toNat
  isAlphanumeric := Char.isAlphanum
  toLowercase c := [c.toLower]
  lowercase := List.map Char.toLower

def Unicode.trim (U : Unicode) (text : List Char) : List Char :=
  (text.dropWhile U.isWhitespace).rdropWhile U.isWhitespace

theorem Unicode.trim_sublist (U : Unicode) (text : List Char) : (U.trim text).Sublist text :=
  (List.rdropWhile_prefix _ _).sublist.trans (List.dropWhile_suffix _).sublist

/-- The text before the first place of `sep` and the text behind it. -/
def splitOnceStr (sep : List Char) : List Char → Option (List Char × List Char)
  | [] => none
  | c :: text =>
    if sep <+: c :: text then some ([], (c :: text).drop sep.length)
    else (splitOnceStr sep text).map (Prod.map (c :: ·) id)

def FirstBetween (sep text before after : List Char) : Prop :=
  text = before ++ (sep ++ after) ∧ ∀ b a, text = b ++ (sep ++ a) → before.length ≤ b.length

section SplitOnceStr

variable {sep text before after b a : List Char}

theorem splitOnceStr_eq_none (hsep : sep ≠ []) :
    splitOnceStr sep text = none ↔ ∀ b a, text ≠ b ++ (sep ++ a) := by
  induction text with
  | nil => simp [splitOnceStr, hsep]
  | cons c text ih =>
    rw [splitOnceStr]
    split
    · next hprefix =>
      obtain ⟨rest, hrest⟩ := hprefix
      simp only [reduceCtorEq, false_iff, not_forall, not_not]
      exact ⟨[], rest, hrest.symm⟩
    · next hprefix =>
      rw [Option.map_eq_none_iff, ih]
      constructor
      · intro hnone b a heq
        cases b with
        | nil => exact hprefix ⟨a, heq.symm⟩
        | cons d b =>
          obtain ⟨rfl, rfl⟩ := List.cons.inj heq
          exact hnone b a rfl
      · intro hnone b a heq
        exact hnone (c :: b) a (by rw [heq, List.cons_append])

theorem splitOnceStr_eq_some (hsep : sep ≠ []) :
    splitOnceStr sep text = some (before, after) ↔ FirstBetween sep text before after := by
  induction text generalizing before with
  | nil => simp [splitOnceStr, FirstBetween, hsep]
  | cons c text ih =>
    rw [splitOnceStr]
    split
    · next hprefix =>
      obtain ⟨rest, hrest⟩ := hprefix
      rw [← hrest, List.drop_left]
      constructor
      · intro h
        cases h
        exact ⟨rfl, fun b a _ ↦ Nat.zero_le _⟩
      · rintro ⟨htext, hfirst⟩
        have hnil := List.length_eq_zero_iff.mp (Nat.le_zero.mp (hfirst [] rest rfl))
        subst hnil
        rw [List.append_cancel_left htext]
    · next hprefix =>
      rw [Option.map_eq_some_iff]
      constructor
      · rintro ⟨⟨init, rest⟩, hsplit, heq⟩
        cases heq
        obtain ⟨rfl, hfirst⟩ := ih.mp hsplit
        refine ⟨rfl, fun b a hba ↦ ?_⟩
        cases b with
        | nil => exact absurd ⟨a, hba.symm⟩ hprefix
        | cons d b =>
          obtain ⟨-, hba⟩ := List.cons.inj hba
          exact Nat.succ_le_succ (hfirst b a hba)
      · rintro ⟨htext, hfirst⟩
        cases before with
        | nil => exact absurd ⟨after, htext.symm⟩ hprefix
        | cons d before =>
          obtain ⟨rfl, hrest⟩ := List.cons.inj htext
          refine ⟨(before, after), ih.mpr ⟨hrest, fun b a hba ↦ ?_⟩, rfl⟩
          have hle := hfirst (c :: b) a (by rw [hba, List.cons_append])
          exact Nat.le_of_succ_le_succ hle

/-- Behind the first place of `sep` is what is behind any other. -/
theorem FirstBetween.suffix (h : FirstBetween sep text before after) (htext : text = b ++ (sep ++ a)) :
    a <:+ after := by
  have hle := h.2 b a htext
  obtain ⟨htext', -⟩ := h
  have hafter : after = text.drop (before.length + sep.length) := by
    rw [htext', ← List.append_assoc, List.drop_left' (by simp)]
  have ha : a = after.drop (b.length - before.length) := by
    rw [hafter, List.drop_drop, htext, ← List.append_assoc, List.drop_left' (by simp; omega)]
  rw [ha]
  exact List.drop_suffix _ _

end SplitOnceStr

end Buzz.Lib
