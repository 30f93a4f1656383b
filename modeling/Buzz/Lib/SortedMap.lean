import Mathlib.Order.Defs.Unbundled
import Buzz.Lib.Json

namespace Buzz.Lib

structure SortedMap (κ : Type*) (r : κ → κ → Prop) (ν : Type*) where
  entries : List (κ × ν)
  sorted : entries.Pairwise fun a b ↦ r a.1 b.1

namespace SortedMap

variable {κ ν : Type*} {r : κ → κ → Prop}

instance [DecidableEq κ] [DecidableEq ν] : DecidableEq (SortedMap κ r ν) := fun a b ↦
  decidable_of_iff (a.entries = b.entries) <| by
    constructor
    · intro h
      cases a
      cases b
      cases h
      rfl
    · intro h
      rw [h]

instance : EmptyCollection (SortedMap κ r ν) := ⟨⟨[], .nil⟩⟩

theorem entries_empty : (∅ : SortedMap κ r ν).entries = [] := rfl

def len (m : SortedMap κ r ν) : ℕ := m.entries.length

def keys (m : SortedMap κ r ν) : List κ := m.entries.map Prod.fst

variable [DecidableEq κ]

def get (m : SortedMap κ r ν) (k : κ) : Option ν := m.entries.lookup k

def containsKey (m : SortedMap κ r ν) (k : κ) : Bool := (m.get k).isSome

theorem get_empty (k : κ) : (∅ : SortedMap κ r ν).get k = none := rfl

def erase (m : SortedMap κ r ν) (k : κ) : SortedMap κ r ν where
  entries := m.entries.filter fun e ↦ e.1 ≠ k
  sorted := m.sorted.filter _

theorem lookup_filter_ne {entries : List (κ × ν)} {k k' : κ} :
    (entries.filter fun e ↦ e.1 ≠ k).lookup k' = if k' = k then none else entries.lookup k' := by
  induction entries with
  | nil =>
    rw [List.filter_nil, List.lookup_nil, ite_self]
  | cons e entries ih =>
    by_cases he : e.1 = k
    · rw [List.filter_cons_of_neg (by simp [he]), ih]
      split
      · rfl
      · next hk =>
        rw [List.lookup_cons, beq_false_of_ne (by rw [he]; exact hk)]
    · rw [List.filter_cons_of_pos (by simp [he]), List.lookup_cons, List.lookup_cons, ih]
      by_cases hk : k' = e.1
      · have hne : ¬k' = k := by
          rw [hk]
          exact he
        simp only [beq_iff_eq.mpr hk, if_neg hne]
      · rw [beq_false_of_ne hk]

theorem get_erase {m : SortedMap κ r ν} {k k' : κ} :
    (m.erase k).get k' = if k' = k then none else m.get k' :=
  lookup_filter_ne

variable [DecidableRel r]

def insertEntry (k : κ) (v : ν) : List (κ × ν) → List (κ × ν)
  | [] => [(k, v)]
  | e :: entries =>
    if r k e.1 then (k, v) :: e :: entries
    else if k = e.1 then (k, v) :: entries
    else e :: insertEntry k v entries

theorem mem_insertEntry {k : κ} {v : ν} {entries : List (κ × ν)} {e : κ × ν}
    (h : e ∈ insertEntry (r := r) k v entries) : e = (k, v) ∨ e ∈ entries := by
  induction entries with
  | nil => exact .inl (List.mem_singleton.mp h)
  | cons e' entries ih =>
    rw [insertEntry] at h
    split at h
    · exact List.mem_cons.mp h
    split at h
    · exact (List.mem_cons.mp h).imp_right (List.mem_cons_of_mem _)
    · rcases List.mem_cons.mp h with rfl | h
      · exact .inr List.mem_cons_self
      · exact (ih h).imp_right (List.mem_cons_of_mem _)

theorem lookup_insertEntry {k k' : κ} {v : ν} {entries : List (κ × ν)} :
    (insertEntry (r := r) k v entries).lookup k' =
      if k' = k then some v else entries.lookup k' := by
  induction entries with
  | nil =>
    rw [insertEntry, List.lookup_cons]
    by_cases hk : k' = k
    · rw [beq_iff_eq.mpr hk, if_pos hk]
    · rw [beq_false_of_ne hk, if_neg hk]
  | cons e entries ih =>
    rw [insertEntry]
    split
    · rw [List.lookup_cons]
      by_cases hk : k' = k
      · rw [beq_iff_eq.mpr hk, if_pos hk]
      · rw [beq_false_of_ne hk, if_neg hk]
    split
    · next hke =>
      rw [List.lookup_cons, List.lookup_cons, ← hke]
      by_cases hk : k' = k
      · rw [beq_iff_eq.mpr hk, if_pos hk]
      · rw [beq_false_of_ne hk, if_neg hk]
    · next hke =>
      rw [List.lookup_cons, List.lookup_cons, ih]
      by_cases hk : k' = k
      · rw [if_pos hk, if_pos hk, beq_false_of_ne (by rw [hk]; exact hke)]
      · rw [if_neg hk, if_neg hk]

theorem insertEntry_perm {k : κ} {v : ν} {entries : List (κ × ν)} (h : k ∉ entries.map Prod.fst) :
    (insertEntry (r := r) k v entries).Perm ((k, v) :: entries) := by
  induction entries with
  | nil => exact .refl _
  | cons e entries ih =>
    rw [List.map_cons, List.mem_cons, not_or] at h
    rw [insertEntry]
    split
    · exact .refl _
    split
    · next heq => exact absurd heq h.1
    · exact ((ih h.2).cons e).trans (.swap _ _ _)

/-- Entries with distinct keys are all kept by insertion in any order. -/
theorem foldl_insertEntry_perm {entries acc : List (κ × ν)}
    (h : ((acc ++ entries).map Prod.fst).Nodup) :
    (entries.foldl (fun acc e ↦ insertEntry (r := r) e.1 e.2 acc) acc).Perm (acc ++ entries) := by
  induction entries generalizing acc with
  | nil =>
    rw [List.append_nil]
    exact .refl _
  | cons e entries ih =>
    have hmid : (acc ++ e :: entries).Perm (e :: (acc ++ entries)) := List.perm_middle
    have hnodup : ((e :: (acc ++ entries)).map Prod.fst).Nodup :=
      (hmid.map Prod.fst).nodup_iff.mp h
    have hfresh : e.1 ∉ acc.map Prod.fst := by
      intro hmem
      apply (List.nodup_cons.mp hnodup).1
      rw [List.map_append]
      exact List.mem_append_left _ hmem
    have hinsert : (insertEntry (r := r) e.1 e.2 acc).Perm (e :: acc) := insertEntry_perm hfresh
    have hsplit : (insertEntry (r := r) e.1 e.2 acc ++ entries).Perm (e :: (acc ++ entries)) :=
      hinsert.append_right entries
    rw [List.foldl_cons]
    exact ((ih ((hsplit.map Prod.fst).nodup_iff.mpr hnodup)).trans hsplit).trans hmid.symm

theorem insertEntry_map {ν' : Type*} (f : ν → ν') (k : κ) (v : ν) (entries : List (κ × ν)) :
    insertEntry (r := r) k (f v) (entries.map fun e ↦ (e.1, f e.2)) =
      (insertEntry (r := r) k v entries).map fun e ↦ (e.1, f e.2) := by
  induction entries with
  | nil => rfl
  | cons e entries ih =>
    rw [List.map_cons, insertEntry, insertEntry, ih]
    split
    · rfl
    split
    · rfl
    · rfl

variable [IsStrictTotalOrder κ r]

theorem sorted_insertEntry {k : κ} {v : ν} {entries : List (κ × ν)}
    (h : entries.Pairwise fun a b ↦ r a.1 b.1) :
    (insertEntry (r := r) k v entries).Pairwise fun a b ↦ r a.1 b.1 := by
  induction entries with
  | nil => exact List.pairwise_singleton _ _
  | cons e entries ih =>
    obtain ⟨hhead, htail⟩ := List.pairwise_cons.mp h
    rw [insertEntry]
    split
    · next hlt =>
      refine List.pairwise_cons.mpr ⟨?_, h⟩
      intro e' he'
      rcases List.mem_cons.mp he' with rfl | he'
      · exact hlt
      · exact Trans.trans hlt (hhead e' he')
    split
    · next heq =>
      refine List.pairwise_cons.mpr ⟨?_, htail⟩
      intro e' he'
      rw [heq]
      exact hhead e' he'
    · next hnlt hne =>
      refine List.pairwise_cons.mpr ⟨?_, ih htail⟩
      intro e' he'
      rcases mem_insertEntry he' with rfl | he'
      · by_contra hnot
        exact hne (Std.Trichotomous.trichotomous _ _ hnlt hnot)
      · exact hhead e' he'

def insert (m : SortedMap κ r ν) (k : κ) (v : ν) : SortedMap κ r ν where
  entries := insertEntry (r := r) k v m.entries
  sorted := sorted_insertEntry m.sorted

theorem get_insert {m : SortedMap κ r ν} {k k' : κ} {v : ν} :
    (m.insert k v).get k' = if k' = k then some v else m.get k' :=
  lookup_insertEntry

theorem insertEntry_last {k : κ} {v : ν} {entries : List (κ × ν)}
    (h : ∀ e ∈ entries, r e.1 k) : insertEntry (r := r) k v entries = entries ++ [(k, v)] := by
  induction entries with
  | nil => rfl
  | cons e entries ih =>
    have hlt := h e List.mem_cons_self
    have hnlt : ¬r k e.1 := fun hgt ↦ Std.Irrefl.irrefl _ (Trans.trans hlt hgt)
    have hne : k ≠ e.1 := by
      intro heq
      rw [heq] at hlt
      exact Std.Irrefl.irrefl _ hlt
    rw [insertEntry, if_neg hnlt, if_neg hne, ih fun e' he' ↦ h e' (List.mem_cons_of_mem _ he')]
    rfl

theorem foldl_insertEntry_sorted {entries acc : List (κ × ν)}
    (h : (acc ++ entries).Pairwise fun a b ↦ r a.1 b.1) :
    entries.foldl (fun acc e ↦ insertEntry (r := r) e.1 e.2 acc) acc = acc ++ entries := by
  induction entries generalizing acc with
  | nil => rw [List.append_nil, List.foldl_nil]
  | cons e entries ih =>
    have hacc := (List.pairwise_append.mp h).2.2
    have hlast : insertEntry (r := r) e.1 e.2 acc = acc ++ [e] :=
      insertEntry_last fun e' he' ↦ hacc e' he' e List.mem_cons_self
    rw [List.append_cons] at h ⊢
    rw [List.foldl_cons, hlast]
    exact ih h

omit [DecidableRel r] in
theorem lookup_of_mem_sorted {entries : List (κ × ν)}
    (h : entries.Pairwise fun a b ↦ r a.1 b.1) {e : κ × ν} (he : e ∈ entries) :
    entries.lookup e.1 = some e.2 := by
  induction entries with
  | nil => cases he
  | cons e' entries ih =>
    obtain ⟨hhead, htail⟩ := List.pairwise_cons.mp h
    rw [List.lookup_cons]
    rcases List.mem_cons.mp he with rfl | he
    · rw [beq_self_eq_true]
    · have hne : e.1 ≠ e'.1 := by
        intro heq
        have hlt := hhead e he
        rw [heq] at hlt
        exact Std.Irrefl.irrefl _ hlt
      rw [beq_false_of_ne hne]
      exact ih htail he

omit [DecidableRel r] in
theorem get_of_mem {m : SortedMap κ r ν} {e : κ × ν} (he : e ∈ m.entries) :
    m.get e.1 = some e.2 :=
  lookup_of_mem_sorted m.sorted he

omit [DecidableRel r] in
theorem mem_entries_iff {m : SortedMap κ r ν} {k : κ} {v : ν} :
    (k, v) ∈ m.entries ↔ m.get k = some v := by
  constructor
  · exact fun h ↦ get_of_mem h
  · intro h
    obtain ⟨front, back, hsplit, -⟩ := List.lookup_eq_some_iff.mp h
    rw [hsplit]
    exact List.mem_append_right _ List.mem_cons_self

omit [DecidableRel r] in
/-- A map is what it says about each key. -/
theorem ext {m n : SortedMap κ r ν} (h : ∀ k, m.get k = n.get k) : m = n := by
  have hnodup (m : SortedMap κ r ν) : m.entries.Nodup := by
    refine m.sorted.imp ?_
    rintro a b hab rfl
    exact Std.Irrefl.irrefl _ hab
  have hentries : m.entries = n.entries := by
    apply List.Perm.eq_of_pairwise _ m.sorted n.sorted
    · rw [List.perm_ext_iff_of_nodup (hnodup m) (hnodup n)]
      rintro ⟨k, v⟩
      rw [mem_entries_iff, mem_entries_iff, h]
    · intro a b _ _ hab hba
      exact absurd (Trans.trans hab hba : r a.1 a.1) (Std.Irrefl.irrefl _)
  cases m
  cases n
  cases hentries
  rfl

end SortedMap

section KeyOrder

open Json

theorem keyLt_irrefl (a : List Char) : keyLt a a = false := by
  induction a with
  | nil => rfl
  | cons c a ih => simp [keyLt, ih]

theorem keyLt_trans {a b c : List Char} (hab : keyLt a b = true) (hbc : keyLt b c = true) :
    keyLt a c = true := by
  induction a generalizing b c with
  | nil =>
    cases c with
    | nil => cases b <;> cases hbc
    | cons z c => rfl
  | cons x a ih =>
    cases b with
    | nil => cases hab
    | cons y b =>
      cases c with
      | nil => cases hbc
      | cons z c =>
        simp only [keyLt, Bool.or_eq_true, Bool.and_eq_true, decide_eq_true_eq] at hab hbc ⊢
        rcases hab with hxy | ⟨rfl, hab⟩
        · rcases hbc with hyz | ⟨rfl, -⟩
          · exact .inl (hxy.trans hyz)
          · exact .inl hxy
        · rcases hbc with hyz | ⟨rfl, hbc⟩
          · exact .inl hyz
          · exact .inr ⟨rfl, ih hab hbc⟩

theorem keyLt_total {a b : List Char} (hab : keyLt a b = false) (hba : keyLt b a = false) :
    a = b := by
  induction a generalizing b with
  | nil =>
    cases b with
    | nil => rfl
    | cons y b => cases hab
  | cons x a ih =>
    cases b with
    | nil => cases hba
    | cons y b =>
      simp only [keyLt, Bool.or_eq_false_iff, Bool.and_eq_false_iff, decide_eq_false_iff_not,
        not_lt] at hab hba
      have hxy : x = y := Char.toNat_inj.mp (le_antisymm hba.1 hab.1)
      rcases hab.2 with hne | hab
      · exact absurd hxy hne
      rcases hba.2 with hne | hba
      · exact absurd hxy.symm hne
      rw [hxy, ih hab hba]

/-- The order of strings by code points. -/
def StringLt (a b : String) : Prop := keyLt a.toList b.toList = true

instance : DecidableRel StringLt := fun a b ↦
  inferInstanceAs (Decidable (keyLt a.toList b.toList = true))

instance : IsStrictTotalOrder String StringLt where
  trichotomous a b hab hba :=
    String.toList_inj.mp (keyLt_total (Bool.eq_false_of_not_eq_true hab)
      (Bool.eq_false_of_not_eq_true hba))
  irrefl a h := by
    rw [StringLt, keyLt_irrefl] at h
    cases h
  trans _ _ _ := keyLt_trans

abbrev StringMap (ν : Type*) := SortedMap String StringLt ν

theorem insertField_eq (fields : List (String × Json)) (field : String × Json) :
    insertField fields field =
      SortedMap.insertEntry (r := StringLt) field.1 field.2 fields := by
  induction fields with
  | nil => rfl
  | cons f fields ih =>
    rw [insertField, SortedMap.insertEntry, ih]
    rfl

/-- Fields in the order of their keys are read back in this order. -/
theorem ofFields_sorted {fields : List (String × Json)}
    (h : fields.Pairwise fun a b ↦ StringLt a.1 b.1) : ofFields fields = .obj fields := by
  have hfold : fields.foldl insertField [] = fields := by
    rw [funext₂ insertField_eq]
    exact SortedMap.foldl_insertEntry_sorted h
  rw [ofFields, hfold]

theorem ofFields_distinct {fields : List (String × Json)} (h : (fields.map Prod.fst).Nodup) :
    ∃ sorted, ofFields fields = .obj sorted ∧ sorted.Perm fields ∧
      sorted.Pairwise fun a b ↦ StringLt a.1 b.1 := by
  refine ⟨fields.foldl insertField [], rfl, ?_, ?_⟩
  · rw [funext₂ insertField_eq]
    exact SortedMap.foldl_insertEntry_perm h
  · rw [funext₂ insertField_eq]
    exact List.foldlRecOn fields _ List.Pairwise.nil fun _ hacc _ _ ↦
      SortedMap.sorted_insertEntry hacc

theorem ofFields_perm {fields fields' : List (String × Json)} (h : (fields.map Prod.fst).Nodup)
    (hperm : fields.Perm fields') : ofFields fields = ofFields fields' := by
  obtain ⟨sorted, heq, hsorted, hpair⟩ := ofFields_distinct h
  obtain ⟨sorted', heq', hsorted', hpair'⟩ :=
    ofFields_distinct ((hperm.map Prod.fst).nodup_iff.mp h)
  have hsame : sorted = sorted' := by
    apply List.Perm.eq_of_pairwise _ hpair hpair' ((hsorted.trans hperm).trans hsorted'.symm)
    intro a b _ _ hab hba
    exact absurd (Trans.trans hab hba : StringLt a.1 a.1) (Std.Irrefl.irrefl _)
  rw [heq, heq', hsame]

theorem ofFields_map (f : Json → Json) (fields : List (String × Json)) :
    ∃ sorted, ofFields fields = .obj sorted ∧
      ofFields (fields.map fun field ↦ (field.1, f field.2)) =
        .obj (sorted.map fun field ↦ (field.1, f field.2)) := by
  refine ⟨fields.foldl insertField [], rfl, congrArg Json.obj ?_⟩
  have hgen (acc : List (String × Json)) :
      (fields.map fun field ↦ (field.1, f field.2)).foldl insertField
        (acc.map fun field ↦ (field.1, f field.2)) =
      (fields.foldl insertField acc).map fun field ↦ (field.1, f field.2) := by
    induction fields generalizing acc with
    | nil => rfl
    | cons field fields ih =>
      have hinsert : insertField (acc.map fun field ↦ (field.1, f field.2)) (field.1, f field.2) =
          (insertField acc field).map fun field ↦ (field.1, f field.2) := by
        rw [insertField_eq, insertField_eq]
        exact SortedMap.insertEntry_map f field.1 field.2 acc
      rw [List.map_cons, List.foldl_cons, List.foldl_cons, hinsert, ih]
  exact hgen []

end KeyOrder

end Buzz.Lib
