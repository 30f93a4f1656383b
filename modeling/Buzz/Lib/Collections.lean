import Mathlib.Data.List.AList
import Mathlib.Logic.Relator

namespace Buzz.Lib

/-- Texts none of which is a prefix of another are told apart whatever follows them. -/
theorem append_inj_of_prefixFree {α β : Type*} {f : α → List β} {P : Set α}
    (hf : ∀ a ∈ P, ∀ b ∈ P, f a <+: f b → a = b) {a b : α} (ha : a ∈ P) (hb : b ∈ P)
    {xs ys : List β} (h : f a ++ xs = f b ++ ys) : a = b ∧ xs = ys := by
  have hab : a = b := by
    rcases le_total (f a).length (f b).length with hlen | hlen
    · exact hf a ha b hb (List.prefix_of_prefix_length_le ⟨xs, h⟩ ⟨ys, rfl⟩ hlen)
    · exact (hf b hb a ha (List.prefix_of_prefix_length_le ⟨ys, h.symm⟩ ⟨xs, rfl⟩ hlen)).symm
  subst hab
  exact ⟨rfl, List.append_cancel_left h⟩

theorem exists_of_forall₂ {α β : Type*} {r : α → β → Prop} {as : List α} {bs : List β}
    (h : List.Forall₂ r as bs) {a : α} (ha : a ∈ as) : ∃ b ∈ bs, r a b := by
  induction h with
  | nil => cases ha
  | cons hr _ ih =>
    rcases List.mem_cons.mp ha with rfl | ha
    · exact ⟨_, List.mem_cons_self, hr⟩
    · obtain ⟨b, hb, hrb⟩ := ih ha
      exact ⟨b, List.mem_cons_of_mem _ hb, hrb⟩

/-- A fold that succeeds succeeded on each element. -/
theorem foldlM_eq_some_of_mem {α β : Type*} {f : β → α → Option β} {as : List α} {b b' : β}
    (h : as.foldlM f b = some b') {a : α} (ha : a ∈ as) : ∃ b₁ b₂, f b₁ a = some b₂ := by
  induction as generalizing b with
  | nil => cases ha
  | cons a' as ih =>
    rw [List.foldlM_cons] at h
    obtain ⟨b₁, hf, hrest⟩ := Option.bind_eq_some_iff.mp h
    rcases List.mem_cons.mp ha with rfl | ha
    · exact ⟨b, b₁, hf⟩
    · exact ih hrest ha

/-- A finite set in iteration order, as a `BTreeSet` or a `HashSet` presents it. -/
structure ValueSet (α : Type*) where
  elems : List α
  nodup : elems.Nodup
deriving DecidableEq

namespace ValueSet

variable {α : Type*}

instance : Membership α (ValueSet α) := ⟨fun s a ↦ a ∈ s.elems⟩

theorem mem_def {s : ValueSet α} {a : α} : a ∈ s ↔ a ∈ s.elems := Iff.rfl

instance [DecidableEq α] (a : α) (s : ValueSet α) : Decidable (a ∈ s) :=
  inferInstanceAs (Decidable (a ∈ s.elems))

def len (s : ValueSet α) : ℕ := s.elems.length

def isEmpty (s : ValueSet α) : Bool := s.elems.isEmpty

def singleton (a : α) : ValueSet α := ⟨[a], List.nodup_singleton a⟩

def empty : ValueSet α := ⟨[], List.nodup_nil⟩

theorem isEmpty_iff {s : ValueSet α} : s.isEmpty = true ↔ s.elems = [] :=
  List.isEmpty_iff

end ValueSet

/-- What a separator ends is fixed by the whole. -/
theorem append_cons_cancel {α : Type*} {front front' back back' : List α} {sep : α}
    (hfront : sep ∉ front) (hfront' : sep ∉ front')
    (h : front ++ sep :: back = front' ++ sep :: back') : front = front' ∧ back = back' := by
  induction front generalizing front' with
  | nil =>
    cases front' with
    | nil => exact ⟨rfl, List.tail_eq_of_cons_eq h⟩
    | cons b front' =>
      obtain rfl : sep = b := List.head_eq_of_cons_eq h
      exact absurd List.mem_cons_self hfront'
  | cons a front ih =>
    cases front' with
    | nil =>
      obtain rfl : a = sep := List.head_eq_of_cons_eq h
      exact absurd List.mem_cons_self hfront
    | cons b front' =>
      obtain rfl : a = b := List.head_eq_of_cons_eq h
      obtain ⟨rfl, hback⟩ := ih (fun hmem ↦ hfront (List.mem_cons_of_mem _ hmem))
        (fun hmem ↦ hfront' (List.mem_cons_of_mem _ hmem)) (List.tail_eq_of_cons_eq h)
      exact ⟨rfl, hback⟩

theorem lookup_of_mem {κ ν : Type*} [BEq κ] [LawfulBEq κ] {l : List (κ × ν)}
    (hnodup : (l.map Prod.fst).Nodup) {k : κ} {v : ν} (h : (k, v) ∈ l) : l.lookup k = some v := by
  induction l with
  | nil => cases h
  | cons e l ih =>
    rw [List.map_cons, List.nodup_cons] at hnodup
    rcases List.mem_cons.mp h with rfl | h
    · simp
    · have hne : k ≠ e.1 := fun hk ↦ hnodup.1 (hk ▸ List.mem_map_of_mem h)
      rw [List.lookup_cons, beq_false_of_ne hne]
      exact ih hnodup.2 h

/-- Where each key occurs once the order does not matter. -/
theorem lookup_of_perm {κ ν : Type*} [BEq κ] [LawfulBEq κ] {l l' : List (κ × ν)}
    (hperm : l.Perm l') (hnodup : (l.map Prod.fst).Nodup) (k : κ) : l.lookup k = l'.lookup k := by
  have hnodup' : (l'.map Prod.fst).Nodup := (hperm.map Prod.fst).nodup_iff.mp hnodup
  cases hk : l.lookup k with
  | some v =>
    obtain ⟨l₁, l₂, rfl, -⟩ := List.lookup_eq_some_iff.mp hk
    exact (lookup_of_mem hnodup' (hperm.subset (by simp))).symm
  | none =>
    cases hk' : l'.lookup k with
    | none => rfl
    | some v =>
      obtain ⟨l₁, l₂, rfl, -⟩ := List.lookup_eq_some_iff.mp hk'
      rw [lookup_of_mem hnodup (hperm.symm.subset (show (k, v) ∈ _ by simp))] at hk
      cases hk

abbrev Map (κ ν : Type*) := AList fun _ : κ ↦ ν

namespace Map

variable {κ ν : Type*} [DecidableEq κ]

theorem mem_entries_iff {m : Map κ ν} {k : κ} {v : ν} :
    (⟨k, v⟩ : (_ : κ) × ν) ∈ m.entries ↔ m.lookup k = some v :=
  (AList.mem_lookup_iff (s := m)).symm

theorem lookup_erase_eq {m : Map κ ν} {k k' : κ} :
    (m.erase k).lookup k' = if k' = k then none else m.lookup k' := by
  split
  · next h => rw [h, AList.lookup_erase]
  · next h => exact AList.lookup_erase_ne h

theorem lookup_insert_eq {m : Map κ ν} {k k' : κ} {v : ν} :
    (AList.insert k v m).lookup k' = if k' = k then some v else m.lookup k' := by
  split
  · next h => rw [h, AList.lookup_insert]
  · next h => exact AList.lookup_insert_ne h

def mapValues (f : κ → ν → ν) (m : Map κ ν) : Map κ ν where
  entries := m.entries.map fun e ↦ ⟨e.1, f e.1 e.2⟩
  nodupKeys := by
    have hkeys : (m.entries.map fun e ↦ (⟨e.1, f e.1 e.2⟩ : (_ : κ) × ν)).keys = m.entries.keys := by
      simp [List.keys, Function.comp_def]
    rw [List.NodupKeys, hkeys]
    exact m.nodupKeys

def keepEntries (p : κ → ν → Bool) (m : Map κ ν) : Map κ ν where
  entries := m.entries.filter fun e ↦ p e.1 e.2
  nodupKeys := m.nodupKeys.sublist List.filter_sublist

theorem lookup_mapValues {f : κ → ν → ν} {m : Map κ ν} {k : κ} :
    (mapValues f m).lookup k = (m.lookup k).map (f k) := by
  refine Option.ext fun v ↦ ?_
  rw [Option.map_eq_some_iff, ← mem_entries_iff]
  constructor
  · intro h
    obtain ⟨e, he, heq⟩ := List.mem_map.mp h
    cases heq
    exact ⟨e.2, mem_entries_iff.mp he, rfl⟩
  · rintro ⟨w, hw, rfl⟩
    exact List.mem_map.mpr ⟨⟨k, w⟩, mem_entries_iff.mpr hw, rfl⟩

theorem lookup_keepEntries {p : κ → ν → Bool} {m : Map κ ν} {k : κ} :
    (keepEntries p m).lookup k = (m.lookup k).filter (p k) := by
  refine Option.ext fun v ↦ ?_
  rw [Option.filter_eq_some_iff, ← mem_entries_iff, ← mem_entries_iff]
  exact List.mem_filter

/-- A row under another key satisfies `p`, as a uniqueness constraint asks. -/
def otherHas (m : Map κ ν) (k : κ) (p : ν → Bool) : Bool :=
  m.entries.any fun e ↦ decide (e.1 ≠ k) && p e.2

theorem otherHas_eq_true {m : Map κ ν} {k : κ} {p : ν → Bool} :
    otherHas m k p = true ↔ ∃ k' v, k' ≠ k ∧ m.lookup k' = some v ∧ p v = true := by
  rw [otherHas, List.any_eq_true]
  constructor
  · rintro ⟨⟨k', v⟩, he, hp⟩
    obtain ⟨hne, hpv⟩ := (Bool.and_eq_true _ _).mp hp
    exact ⟨k', v, of_decide_eq_true hne, mem_entries_iff.mp he, hpv⟩
  · rintro ⟨k', v, hne, hv, hpv⟩
    refine ⟨⟨k', v⟩, mem_entries_iff.mpr hv, ?_⟩
    rw [Bool.and_eq_true]
    exact ⟨decide_eq_true hne, hpv⟩

theorem otherHas_eq_false {m : Map κ ν} {k : κ} {p : ν → Bool} :
    otherHas m k p = false ↔ ∀ k' v, k' ≠ k → m.lookup k' = some v → p v = false := by
  rw [← Bool.not_eq_true, otherHas_eq_true]
  push Not
  simp only [ne_eq, Bool.not_eq_true]

/-- A row that satisfies `p`, as a `SELECT` on other columns than the key. -/
def findRow (p : κ → ν → Bool) (m : Map κ ν) : Option (κ × ν) :=
  (m.entries.find? fun e ↦ p e.1 e.2).map fun e ↦ (e.1, e.2)

theorem findRow_eq_none {p : κ → ν → Bool} {m : Map κ ν} :
    findRow p m = none ↔ ∀ k v, m.lookup k = some v → p k v = false := by
  rw [findRow, Option.map_eq_none_iff, List.find?_eq_none]
  constructor
  · intro h k v hv
    exact Bool.eq_false_iff.mpr (h ⟨k, v⟩ (mem_entries_iff.mpr hv))
  · intro h e he
    rw [h e.1 e.2 (mem_entries_iff.mp he)]
    exact Bool.false_ne_true

theorem findRow_spec {p : κ → ν → Bool} {m : Map κ ν} {k : κ} {v : ν}
    (h : findRow p m = some (k, v)) : m.lookup k = some v ∧ p k v = true := by
  rw [findRow, Option.map_eq_some_iff] at h
  obtain ⟨e, he, heq⟩ := h
  cases heq
  have hp := List.find?_some (p := fun e : (_ : κ) × ν ↦ p e.1 e.2) he
  exact ⟨mem_entries_iff.mp (List.mem_of_find?_eq_some he), hp⟩

theorem findRow_eq_some_of_unique {p : κ → ν → Bool} {m : Map κ ν} {k : κ} {v : ν}
    (hv : m.lookup k = some v) (hp : p k v = true)
    (huniq : ∀ k' v', m.lookup k' = some v' → p k' v' = true → k' = k) :
    findRow p m = some (k, v) := by
  cases hfind : findRow p m with
  | none => rw [findRow_eq_none.mp hfind k v hv] at hp; cases hp
  | some e =>
    obtain ⟨hv', hp'⟩ := findRow_spec hfind
    have hk : e.1 = k := huniq e.1 e.2 hv' hp'
    rw [hk, hv] at hv'
    rw [← hk, ← Option.some.inj hv'.symm]

/-- How many entries satisfy `p`. -/
def count (p : κ → ν → Bool) (m : Map κ ν) : ℕ := m.entries.countP fun e ↦ p e.1 e.2

theorem count_congr {p q : κ → ν → Bool} {m : Map κ ν}
    (h : ∀ k v, m.lookup k = some v → p k v = q k v) : count p m = count q m :=
  List.countP_congr fun e he ↦ by rw [h e.1 e.2 (mem_entries_iff.mp he)]

theorem count_eq_zero {p : κ → ν → Bool} {m : Map κ ν} :
    count p m = 0 ↔ ∀ k v, m.lookup k = some v → p k v = false := by
  rw [count, List.countP_eq_zero]
  constructor
  · intro h k v hv
    exact Bool.eq_false_iff.mpr (h ⟨k, v⟩ (mem_entries_iff.mpr hv))
  · intro h e he
    rw [h e.1 e.2 (mem_entries_iff.mp he)]
    exact Bool.false_ne_true

theorem count_insert {p : κ → ν → Bool} {m : Map κ ν} {k : κ} {v : ν} (h : k ∉ m) :
    count p (AList.insert k v m) = count p m + if p k v then 1 else 0 := by
  rw [count, AList.entries_insert_of_notMem h, List.countP_cons, count]

omit [DecidableEq κ] in
theorem count_mapValues {p : κ → ν → Bool} {f : κ → ν → ν} {m : Map κ ν} :
    count p (mapValues f m) = count (fun k v ↦ p k (f k v)) m := by
  rw [count, count, mapValues, List.countP_map]
  rfl

/-- An entry can be taken out of the map. -/
theorem entries_perm_of_lookup {m : Map κ ν} {k : κ} {v : ν} (h : m.lookup k = some v) :
    m.entries.Perm (⟨k, v⟩ :: (m.erase k).entries) := by
  have hmem : k ∈ m.entries.keys := List.mem_keys_of_mem (mem_entries_iff.mpr h)
  obtain ⟨v', front, back, -, hsplit, herase⟩ := List.exists_of_kerase hmem
  have hv' : m.lookup k = some v' := by
    rw [← mem_entries_iff, hsplit]
    exact List.mem_append_right _ List.mem_cons_self
  obtain rfl : v = v' := Option.some.inj (h.symm.trans hv')
  rw [hsplit, show (m.erase k).entries = front ++ back from herase]
  exact List.perm_middle

/-- What one entry contributes. -/
theorem count_split {p : κ → ν → Bool} {m : Map κ ν} {k : κ} {v : ν} (h : m.lookup k = some v) :
    count p m = count (fun k' v' ↦ p k' v' && k' ≠ k) m + if p k v then 1 else 0 := by
  obtain ⟨front, back, hsplit⟩ := List.append_of_mem (mem_entries_iff.mpr h)
  have hnodup : k ∉ (front ++ back).keys := by
    have hkeys := m.nodupKeys
    rw [List.NodupKeys, List.keys, hsplit, List.map_append, List.map_cons, List.nodup_middle,
      ← List.map_append] at hkeys
    exact (List.nodup_cons.mp hkeys).1
  have hrest : ∀ e ∈ front ++ back, (p e.1 e.2 = true ↔ (p e.1 e.2 && e.1 ≠ k) = true) := by
    intro e he
    have hne : e.1 ≠ k := fun heq ↦ hnodup (heq ▸ List.mem_map_of_mem he)
    rw [decide_eq_true hne, Bool.and_true]
  rw [count, count, hsplit, List.perm_middle.countP_eq, List.perm_middle.countP_eq,
    List.countP_cons, List.countP_cons, List.countP_congr hrest]
  simp

theorem count_eq_add {p : κ → ν → Bool} {m : Map κ ν} (k : κ) :
    count p m = count p (m.erase k) + if (m.lookup k).any (p k) then 1 else 0 := by
  cases hk : m.lookup k with
  | none =>
    have hkeys : k ∉ m.entries.keys := AList.lookup_eq_none.mp hk
    have herase : (m.erase k).entries = m.entries := List.kerase_of_notMem_keys hkeys
    rw [count, count, herase]
    rfl
  | some v =>
    rw [count, (entries_perm_of_lookup hk).countP_eq, List.countP_cons, count]
    rfl

theorem count_insert_eq {p : κ → ν → Bool} {m : Map κ ν} (k : κ) (v : ν) :
    count p (AList.insert k v m) = count p (m.erase k) + if p k v then 1 else 0 := by
  have hentries : (AList.insert k v m).entries = ⟨k, v⟩ :: (m.erase k).entries := rfl
  rw [count, hentries, List.countP_cons, count]

def contents {α β : Type*} (f : α → β) (m : Map κ (List α)) : List (κ × β) :=
  m.entries.flatMap fun e ↦ e.2.map fun a ↦ (e.1, f a)

theorem count_contents_erase {α β : Type*} [DecidableEq β] {f : α → β} {m : Map κ (List α)} {k : κ}
    {x : κ × β} :
    (contents f (m.erase k)).count x + (((m.lookup k).getD []).map fun a ↦ (k, f a)).count x =
      (contents f m).count x := by
  have hentries : (m.erase k).entries = List.kerase k m.entries := rfl
  cases hold : m.lookup k with
  | none =>
    have hmem : k ∉ m.entries.keys := AList.lookup_eq_none.mp hold
    rw [contents, hentries, List.kerase_of_notMem_keys hmem, contents]
    rfl
  | some l =>
    obtain ⟨l', front, back, hfront, hsplit, herase⟩ :=
      List.exists_of_kerase (List.mem_keys_of_mem (mem_entries_iff.mpr hold))
    have hl : l' = l := by
      have hmem : (⟨k, l'⟩ : (_ : κ) × List α) ∈ m.entries := by
        rw [hsplit]
        exact List.mem_append_right _ List.mem_cons_self
      rw [mem_entries_iff, hold] at hmem
      exact (Option.some.inj hmem).symm
    rw [contents, contents, hentries, herase, hsplit]
    simp only [List.flatMap_append, List.flatMap_cons, List.count_append, hl, Option.getD_some]
    omega

theorem count_contents_insert {α β : Type*} [DecidableEq β] {f : α → β} {m : Map κ (List α)}
    {k : κ} {x : κ × β} {l : List α} :
    (contents f (AList.insert k l m)).count x +
        (((m.lookup k).getD []).map fun a ↦ (k, f a)).count x =
      (contents f m).count x + (l.map fun a ↦ (k, f a)).count x := by
  have hentries : (AList.insert k l m).entries = ⟨k, l⟩ :: (m.erase k).entries := rfl
  have herase : (contents f (m.erase k)).count x + _ = _ := count_contents_erase
  rw [contents] at herase
  rw [contents, hentries]
  simp only [List.flatMap_cons, List.count_append]
  omega

variable {ι : Type*} [DecidableEq ι]

def lookup₂ (m : Map κ (Map ι ν)) (x : κ × ι) : Option ν :=
  (m.lookup x.1).bind fun inner ↦ inner.lookup x.2

theorem lookup₂_erase {m : Map κ (Map ι ν)} {k : κ} {x : κ × ι} :
    lookup₂ (m.erase k) x = if x.1 = k then none else lookup₂ m x := by
  unfold lookup₂
  rw [lookup_erase_eq]
  split <;> rfl

theorem lookup₂_insert_erase {m : Map κ (Map ι ν)} {k : κ} {i : ι} {inner : Map ι ν}
    (h : m.lookup k = some inner) :
    lookup₂ (AList.insert k (inner.erase i) m) = Function.update (lookup₂ m) (k, i) none := by
  funext x
  unfold lookup₂
  rw [lookup_insert_eq]
  by_cases hx : x = (k, i)
  · subst hx
    rw [Function.update_self, if_pos rfl, Option.bind_some, AList.lookup_erase]
  · rw [Function.update_of_ne hx]
    split
    · next hk =>
      have hi : x.2 ≠ i := fun hi ↦ hx (Prod.ext hk hi)
      rw [hk, h, Option.bind_some, Option.bind_some, AList.lookup_erase_ne hi]
    · rfl

theorem lookup₂_insert_insert {m : Map κ (Map ι ν)} {k : κ} {i : ι} {v : ν} :
    lookup₂ (AList.insert k (AList.insert i v ((m.lookup k).getD ∅)) m) =
      Function.update (lookup₂ m) (k, i) (some v) := by
  funext x
  unfold lookup₂
  rw [lookup_insert_eq]
  by_cases hx : x = (k, i)
  · subst hx
    rw [Function.update_self, if_pos rfl, Option.bind_some, AList.lookup_insert]
  · rw [Function.update_of_ne hx]
    split
    · next hk =>
      have hi : x.2 ≠ i := fun hi ↦ hx (Prod.ext hk hi)
      rw [hk, Option.bind_some, AList.lookup_insert_ne hi]
      cases m.lookup k with
      | none => rfl
      | some inner => rfl
    · rfl

end Map

variable {κ κ' ν ν' : Type*} [DecidableEq κ] [DecidableEq κ']

/-- Two maps hold related values under related keys. -/
def MapRel (K : κ → κ' → Prop) (r : ν → ν' → Prop) (m : Map κ ν) (m' : Map κ' ν') : Prop :=
  ∀ k k', K k k' → Option.Rel r (m.lookup k) (m'.lookup k')

namespace MapRel

variable {K : κ → κ' → Prop} {r : ν → ν' → Prop} {m : Map κ ν} {m' : Map κ' ν'} {k : κ} {k' : κ'}

theorem empty : MapRel K r (∅ : Map κ ν) (∅ : Map κ' ν') := fun _ _ _ ↦ .none

theorem mem_iff (h : MapRel K r m m') (hk : K k k') : k ∈ m ↔ k' ∈ m' := by
  rw [← AList.lookup_isSome, ← AList.lookup_isSome]
  have hrel := h k k' hk
  cases hm : m.lookup k <;> cases hm' : m'.lookup k' <;> rw [hm, hm'] at hrel
  · exact Iff.rfl
  · cases hrel
  · cases hrel
  · exact Iff.rfl

theorem lookup_cases (h : MapRel K r m m') (hk : K k k') :
    m.lookup k = none ∧ m'.lookup k' = none ∨
      ∃ v v', m.lookup k = some v ∧ m'.lookup k' = some v' ∧ r v v' := by
  have hrel := h k k' hk
  cases hm : m.lookup k <;> cases hm' : m'.lookup k' <;> rw [hm, hm'] at hrel
  · exact .inl ⟨rfl, rfl⟩
  · cases hrel
  · cases hrel
  · cases hrel with
    | some hv => exact .inr ⟨_, _, rfl, rfl, hv⟩

theorem exists_left (h : MapRel K r m m') (hk : K k k') {v' : ν'} (hv : m'.lookup k' = some v') :
    ∃ v, m.lookup k = some v ∧ r v v' := by
  rcases h.lookup_cases hk with ⟨-, hnone⟩ | ⟨v, w, hm, hm', hr⟩
  · rw [hnone] at hv
    cases hv
  · rw [hv] at hm'
    cases hm'
    exact ⟨v, hm, hr⟩

theorem exists_right (h : MapRel K r m m') (hk : K k k') {v : ν} (hv : m.lookup k = some v) :
    ∃ v', m'.lookup k' = some v' ∧ r v v' := by
  rcases h.lookup_cases hk with ⟨hnone, -⟩ | ⟨w, v', hm, hm', hr⟩
  · rw [hnone] at hv
    cases hv
  · rw [hv] at hm
    cases hm
    exact ⟨v', hm', hr⟩

theorem insert (h : MapRel K r m m') (hK : Relator.BiUnique K) (hk : K k k') {v : ν} {v' : ν'}
    (hv : r v v') : MapRel K r (AList.insert k v m) (AList.insert k' v' m') := by
  intro l l' hl
  rw [Map.lookup_insert_eq, Map.lookup_insert_eq]
  by_cases hlk : l = k
  · subst hlk
    rw [if_pos rfl, if_pos (hK.2 hl hk)]
    exact .some hv
  · have hne : l' ≠ k' := fun heq ↦ hlk (hK.1 hl (heq ▸ hk))
    rw [if_neg hlk, if_neg hne]
    exact h l l' hl

theorem erase (h : MapRel K r m m') (hK : Relator.BiUnique K) (hk : K k k') :
    MapRel K r (m.erase k) (m'.erase k') := by
  intro l l' hl
  rw [Map.lookup_erase_eq, Map.lookup_erase_eq]
  by_cases hlk : l = k
  · subst hlk
    rw [if_pos rfl, if_pos (hK.2 hl hk)]
    exact .none
  · have hne : l' ≠ k' := fun heq ↦ hlk (hK.1 hl (heq ▸ hk))
    rw [if_neg hlk, if_neg hne]
    exact h l l' hl

end MapRel

theorem biUnique_eq {κ : Type*} : Relator.BiUnique (Eq : κ → κ → Prop) :=
  ⟨fun _ _ _ h h' ↦ h.trans h'.symm, fun _ _ _ h h' ↦ h.symm.trans h'⟩

def Keys {α β α' β' : Type*} (A : α → α' → Prop) (B : β → β' → Prop) (x : α × β) (y : α' × β') :
    Prop :=
  A x.1 y.1 ∧ B x.2 y.2

theorem Keys.biUnique {α β α' β' : Type*} {A : α → α' → Prop} {B : β → β' → Prop}
    (hA : Relator.BiUnique A) (hB : Relator.BiUnique B) : Relator.BiUnique (Keys A B) := by
  constructor
  · intro x y z hx hy
    exact Prod.ext (hA.1 hx.1 hy.1) (hB.1 hx.2 hy.2)
  · intro x y z hy hz
    exact Prod.ext (hA.2 hy.1 hz.1) (hB.2 hy.2 hz.2)

end Buzz.Lib
