import Buzz.Lib.Collections
import Buzz.Lib.Spans
import Buzz.Lib.Texts
import Mathlib.Data.List.Sort

namespace Buzz.Relay

open Buzz.Lib

abbrev NamedMembers := List (String × String)

section Mentions

variable (U : Unicode)

def addName (byName : Map (List Char) (Option String)) (member : String × String) :
    Map (List Char) (Option String) :=
  if U.trim member.1.toList = [] then byName
  else
    let key := U.lowercase member.1.toList
    match byName.lookup key with
    | none => AList.insert key (some member.2) byName
    | some slot => if slot = some member.2 then byName else AList.insert key none byName

def byName (members : NamedMembers) : Map (List Char) (Option String) :=
  members.foldl (addName U) ∅

def byLength (members : NamedMembers) : NamedMembers :=
  members.insertionSort fun a b ↦ b.1.length ≤ a.1.length

def matchNameLen : List Char → List Char → Option ℕ
  | [], _ => some 0
  | _ :: _, [] => none
  | f :: foldedName, c :: chars =>
    match (U.toLowercase c).isPrefixOf? (f :: foldedName) with
    | none => none
    | some rest => (matchNameLen rest chars).map (· + 1)

def isLeftBoundary (chars : List Char) (pos : ℕ) : Bool :=
  pos = 0 || (chars[pos - 1]?).any fun c ↦ U.isWhitespace c || c = '('

def extendsName (c : Char) : Bool := U.isAlphanumeric c || c = '_'

def nameLen (chars foldedName : List Char) (consumed : Bool) (pos : ℕ) : Option ℕ :=
  if chars[pos]? = some '@' ∧ isLeftBoundary U chars pos ∧ consumed = false then
    (matchNameLen U foldedName (chars.drop (pos + 1))).filter fun n ↦
      (chars[pos + 1 + n]?).all fun c ↦ !extendsName U c
  else none

/-- What the scan has done: the positions consumed, the hits, and the spans matched so far, each
with the folded name that it was matched with. -/
structure Scan where
  consumed : List Bool
  hits : List (ℕ × String)
  spans : List (Span (List Char))

def consume (consumed : List Bool) (pos span : ℕ) : List Bool :=
  consumed.mapIdx fun i slot ↦ slot || decide (pos ≤ i ∧ i < pos + span)

def Scan.hit (s : Scan) (members : NamedMembers) (foldedName : List Char) (pos n : ℕ) : Scan where
  consumed := consume s.consumed pos (1 + n)
  hits := s.hits ++ (((byName U members).lookup foldedName).join.map fun pubkey ↦ (pos, pubkey)).toList
  spans := s.spans ++ [⟨pos, 1 + n, foldedName, Nat.add_pos_left Nat.one_pos n⟩]

/-- The inner loop of `resolve_mention_pubkeys`. -/
def scanName (chars : List Char) (members : NamedMembers) (foldedName : List Char) (s : Scan)
    (pos : ℕ) : Scan :=
  if pos < chars.length then
    match nameLen U chars foldedName (s.consumed.getD pos false) pos with
    | some n => scanName chars members foldedName (s.hit U members foldedName pos n) (pos + (1 + n))
    | none => scanName chars members foldedName s (pos + 1)
  else s
termination_by chars.length - pos

def scan (text : String) (members : NamedMembers) : Scan :=
  (byLength members).foldl (fun s member ↦
    let foldedName := U.lowercase member.1.toList
    if foldedName = [] then s else scanName U text.toList members foldedName s 0)
    ⟨List.replicate text.toList.length false, [], []⟩

def pushUnseen (out : List String) (hit : ℕ × String) : List String :=
  if hit.2 ∈ out then out else out ++ [hit.2]

def resolveMentionPubkeys (text : String) (members : NamedMembers) : List String :=
  ((scan U text members).hits.insertionSort fun a b ↦ a.1 ≤ b.1).foldl pushUnseen []

def mentionsOf (chars foldedName : List Char) (start n : ℕ) : List (Span (List Char)) :=
  (List.range' start n).filterMap fun pos ↦
    (nameLen U chars foldedName false pos).map fun n ↦
      ⟨pos, 1 + n, foldedName, Nat.add_pos_left Nat.one_pos n⟩

def candidates (text : String) (members : NamedMembers) : List (Span (List Char)) :=
  (byLength members).flatMap fun member ↦
    let foldedName := U.lowercase member.1.toList
    if foldedName = [] then [] else mentionsOf U text.toList foldedName 0 text.toList.length

def Named (member : String × String) (foldedName : List Char) : Prop :=
  U.trim member.1.toList ≠ [] ∧ U.lowercase member.1.toList = foldedName

def UniquelyNamed (members : NamedMembers) (foldedName : List Char) (pubkey : String) : Prop :=
  (∃ m ∈ members, Named U m foldedName) ∧ ∀ m ∈ members, Named U m foldedName → m.2 = pubkey

variable {U}

theorem matchNameLen_le {foldedName chars : List Char} {n : ℕ}
    (h : matchNameLen U foldedName chars = some n) : n ≤ chars.length := by
  fun_induction matchNameLen U foldedName chars generalizing n with
  | case1 chars =>
    cases h
    exact Nat.zero_le _
  | case2 => cases h
  | case3 => cases h
  | case4 f foldedName c chars rest hrest ih =>
    obtain ⟨m, hm, rfl⟩ := Option.map_eq_some_iff.mp h
    exact Nat.succ_le_succ (ih hm)

theorem nameLen_eq_some {chars foldedName : List Char} {consumed : Bool} {pos n : ℕ}
    (h : nameLen U chars foldedName consumed pos = some n) :
    consumed = false ∧ chars[pos]? = some '@' ∧ pos + (1 + n) ≤ chars.length ∧
      nameLen U chars foldedName false pos = some n := by
  have hname := h
  rw [nameLen] at h
  split_ifs at h with hanchor
  obtain ⟨hat, -, hfree⟩ := hanchor
  obtain ⟨hmatch, -⟩ := Option.filter_eq_some_iff.mp h
  have hle := matchNameLen_le hmatch
  obtain ⟨hpos, -⟩ := List.getElem?_eq_some_iff.mp hat
  rw [List.length_drop] at hle
  refine ⟨hfree, hat, by omega, ?_⟩
  rw [hfree] at hname
  exact hname

structure Scan.Books (s : Scan) (U : Unicode) (chars : List Char) (members : NamedMembers) :
    Prop where
  length : s.consumed.length = chars.length
  consumed : ∀ i < chars.length, s.consumed.getD i false = true ↔ ∃ t ∈ s.spans, t.Covers i
  hits : s.hits = s.spans.filterMap fun t ↦
    ((byName U members).lookup t.value).join.map fun pubkey ↦ (t.start, pubkey)

theorem consume_getD {consumed : List Bool} {i : ℕ} (hi : i < consumed.length) (pos span : ℕ) :
    (consume consumed pos span).getD i false = true ↔
      consumed.getD i false = true ∨ pos ≤ i ∧ i < pos + span := by
  rw [consume, List.getD_eq_getElem?_getD, List.getElem?_mapIdx, List.getD_eq_getElem?_getD,
    List.getElem?_eq_getElem hi]
  simp

theorem Scan.Books.hit {s : Scan} {chars : List Char} {members : NamedMembers}
    (h : s.Books U chars members) (foldedName : List Char) (pos n : ℕ) :
    (s.hit U members foldedName pos n).Books U chars members where
  length := (List.length_mapIdx ..).trans h.length
  consumed i hi := by
    have hi' : i < s.consumed.length := h.length.symm ▸ hi
    rw [Scan.hit]
    dsimp only
    rw [consume_getD hi', h.consumed i hi]
    simp [Span.Covers, or_and_right, exists_or]
  hits := by
    rw [Scan.hit]
    dsimp only
    rw [List.filterMap_append, h.hits, List.filterMap_cons, List.filterMap_nil]
    cases ((byName U members).lookup foldedName).join with
    | none => rfl
    | some pubkey => rfl

def mentionAt (foldedName : List Char) (pos n : ℕ) : Span (List Char) :=
  ⟨pos, 1 + n, foldedName, Nat.add_pos_left Nat.one_pos n⟩

theorem mentionsOf_succ (chars foldedName : List Char) (pos k : ℕ) :
    mentionsOf U chars foldedName pos (k + 1) =
      ((nameLen U chars foldedName false pos).map (mentionAt foldedName pos)).toList ++
        mentionsOf U chars foldedName (pos + 1) k := by
  rw [mentionsOf, List.range'_succ, List.filterMap_cons]
  cases nameLen U chars foldedName false pos with
  | none => rfl
  | some n => rfl

theorem mentionsOf_add (chars foldedName : List Char) (pos m n : ℕ) :
    mentionsOf U chars foldedName pos (m + n) =
      mentionsOf U chars foldedName pos m ++ mentionsOf U chars foldedName (pos + m) n := by
  rw [mentionsOf, ← List.range'_append_1, List.filterMap_append, mentionsOf, mentionsOf]

theorem mem_mentionsOf {chars foldedName : List Char} {pos k : ℕ} {t : Span (List Char)} :
    t ∈ mentionsOf U chars foldedName pos k ↔ ∃ i n, pos ≤ i ∧ i < pos + k ∧
      nameLen U chars foldedName false i = some n ∧ t = mentionAt foldedName i n := by
  rw [mentionsOf, List.mem_filterMap]
  constructor
  · rintro ⟨i, hi, ht⟩
    obtain ⟨n, hn, rfl⟩ := Option.map_eq_some_iff.mp ht
    obtain ⟨hle, hlt⟩ := List.mem_range'_1.mp hi
    exact ⟨i, n, hle, hlt, hn, rfl⟩
  · rintro ⟨i, n, hle, hlt, hn, rfl⟩
    exact ⟨i, List.mem_range'_1.mpr ⟨hle, hlt⟩, by rw [hn]; rfl⟩

theorem scanName_spec {chars : List Char} {members : NamedMembers} {s : Scan}
    (foldedName : List Char) (pos : ℕ) (h : s.Books U chars members) :
    let s' := scanName U chars members foldedName s pos
    s'.Books U chars members ∧
      s'.spans = select startFree s.spans
        (mentionsOf U chars foldedName pos (chars.length - pos)) := by
  fun_induction scanName U chars members foldedName s pos with
  | case1 s pos hpos n hname ih =>
    obtain ⟨hfree, -, hend, hname⟩ := nameLen_eq_some hname
    obtain ⟨hbooks, hspans⟩ := ih (h.hit foldedName pos n)
    refine ⟨hbooks, hspans.trans ?_⟩
    have hstart : startFree s.spans (mentionAt foldedName pos n) = true := by
      rw [startFree_iff]
      intro t ht hcovers
      have hconsumed := (h.consumed pos hpos).mpr ⟨t, ht, hcovers⟩
      rw [hfree] at hconsumed
      cases hconsumed
    have hsplit : chars.length - pos = n + (chars.length - (pos + (1 + n))) + 1 := by omega
    have hcovered : select startFree (s.spans ++ [mentionAt foldedName pos n])
        (mentionsOf U chars foldedName (pos + 1) n) =
          s.spans ++ [mentionAt foldedName pos n] := by
      apply select_eq_self
      intro t ht
      obtain ⟨i, m, hle, hlt, -, rfl⟩ := mem_mentionsOf.mp ht
      apply startFree_eq_false (s := mentionAt foldedName pos n) (by simp)
      simp only [Span.Covers, mentionAt]
      omega
    rw [hsplit, mentionsOf_succ, hname, Option.map_some, Option.toList_some, List.singleton_append,
      select_cons, if_pos hstart, mentionsOf_add, select_append, hcovered,
      show pos + 1 + n = pos + (1 + n) from Nat.add_assoc pos 1 n]
    rfl
  | case2 s pos hpos hname ih =>
    obtain ⟨hbooks, hspans⟩ := ih h
    refine ⟨hbooks, hspans.trans ?_⟩
    have hsplit : chars.length - pos = chars.length - (pos + 1) + 1 := by omega
    have hskip : select startFree s.spans
        ((nameLen U chars foldedName false pos).map (mentionAt foldedName pos)).toList = s.spans := by
      apply select_eq_self
      intro t ht
      obtain ⟨n, hn, rfl⟩ := Option.map_eq_some_iff.mp (Option.mem_toList.mp ht)
      cases hconsumed : s.consumed.getD pos false with
      | false =>
        rw [hconsumed, hn] at hname
        cases hname
      | true =>
        obtain ⟨t, ht, hcovers⟩ := (h.consumed pos hpos).mp hconsumed
        exact startFree_eq_false ht hcovers
    rw [hsplit, mentionsOf_succ, select_append, hskip]
  | case3 s pos hpos =>
    have hzero : chars.length - pos = 0 := by omega
    rw [hzero]
    exact ⟨h, rfl⟩

/-- The scan chooses, among all mentions of members, those whose start is not consumed. -/
theorem scan_spec (text : String) (members : NamedMembers) :
    (scan U text members).Books U text.toList members ∧
      (scan U text members).spans = select startFree [] (candidates U text members) := by
  have hfold (names : NamedMembers) (s : Scan) (h : s.Books U text.toList members) :
      let s' := names.foldl (fun s member ↦
        if U.lowercase member.1.toList = [] then s
        else scanName U text.toList members (U.lowercase member.1.toList) s 0) s
      s'.Books U text.toList members ∧ s'.spans = select startFree s.spans
        (names.flatMap fun member ↦ if U.lowercase member.1.toList = [] then []
          else mentionsOf U text.toList (U.lowercase member.1.toList) 0 text.toList.length) := by
    induction names generalizing s with
    | nil => exact ⟨h, rfl⟩
    | cons member names ih =>
      dsimp only
      rw [List.foldl_cons, List.flatMap_cons, select_append]
      split_ifs with hempty
      · exact ih s h
      · obtain ⟨hbooks, hspans⟩ := scanName_spec (U.lowercase member.1.toList) 0 h
        rw [Nat.sub_zero] at hspans
        rw [← hspans]
        exact ih _ hbooks
  refine hfold (byLength members) _ ⟨List.length_replicate, fun i hi ↦ ?_, rfl⟩
  rw [List.getD_eq_getElem?_getD, List.getElem?_replicate, if_pos hi]
  simp

theorem named_concat {members : NamedMembers} {m : String × String} {foldedName : List Char} :
    (∀ m' ∈ members ++ [m], ¬Named U m' foldedName) ↔
      (∀ m' ∈ members, ¬Named U m' foldedName) ∧ ¬Named U m foldedName := by
  simp [or_imp, forall_and]

theorem uniquelyNamed_concat_of_not {members : NamedMembers} {m : String × String}
    {foldedName : List Char} {pubkey : String} (h : ¬Named U m foldedName) :
    UniquelyNamed U (members ++ [m]) foldedName pubkey ↔
      UniquelyNamed U members foldedName pubkey := by
  simp [UniquelyNamed, or_and_right, or_imp, exists_or, forall_and, h]

theorem uniquelyNamed_concat {members : NamedMembers} {m : String × String}
    {foldedName : List Char} {pubkey : String} (h : Named U m foldedName) :
    UniquelyNamed U (members ++ [m]) foldedName pubkey ↔
      (∀ m' ∈ members, Named U m' foldedName → m'.2 = pubkey) ∧ m.2 = pubkey := by
  simp [UniquelyNamed, or_and_right, or_imp, exists_or, forall_and, h]

theorem lookup_addName_of_not {t : Map (List Char) (Option String)} {m : String × String}
    {foldedName : List Char} (h : ¬Named U m foldedName) :
    (addName U t m).lookup foldedName = t.lookup foldedName := by
  rw [addName]
  split_ifs with htrim
  · rfl
  · have hne : foldedName ≠ U.lowercase m.1.toList := fun hkey ↦ h ⟨htrim, hkey.symm⟩
    dsimp only
    split
    · exact AList.lookup_insert_ne hne
    · split_ifs
      · rfl
      · exact AList.lookup_insert_ne hne

theorem lookup_addName {t : Map (List Char) (Option String)} {m : String × String}
    {foldedName : List Char} (h : Named U m foldedName) :
    (addName U t m).lookup foldedName =
      some (if ∀ slot ∈ t.lookup foldedName, slot = some m.2 then some m.2 else none) := by
  obtain ⟨htrim, rfl⟩ := h
  rw [addName, if_neg htrim]
  dsimp only
  cases hlookup : t.lookup (U.lowercase m.1.toList) with
  | none => simp
  | some slot =>
    by_cases hslot : slot = some m.2
    · simp [hslot, hlookup]
    · simp [hslot]

theorem lookup_byName (members : NamedMembers) (foldedName : List Char) :
    ((byName U members).lookup foldedName = none ↔ ∀ m ∈ members, ¬Named U m foldedName) ∧
      ∀ pubkey, (byName U members).lookup foldedName = some (some pubkey) ↔
        UniquelyNamed U members foldedName pubkey := by
  induction members using List.reverseRecOn with
  | nil => simp [byName, UniquelyNamed]
  | append_singleton members m ih =>
    obtain ⟨hnone, hsome⟩ := ih
    have hconcat : byName U (members ++ [m]) = addName U (byName U members) m := by
      rw [byName, List.foldl_append]
      rfl
    rw [hconcat, named_concat]
    by_cases hnamed : Named U m foldedName
    · rw [lookup_addName hnamed]
      have hslots : (∀ slot ∈ (byName U members).lookup foldedName, slot = some m.2) ↔
          ∀ m' ∈ members, Named U m' foldedName → m'.2 = m.2 := by
        constructor
        · intro h m' hm' hnamed'
          cases hlookup : (byName U members).lookup foldedName with
          | none => exact absurd hnamed' (hnone.mp hlookup m' hm')
          | some slot =>
            rw [h slot hlookup] at hlookup
            exact ((hsome m.2).mp hlookup).2 m' hm' hnamed'
        · intro h slot hslot
          have hexists : ∃ m' ∈ members, Named U m' foldedName := by
            by_contra hnot
            simp only [not_exists, not_and] at hnot
            rw [hnone.mpr hnot] at hslot
            cases hslot
          rw [(hsome m.2).mpr ⟨hexists, h⟩] at hslot
          exact (Option.some.inj hslot).symm
      refine ⟨by simp [hnamed], fun pubkey ↦ ?_⟩
      rw [uniquelyNamed_concat hnamed, Option.some.injEq]
      constructor
      · intro h
        split_ifs at h with hall
        cases h
        exact ⟨hslots.mp hall, rfl⟩
      · rintro ⟨hall, rfl⟩
        rw [if_pos (hslots.mpr hall)]
    · rw [lookup_addName_of_not hnamed, hnone]
      refine ⟨by simp [hnamed], fun pubkey ↦ ?_⟩
      rw [hsome, uniquelyNamed_concat_of_not hnamed]

theorem join_byName {members : NamedMembers} {foldedName : List Char} {pubkey : String} :
    ((byName U members).lookup foldedName).join = some pubkey ↔
      UniquelyNamed U members foldedName pubkey := by
  rw [Option.join_eq_some_iff]
  exact (lookup_byName members foldedName).2 pubkey

theorem mem_hits {text : String} {members : NamedMembers} {pos : ℕ} {pubkey : String} :
    (pos, pubkey) ∈ (scan U text members).hits ↔ ∃ t ∈ (scan U text members).spans,
      t.start = pos ∧ UniquelyNamed U members t.value pubkey := by
  rw [(scan_spec text members).1.hits, List.mem_filterMap]
  constructor
  · rintro ⟨t, ht, h⟩
    obtain ⟨pubkey', hpubkey, heq⟩ := Option.map_eq_some_iff.mp h
    cases heq
    exact ⟨t, ht, rfl, join_byName.mp hpubkey⟩
  · rintro ⟨t, ht, rfl, hunique⟩
    exact ⟨t, ht, by rw [join_byName.mpr hunique]; rfl⟩

theorem sorted_hits (text : String) (members : NamedMembers) :
    ((scan U text members).hits.insertionSort fun a b ↦ a.1 ≤ b.1).Pairwise
      fun a b ↦ a.1 < b.1 := by
  obtain ⟨hbooks, hspans⟩ := scan_spec (U := U) text members
  have hstarts : ((scan U text members).spans.map Span.start).Nodup := by
    rw [hspans]
    exact nodup_start
  have hdistinct : (scan U text members).hits.Pairwise fun a b ↦ a.1 ≠ b.1 := by
    rw [hbooks.hits, List.pairwise_filterMap]
    refine (List.pairwise_map.mp hstarts).imp fun hne a ha b hb ↦ ?_
    obtain ⟨_, -, rfl⟩ := Option.map_eq_some_iff.mp ha
    obtain ⟨_, -, rfl⟩ := Option.map_eq_some_iff.mp hb
    exact hne
  have hperm := List.perm_insertionSort (fun a b : ℕ × String ↦ a.1 ≤ b.1)
    (scan U text members).hits
  have htotal : Std.Total fun a b : ℕ × String ↦ a.1 ≤ b.1 := ⟨fun a b ↦ Nat.le_total a.1 b.1⟩
  have htrans : IsTrans (ℕ × String) fun a b ↦ a.1 ≤ b.1 := ⟨fun _ _ _ ↦ Nat.le_trans⟩
  have hsorted := List.pairwise_insertionSort (fun a b : ℕ × String ↦ a.1 ≤ b.1)
    (scan U text members).hits
  have hsorted_ne := hperm.symm.pairwise hdistinct fun h ↦ Ne.symm h
  exact (hsorted.and hsorted_ne).imp fun h ↦ Nat.lt_of_le_of_ne h.1 h.2

/-- The keys returned are those of the mentions chosen, in the order of their first appearance. -/
theorem firstOccurrences_resolve (text : String) (members : NamedMembers) :
    FirstOccurrences (fun pos pubkey ↦ ∃ t ∈ (scan U text members).spans,
      t.start = pos ∧ UniquelyNamed U members t.value pubkey)
      (resolveMentionPubkeys U text members) := by
  obtain ⟨new, hnew⟩ := collects_of_sorted (sorted_hits (U := U) text members) []
  have hfirst := hnew.firstOccurrences
  simp only [List.mem_insertionSort, mem_hits] at hfirst
  exact hfirst

def aloneMention (name : String) : String := " @" ++ name ++ " "

def Unshared (U : Unicode) (members : NamedMembers) (name pubkey : String) : Prop :=
  ∀ m ∈ members, U.lowercase m.1.toList = U.lowercase name.toList → m.2 = pubkey

structure MentionContract (U : Unicode) (text : String) (members : NamedMembers) : Prop where
  disjoint : (scan U text members).spans = select clear [] (candidates U text members)
  resolved : FirstOccurrences (fun pos pubkey ↦ ∃ t ∈ select clear [] (candidates U text members),
    t.start = pos ∧ UniquelyNamed U members t.value pubkey) (resolveMentionPubkeys U text members)
  own : ∀ name pubkey, (name, pubkey) ∈ members → Unshared U members name pubkey →
    (1, pubkey) ∈ (scan U (aloneMention name) members).hits

/-- No mention that starts outside of those chosen before it, of longer names, runs into one. -/
def NoOverrun (U : Unicode) (text : String) (members : NamedMembers) : Prop :=
  ∀ before c after, candidates U text members = before ++ c :: after →
    (∀ t ∈ select clear [] before, ¬t.Covers c.start) → ∀ t ∈ select clear [] before, t.Disjoint c

def fitsAlone (U : Unicode) (name : String) (member : String × String) : Bool :=
  let foldedName := U.lowercase member.1.toList
  !foldedName.isEmpty && (nameLen U (aloneMention name).toList foldedName false 1).isSome

def OwnNameFits (U : Unicode) (members : NamedMembers) (name pubkey : String) : Prop :=
  ∃ m, (byLength members).find? (fitsAlone U name) = some m ∧
    UniquelyNamed U members (U.lowercase m.1.toList) pubkey

theorem aloneMention_toList (name : String) :
    (aloneMention name).toList = ' ' :: '@' :: (name.toList ++ [' ']) := by
  simp [aloneMention]

theorem start_of_mem_candidates {text : String} {members : NamedMembers} {t : Span (List Char)}
    (h : t ∈ candidates U text members) : text.toList[t.start]? = some '@' := by
  obtain ⟨member, -, ht⟩ := List.mem_flatMap.mp h
  dsimp only at ht
  split_ifs at ht
  · cases ht
  · obtain ⟨i, n, -, -, hname, rfl⟩ := mem_mentionsOf.mp ht
    exact (nameLen_eq_some hname).2.1

theorem find_mentionsOf {chars foldedName : List Char} {pos : ℕ} (hpos : pos < chars.length) :
    (mentionsOf U chars foldedName 0 chars.length).find? (fun t ↦ decide (t.start = pos)) =
      (nameLen U chars foldedName false pos).map (mentionAt foldedName pos) := by
  have hother (start n : ℕ) (h : pos < start ∨ start + n ≤ pos) :
      (mentionsOf U chars foldedName start n).find? (fun t ↦ decide (t.start = pos)) = none := by
    rw [List.find?_eq_none]
    intro t ht
    obtain ⟨i, m, hle, hlt, -, rfl⟩ := mem_mentionsOf.mp ht
    intro heq
    have hstart : i = pos := of_decide_eq_true heq
    omega
  have hsplit : chars.length = pos + (chars.length - (pos + 1) + 1) := by omega
  rw [hsplit, mentionsOf_add, List.find?_append, hother 0 pos (.inr (by omega)), Option.none_or,
    Nat.zero_add, mentionsOf_succ, List.find?_append, hother (pos + 1) _ (.inl (by omega)),
    Option.or_none]
  cases nameLen U chars foldedName false pos with
  | none => rfl
  | some n => simp [mentionAt]

theorem find_candidates_alone (members : NamedMembers) (name : String) :
    (candidates U (aloneMention name) members).find? (fun t ↦ decide (t.start = 1)) =
      ((byLength members).find? (fitsAlone U name)).bind fun m ↦
        (nameLen U (aloneMention name).toList (U.lowercase m.1.toList) false 1).map
          (mentionAt (U.lowercase m.1.toList) 1) := by
  have hlength : 1 < (aloneMention name).toList.length := by
    rw [aloneMention_toList]
    simp
  rw [candidates]
  induction byLength members with
  | nil => rfl
  | cons m names ih =>
    rw [List.flatMap_cons, List.find?_append, ih, List.find?_cons, fitsAlone]
    dsimp only
    by_cases hempty : U.lowercase m.1.toList = []
    · simp [hempty]
    · rw [if_neg hempty, find_mentionsOf hlength]
      have hne : (U.lowercase m.1.toList).isEmpty = false := by simpa using hempty
      cases hname : nameLen U (aloneMention name).toList (U.lowercase m.1.toList) false 1 with
      | none => simp
      | some n => simp [hne, hname]

theorem own_iff (members : NamedMembers) (name pubkey : String) :
    (1, pubkey) ∈ (scan U (aloneMention name) members).hits ↔
      OwnNameFits U members name pubkey := by
  have hfirst (t : Span (List Char)) : (t ∈ (scan U (aloneMention name) members).spans ∧
      t.start = 1) ↔ (candidates U (aloneMention name) members).find?
        (fun t ↦ decide (t.start = 1)) = some t := by
    rw [(scan_spec (aloneMention name) members).2]
    apply mem_select_startFree_iff
    · simp
    · intro s hs hlt
      have hanchor := start_of_mem_candidates hs
      rw [Nat.lt_one_iff.mp hlt, aloneMention_toList] at hanchor
      cases hanchor
  rw [mem_hits, OwnNameFits]
  constructor
  · rintro ⟨t, ht, hstart, hunique⟩
    have hfind := (hfirst t).mp ⟨ht, hstart⟩
    rw [find_candidates_alone, Option.bind_eq_some_iff] at hfind
    obtain ⟨m, hm, hmention⟩ := hfind
    obtain ⟨n, -, rfl⟩ := Option.map_eq_some_iff.mp hmention
    exact ⟨m, hm, hunique⟩
  · rintro ⟨m, hm, hunique⟩
    have hfits := List.find?_some hm
    obtain ⟨n, hn⟩ := Option.isSome_iff_exists.mp (Bool.and_eq_true_iff.mp hfits).2
    have hfind : (candidates U (aloneMention name) members).find?
        (fun t ↦ decide (t.start = 1)) = some (mentionAt (U.lowercase m.1.toList) 1 n) := by
      rw [find_candidates_alone, hm, Option.bind_some, hn]
      rfl
    obtain ⟨ht, hstart⟩ := (hfirst _).mpr hfind
    exact ⟨_, ht, hstart, hunique⟩

/-- The contract holds exactly where no mention runs into another, and each member's own name is
the first to fit its mention. -/
theorem mentionContract_iff (U : Unicode) (text : String) (members : NamedMembers) :
    MentionContract U text members ↔ NoOverrun U text members ∧
      ∀ name pubkey, (name, pubkey) ∈ members → Unshared U members name pubkey →
        OwnNameFits U members name pubkey := by
  have hdisjoint : (scan U text members).spans = select clear [] (candidates U text members) ↔
      NoOverrun U text members := by
    rw [(scan_spec text members).2]
    exact select_startFree_eq_iff
  constructor
  · intro h
    exact ⟨hdisjoint.mp h.disjoint, fun name pubkey hmem hunique ↦
      (own_iff members name pubkey).mp (h.own name pubkey hmem hunique)⟩
  · rintro ⟨hclear, hown⟩
    have hspans := hdisjoint.mpr hclear
    refine ⟨hspans, ?_, fun name pubkey hmem hunique ↦
      (own_iff members name pubkey).mpr (hown name pubkey hmem hunique)⟩
    rw [← hspans]
    exact firstOccurrences_resolve text members

def overlappingMembers : NamedMembers := [("Ann Smith", "a"), ("x @ann", "b")]

/-- A shorter name starts before a longer one and runs into it. -/
theorem shorter_name_overruns : ¬MentionContract .ascii "@x @ann smith" overlappingMembers := by
  intro h
  have hspans := (scan_spec "@x @ann smith" overlappingMembers).2.symm.trans h.disjoint
  exact absurd hspans (by decide)

end Mentions

end Buzz.Relay
