import Buzz.Git.Publish
import Buzz.Git.RefFormat
import Buzz.Lib.FileTree
import Buzz.Lib.Texts

namespace Buzz.Git

open Buzz.Lib Buzz.Lib.Hex Buzz.Lib.FileTree

/-- How Rust writes a string, a path and an I/O error in a message. -/
structure Display where
  debug : String → String
  debugPath : Path → String
  fsError : FsError → String

section PhaseTwo

variable (D : Display) (L : Limits)

def pathOf (name : String) : Path := (name.toList.splitOn '/').reverse

def headPath : Path := ["HEAD".toList]

def installRef (t : FileTree) (ref : String × String) : Except HydrateError FileTree := do
  require (isSafeRefname ref.1)
    (.hydrate ("manifest contains unsafe refname " ++ D.debug ref.1))
  require (isHexOid ref.2) (.hydrate ("manifest ref " ++ ref.1 ++ " has malformed oid"))
  let parent := (clean (pathOf ref.1)).tail
  let t' ← (createDirAll L t parent).mapError fun e ↦
    .hydrate ("mkdir " ++ D.debugPath parent ++ ": " ++ D.fsError e)
  (write L t' (pathOf ref.1) (ref.2.toList ++ ['\n'])).mapError fun e ↦
    .hydrate ("write ref " ++ ref.1 ++ ": " ++ D.fsError e)

def installRefs (m : Manifest) (t : FileTree) : Except HydrateError FileTree := do
  let t' ← m.refs.entries.foldlM (installRef D L) t
  require (isSafeRefname m.head)
    (.hydrate ("manifest head " ++ D.debug m.head ++ " is not a safe ref name"))
  (write L t' headPath ("ref: ".toList ++ (m.head.toList ++ ['\n']))).mapError fun e ↦
    .hydrate ("write HEAD: " ++ D.fsError e)

end PhaseTwo

section Reading

abbrev Oid := Fin (2 ^ 160)

/-- Forty hexadecimal digits of either case. -/
def parseOid (text : List Char) : Option Oid :=
  if text.length = 40 then (parseHex text).map (Fin.ofNat _) else none

def refsDir : Path := ["refs".toList]

def HoldsOids (t : FileTree) : Prop :=
  ∀ p content, refsDir <:+ p → t.node p = some (.file content) →
    ∃ oid, isHexOid oid = true ∧ content = oid.toList ++ ['\n']

def PointsTo (t : FileTree) (name : String) : Prop :=
  t.node headPath = some (.file ("ref: ".toList ++ (name.toList ++ ['\n'])))

/-- The two commands that read the refs and the head of a repository. -/
structure RefReader where
  forEachRef : FileTree → List (String × String)
  symbolicRef : FileTree → Option String

/-- How `git` reads loose refs and a symbolic head in a repository with these objects. -/
structure RefReader.Reads (G : RefReader) (L : Limits) (objects : Set Oid) : Prop where
  refs : ∀ t head, isSafeRefname head = true → PointsTo t head → HoldsOids t →
    ∀ name oid, (name, oid) ∈ G.forEachRef t ↔
      checkRefnameFormat name.toList = true ∧ "refs/".toList <+: name.toList ∧
        ∃ text id, t.node (pathOf name) = some (.file (text ++ ['\n'])) ∧ parseOid text = some id ∧
          id ∈ objects ∧ oid = hexOid id
  head : ∀ t head, isSafeRefname head = true → PointsTo t head →
    G.symbolicRef t = if checkRefnameFormat head.toList = true ∧ L.fits (pathOf head) = true
      then some head else none

/-- A repository as `git init --bare` makes it, objects aside. -/
structure Fresh (L : Limits) (t : FileTree) : Prop where
  heads : t.node (pathOf "refs/heads") = some .dir
  tags : t.node (pathOf "refs/tags") = some .dir
  empty : ∀ p, refsDir <:+ p → t.node p ≠ none →
    p = refsDir ∨ p = pathOf "refs/heads" ∨ p = pathOf "refs/tags"
  head : t.IsFile headPath
  headFits : L.fits headPath = true

end Reading

def ReadsBack (G : RefReader) (m : Manifest) (t : FileTree) : Prop :=
  (∀ name oid, (name, oid) ∈ G.forEachRef t ↔ m.refs.get name = some oid) ∧
    G.symbolicRef t = some m.head

def Manifest.objects (m : Manifest) (packObjects : String → Set Oid) : Set Oid :=
  {id | ∃ key ∈ m.packs, id ∈ packObjects key}

def Manifest.Complete (m : Manifest) (packObjects : String → Set Oid) : Prop :=
  ∀ e ∈ m.refs.entries, ∃ id ∈ m.objects packObjects, parseOid e.2.toList = some id

/-- What the refs of a manifest need together to be installed and read again. -/
structure Manifest.Hydratable (L : Limits) (m : Manifest) : Prop where
  format : ∀ e ∈ m.refs.entries, checkRefnameFormat e.1.toList = true
  fits : ∀ e ∈ m.refs.entries, L.fits (pathOf e.1) = true
  lower : ∀ e ∈ m.refs.entries, e.2.toList.all isLowerHexDigit = true
  reserved : ∀ e ∈ m.refs.entries, e.1 ≠ "refs/heads" ∧ e.1 ≠ "refs/tags"
  apart : ∀ e ∈ m.refs.entries, ∀ e' ∈ m.refs.entries, ¬e.1.toList ++ ['/'] <+: e'.1.toList
  headFormat : checkRefnameFormat m.head.toList = true
  headFits : L.fits (pathOf m.head) = true

section Names

theorem join_splitOn (name : String) : ['/'].intercalate (name.toList.splitOn '/') = name.toList :=
  List.intercalate_splitOn '/'

theorem pathOf_injective : Function.Injective pathOf := by
  intro name name' h
  have hsplit := List.reverse_injective h
  apply String.toList_inj.mp
  rw [← join_splitOn, hsplit, join_splitOn]

/-- A path is above another just when the other name goes on behind a slash. -/
theorem pathOf_suffix_iff {name name' : String} : pathOf name <:+ pathOf name' ↔
    name = name' ∨ name.toList ++ ['/'] <+: name'.toList := by
  rw [pathOf, pathOf, List.reverse_suffix]
  constructor
  · rintro ⟨rest, hrest⟩
    have hjoin := join_splitOn name'
    rw [← hrest] at hjoin
    by_cases hnil : rest = []
    · left
      rw [hnil, List.append_nil, join_splitOn] at hjoin
      exact String.toList_inj.mp hjoin
    · right
      rw [intercalate_append (List.splitOn_ne_nil _ _) hnil, join_splitOn,
        ← List.append_assoc] at hjoin
      exact ⟨_, hjoin⟩
  · rintro (rfl | ⟨rest, hrest⟩)
    · exact List.prefix_rfl
    · rw [← hrest, List.append_assoc, List.singleton_append, List.splitOn_append_cons_self]
      exact List.prefix_append _ _

theorem refsDir_suffix {name : String} (h : "refs/".toList <+: name.toList) :
    refsDir <:+ pathOf name := by
  obtain ⟨rest, hrest⟩ := h
  have hslash : "refs/".toList = "refs".toList ++ ['/'] := by decide
  have hrefs : "refs".toList.splitOn '/' = ["refs".toList] := List.splitOn_eq_singleton (by decide)
  rw [pathOf, ← hrest, hslash, List.append_assoc, List.singleton_append,
    List.splitOn_append_cons_self, hrefs, List.reverse_append]
  exact List.suffix_append _ _

theorem clean_pathOf {name : String} (h : checkRefnameFormat name.toList = true) :
    clean (pathOf name) = pathOf name := by
  simp only [checkRefnameFormat, Bool.and_eq_true, List.all_eq_true] at h
  apply List.filter_eq_self.mpr
  intro c hc
  have hvalid := h.1.1.1.1.2 c (List.mem_reverse.mp hc)
  apply decide_eq_true
  rintro rfl
  revert hvalid
  decide

theorem prefix_of_isSafeRefname {name : String} (h : isSafeRefname name = true) :
    "refs/".toList <+: name.toList := by
  simp only [isSafeRefname, Bool.and_eq_true] at h
  exact List.isPrefixOf_iff_prefix.mp h.1.1.1.1.1

end Names

section Oids

theorem isLowerHexDigit_hexOid (id : Oid) : (hexOid id).toList.all isLowerHexDigit = true := by
  rw [hexOid, String.toList_ofList, List.all_eq_true]
  exact fun c hc ↦ isLowerHexDigit_of_mem_hexDigits hc

theorem parseOid_hexOid (id : Oid) : parseOid (hexOid id).toList = some id := by
  have hlt : id.val < 16 ^ 40 := lt_of_lt_of_eq id.isLt (by norm_num)
  rw [parseOid, hexOid, String.toList_ofList, if_pos (length_hexDigits 40 _),
    parseHex_hexDigits hlt, Option.map_some, Fin.ofNat_val_eq_self]

/-- An object id is written as it was read just when it was in lowercase. -/
theorem eq_hexOid_iff {oid : String} {id : Oid} (h : parseOid oid.toList = some id) :
    oid = hexOid id ↔ oid.toList.all isLowerHexDigit = true := by
  constructor
  · rintro rfl
    exact isLowerHexDigit_hexOid id
  · intro hlower
    rw [parseOid] at h
    split at h
    · rename_i hlen
      obtain ⟨n, hn, rfl⟩ := Option.map_eq_some_iff.mp h
      have hlt := parseHex_lt hn
      rw [hlen] at hlt
      have hval : n % 2 ^ 160 = n := Nat.mod_eq_of_lt (lt_of_lt_of_eq hlt (by norm_num))
      have hdigits := hexDigits_of_parseHex (List.all_eq_true.mp hlower) hn
      rw [hlen] at hdigits
      apply String.toList_inj.mp
      rw [hexOid, String.toList_ofList, Fin.val_ofNat, hval, hdigits]
    · cases h

end Oids

section Install

variable {D : Display} {L : Limits} {t t' : FileTree}

def refFile (ref : String × String) : Path × List Char := (pathOf ref.1, ref.2.toList ++ ['\n'])

theorem installRef_eq_ok {ref : String × String} : installRef D L t ref = .ok t' ↔
    isSafeRefname ref.1 = true ∧ isHexOid ref.2 = true ∧
      place L t (refFile ref).1 (refFile ref).2 = .ok t' := by
  simp only [installRef, bind_eq_ok, require_eq_ok, mapError_eq_ok, exists_const, place, refFile]

/-- Refs that pass the checks are placed as their files. -/
theorem foldlM_installRef {refs : List (String × String)}
    (h : ∀ ref ∈ refs, isSafeRefname ref.1 = true ∧ isHexOid ref.2 = true) :
    refs.foldlM (installRef D L) t = .ok t' ↔ placeAll L t (refs.map refFile) = .ok t' := by
  induction refs generalizing t with
  | nil => simp [placeAll, pure, Except.pure]
  | cons ref refs ih =>
    obtain ⟨href, hrefs⟩ := List.forall_mem_cons.mp h
    have hplace : placeAll L t ((ref :: refs).map refFile) =
        place L t (refFile ref).1 (refFile ref).2 >>= (placeAll L · (refs.map refFile)) := rfl
    rw [List.foldlM_cons, hplace, bind_eq_ok, bind_eq_ok]
    apply exists_congr
    intro t₁
    rw [installRef_eq_ok, ih hrefs]
    simp only [href, true_and]

theorem holdsOids_placeAll {refs : List (String × String)}
    (h : ∀ ref ∈ refs, isHexOid ref.2 = true) (hstart : HoldsOids t)
    (hplace : placeAll L t (refs.map refFile) = .ok t') : HoldsOids t' := by
  induction refs generalizing t with
  | nil =>
    cases hplace
    exact hstart
  | cons ref refs ih =>
    obtain ⟨href, hrefs⟩ := List.forall_mem_cons.mp h
    obtain ⟨t₁, hfirst, hrest⟩ := bind_eq_ok.mp
      (show place L t (refFile ref).1 (refFile ref).2 >>= _ = _ from hplace)
    refine ih hrefs (fun p content hp hfile ↦ ?_) hrest
    obtain rfl | hbefore := file_of_place hfirst hfile
    · exact ⟨ref.2, href, rfl⟩
    · exact hstart p content hp hbefore

theorem Fresh.node_refs (h : Fresh L t) {p : Path} (hp : refsDir <:+ p) {n : Node}
    (hn : t.node p = some n) : n = .dir ∧ (p = refsDir ∨ p = pathOf "refs/heads" ∨
      p = pathOf "refs/tags") := by
  have hcases := h.empty p hp (by rw [hn]; exact Option.some_ne_none n)
  refine ⟨?_, hcases⟩
  have hrefs : t.node refsDir = some .dir := by
    refine node_of_suffix h.heads ?_
    decide
  obtain rfl | rfl | rfl := hcases
  · exact (Option.some.inj (hrefs.symm.trans hn)).symm
  · exact (Option.some.inj (h.heads.symm.trans hn)).symm
  · exact (Option.some.inj (h.tags.symm.trans hn)).symm

theorem Fresh.holdsOids (h : Fresh L t) : HoldsOids t := by
  intro p content hp hfile
  cases (h.node_refs hp hfile).1

end Install

section Validated

variable {D : Display} {L : Limits} {m : Manifest} {t t' : FileTree}

theorem safe_of_validate (h : m.validate = none) : isSafeRefname m.head = true ∧
    ∀ e ∈ m.refs.entries, isSafeRefname e.1 = true ∧ isHexOid e.2 = true := by
  rw [Manifest.validate] at h
  split at h
  · cases h
  split at h
  · cases h
  split at h
  · cases h
  split at h
  · cases h
  rename_i hhead
  split at h
  · cases h
  · rename_i hnone
    refine ⟨by simpa using hhead, fun e he ↦ ?_⟩
    have href := List.findSome?_eq_none_iff.mp hnone e he
    rw [Manifest.validateRef] at href
    split at href
    · cases href
    · rename_i hsafe
      split at href
      · cases href
      · rename_i hoid
        exact ⟨by simpa using hsafe, by simpa using hoid⟩

theorem not_refsDir_suffix_headPath : ¬refsDir <:+ headPath := by decide

theorem installRefs_eq_ok (h : m.validate = none) : installRefs D L m t = .ok t' ↔
    ∃ t₁, placeAll L t (m.refs.entries.map refFile) = .ok t₁ ∧
      write L t₁ headPath ("ref: ".toList ++ (m.head.toList ++ ['\n'])) = .ok t' := by
  obtain ⟨hhead, hrefs⟩ := safe_of_validate h
  simp only [installRefs, bind_eq_ok, require_eq_ok, mapError_eq_ok, exists_const, hhead, true_and,
    foldlM_installRef hrefs]

theorem node_installRefs {t₁ : FileTree}
    (hwrite : write L t₁ headPath ("ref: ".toList ++ (m.head.toList ++ ['\n'])) = .ok t') :
    PointsTo t' m.head ∧ ∀ p, refsDir <:+ p → t'.node p = t₁.node p := by
  obtain ⟨-, -, hnodes⟩ := write_eq_ok (by decide) hwrite
  refine ⟨(hnodes _).trans (if_pos rfl), fun p hp ↦ ?_⟩
  rw [hnodes, if_neg]
  rintro rfl
  exact not_refsDir_suffix_headPath hp

theorem holdsOids_installRefs (h : m.validate = none) (hfresh : Fresh L t)
    (hok : installRefs D L m t = .ok t') : HoldsOids t' := by
  obtain ⟨t₁, hplace, hwrite⟩ := (installRefs_eq_ok h).mp hok
  have hhex (e : String × String) (he : e ∈ m.refs.entries) := ((safe_of_validate h).2 e he).2
  have hoids := holdsOids_placeAll hhex hfresh.holdsOids hplace
  intro p content hp hfile
  rw [(node_installRefs hwrite).2 p hp] at hfile
  exact hoids p content hp hfile

theorem Fresh.free_iff (hfresh : Fresh L t) {name : String}
    (hname : "refs/".toList <+: name.toList) :
    t.Free (pathOf name) ↔ name ≠ "refs/heads" ∧ name ≠ "refs/tags" := by
  constructor
  · intro hfree
    constructor
    · rintro rfl
      exact hfree.notDir hfresh.heads
    · rintro rfl
      exact hfree.notDir hfresh.tags
  · rintro ⟨hheads, htags⟩
    refine ⟨fun q hq _ ↦ ?_, fun hdir ↦ ?_⟩
    · rintro ⟨content, hfile⟩
      obtain hq | hq := List.suffix_or_suffix_of_suffix hq (refsDir_suffix hname)
      · have hrefs : t.node refsDir = some .dir := node_of_suffix hfresh.heads (by decide)
        rw [node_of_suffix hrefs hq] at hfile
        cases hfile
      · cases (hfresh.node_refs hq hfile).1
    · obtain hrefs | hpath | hpath := (hfresh.node_refs (refsDir_suffix hname) hdir).2
      · have hname' : name = "refs" := pathOf_injective (hrefs.trans (by decide))
        rw [hname'] at hname
        revert hname
        decide
      · exact hheads (pathOf_injective hpath)
      · exact htags (pathOf_injective hpath)

theorem pairwise_apart_iff (refs : Refs) :
    (refs.entries.map refFile).Pairwise (fun f g ↦ Apart f.1 g.1) ↔
      ∀ e ∈ refs.entries, ∀ e' ∈ refs.entries, ¬e.1.toList ++ ['/'] <+: e'.1.toList := by
  rw [List.pairwise_map]
  constructor
  · intro hpairs e he e' he' hprefix
    have hsuffix : pathOf e.1 <:+ pathOf e'.1 := pathOf_suffix_iff.mpr (.inr hprefix)
    have hsame : e.1 = e'.1 := by
      by_cases heq : e = e'
      · rw [heq]
      · have hsymm : Std.Symm fun e e' : String × String ↦ Apart (refFile e).1 (refFile e').1 :=
          ⟨fun _ _ h ↦ h.symm⟩
        exact pathOf_injective ((hpairs.forall he he' heq).1 hsuffix)
    have hlen := hprefix.length_le
    rw [hsame, List.length_append, List.length_singleton] at hlen
    omega
  · intro hall
    refine List.pairwise_of_forall_mem_list fun e he e' he' ↦ ⟨fun h ↦ ?_, fun h ↦ ?_⟩
    · exact congrArg pathOf ((pathOf_suffix_iff.mp h).resolve_right (hall e he e' he'))
    · exact congrArg pathOf ((pathOf_suffix_iff.mp h).resolve_right (hall e' he' e he))

theorem placeAll_refs_iff (h : m.validate = none) (hfresh : Fresh L t)
    (hformat : ∀ e ∈ m.refs.entries, checkRefnameFormat e.1.toList = true) :
    Succeeds (placeAll L t (m.refs.entries.map refFile)) ↔
      (∀ e ∈ m.refs.entries, L.fits (pathOf e.1) = true) ∧
      (∀ e ∈ m.refs.entries, e.1 ≠ "refs/heads" ∧ e.1 ≠ "refs/tags") ∧
      ∀ e ∈ m.refs.entries, ∀ e' ∈ m.refs.entries, ¬e.1.toList ++ ['/'] <+: e'.1.toList := by
  have hfree (e : String × String) (he : e ∈ m.refs.entries) :=
    hfresh.free_iff (prefix_of_isSafeRefname ((safe_of_validate h).2 e he).1)
  have hclean : ∀ f ∈ m.refs.entries.map refFile, clean f.1 = f.1 :=
    List.forall_mem_map.mpr fun e he ↦ clean_pathOf (hformat e he)
  rw [placeAll_succeeds_iff hclean, pairwise_apart_iff, List.forall_mem_map]
  constructor
  · rintro ⟨hall, hapart⟩
    exact ⟨fun e he ↦ (hall e he).1, fun e he ↦ (hfree e he).mp (hall e he).2, hapart⟩
  · rintro ⟨hfits, hreserved, hapart⟩
    exact ⟨fun e he ↦ ⟨hfits e he, (hfree e he).mpr (hreserved e he)⟩, hapart⟩

end Validated

section ReadBack

variable {D : Display} {L : Limits} {G : RefReader} {m : Manifest} {packObjects : String → Set Oid}
  {t t' : FileTree}

theorem hydratable_of_readsBack (hG : G.Reads L (m.objects packObjects)) (h : m.validate = none)
    (hfresh : Fresh L t) (hok : installRefs D L m t = .ok t') (hread : ReadsBack G m t') :
    m.Hydratable L := by
  obtain ⟨hrefs, hhead⟩ := hread
  obtain ⟨t₁, hplace, hwrite⟩ := (installRefs_eq_ok h).mp hok
  have hlisted (e : String × String) (he : e ∈ m.refs.entries) :=
    (hG.refs t' m.head (safe_of_validate h).1 (node_installRefs hwrite).1
      (holdsOids_installRefs h hfresh hok) e.1 e.2).mp
      ((hrefs e.1 e.2).mpr (SortedMap.mem_entries_iff.mp he))
  have hformat (e : String × String) (he : e ∈ m.refs.entries) := (hlisted e he).1
  obtain ⟨hfits, hreserved, hapart⟩ := (placeAll_refs_iff h hfresh hformat).mp ⟨t₁, hplace⟩
  have hlower (e : String × String) (he : e ∈ m.refs.entries) :
      e.2.toList.all isLowerHexDigit = true := by
    obtain ⟨-, -, text, id, -, -, -, hoid⟩ := hlisted e he
    rw [hoid]
    exact isLowerHexDigit_hexOid id
  rw [hG.head t' m.head (safe_of_validate h).1 (node_installRefs hwrite).1] at hhead
  split at hhead
  · rename_i hgood
    exact ⟨hformat, hfits, hlower, hreserved, hapart, hgood.1, hgood.2⟩
  · cases hhead

theorem refFile_nodup (refs : Refs) : ((refs.entries.map refFile).map Prod.fst).Nodup := by
  have hkeys : (refs.entries.map Prod.fst).Nodup := by
    refine List.pairwise_map.mpr (refs.sorted.imp fun {a b} hlt heq ↦ ?_)
    rw [heq] at hlt
    exact Std.Irrefl.irrefl _ hlt
  have hpaths := hkeys.map pathOf_injective
  rwa [List.map_map] at hpaths ⊢

theorem listed_iff (hG : G.Reads L (m.objects packObjects)) (h : m.validate = none)
    (hcomplete : m.Complete packObjects) (hfresh : Fresh L t) (hgood : m.Hydratable L)
    (hok : installRefs D L m t = .ok t') (name oid : String) :
    (name, oid) ∈ G.forEachRef t' ↔ m.refs.get name = some oid := by
  obtain ⟨t₁, hplace, hwrite⟩ := (installRefs_eq_ok h).mp hok
  have hclean : ∀ f ∈ m.refs.entries.map refFile, clean f.1 = f.1 :=
    List.forall_mem_map.mpr fun e he ↦ clean_pathOf (hgood.format e he)
  have hnodes := node_placeAll hclean (refFile_nodup m.refs) hplace
  obtain ⟨hhead, hsame⟩ := node_installRefs hwrite
  rw [hG.refs t' m.head (safe_of_validate h).1 hhead (holdsOids_installRefs h hfresh hok),
    ← SortedMap.mem_entries_iff]
  constructor
  · rintro ⟨-, hprefix, text, id, hfile, hid, -, rfl⟩
    have hsuffix := refsDir_suffix hprefix
    rw [hsame _ hsuffix] at hfile
    by_cases hmem : pathOf name ∈ (m.refs.entries.map refFile).map Prod.fst
    · obtain ⟨f, hf, hpath⟩ := List.mem_map.mp hmem
      obtain ⟨e, he, rfl⟩ := List.mem_map.mp hf
      obtain rfl : e.1 = name := pathOf_injective hpath
      have hcontent := (hnodes (pathOf e.1)).1 _ hf
      rw [hfile] at hcontent
      obtain rfl : text = e.2.toList := by
        simpa using hcontent
      rw [← (eq_hexOid_iff hid).mpr (hgood.lower e he)]
      exact he
    · obtain hold | ⟨-, hdir⟩ := (hnodes (pathOf name)).2 hmem
      · cases (hfresh.node_refs hsuffix (hold.symm.trans hfile)).1
      · rw [hdir] at hfile
        cases hfile
  · intro he
    have hprefix : "refs/".toList <+: name.toList :=
      prefix_of_isSafeRefname ((safe_of_validate h).2 (name, oid) he).1
    obtain ⟨id, hmem, hid⟩ := hcomplete (name, oid) he
    dsimp only at hid
    have hoid := (eq_hexOid_iff hid).mpr (hgood.lower (name, oid) he)
    have hfile : t'.node (pathOf name) = some (.file (oid.toList ++ ['\n'])) := by
      rw [hsame _ (refsDir_suffix hprefix)]
      exact (hnodes (pathOf name)).1 _ (List.mem_map.mpr ⟨(name, oid), he, rfl⟩)
    exact ⟨hgood.format (name, oid) he, hprefix, oid.toList, id, hfile, hid, hmem, hoid⟩

theorem readsBack_of_hydratable (hG : G.Reads L (m.objects packObjects)) (h : m.validate = none)
    (hcomplete : m.Complete packObjects) (hfresh : Fresh L t) (hgood : m.Hydratable L) :
    ∃ t', installRefs D L m t = .ok t' ∧ ReadsBack G m t' := by
  obtain ⟨t₁, hplace⟩ := (placeAll_refs_iff h hfresh hgood.format).mpr
    ⟨hgood.fits, hgood.reserved, hgood.apart⟩
  have hclean : ∀ f ∈ m.refs.entries.map refFile, clean f.1 = f.1 :=
    List.forall_mem_map.mpr fun e he ↦ clean_pathOf (hgood.format e he)
  have hother : headPath ∉ (m.refs.entries.map refFile).map Prod.fst := by
    rw [List.map_map]
    intro hmem
    obtain ⟨e, he, hpath⟩ := List.mem_map.mp hmem
    have hsuffix := refsDir_suffix (prefix_of_isSafeRefname ((safe_of_validate h).2 e he).1)
    exact not_refsDir_suffix_headPath (hpath ▸ hsuffix)
  obtain ⟨content, hfile⟩ := hfresh.head
  have hhead : t₁.node headPath ≠ some .dir := by
    have hkept := (node_placeAll hclean (refFile_nodup m.refs) hplace headPath).2 hother
    obtain hsame | ⟨hnone, -⟩ := hkept
    · rw [hsame, hfile]
      exact fun hdir ↦ Node.noConfusion (Option.some.inj hdir)
    · rw [hfile] at hnone
      cases hnone
  have hwrite : ∃ t', write L t₁ headPath ("ref: ".toList ++ (m.head.toList ++ ['\n'])) = .ok t' :=
    write_of_free (by decide) hfresh.headFits t₁.node_root hhead
  obtain ⟨t', hwrite⟩ := hwrite
  have hok : installRefs D L m t = .ok t' := (installRefs_eq_ok h).mpr ⟨t₁, hplace, hwrite⟩
  refine ⟨t', hok, listed_iff hG h hcomplete hfresh hgood hok, ?_⟩
  rw [hG.head t' m.head (safe_of_validate h).1 (node_installRefs hwrite).1]
  exact if_pos ⟨hgood.headFormat, hgood.headFits⟩

/-- A manifest that passes the checks is installed and read back just when its refs get along. -/
theorem validated_manifest_hydratable_iff (D : Display) (L : Limits) (G : RefReader)
    (packObjects : String → Set Oid) (m : Manifest) (t : FileTree)
    (hG : G.Reads L (m.objects packObjects)) (h : m.validate = none)
    (hcomplete : m.Complete packObjects) (hfresh : Fresh L t) :
    (∃ t', installRefs D L m t = .ok t' ∧ ReadsBack G m t') ↔ m.Hydratable L := by
  constructor
  · rintro ⟨t', hok, hread⟩
    exact hydratable_of_readsBack hG h hfresh hok hread
  · exact readsBack_of_hydratable hG h hcomplete hfresh

end ReadBack

section Example

def readLoose (t : FileTree) (objects : List Oid) (p : Path) : Option (String × String) :=
  let name := String.ofList (['/'].intercalate p.reverse)
  if checkRefnameFormat name.toList = true ∧ "refs/".toList <+: name.toList ∧ pathOf name = p then
    match t.node p with
    | some (.file content) =>
      (parseOid content.dropLast).bind fun id ↦
        if id ∈ objects then some (name, hexOid id) else none
    | _ => none
  else none

def looseReader (L : Limits) (objects : List Oid) : RefReader where
  forEachRef t := t.nodes.keys.filterMap (readLoose t objects)
  symbolicRef t :=
    match t.node headPath with
    | some (.file content) =>
      let name := String.ofList (content.drop 5).dropLast
      if checkRefnameFormat name.toList = true ∧ L.fits (pathOf name) = true then some name
      else none
    | _ => none

theorem readLoose_eq_some {t : FileTree} {objects : List Oid} {p : Path} {name oid : String} :
    readLoose t objects p = some (name, oid) ↔ p = pathOf name ∧
      checkRefnameFormat name.toList = true ∧ "refs/".toList <+: name.toList ∧
        ∃ content id, t.node p = some (.file content) ∧ parseOid content.dropLast = some id ∧
          id ∈ objects ∧ oid = hexOid id := by
  have hname (name : String) : String.ofList (['/'].intercalate (pathOf name).reverse) = name := by
    rw [pathOf, List.reverse_reverse, join_splitOn, String.ofList_toList]
  constructor
  · intro h
    rw [readLoose] at h
    split at h
    · rename_i hgood
      obtain ⟨hcheck, hprefix, hpath⟩ := hgood
      split at h
      · rename_i content hfile
        obtain ⟨id, hid, hlisted⟩ := Option.bind_eq_some_iff.mp h
        split at hlisted
        · rename_i hmem
          obtain ⟨rfl, rfl⟩ := Prod.mk.inj (Option.some.inj hlisted)
          exact ⟨hpath.symm, hcheck, hprefix, content, id, hfile, hid, hmem, rfl⟩
        · cases hlisted
      · cases h
    · cases h
  · rintro ⟨rfl, hcheck, hprefix, content, id, hfile, hid, hmem, rfl⟩
    simp only [readLoose, hname, hcheck, hprefix, and_self, if_true, hfile, hid, Option.bind_some,
      hmem]

theorem reads_looseReader (L : Limits) (objects : List Oid) :
    (looseReader L objects).Reads L {id | id ∈ objects} where
  refs t _ _ _ ht name oid := by
    simp only [looseReader, List.mem_filterMap, readLoose_eq_some]
    constructor
    · rintro ⟨p, -, rfl, hcheck, hprefix, content, id, hfile, hid, hmem, rfl⟩
      obtain ⟨oid, -, rfl⟩ := ht _ _ (refsDir_suffix hprefix) hfile
      rw [List.dropLast_concat] at hid
      exact ⟨hcheck, hprefix, oid.toList, id, hfile, hid, hmem, rfl⟩
    · rintro ⟨hcheck, hprefix, text, id, hfile, hid, hmem, rfl⟩
      have hkey : pathOf name ∈ t.nodes.keys := by
        rw [← AList.mem_keys, ← AList.lookup_isSome]
        exact Option.isSome_iff_exists.mpr ⟨_, hfile⟩
      refine ⟨pathOf name, hkey, rfl, hcheck, hprefix, text ++ ['\n'], id, hfile, ?_, hmem, rfl⟩
      rw [List.dropLast_concat]
      exact hid
  head t head _ hfile := by
    rw [PointsTo] at hfile
    have hdrop : (("ref: ".toList ++ (head.toList ++ ['\n'])).drop 5).dropLast = head.toList := by
      simp
    simp only [looseReader, hfile, hdrop, String.ofList_toList]

def emptyTree : FileTree where
  nodes := AList.singleton [] .dir
  root := by decide
  parent c p h := by
    rw [AList.lookup_isSome, AList.mem_keys, AList.keys_singleton, List.mem_singleton] at h
    cases h

/-- A fresh repository, as far as refs go. -/
def bareRepo : FileTree :=
  let refs := emptyTree.put "refs".toList [] .dir emptyTree.node_root (by decide)
  let heads := refs.put "heads".toList refsDir .dir (by decide) (by decide)
  let tags := heads.put "tags".toList refsDir .dir (by decide) (by decide)
  tags.put "HEAD".toList [] (.file "ref: refs/heads/main\n".toList) (by decide) (by decide)

theorem fresh_bareRepo : Fresh ⟨255, 4000⟩ bareRepo where
  heads := by decide
  tags := by decide
  empty p hp hn := by
    simp only [bareRepo, node_put] at hn
    split_ifs at hn with hhead htags hheads hrefs
    · rw [hhead] at hp
      exact absurd hp not_refsDir_suffix_headPath
    · exact .inr (.inr (htags.trans (by decide)))
    · exact .inr (.inl (hheads.trans (by decide)))
    · exact .inl hrefs
    · have hroot : p = [] := by
        by_contra hne
        apply hn
        rw [node, AList.lookup_eq_none, AList.mem_keys]
        exact fun hmem ↦ hne (List.mem_singleton.mp hmem)
      rw [hroot] at hp
      exact absurd hp (by decide)
  head := ⟨"ref: refs/heads/main\n".toList, by decide⟩
  headFits := by decide

/-- Names as they are, with no quotes. -/
def plainDisplay : Display where
  debug name := name
  debugPath p := String.ofList (['/'].intercalate p.reverse)
  fsError _ := "filesystem error"

def branches (refs : Refs) : Manifest :=
  ⟨manifestVersion, "refs/heads/main", refs,
    ["packs/" ++ String.ofList (List.replicate 64 '0')], none⟩

theorem objects_branches (refs : Refs) :
    (branches refs).objects (fun _ ↦ {1}) = {id | id ∈ [(1 : Oid)]} := by
  ext id
  simp [Manifest.objects, branches]

theorem isPackKey_branches :
    isPackKey ("packs/" ++ String.ofList (List.replicate 64 '0')) = true := by
  have htext : ("packs/" ++ String.ofList (List.replicate 64 '0')).toList =
      "packs/".toList ++ List.replicate 64 '0' := by
    rw [String.toList_append]
    exact congrArg _ String.toList_ofList
  have hdrop : ("packs/".toList ++ List.replicate 64 '0').drop "packs/".length =
      List.replicate 64 '0' := rfl
  rw [isPackKey, stripPrefix, htext, if_pos (by decide), hdrop, Option.any_some, isManifestDigest,
    String.length_ofList, String.toList_ofList]
  decide

theorem isHexOid_hexOid (id : Oid) : isHexOid (hexOid id) = true := by
  rw [isHexOid, hexOid, String.length_ofList, length_hexDigits, String.toList_ofList]
  simp only [beq_self_eq_true, Bool.true_or, Bool.true_and, List.all_eq_true]
  intro c hc
  have hlower := isLowerHexDigit_of_mem_hexDigits hc
  rw [isLowerHexDigit] at hlower
  rw [isHexDigit, hlower, Bool.true_or]

theorem validate_branches {refs : Refs} (hlen : refs.len ≤ maxManifestRefs)
    (h : ∀ e ∈ refs.entries, isSafeRefname e.1 = true ∧ e.2 = hexOid 1) :
    (branches refs).validate = none := by
  have hrefs : (branches refs).refs.entries.findSome? Manifest.validateRef = none := by
    refine List.findSome?_eq_none_iff.mpr fun e he ↦ ?_
    obtain ⟨hsafe, hoid⟩ := h e he
    simp [Manifest.validateRef, hsafe, hoid, isHexOid_hexOid]
  have hhead : isSafeRefname (branches refs).head = true :=
    show isSafeRefname "refs/heads/main" = true by decide
  have hempty : (branches refs).head.isEmpty = false :=
    show "refs/heads/main".isEmpty = false by decide
  have hpacks : (branches refs).packs.findSome? Manifest.validatePack = none := by
    refine List.findSome?_eq_none_iff.mpr fun key hkey ↦ ?_
    rw [List.mem_singleton.mp hkey, Manifest.validatePack, isPackKey_branches]
    rfl
  have hcount : ¬(branches refs).packs.length > maxManifestPacks := by
    rw [branches, List.length_singleton]
    decide
  have hrefcount : ¬(branches refs).refs.len > maxManifestRefs := Nat.not_lt.mpr hlen
  rw [Manifest.validate, if_neg hcount, if_neg hrefcount]
  have hparent : (branches refs).parent = none := rfl
  simp only [hempty, hhead, hrefs, hpacks, hparent, Bool.not_true, Bool.false_eq_true, if_false]

theorem complete_branches {refs : Refs} (h : ∀ e ∈ refs.entries, e.2 = hexOid 1) :
    (branches refs).Complete fun _ ↦ {1} := by
  intro e he
  refine ⟨1, ?_, ?_⟩
  · rw [objects_branches]
    exact List.mem_singleton_self _
  · rw [h e he]
    exact parseOid_hexOid 1

def mainRefs : Refs := ⟨[("refs/heads/main", hexOid 1)], List.pairwise_singleton _ _⟩

/-- One branch is installed and read back. -/
theorem validated_manifest_hydratable_main :
    ∃ t', installRefs plainDisplay ⟨255, 4000⟩ (branches mainRefs) bareRepo = .ok t' ∧
      ReadsBack (looseReader ⟨255, 4000⟩ [1]) (branches mainRefs) t' := by
  have hG : (looseReader ⟨255, 4000⟩ [1]).Reads ⟨255, 4000⟩
      ((branches mainRefs).objects fun _ ↦ {1}) := by
    rw [objects_branches]
    exact reads_looseReader _ _
  have hvalid : (branches mainRefs).validate = none := by
    refine validate_branches (by decide) fun e he ↦ ?_
    rw [List.mem_singleton.mp he]
    exact ⟨by decide, rfl⟩
  have hcomplete : (branches mainRefs).Complete fun _ ↦ {1} := by
    refine complete_branches fun e he ↦ ?_
    rw [List.mem_singleton.mp he]
  refine (validated_manifest_hydratable_iff plainDisplay ⟨255, 4000⟩ (looseReader ⟨255, 4000⟩ [1])
    (fun _ ↦ {1}) (branches mainRefs) bareRepo hG hvalid hcomplete fresh_bareRepo).mpr ?_
  constructor <;> decide

def nestedRefs : Refs :=
  ⟨[("refs/heads/a", hexOid 1), ("refs/heads/a/b", hexOid 1)], by decide⟩

/-- A branch below another passes the checks and cannot be installed. -/
theorem nested_branches_unhydratable :
    (branches nestedRefs).validate = none ∧ (branches nestedRefs).Complete (fun _ ↦ {1}) ∧
      Fresh ⟨255, 4000⟩ bareRepo ∧
        ∀ t', installRefs plainDisplay ⟨255, 4000⟩ (branches nestedRefs) bareRepo ≠ .ok t' := by
  have hvalid : (branches nestedRefs).validate = none := by
    refine validate_branches (by decide) fun e he ↦ ?_
    rcases List.mem_pair.mp he with rfl | rfl
    · exact ⟨by decide, rfl⟩
    · exact ⟨by decide, rfl⟩
  refine ⟨hvalid, complete_branches (by simp [nestedRefs]), fresh_bareRepo, fun t' hok ↦ ?_⟩
  obtain ⟨t₁, hplace, -⟩ := (installRefs_eq_ok hvalid).mp hok
  have hall := ((placeAll_refs_iff hvalid fresh_bareRepo (by decide)).mp ⟨t₁, hplace⟩).2.2
  exact hall ("refs/heads/a", hexOid 1) (by decide) ("refs/heads/a/b", hexOid 1) (by decide)
    (by decide)

end Example

end Buzz.Git
