import Mathlib.Data.List.AList
import Mathlib.Data.List.Infix
import Buzz.Lib.Attempt
import Buzz.Lib.Utf8

namespace Buzz.Lib

abbrev Path := List (List Char)

inductive Node
  | dir
  | file (content : List Char)
deriving DecidableEq

inductive FsError
  | notFound
  | alreadyExists
  | notADirectory
  | isADirectory
  | nameTooLong
deriving DecidableEq

/-- The longest component and the longest path, in bytes. -/
structure Limits where
  nameMax : ℕ
  pathMax : ℕ

def Limits.fits (L : Limits) (p : Path) : Bool :=
  (p.all fun c ↦ Utf8.len c ≤ L.nameMax) && (p.map fun c ↦ Utf8.len c + 1).sum ≤ L.pathMax

structure FileTree where
  nodes : AList fun _ : Path ↦ Node
  root : nodes.lookup [] = some .dir
  parent : ∀ c p, (nodes.lookup (c :: p)).isSome = true → nodes.lookup p = some .dir

namespace FileTree

def node (t : FileTree) (p : Path) : Option Node := t.nodes.lookup p

theorem node_root (t : FileTree) : t.node [] = some .dir := t.root

def IsFile (t : FileTree) (p : Path) : Prop := ∃ content, t.node p = some (.file content)

def put (t : FileTree) (c : List Char) (p : Path) (n : Node) (hparent : t.node p = some .dir)
    (hfree : t.node (c :: p) ≠ some .dir) : FileTree where
  nodes := t.nodes.insert (c :: p) n
  root := by
    rw [AList.lookup_insert_ne (List.cons_ne_nil _ _).symm]
    exact t.root
  parent := by
    intro d q hsome
    have hdir : t.node q = some .dir := by
      by_cases heq : d :: q = c :: p
      · rw [(List.cons.inj heq).2]
        exact hparent
      · rw [AList.lookup_insert_ne heq] at hsome
        exact t.parent d q hsome
    have hne : q ≠ c :: p := by
      rintro rfl
      exact hfree hdir
    rw [AList.lookup_insert_ne hne]
    exact hdir

theorem node_put {t : FileTree} {c : List Char} {p : Path} {n : Node}
    (hparent : t.node p = some .dir) (hfree : t.node (c :: p) ≠ some .dir) (q : Path) :
    (t.put c p n hparent hfree).node q = if q = c :: p then some n else t.node q := by
  split
  · rename_i hq
    rw [hq]
    exact AList.lookup_insert _
  · rename_i hq
    exact AList.lookup_insert_ne hq

section Operations

variable (L : Limits) (t : FileTree)

def missing : Path → FsError
  | [] => .notFound
  | _ :: p =>
    match t.node p with
    | some .dir => .notFound
    | some (.file _) => .notADirectory
    | none => missing p

def mkdir (p : Path) : Except FsError FileTree :=
  match p with
  | [] => .error .alreadyExists
  | c :: p =>
    if L.fits (c :: p) then
      match hparent : t.node p with
      | none => .error (t.missing p)
      | some (.file _) => .error .notADirectory
      | some .dir =>
        if hnone : t.node (c :: p) = none then
          .ok (t.put c p .dir hparent (by rw [hnone]; exact Option.some_ne_none _ |>.symm))
        else .error .alreadyExists
    else .error .nameTooLong

def isDir (p : Path) : Bool := L.fits p && t.node p == some .dir

/-- `mkdir`, content with a directory that is there. -/
def ensureDir (p : Path) : Except FsError FileTree :=
  match mkdir L t p with
  | .ok t' => .ok t'
  | .error err => if isDir L t p then .ok t else .error err

def createDirAll (p : Path) : Except FsError FileTree :=
  match p with
  | [] => .ok t
  | c :: p =>
    match mkdir L t (c :: p) with
    | .ok t' => .ok t'
    | .error .notFound => do
      let t' ← createDirAll p
      ensureDir L t' (c :: p)
    | .error err => if isDir L t (c :: p) then .ok t else .error err

/-- The path without its components `.`. -/
def clean (p : Path) : Path := p.filter (· ≠ ['.'])

def write (p : Path) (content : List Char) : Except FsError FileTree :=
  match p with
  | [] => .error .isADirectory
  | c :: p =>
    if L.fits (c :: p) then
      match hparent : t.node (clean p) with
      | none => .error (t.missing (clean p))
      | some (.file _) => .error .notADirectory
      | some .dir =>
        if c = ['.'] then .error .isADirectory
        else if hfree : t.node (c :: clean p) = some .dir then .error .isADirectory
        else .ok (t.put c (clean p) (.file content) hparent hfree)
    else .error .nameTooLong

def place (p : Path) (content : List Char) : Except FsError FileTree := do
  let t' ← createDirAll L t (clean p).tail
  write L t' p content

end Operations

variable {L : Limits} {t t' : FileTree} {c : List Char} {p q : Path}

theorem fits_of_cons (h : L.fits (c :: p) = true) : L.fits p = true := by
  simp only [Limits.fits, List.all_cons, List.map_cons, List.sum_cons, Bool.and_eq_true,
    decide_eq_true_eq] at h ⊢
  exact ⟨h.1.2, by omega⟩

section Ancestors

theorem not_isFile_of_dir (h : t.node p = some .dir) : ¬t.IsFile p := by
  rintro ⟨content, hfile⟩
  rw [h] at hfile
  cases hfile

theorem node_parent (h : t.node (c :: p) ≠ none) : t.node p = some .dir :=
  t.parent c p (Option.isSome_iff_ne_none.mpr h)

/-- What is above a directory is a directory. -/
theorem node_of_suffix (h : t.node p = some .dir) (hq : q <:+ p) : t.node q = some .dir := by
  induction p with
  | nil => rwa [List.suffix_nil.mp hq]
  | cons c p ih =>
    rcases List.suffix_cons_iff.mp hq with rfl | hq
    · exact h
    · exact ih (node_parent (c := c) (by rw [h]; exact Option.some_ne_none _)) hq

theorem missing_eq (h : ∀ q, q <:+ p → ¬t.IsFile q) : t.missing p = .notFound := by
  induction p with
  | nil => rfl
  | cons c p ih =>
    have hopen (q : Path) (hq : q <:+ p) : ¬t.IsFile q := h q (hq.trans (List.suffix_cons c p))
    rw [missing]
    split
    · rfl
    · rename_i content hfile
      exact absurd ⟨content, hfile⟩ (hopen p List.suffix_rfl)
    · exact ih hopen

theorem not_suffix_self_cons (c : List Char) (p : Path) : ¬c :: p <:+ p := by
  intro h
  have hlen := h.length_le
  rw [List.length_cons] at hlen
  omega

end Ancestors

section Directories

theorem mkdir_eq_ok (h : mkdir L t (c :: p) = .ok t') : t.node p = some .dir ∧
    t.node (c :: p) = none ∧ ∀ q, t'.node q = if q = c :: p then some .dir else t.node q := by
  rw [mkdir] at h
  split at h
  · split at h
    · cases h
    · cases h
    · rename_i hparent
      split at h
      · rename_i hnone
        cases h
        exact ⟨hparent, hnone, node_put _ _⟩
      · cases h
  · cases h

theorem mkdir_of_parent (hfits : L.fits (c :: p) = true) (hparent : t.node p = some .dir)
    (hnone : t.node (c :: p) = none) : ∃ t', mkdir L t (c :: p) = .ok t' := by
  rw [mkdir, if_pos hfits]
  split
  · simp_all
  · simp_all
  · exact ⟨_, dif_pos hnone⟩

theorem mkdir_of_some (hfits : L.fits (c :: p) = true) (hsome : t.node (c :: p) ≠ none) :
    mkdir L t (c :: p) = .error .alreadyExists := by
  have hparent := node_parent hsome
  rw [mkdir, if_pos hfits]
  split
  · simp_all
  · simp_all
  · exact dif_neg hsome

theorem mkdir_of_missing (hfits : L.fits (c :: p) = true) (hnone : t.node p = none) :
    mkdir L t (c :: p) = .error (t.missing p) := by
  rw [mkdir, if_pos hfits]
  split
  · rfl
  · simp_all
  · simp_all

theorem ite_suffix_cons {α : Sort*} (q : Path) (c : List Char) (p : Path) (a b : α) :
    (if q <:+ c :: p then a else b) = if q = c :: p then a else if q <:+ p then a else b := by
  rw [if_congr List.suffix_cons_iff rfl rfl]
  split_ifs <;> simp_all

theorem createDirAll_ok (hfits : L.fits p = true) (hopen : ∀ q, q <:+ p → ¬t.IsFile q) :
    ∃ t', createDirAll L t p = .ok t' ∧
      ∀ q, t'.node q = if q <:+ p then some .dir else t.node q := by
  induction p with
  | nil =>
    refine ⟨t, rfl, fun q ↦ ?_⟩
    split
    · rename_i hq
      rw [List.suffix_nil.mp hq]
      exact t.node_root
    · rfl
  | cons c p ih =>
    have hopen' (q : Path) (hq : q <:+ p) : ¬t.IsFile q := hopen q (hq.trans (List.suffix_cons c p))
    cases hnode : t.node (c :: p) with
    | some n =>
      have hdir : t.node (c :: p) = some .dir := by
        cases n with
        | dir => exact hnode
        | file content => exact absurd ⟨content, hnode⟩ (hopen _ List.suffix_rfl)
      have hexists : isDir L t (c :: p) = true := by simp [isDir, hfits, hdir]
      refine ⟨t, ?_, fun q ↦ ?_⟩
      · rw [createDirAll, mkdir_of_some hfits (by simp [hnode])]
        exact if_pos hexists
      · split
        · rename_i hq
          exact node_of_suffix hdir hq
        · rfl
    | none =>
      cases hparent : t.node p with
      | some n =>
        have hdir : t.node p = some .dir := by
          cases n with
          | dir => exact hparent
          | file content => exact absurd ⟨content, hparent⟩ (hopen' _ List.suffix_rfl)
        obtain ⟨t', hmkdir⟩ := mkdir_of_parent hfits hdir hnode
        refine ⟨t', by rw [createDirAll, hmkdir], fun q ↦ ?_⟩
        rw [(mkdir_eq_ok hmkdir).2.2, ite_suffix_cons]
        split
        · rfl
        · split
          · rename_i hq
            exact node_of_suffix hdir hq
          · rfl
      | none =>
        obtain ⟨t₁, hparents, hnodes⟩ := ih (fits_of_cons hfits) hopen'
        have hparent₁ : t₁.node p = some .dir := by rw [hnodes, if_pos List.suffix_rfl]
        have hnone₁ : t₁.node (c :: p) = none := by
          rw [hnodes, if_neg (not_suffix_self_cons c p), hnode]
        obtain ⟨t₂, hmkdir⟩ := mkdir_of_parent hfits hparent₁ hnone₁
        refine ⟨t₂, ?_, fun q ↦ ?_⟩
        · rw [createDirAll, mkdir_of_missing hfits hparent, missing_eq hopen']
          simp only [hparents, ensureDir, hmkdir, bind, Except.bind]
        · rw [(mkdir_eq_ok hmkdir).2.2, ite_suffix_cons, hnodes]

theorem not_isFile_of_createDirAll (h : createDirAll L t p = .ok t') (hq : q <:+ p) :
    ¬t.IsFile q := by
  induction p generalizing t' with
  | nil =>
    rw [List.suffix_nil.mp hq]
    exact not_isFile_of_dir t.node_root
  | cons c p ih =>
    rw [createDirAll] at h
    split at h
    · rename_i t₁ hmkdir
      obtain ⟨hparent, hnone, -⟩ := mkdir_eq_ok hmkdir
      rcases List.suffix_cons_iff.mp hq with rfl | hq
      · rintro ⟨content, hfile⟩
        rw [hnone] at hfile
        cases hfile
      · exact not_isFile_of_dir (node_of_suffix hparent hq)
    · rename_i hmkdir
      obtain ⟨t₁, hparents, -⟩ := bind_eq_ok.mp h
      rcases List.suffix_cons_iff.mp hq with rfl | hq
      · rintro ⟨content, hfile⟩
        by_cases hfits : L.fits (c :: p) = true
        · rw [mkdir_of_some hfits (by simp [hfile])] at hmkdir
          cases hmkdir
        · rw [mkdir, if_neg hfits] at hmkdir
          cases hmkdir
      · exact ih hparents hq
    · split at h
      · rename_i hdir
        simp only [isDir, Bool.and_eq_true, beq_iff_eq] at hdir
        exact not_isFile_of_dir (node_of_suffix hdir.2 hq)
      · cases h

theorem file_of_mkdir {content : List Char} (h : mkdir L t p = .ok t')
    (hfile : t'.node q = some (.file content)) : t.node q = some (.file content) := by
  cases p with
  | nil => cases h
  | cons c p =>
    rw [(mkdir_eq_ok h).2.2] at hfile
    split at hfile
    · cases hfile
    · exact hfile

/-- New directories leave the files as they are. -/
theorem file_of_createDirAll {content : List Char} (h : createDirAll L t p = .ok t')
    (hfile : t'.node q = some (.file content)) : t.node q = some (.file content) := by
  induction p generalizing t' with
  | nil =>
    cases h
    exact hfile
  | cons c p ih =>
    rw [createDirAll] at h
    split at h
    · rename_i hmkdir
      cases h
      exact file_of_mkdir hmkdir hfile
    · obtain ⟨t₁, hparents, hensure⟩ := bind_eq_ok.mp h
      rw [ensureDir] at hensure
      split at hensure
      · rename_i hmkdir
        cases hensure
        exact ih hparents (file_of_mkdir hmkdir hfile)
      · split at hensure
        · cases hensure
          exact ih hparents hfile
        · cases hensure
    · split at h
      · cases h
        exact hfile
      · cases h

end Directories

section Files

/-- A file may be put there: no file is above, and no directory is in its place. -/
structure Free (t : FileTree) (p : Path) : Prop where
  above : ∀ q, q <:+ p → q ≠ p → ¬t.IsFile q
  notDir : t.node p ≠ some .dir

def Apart (p q : Path) : Prop := (p <:+ q → p = q) ∧ (q <:+ p → q = p)

theorem Apart.symm (h : Apart p q) : Apart q p := ⟨h.2, h.1⟩

variable {content : List Char}

theorem clean_cons (h : clean (c :: p) = c :: p) : c ≠ ['.'] ∧ clean p = p := by
  have hall := List.filter_eq_self.mp h
  refine ⟨by simpa using hall c (by simp), List.filter_eq_self.mpr fun d hd ↦ ?_⟩
  exact hall d (List.mem_cons_of_mem c hd)

theorem write_eq_ok (hclean : clean (c :: p) = c :: p) (h : write L t (c :: p) content = .ok t') :
    L.fits (c :: p) = true ∧ t.node (c :: p) ≠ some .dir ∧
      ∀ q, t'.node q = if q = c :: p then some (.file content) else t.node q := by
  obtain ⟨-, hp⟩ := clean_cons hclean
  rw [write] at h
  split at h
  · rename_i hfits
    split at h
    · cases h
    · cases h
    · split at h
      · cases h
      split at h
      · cases h
      · rename_i hfree
        cases h
        refine ⟨hfits, hp ▸ hfree, fun q ↦ ?_⟩
        rw [node_put, hp]
  · cases h

theorem write_of_free (hclean : clean (c :: p) = c :: p) (hfits : L.fits (c :: p) = true)
    (hparent : t.node p = some .dir) (hfree : t.node (c :: p) ≠ some .dir) :
    ∃ t', write L t (c :: p) content = .ok t' := by
  obtain ⟨hdot, hp⟩ := clean_cons hclean
  rw [write, if_pos hfits]
  split
  · simp_all
  · simp_all
  · rw [if_neg hdot]
    exact ⟨_, dif_neg (hp.symm ▸ hfree)⟩

/-- The files behind `place` are those before it and the new one. -/
theorem file_of_place {content' : List Char} (h : place L t p content = .ok t')
    (hfile : t'.node q = some (.file content')) :
    content' = content ∨ t.node q = some (.file content') := by
  obtain ⟨t₁, hparents, hwrite⟩ := bind_eq_ok.mp h
  cases p with
  | nil => cases hwrite
  | cons c p =>
    rw [write] at hwrite
    split at hwrite
    · split at hwrite
      · cases hwrite
      · cases hwrite
      · split at hwrite
        · cases hwrite
        split at hwrite
        · cases hwrite
        · cases hwrite
          rw [node_put] at hfile
          split at hfile
          · cases hfile
            exact .inl rfl
          · exact .inr (file_of_createDirAll hparents hfile)
    · cases hwrite

theorem place_eq_ok (hclean : clean p = p) (h : place L t p content = .ok t') :
    L.fits p = true ∧ t.Free p ∧ ∀ q, t'.node q =
      if q = p then some (.file content) else if q <:+ p then some .dir else t.node q := by
  obtain ⟨t₁, hparents, hwrite⟩ := bind_eq_ok.mp h
  rw [hclean] at hparents
  cases p with
  | nil => cases hwrite
  | cons c p =>
    obtain ⟨hfits, hdir, hnodes⟩ := write_eq_ok hclean hwrite
    have hopen (q : Path) (hq : q <:+ p) : ¬t.IsFile q := not_isFile_of_createDirAll hparents hq
    obtain ⟨t₂, hparents₂, hnodes₁⟩ := createDirAll_ok (fits_of_cons hfits) hopen
    obtain rfl : t₁ = t₂ := Except.ok.inj (hparents.symm.trans hparents₂)
    refine ⟨hfits, ⟨?_, ?_⟩, fun q ↦ ?_⟩
    · intro q hq hne
      exact hopen q ((List.suffix_cons_iff.mp hq).resolve_left hne)
    · rwa [hnodes₁, if_neg (not_suffix_self_cons c p)] at hdir
    · rw [hnodes, ite_suffix_cons, hnodes₁]
      split
      · rfl
      · rfl

theorem place_of_free (hclean : clean p = p) (hfits : L.fits p = true) (hfree : t.Free p) :
    ∃ t', place L t p content = .ok t' := by
  cases p with
  | nil => exact absurd t.node_root hfree.notDir
  | cons c p =>
    have hopen (q : Path) (hq : q <:+ p) : ¬t.IsFile q := by
      refine hfree.above q (hq.trans (List.suffix_cons c p)) ?_
      rintro rfl
      exact not_suffix_self_cons c p hq
    obtain ⟨t₁, hparents, hnodes⟩ := createDirAll_ok (fits_of_cons hfits) hopen
    have hparent : t₁.node p = some .dir := by rw [hnodes, if_pos List.suffix_rfl]
    have hdir : t₁.node (c :: p) ≠ some .dir := by
      rw [hnodes, if_neg (not_suffix_self_cons c p)]
      exact hfree.notDir
    obtain ⟨t₂, hwrite⟩ := write_of_free hclean hfits hparent hdir
    refine ⟨t₂, bind_eq_ok.mpr ⟨t₁, ?_, hwrite⟩⟩
    rw [hclean]
    exact hparents

theorem free_place_iff (hp : t.Free p) (hnodes : ∀ q, t'.node q =
    if q = p then some (.file content) else if q <:+ p then some .dir else t.node q) :
    t'.Free q ↔ t.Free q ∧ Apart p q := by
  have hself : t'.IsFile p := ⟨content, by rw [hnodes, if_pos rfl]⟩
  have habove {r : Path} (hr : r <:+ p) (hne : r ≠ p) : t'.node r = some .dir := by
    rw [hnodes, if_neg hne, if_pos hr]
  have helse {r : Path} (hr : ¬r <:+ p) : t'.node r = t.node r := by
    have hne : r ≠ p := by
      rintro rfl
      exact hr List.suffix_rfl
    rw [hnodes, if_neg hne, if_neg hr]
  constructor
  · intro hq
    refine ⟨⟨?_, ?_⟩, ?_, ?_⟩
    · intro r hr hne hfile
      by_cases hrp : r <:+ p
      · by_cases heq : r = p
        · exact hq.above r hr hne (heq ▸ hself)
        · exact hp.above r hrp heq hfile
      · apply hq.above r hr hne
        rwa [IsFile, helse hrp]
    · intro hdir
      by_cases hqp : q <:+ p
      · by_cases heq : q = p
        · exact hp.notDir (heq ▸ hdir)
        · exact hq.notDir (habove hqp heq)
      · exact hq.notDir ((helse hqp).trans hdir)
    · intro hpq
      by_contra hne
      exact hq.above p hpq hne hself
    · intro hqp
      by_contra hne
      exact hq.notDir (habove hqp hne)
  · rintro ⟨hq, hbelow, habove'⟩
    refine ⟨?_, ?_⟩
    · intro r hr hne hfile
      by_cases hrp : r <:+ p
      · by_cases heq : r = p
        · rw [heq] at hr hne
          exact hne (hbelow hr)
        · exact not_isFile_of_dir (habove hrp heq) hfile
      · rw [IsFile, helse hrp] at hfile
        exact hq.above r hr hne hfile
    · intro hdir
      by_cases hqp : q <:+ p
      · rw [habove' hqp] at hdir
        exact not_isFile_of_dir hdir hself
      · exact hq.notDir ((helse hqp).symm.trans hdir)

def placeAll (L : Limits) (t : FileTree) (files : List (Path × List Char)) :
    Except FsError FileTree :=
  files.foldlM (fun t f ↦ place L t f.1 f.2) t

variable {files : List (Path × List Char)}

/-- Files are placed just when each may be and no two are in each other's way. -/
theorem placeAll_succeeds_iff (hclean : ∀ f ∈ files, clean f.1 = f.1) :
    Succeeds (placeAll L t files) ↔
      (∀ f ∈ files, L.fits f.1 = true ∧ t.Free f.1) ∧ files.Pairwise fun f g ↦ Apart f.1 g.1 := by
  induction files generalizing t with
  | nil => simp [placeAll, succeeds_pure]
  | cons f files ih =>
    obtain ⟨hf, hfiles⟩ := List.forall_mem_cons.mp hclean
    have hstep : placeAll L t (f :: files) = place L t f.1 f.2 >>= (placeAll L · files) := rfl
    rw [hstep, succeeds_bind, List.forall_mem_cons, List.pairwise_cons]
    constructor
    · rintro ⟨t₁, hplace, hrest⟩
      obtain ⟨hfits, hfree, hnodes⟩ := place_eq_ok hf hplace
      obtain ⟨hall, hpairs⟩ := (ih hfiles).mp hrest
      have hboth (g : Path × List Char) (hg : g ∈ files) :=
        (free_place_iff hfree hnodes).mp (hall g hg).2
      exact ⟨⟨⟨hfits, hfree⟩, fun g hg ↦ ⟨(hall g hg).1, (hboth g hg).1⟩⟩,
        fun g hg ↦ (hboth g hg).2, hpairs⟩
    · rintro ⟨⟨⟨hfits, hfree⟩, hall⟩, hapart, hpairs⟩
      obtain ⟨t₁, hplace⟩ := place_of_free hf hfits hfree
      obtain ⟨-, -, hnodes⟩ := place_eq_ok hf hplace
      refine ⟨t₁, hplace, (ih hfiles).mpr ⟨fun g hg ↦ ⟨(hall g hg).1, ?_⟩, hpairs⟩⟩
      exact (free_place_iff hfree hnodes).mpr ⟨(hall g hg).2, hapart g hg⟩

/-- Elsewhere a file leaves everything as it is, but for new directories. -/
theorem node_of_place (hp : t.Free p) (hnodes : ∀ q, t'.node q =
    if q = p then some (.file content) else if q <:+ p then some .dir else t.node q)
    (hne : q ≠ p) : t'.node q = t.node q ∨ t.node q = none ∧ t'.node q = some .dir := by
  rw [hnodes, if_neg hne]
  split
  · rename_i hq
    cases hnode : t.node q with
    | none => exact .inr ⟨rfl, rfl⟩
    | some n =>
      cases n with
      | dir => exact .inl rfl
      | file content => exact absurd ⟨content, hnode⟩ (hp.above q hq hne)
  · exact .inl rfl

/-- What is there when all files are placed. -/
theorem node_placeAll (hclean : ∀ f ∈ files, clean f.1 = f.1)
    (hdistinct : (files.map Prod.fst).Nodup) (h : placeAll L t files = .ok t') (q : Path) :
    (∀ content, (q, content) ∈ files → t'.node q = some (.file content)) ∧
      (q ∉ files.map Prod.fst →
        t'.node q = t.node q ∨ t.node q = none ∧ t'.node q = some .dir) := by
  induction files generalizing t with
  | nil =>
    cases h
    simp
  | cons f files ih =>
    obtain ⟨hf, hfiles⟩ := List.forall_mem_cons.mp hclean
    rw [List.map_cons, List.nodup_cons] at hdistinct
    obtain ⟨t₁, hplace, hrest⟩ := bind_eq_ok.mp (show place L t f.1 f.2 >>= _ = _ from h)
    obtain ⟨-, hfree, hnodes⟩ := place_eq_ok hf hplace
    obtain ⟨hin, hout⟩ := ih hfiles hdistinct.2 hrest
    constructor
    · intro content hmem
      rcases List.mem_cons.mp hmem with rfl | hmem
      · have hself : t₁.node q = some (.file content) := by rw [hnodes, if_pos rfl]
        obtain hsame | ⟨hnone, -⟩ := hout hdistinct.1
        · exact hsame.trans hself
        · rw [hself] at hnone
          cases hnone
      · exact hin content hmem
    · intro hq
      rw [List.map_cons, List.mem_cons, not_or] at hq
      obtain hfirst | ⟨hnone, hdir⟩ := node_of_place hfree hnodes hq.1
      · rw [← hfirst]
        exact hout hq.2
      · obtain hsame | ⟨hnone₁, -⟩ := hout hq.2
        · exact .inr ⟨hnone, hsame.trans hdir⟩
        · rw [hdir] at hnone₁
          cases hnone₁

end Files

end FileTree

end Buzz.Lib
