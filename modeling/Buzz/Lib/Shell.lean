import Mathlib.Data.List.Induction
import Buzz.Lib.Utf8

namespace Buzz.Lib.Shell

section Read

/-- The default `IFS`. -/
def isBlank (c : Char) : Bool := c = ' ' || c = '\t' || c = '\n'

/-- The characters of a line for `read -r`: none is quoted. -/
def raw (line : List Char) : List (Char × Bool) := line.map (·, false)

/-- The characters of a line for `read`: a backslash quotes the next one. -/
def unescape : List Char → List (Char × Bool)
  | '\\' :: c :: line => (c, true) :: unescape line
  | ['\\'] => []
  | c :: line => (c, false) :: unescape line
  | [] => []

def delimits (ifs : Char → Bool) (c : Char × Bool) : Bool := !c.2 && ifs c.1

def inWord (ifs : Char → Bool) (c : Char × Bool) : Bool := !delimits ifs c

/-- `read` into `n + 1` variables, the last of which takes what is left. -/
def read (ifs : Char → Bool) : ℕ → List (Char × Bool) → List (List Char)
  | 0, line =>
    let rest := line.dropWhile (delimits ifs)
    [((rest.reverse.dropWhile (delimits ifs)).reverse).map Prod.fst]
  | n + 1, line =>
    let rest := line.dropWhile (delimits ifs)
    (rest.takeWhile (inWord ifs)).map Prod.fst :: read ifs n (rest.dropWhile (inWord ifs))

variable {ifs : Char → Bool} {word line : List Char} {n : ℕ}

@[simp] theorem map_fst_raw (line : List Char) : (raw line).map Prod.fst = line := by
  simp [raw, Function.comp_def]

theorem unescape_eq_raw (h : '\\' ∉ line) : unescape line = raw line := by
  induction line with
  | nil => rfl
  | cons c line ih =>
    simp only [List.mem_cons, not_or] at h
    rw [unescape.eq_def]
    split
    · rename_i heq
      cases heq
      exact absurd rfl h.1
    · rename_i heq
      cases heq
      exact absurd rfl h.1
    · rename_i heq
      cases heq
      rw [ih h.2]
      rfl
    · rename_i heq
      cases heq

/-- A word for `read`: not empty, without separators. -/
structure Word (ifs : Char → Bool) (word : List Char) : Prop where
  nonempty : word ≠ []
  solid : ∀ c ∈ word, ifs c = false

theorem Word.dropWhile (h : Word ifs word) (rest : List (Char × Bool)) :
    (raw word ++ rest).dropWhile (delimits ifs) = raw word ++ rest := by
  obtain ⟨c, cs, rfl⟩ := List.exists_cons_of_ne_nil h.nonempty
  have hc : delimits ifs (c, false) = false := by simp [delimits, h.solid c]
  rw [raw, List.map_cons, List.cons_append, List.dropWhile_cons_of_neg (by simp [hc])]

theorem read_delimiter {c : Char} (hc : ifs c = true) (n : ℕ) (rest : List (Char × Bool)) :
    read ifs n ((c, false) :: rest) = read ifs n rest := by
  have hdrop : ((c, false) :: rest).dropWhile (delimits ifs) = rest.dropWhile (delimits ifs) :=
    List.dropWhile_cons_of_pos (by simp [delimits, hc])
  cases n with
  | zero => rw [read, read, hdrop]
  | succ n => rw [read, read, hdrop]

theorem read_word (h : Word ifs word) {c : Char} (hc : ifs c = true) (n : ℕ) (rest : List Char) :
    read ifs (n + 1) (raw (word ++ c :: rest)) = word :: read ifs n (raw rest) := by
  have hsolid : ∀ p ∈ raw word, inWord ifs p = true := by
    intro p hp
    obtain ⟨d, hd, rfl⟩ := List.mem_map.mp hp
    simp [inWord, delimits, h.solid d hd]
  have hstop : ¬inWord ifs (c, false) = true := by simp [inWord, delimits, hc]
  have hraw : raw (word ++ c :: rest) = raw word ++ (c, false) :: raw rest := List.map_append
  rw [read, hraw, h.dropWhile, List.takeWhile_append_of_pos hsolid,
    List.dropWhile_append_of_pos hsolid, List.takeWhile_cons_of_neg hstop,
    List.dropWhile_cons_of_neg hstop, read_delimiter hc, List.append_nil, map_fst_raw]

theorem read_last (h : Word ifs word) : read ifs 0 (raw word) = [word] := by
  have hfirst := h.dropWhile []
  have hlast : Word ifs word.reverse := ⟨by simp [h.nonempty], by simpa using h.solid⟩
  have hback := hlast.dropWhile []
  rw [List.append_nil] at hfirst hback
  have hreverse : (raw word).reverse = raw word.reverse := List.map_reverse.symm
  rw [read, hfirst, hreverse, hback, ← hreverse, List.reverse_reverse, map_fst_raw]

end Read

section Text

def capture (output : List Char) : List Char := (output.reverse.dropWhile (· = '\n')).reverse

/-- `sed 's/c/by/g'`. -/
def substitute (c : Char) (by_ : List Char) (text : List Char) : List Char :=
  text.flatMap fun d ↦ if d = c then by_ else [d]

theorem capture_eq_self {output : List Char} (h : output.getLast? ≠ some '\n') :
    capture output = output := by
  induction output using List.reverseRecOn with
  | nil => rfl
  | append_singleton output c =>
    have hc : c ≠ '\n' := by simpa using h
    simp [capture, hc]

theorem capture_prefix (output : List Char) : capture output <+: output := by
  have hsuffix := List.dropWhile_suffix (l := output.reverse) (· = '\n')
  rw [← List.reverse_prefix, List.reverse_reverse] at hsuffix
  exact hsuffix

theorem capture_append (output output' : List Char) :
    capture (output ++ output') =
      if capture output' = [] then capture output else output ++ capture output' := by
  simp only [capture, List.reverse_append, List.dropWhile_append, List.reverse_eq_nil_iff,
    List.isEmpty_iff]
  split
  · rfl
  · rw [List.reverse_append, List.reverse_reverse]

end Text

section Order

/-- The order of bytes, in which `sort` compares in the C locale. -/
def bytesLe : List UInt8 → List UInt8 → Bool
  | [], _ => true
  | _ :: _, [] => false
  | a :: as, b :: bs => a < b || (a == b && bytesLe as bs)

def sort (lines : List (List Char)) : List (List Char) :=
  lines.mergeSort fun a b ↦ bytesLe (Utf8.encode a) (Utf8.encode b)

theorem bytesLe_cons {a b : UInt8} {as bs : List UInt8} :
    bytesLe (a :: as) (b :: bs) = true ↔ a < b ∨ a = b ∧ bytesLe as bs = true := by
  simp [bytesLe]

theorem bytesLe_trans {as bs cs : List UInt8} (hab : bytesLe as bs = true)
    (hbc : bytesLe bs cs = true) : bytesLe as cs = true := by
  induction as generalizing bs cs with
  | nil => simp [bytesLe]
  | cons a as ih =>
    cases bs with
    | nil => simp [bytesLe] at hab
    | cons b bs =>
      cases cs with
      | nil => simp [bytesLe] at hbc
      | cons c cs =>
        rw [bytesLe_cons] at hab hbc ⊢
        obtain hab | ⟨rfl, hab⟩ := hab
        · obtain hbc | ⟨rfl, -⟩ := hbc
          · exact .inl (UInt8.lt_trans hab hbc)
          · exact .inl hab
        · obtain hbc | ⟨rfl, hbc⟩ := hbc
          · exact .inl hbc
          · exact .inr ⟨rfl, ih hab hbc⟩

theorem bytesLe_total (as bs : List UInt8) : (bytesLe as bs || bytesLe bs as) = true := by
  induction as generalizing bs with
  | nil => simp [bytesLe]
  | cons a as ih =>
    cases bs with
    | nil => simp [bytesLe]
    | cons b bs =>
      rw [Bool.or_eq_true, bytesLe_cons, bytesLe_cons]
      by_cases heq : a = b
      · have hrest := ih bs
        rw [Bool.or_eq_true] at hrest
        exact hrest.imp (fun h ↦ .inr ⟨heq, h⟩) fun h ↦ .inr ⟨heq.symm, h⟩
      · exact (UInt8.lt_or_lt_of_ne heq).imp .inl .inl

theorem bytesLe_antisymm {as bs : List UInt8} (hab : bytesLe as bs = true)
    (hba : bytesLe bs as = true) : as = bs := by
  induction as generalizing bs with
  | nil =>
    cases bs with
    | nil => rfl
    | cons b bs => simp [bytesLe] at hba
  | cons a as ih =>
    cases bs with
    | nil => simp [bytesLe] at hab
    | cons b bs =>
      rw [bytesLe_cons] at hab hba
      obtain hab | ⟨rfl, hab⟩ := hab
      · obtain hba | ⟨rfl, -⟩ := hba
        · exact absurd hba (UInt8.lt_asymm hab)
        · exact absurd hab (UInt8.lt_irrefl _)
      · obtain hba | ⟨-, hba⟩ := hba
        · exact absurd hba (UInt8.lt_irrefl _)
        · rw [ih hab hba]

/-- Behind a byte below all of theirs, what follows two different texts does not count. -/
theorem bytesLe_append {as bs : List UInt8} {sep : UInt8} (ha : ∀ a ∈ as, sep < a)
    (hb : ∀ b ∈ bs, sep < b) (hne : as ≠ bs) (xs ys : List UInt8) :
    bytesLe (as ++ sep :: xs) (bs ++ sep :: ys) = bytesLe as bs := by
  induction as generalizing bs with
  | nil =>
    cases bs with
    | nil => exact absurd rfl hne
    | cons b bs => simp [bytesLe, hb b]
  | cons a as ih =>
    cases bs with
    | nil =>
      have hlt := ha a (by simp)
      have hgt : ¬a < sep := UInt8.lt_asymm hlt
      have hsep : a ≠ sep := by
        rintro rfl
        exact UInt8.lt_irrefl _ hlt
      simp [bytesLe, hgt, hsep]
    | cons b bs =>
      rw [Bool.eq_iff_iff, List.cons_append, List.cons_append, bytesLe_cons, bytesLe_cons]
      refine or_congr_right (and_congr_right ?_)
      rintro rfl
      rw [ih (fun x hx ↦ ha x (by simp [hx])) (fun x hx ↦ hb x (by simp [hx])) (by simpa using hne)]

end Order

end Buzz.Lib.Shell
