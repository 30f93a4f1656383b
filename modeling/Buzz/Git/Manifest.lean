import Buzz.Lib.Decimal
import Buzz.Lib.JsonRoundTrip
import Buzz.Lib.SortedMap
import Mathlib.Data.List.Destutter
import Mathlib.Data.List.Sort

namespace Buzz.Git

open Buzz.Lib Buzz.Lib.Hex

def manifestVersion : UInt32 := 1
def maxManifestPacks : ℕ := 128
def packCompactionThreshold : ℕ := maxManifestPacks * 3 / 4
def maxManifestRefs : ℕ := 10000

abbrev Refs := StringMap String

structure Manifest where
  version : UInt32
  head : String
  refs : Refs
  packs : List String
  parent : Option String
deriving DecidableEq

inductive ManifestError
  | serde
  | unsupportedVersion (got expected : UInt32)
  | unsafeRefName (name : String)
  | malformedOid (refname oid : String)
  | emptyHead
  | malformedParent (parent : String)
  | tooManyPacks (got max : ℕ)
  | tooManyRefs (got max : ℕ)
  | malformedPackKey (key : String)
deriving DecidableEq

def isSafeRefname (s : String) : Bool :=
  let cs := s.toList
  "refs/".toList.isPrefixOf cs && !decide ("..".toList <:+: cs) && !decide ("//".toList <:+: cs) &&
    !"/".toList.isPrefixOf cs && !"/".toList.isSuffixOf cs &&
    cs.all fun c ↦ c.isAlphanum || c == '/' || c == '_' || c == '.' || c == '-'

def isHexOid (s : String) : Bool :=
  (s.length == 40 || s.length == 64) && s.toList.all isHexDigit

def isManifestDigest (s : String) : Bool := s.length == 64 && s.toList.all isLowerHexDigit

def stripPrefix (p s : String) : Option String :=
  if p.toList.isPrefixOf s.toList then some (String.ofList (s.toList.drop p.length)) else none

def isPackKey (s : String) : Bool := (stripPrefix "packs/" s).any isManifestDigest

namespace Manifest

def validateRef (ref : String × String) : Option ManifestError :=
  if !isSafeRefname ref.1 then some (.unsafeRefName ref.1)
  else if !isHexOid ref.2 then some (.malformedOid ref.1 ref.2)
  else none

def validatePack (key : String) : Option ManifestError :=
  if !isPackKey key then some (.malformedPackKey key) else none

def validate (m : Manifest) : Option ManifestError :=
  if m.packs.length > maxManifestPacks then some (.tooManyPacks m.packs.length maxManifestPacks)
  else if m.refs.len > maxManifestRefs then some (.tooManyRefs m.refs.len maxManifestRefs)
  else if m.head.isEmpty then some .emptyHead
  else if !isSafeRefname m.head then some (.unsafeRefName m.head)
  else
    match m.refs.entries.findSome? validateRef with
    | some e => some e
    | none =>
      match m.packs.findSome? validatePack with
      | some e => some e
      | none =>
        match m.parent with
        | some p => if !isManifestDigest p then some (.malformedParent p) else none
        | none => none

end Manifest

def sortDedup (packs : List String) : List String :=
  (packs.insertionSort fun a b ↦ ¬StringLt b a).destutter (· ≠ ·)

namespace Manifest

def fields (m : Manifest) : List (String × Json) :=
  [("version", .num (toString m.version.toNat)), ("head", .str m.head),
    ("refs", .obj (m.refs.entries.map fun e ↦ (e.1, .str e.2))),
    ("packs", .arr (m.packs.map .str)),
    ("parent", match m.parent with | none => .null | some p => .str p)]

def canonical (m : Manifest) : Manifest := { m with packs := sortDedup m.packs }

def canonicalBytes (m : Manifest) : String := String.ofList (Json.obj m.canonical.fields).render

section Decode

def pushDigit (n : ℕ) (c : Char) : Option ℕ :=
  if c.isDigit then some (10 * n + (c.toNat - '0'.toNat)) else none

def decodeU32 : Json → Option UInt32
  | .num lexeme =>
    if lexeme.isEmpty then none
    else (lexeme.toList.foldlM pushDigit 0).bind fun n ↦
      if n < 2 ^ 32 then some (.ofNat n) else none
  | _ => none

def decodeStr : Json → Option String
  | .str s => some s
  | _ => none

def insertRef (refs : Refs) (field : String × Json) : Option Refs :=
  (decodeStr field.2).map fun oid ↦ refs.insert field.1 oid

def decodeRefs : Json → Option Refs
  | .obj fields => fields.foldlM insertRef ∅
  | _ => none

def decodePacks : Json → Option (List String)
  | .arr elems => elems.mapM decodeStr
  | _ => none

def decodeParent : Option Json → Option (Option String)
  | none => some none
  | some .null => some none
  | some v => (decodeStr v).map some

def fieldNames : List String := ["version", "head", "refs", "packs", "parent"]

def decode : Json → Option Manifest
  | .obj fields =>
    if !Json.noDuplicateField fieldNames fields then none
    else match (fields.lookup "version").bind decodeU32, (fields.lookup "head").bind decodeStr,
        (fields.lookup "refs").bind decodeRefs, (fields.lookup "packs").bind decodePacks,
        decodeParent (fields.lookup "parent") with
    | some version, some head, some refs, some packs, some parent =>
      some ⟨version, head, refs, packs, parent⟩
    | _, _, _, _, _ => none
  | _ => none

def fromBytes (text : String) : Except ManifestError Manifest :=
  match (Json.parseRaw text).bind decode with
  | none => .error .serde
  | some m =>
    if m.version ≠ manifestVersion then .error (.unsupportedVersion m.version manifestVersion)
    else .ok m

end Decode

section RoundTrip

open Json

theorem foldlM_insertRef {entries : List (String × String)} {refs : Refs}
    (h : (refs.entries ++ entries).Pairwise fun a b ↦ StringLt a.1 b.1) :
    (entries.map fun e ↦ (e.1, Json.str e.2)).foldlM insertRef refs =
      some ⟨refs.entries ++ entries, h⟩ := by
  induction entries generalizing refs with
  | nil => simp
  | cons e entries ih =>
    have hacc := (List.pairwise_append.mp h).2.2
    have hlast : (refs.insert e.1 e.2).entries = refs.entries ++ [e] :=
      SortedMap.insertEntry_last fun e' he' ↦ hacc e' he' e List.mem_cons_self
    have hstep : insertRef refs (e.1, .str e.2) = some (refs.insert e.1 e.2) := rfl
    rw [List.map_cons, List.foldlM_cons, hstep]
    have hrest : ((refs.insert e.1 e.2).entries ++ entries).Pairwise
        fun a b ↦ StringLt a.1 b.1 := by
      rw [hlast, List.append_assoc]
      exact h
    refine (ih hrest).trans ?_
    simp only [hlast, List.append_assoc, List.cons_append, List.nil_append]

theorem decodeRefs_refs (refs : Refs) :
    decodeRefs (.obj (refs.entries.map fun e ↦ (e.1, .str e.2))) = some refs := by
  have hsorted : ((∅ : Refs).entries ++ refs.entries).Pairwise fun a b ↦ StringLt a.1 b.1 :=
    refs.sorted
  exact foldlM_insertRef hsorted

theorem decodePacks_packs (packs : List String) :
    decodePacks (.arr (packs.map .str)) = some packs := by
  rw [decodePacks]
  induction packs with
  | nil => rfl
  | cons key packs ih =>
    rw [List.map_cons, List.mapM_cons, ih]
    rfl

theorem canonical_fields {m : Manifest} {field : String × Json} (h : field ∈ m.fields) :
    field.2.Canonical := by
  simp only [fields, List.mem_cons, List.not_mem_nil, or_false] at h
  rcases h with rfl | rfl | rfl | rfl | rfl
  · exact .nat _
  · exact .str _
  · refine .obj (ofFields_sorted ?_) ?_
    · exact List.pairwise_map.mpr m.refs.sorted
    · intro f hf
      obtain ⟨e, -, rfl⟩ := List.mem_map.mp hf
      exact .str _
  · refine .arr ?_
    intro v hv
    obtain ⟨key, -, rfl⟩ := List.mem_map.mp hv
    exact .str _
  · cases m.parent with
    | none => exact .null
    | some p => exact .str _

theorem parseRaw_canonicalBytes (m : Manifest) :
    Json.parseRaw m.canonicalBytes = some (.obj m.canonical.fields) := by
  apply Parses.parseRaw
  rw [canonicalBytes, String.toList_ofList, render]
  refine parses_obj (List.forall₂_map_right_iff.mpr (List.forall₂_same.mpr ?_))
  intro field hfield
  exact ⟨_, rfl, (canonical_fields hfield).parses fun _ _ ↦ rfl⟩

theorem foldlM_pushDigit {cs : List Char} (h : cs.all Char.isDigit = true) (n : ℕ) :
    cs.foldlM pushDigit n = some (Nat.ofDigitChars 10 cs n) := by
  induction cs generalizing n with
  | nil => rfl
  | cons c cs ih =>
    rw [List.all_cons, Bool.and_eq_true] at h
    rw [List.foldlM_cons, pushDigit, if_pos h.1]
    exact ih h.2 _

theorem decodeU32_toString (v : UInt32) : decodeU32 (.num (toString v.toNat)) = some v := by
  have hlist := Decimal.toList_toString v.toNat
  have hne : (toString v.toNat).isEmpty = false := by
    rw [Bool.eq_false_iff, ne_eq, String.isEmpty_iff]
    intro hempty
    rw [hempty] at hlist
    exact Nat.toDigits_ne_nil hlist.symm
  have hdigits : (toString v.toNat).toList.foldlM pushDigit 0 = some v.toNat := by
    rw [hlist, foldlM_pushDigit (Decimal.all_isDigit_toDigits _), Nat.ofDigitChars_ten_toDigits]
  rw [decodeU32, hne, if_neg Bool.false_ne_true, hdigits, Option.bind_some, if_pos v.toNat_lt,
    UInt32.ofNat_toNat]

/-- Every field is read back, the version of the schema left unchecked. -/
theorem decode_fields (m : Manifest) : decode (.obj m.fields) = some m := by
  have hparent : decodeParent (some (match m.parent with | none => .null | some p => .str p)) =
      some m.parent := by
    cases m.parent with
    | none => rfl
    | some p => rfl
  have honce : noDuplicateField fieldNames m.fields = true := by
    simp [noDuplicateField, fieldNames, fields]
  rw [decode, honce, fields]
  simp only [Bool.not_true, Bool.false_eq_true, if_false, List.lookup_cons, String.reduceBEq,
    Option.bind_some, hparent, decodeU32_toString, decodeRefs_refs, decodePacks_packs, decodeStr]

/-- A manifest of the current version is read back as it was written, its packs sorted. -/
theorem fromBytes_canonicalBytes {m : Manifest} (hversion : m.version = manifestVersion) :
    fromBytes m.canonicalBytes = .ok m.canonical := by
  have hcanonical : m.canonical.version = manifestVersion := hversion
  rw [fromBytes, parseRaw_canonicalBytes, Option.bind_some, decode_fields]
  simp [hcanonical]

end RoundTrip

end Manifest

section SortDedup

theorem mem_destutter'_ne {α : Type*} [DecidableEq α] {a x : α} {l : List α} :
    x ∈ l.destutter' (· ≠ ·) a ↔ x = a ∨ x ∈ l := by
  induction l generalizing a with
  | nil => simp
  | cons b l ih =>
    rw [List.destutter'_cons]
    split
    · rw [List.mem_cons, ih, List.mem_cons]
    · next hab =>
      obtain rfl : a = b := not_not.mp hab
      rw [ih, List.mem_cons, ← or_assoc, or_self]

theorem mem_destutter_ne {α : Type*} [DecidableEq α] {x : α} {l : List α} :
    x ∈ l.destutter (· ≠ ·) ↔ x ∈ l := by
  cases l with
  | nil => simp
  | cons a l => rw [List.destutter_cons', mem_destutter'_ne, List.mem_cons]

theorem mem_sortDedup {packs : List String} {key : String} :
    key ∈ sortDedup packs ↔ key ∈ packs := by
  rw [sortDedup, mem_destutter_ne, List.mem_insertionSort]

theorem pairwise_sortDedup (packs : List String) : (sortDedup packs).Pairwise StringLt := by
  have htotal : Std.Total fun a b : String ↦ ¬StringLt b a := by
    constructor
    intro a b
    by_contra h
    rw [not_or, not_not, not_not] at h
    exact Std.Irrefl.irrefl _ (Trans.trans h.1 h.2 : StringLt b b)
  have htrans : IsTrans String fun a b ↦ ¬StringLt b a := by
    constructor
    intro a b c hab hbc hca
    by_cases hcb : StringLt c b
    · exact hbc hcb
    by_cases hbc' : StringLt b c
    · exact hab (Trans.trans hbc' hca)
    · obtain rfl := Std.Trichotomous.trichotomous _ _ hbc' hcb
      exact hab hca
  have hsorted := List.pairwise_insertionSort (fun a b : String ↦ ¬StringLt b a) packs
  have hchain : (sortDedup packs).IsChain (· ≠ ·) := List.isChain_destutter _ _
  have hle : (sortDedup packs).Pairwise fun a b ↦ ¬StringLt b a :=
    hsorted.sublist (List.destutter_sublist _ _)
  apply List.IsChain.pairwise
  rw [List.isChain_iff_forall_rel_of_append_cons_cons]
  intro a b front back hsplit
  by_contra hlt
  exact List.isChain_iff_forall_rel_of_append_cons_cons.mp hchain hsplit
    (Std.Trichotomous.trichotomous _ _ hlt
      (List.isChain_iff_forall_rel_of_append_cons_cons.mp hle.isChain hsplit))

/-- Sorted and deduplicated, two lists are the same just in case they have the same members. -/
theorem sortDedup_eq_iff {packs packs' : List String} :
    sortDedup packs = sortDedup packs' ↔ ∀ key, key ∈ packs ↔ key ∈ packs' := by
  constructor
  · intro h key
    rw [← mem_sortDedup, h, mem_sortDedup]
  · intro h
    have hirrefl (a b : String) (hab : StringLt a b) (hba : StringLt b a) : a = b :=
      absurd (Trans.trans hab hba : StringLt a a) (Std.Irrefl.irrefl _)
    have hnodup (keys : List String) : (sortDedup keys).Nodup := by
      refine (pairwise_sortDedup keys).imp ?_
      rintro a b hab rfl
      exact Std.Irrefl.irrefl _ hab
    refine List.Perm.eq_of_pairwise (fun a b _ _ ↦ hirrefl a b) (pairwise_sortDedup packs)
      (pairwise_sortDedup packs') ?_
    rw [List.perm_ext_iff_of_nodup (hnodup packs) (hnodup packs')]
    intro key
    rw [mem_sortDedup, mem_sortDedup, h]

end SortDedup

namespace Manifest

theorem decode_canonicalBytes (m : Manifest) :
    (Json.parseRaw m.canonicalBytes).bind decode = some m.canonical := by
  rw [parseRaw_canonicalBytes, Option.bind_some, decode_fields]

theorem canonicalBytes_inj {m n : Manifest} :
    m.canonicalBytes = n.canonicalBytes ↔ m.canonical = n.canonical := by
  constructor
  · intro h
    have hm := m.decode_canonicalBytes
    rw [h, n.decode_canonicalBytes] at hm
    exact (Option.some.inj hm).symm
  · intro h
    have hfields : m.canonical.fields = n.canonical.fields := congrArg fields h
    rw [canonicalBytes, canonicalBytes, hfields]

structure SameState (m n : Manifest) : Prop where
  version : m.version = n.version
  head : m.head = n.head
  refs : ∀ name, m.refs.get name = n.refs.get name
  packs : ∀ key, key ∈ m.packs ↔ key ∈ n.packs
  parent : m.parent = n.parent

theorem canonical_eq_iff {m n : Manifest} : m.canonical = n.canonical ↔ SameState m n := by
  constructor
  · intro h
    simp only [canonical, Manifest.mk.injEq] at h
    obtain ⟨hversion, hhead, hrefs, hpacks, hparent⟩ := h
    exact ⟨hversion, hhead, fun name ↦ by rw [hrefs], sortDedup_eq_iff.mp hpacks, hparent⟩
  · intro h
    have hrefs : m.refs = n.refs := SortedMap.ext h.refs
    simp only [canonical, Manifest.mk.injEq]
    exact ⟨h.version, h.head, hrefs, sortDedup_eq_iff.mpr h.packs, h.parent⟩

/-- What was written is read back, and the bytes are a name of the state. -/
theorem manifest_bytes_canonical :
    (∀ m : Manifest, fromBytes m.canonicalBytes =
      if m.version = manifestVersion then .ok m.canonical
      else .error (.unsupportedVersion m.version manifestVersion)) ∧
    (∀ m : Manifest, m.canonical.packs.Pairwise StringLt ∧
      ∀ key, key ∈ m.canonical.packs ↔ key ∈ m.packs) ∧
    ∀ m n : Manifest, m.canonicalBytes = n.canonicalBytes ↔ SameState m n := by
  refine ⟨?_, fun m ↦ ⟨pairwise_sortDedup m.packs, fun _ ↦ mem_sortDedup⟩, ?_⟩
  · intro m
    have hversion : m.canonical.version = m.version := rfl
    rw [fromBytes, decode_canonicalBytes]
    simp only [hversion, ne_eq, ite_not]
  · intro m n
    rw [canonicalBytes_inj, canonical_eq_iff]

/-- `validate` leaves the version alone, and `from_bytes` does not. -/
theorem later_version_not_read :
    ∃ m : Manifest, m.validate = none ∧
      fromBytes m.canonicalBytes = .error (.unsupportedVersion 2 1) := by
  refine ⟨⟨2, "refs/heads/main", ∅, [], none⟩, by decide, ?_⟩
  rw [fromBytes, decode_canonicalBytes]
  rfl

end Manifest

end Buzz.Git
