import Buzz.Lib.Decimal
import Buzz.Lib.Utf16
import Mathlib.Data.List.Sort
import Mathlib.Algebra.BigOperators.Group.List.Basic
import Mathlib.Algebra.GroupWithZero.Nat
import Mathlib.Algebra.Order.BigOperators.Group.List

namespace Buzz.Desktop.ReadState

open Buzz.Lib Buzz.Lib.Utf16

/-- A context and its marker, in seconds. -/
abbrev Entry := Units × ℕ

/-- The own properties of a record, in the order of their insertion; the order of array indices,
which come first, changes no length. -/
abbrev Record := List Entry

def msgPrefix : Units := ascii ['m', 's', 'g', ':']

def threadPrefix : Units := ascii ['t', 'h', 'r', 'e', 'a', 'd', ':']

/-- The name of the accessor that a record inherits: to assign a number there does nothing. -/
def proto : Units := ascii ['_', '_', 'p', 'r', 'o', 't', 'o', '_', '_']

def isMsg (key : Units) : Bool := msgPrefix.isPrefixOf key

def isThread (key : Units) : Bool := threadPrefix.isPrefixOf key

def isChannel (key : Units) : Bool := !(isMsg key || isThread key)

def setEntry {α : Type} (e : Units × α) : List (Units × α) → List (Units × α)
  | [] => [e]
  | e' :: r => if e'.1 = e.1 then e :: r else e' :: setEntry e r

/-- `contexts[key] = ts`. -/
def assign {α : Type} (r : List (Units × α)) (e : Units × α) : List (Units × α) :=
  if e.1 = proto then r else setEntry e r

def digits (ts : ℕ) : Units := ascii (toString ts).toList

def field (e : Entry) : Units := quote e.1 ++ 0x3A :: digits e.2

def blobFor (clientId : Units) (c : Record) : Units :=
  ascii "\x7b\"v\":1,\"client_id\":".toList ++ (quote clientId ++
    (ascii ",\"contexts\":\x7b".toList ++ ([0x2C].intercalate (c.map field) ++
      ascii "\x7d\x7d".toList)))

def blobBytes (clientId : Units) (c : Record) : ℕ := encodedLength (blobFor clientId c)

def estimate (e : Entry) : ℕ := e.1.length + 3 + (digits e.2).length + 1

def evictions (maxBytes : ℕ) : ℤ → List Entry → List Entry
  | _, [] => []
  | currentBytes, e :: rest =>
    if currentBytes ≤ maxBytes then [] else e :: evictions maxBytes (currentBytes - estimate e) rest

structure TrimResult where
  evicted : ℕ
  fitsAfterTrim : Bool
deriving DecidableEq, Repr

def oldestFirst (entries : List Entry) : List Entry := entries.mergeSort fun a b ↦ a.2 ≤ b.2

/-- What may be evicted, in this order. -/
def evictable (contexts : Record) : List Entry :=
  oldestFirst (contexts.filter fun e ↦ isMsg e.1) ++
    oldestFirst (contexts.filter fun e ↦ !isMsg e.1 && isThread e.1)

def deleteKeys (contexts : Record) (keys : List Units) : Record :=
  contexts.filter fun e ↦ !keys.contains e.1

def trimContextsToBudget (contexts : Record) (clientId : Units) (maxBytes : ℕ) :
    Record × TrimResult :=
  let currentBytes := blobBytes clientId contexts
  if currentBytes ≤ maxBytes then (contexts, ⟨0, true⟩)
  else
    let toEvict := (evictions maxBytes currentBytes (evictable contexts)).map Prod.fst
    let rest := deleteKeys contexts toEvict
    (rest, ⟨toEvict.length, decide (blobBytes clientId rest ≤ maxBytes)⟩)

def distribute (channelEntries : List Entry) (count : ℕ) : List Record :=
  channelEntries.zipIdx.foldl (fun slots (e, i) ↦ slots.modify (i % count) (assign · e))
    (List.replicate count [])

def growSlots (fits : ℕ → Bool) : ℕ → ℕ → ℕ
  | 0, slotCount => slotCount
  | n + 1, slotCount => if fits slotCount then slotCount else growSlots fits n (slotCount + 1)

structure SlotSplitResult where
  slots : List Record
  extraSlotIds : List Units

def allFit (clientId : Units) (maxBytes : ℕ) (slots : List Record) : Bool :=
  slots.all fun c ↦ blobBytes clientId c ≤ maxBytes

/-- `slotIds n` is the id that the generator makes at its call `n`. -/
def splitContextsIntoBudgetedSlots (channelEntries threadMsgEntries : List Entry) (clientId : Units)
    (initialSlotCount maxSlots maxBytes : ℕ) (slotIds : ℕ → Units) : Option SlotSplitResult :=
  let slotCount := growSlots
    (fun count ↦ allFit clientId maxBytes (distribute channelEntries count))
    (maxSlots - initialSlotCount) initialSlotCount
  let slotContexts := distribute channelEntries slotCount
  if allFit clientId maxBytes slotContexts then
    some ⟨slotContexts.modify 0 fun c ↦
        (trimContextsToBudget (threadMsgEntries.foldl assign c) clientId maxBytes).1,
      (List.range (slotCount - initialSlotCount)).map slotIds⟩
  else none

section Size

def weight (e : Entry) : ℕ := encodedLength (quote e.1) + (digits e.2).length + 2

theorem digits_lt (ts : ℕ) : ∀ u ∈ digits ts, u < 0x80 := by
  apply ascii_lt
  intro c hc
  rw [Decimal.toList_toString] at hc
  have hdigit := Nat.isDigit_of_mem_toDigits (by decide) (by decide) hc
  simp only [Char.isDigit, Bool.and_eq_true, decide_eq_true_eq] at hdigit
  have hle : c.toNat ≤ 57 := hdigit.2
  omega

theorem field_spec (e : Entry) : Closed (field e) ∧ encodedLength (field e) + 1 = weight e := by
  obtain ⟨hclosed, hlength⟩ := ascii_spec (digits_lt e.2)
  have hcolon : isHigh 0x3A = false := by decide
  have hone : unitBytes 0x3A = 1 := by decide
  refine ⟨(closed_quote e.1).append ((closed_singleton hcolon).append hclosed), ?_⟩
  rw [field, closed_quote, encodedLength_cons hcolon, hone, hlength, weight]
  omega

theorem estimate_le_weight (e : Entry) : estimate e ≤ weight e := by
  have hquote := length_le_quote e.1
  rw [estimate, weight]
  omega

theorem fields_spec (c : Record) : Closed ([0x2C].intercalate (c.map field)) ∧
    encodedLength ([0x2C].intercalate (c.map field)) + min 1 c.length = (c.map weight).sum := by
  have hcomma : isHigh 0x2C = false := by decide
  have hone : unitBytes 0x2C = 1 := by decide
  induction c with
  | nil => exact ⟨.nil, rfl⟩
  | cons e c ih =>
    obtain ⟨hclosed, hlength⟩ := field_spec e
    obtain ⟨hrest, hsum⟩ := ih
    cases c with
    | nil =>
      have hfield : [0x2C].intercalate ([e].map field) = field e := by simp [List.intercalate]
      rw [hfield]
      exact ⟨hclosed, by simpa using hlength⟩
    | cons e' c =>
      have hfields : [0x2C].intercalate ((e :: e' :: c).map field) =
          field e ++ 0x2C :: [0x2C].intercalate ((e' :: c).map field) := by simp [List.intercalate]
      rw [hfields]
      have hsums : ((e :: e' :: c).map weight).sum = weight e + ((e' :: c).map weight).sum := by
        simp
      refine ⟨hclosed.append ((closed_singleton hcomma).append hrest), ?_⟩
      rw [hclosed, encodedLength_cons hcomma, hone, hsums, ← hsum]
      simp only [List.length_cons]
      omega

theorem blobBytes_eq (clientId : Units) (c : Record) :
    blobBytes clientId c + min 1 c.length = blobBytes clientId [] + (c.map weight).sum := by
  have hopen := ascii_spec (List.all_iff_forall_prop.mp
    (show (ascii "\x7b\"v\":1,\"client_id\":".toList).all (· < 0x80) = true by decide))
  have hmiddle := ascii_spec (List.all_iff_forall_prop.mp
    (show (ascii ",\"contexts\":\x7b".toList).all (· < 0x80) = true by decide))
  have hsize (c : Record) : blobBytes clientId c = blobBytes clientId [] +
      encodedLength ([0x2C].intercalate (c.map field)) := by
    have hnil : [0x2C].intercalate (([] : Record).map field) = [] := rfl
    rw [blobBytes, blobBytes, blobFor, blobFor, hopen.1, closed_quote, hmiddle.1, (fields_spec c).1,
      hopen.1, closed_quote, hmiddle.1, hnil, List.nil_append]
    omega
  rw [hsize, Nat.add_assoc, (fields_spec c).2]

/-- Fewer entries make no longer blob. -/
theorem blobBytes_mono (clientId : Units) {c c' : Record} (h : c.Sublist c') :
    blobBytes clientId c ≤ blobBytes clientId c' := by
  have hsum : (c.map weight).sum ≤ (c'.map weight).sum :=
    (h.map weight).sum_le_sum fun _ _ ↦ Nat.zero_le _
  have hsize := blobBytes_eq clientId c
  have hsize' := blobBytes_eq clientId c'
  have hlength := h.length_le
  cases c' with
  | nil =>
    rw [List.sublist_nil.mp h]
  | cons e c' =>
    have hpos : 2 ≤ ((e :: c').map weight).sum := by
      rw [List.map_cons, List.sum_cons, weight]
      omega
    rw [List.length_cons] at hsize'
    cases c with
    | nil =>
      simp only [List.map_nil, List.sum_nil] at hsize
      omega
    | cons e' c =>
      rw [List.length_cons] at hsize
      omega

end Size

section Trim

variable {clientId : Units} {maxBytes : ℕ} {contexts : Record}

theorem evictions_initial (maxBytes : ℕ) (currentBytes : ℤ) (entries : List Entry) :
    evictions maxBytes currentBytes entries <+: entries := by
  induction entries generalizing currentBytes with
  | nil => exact List.prefix_refl _
  | cons e rest ih =>
    rw [evictions]
    split_ifs
    · exact List.nil_prefix
    · exact (List.prefix_cons_inj e).mpr (ih _)

/-- The loop ends with nothing left or with an estimate that fits. -/
theorem evictions_stop (maxBytes : ℕ) (currentBytes : ℤ) (entries : List Entry) :
    evictions maxBytes currentBytes entries = entries ∨
      currentBytes ≤
        maxBytes + (((evictions maxBytes currentBytes entries).map estimate).sum : ℕ) := by
  induction entries generalizing currentBytes with
  | nil => exact .inl rfl
  | cons e rest ih =>
    rw [evictions]
    split_ifs with hfits
    · right
      simpa using hfits
    · rcases ih (currentBytes - estimate e) with hall | hstop
      · left
        rw [hall]
      · right
        rw [List.map_cons, List.sum_cons]
        omega

theorem mem_evictable {e : Entry} :
    e ∈ evictable contexts ↔ e ∈ contexts ∧ isChannel e.1 = false := by
  rw [evictable, oldestFirst, oldestFirst, List.mem_append, List.mem_mergeSort, List.mem_mergeSort,
    List.mem_filter, List.mem_filter, ← and_or_left, isChannel]
  cases isMsg e.1 <;> cases isThread e.1 <;> simp

theorem nodup_evictable (h : contexts.Nodup) : (evictable contexts).Nodup := by
  refine List.Nodup.append ((List.mergeSort_perm _ _).nodup_iff.mpr (h.filter _))
    ((List.mergeSort_perm _ _).nodup_iff.mpr (h.filter _)) ?_
  intro e hmsg hthread
  rw [oldestFirst, List.mem_mergeSort, List.mem_filter] at hmsg hthread
  simp [hmsg.2] at hthread

/-- Messages come before threads, and in each tier the oldest first. -/
def Before (e e' : Entry) : Prop :=
  (isMsg e'.1 = true → isMsg e.1 = true) ∧ (isMsg e.1 = isMsg e'.1 → e.2 ≤ e'.2)

theorem pairwise_oldestFirst (entries : List Entry) :
    (oldestFirst entries).Pairwise fun e e' ↦ e.2 ≤ e'.2 := by
  have hsorted : (oldestFirst entries).Pairwise fun e e' ↦ decide (e.2 ≤ e'.2) = true :=
    List.pairwise_mergeSort
      (fun a b c hab hbc ↦ decide_eq_true ((of_decide_eq_true hab).trans (of_decide_eq_true hbc)))
      (fun a b ↦ by simp [Nat.le_total]) entries
  exact hsorted.imp of_decide_eq_true

theorem pairwise_evictable (contexts : Record) : (evictable contexts).Pairwise Before := by
  have hmsg {e : Entry} (he : e ∈ oldestFirst (contexts.filter fun e ↦ isMsg e.1)) :
      isMsg e.1 = true := by
    rw [oldestFirst, List.mem_mergeSort, List.mem_filter] at he
    exact he.2
  have hthread {e : Entry} (he : e ∈ oldestFirst
      (contexts.filter fun e ↦ !isMsg e.1 && isThread e.1)) : isMsg e.1 = false := by
    rw [oldestFirst, List.mem_mergeSort, List.mem_filter] at he
    have hnot := (Bool.and_eq_true_iff.mp he.2).1
    simpa using hnot
  rw [evictable, List.pairwise_append]
  refine ⟨?_, ?_, ?_⟩
  · exact (pairwise_oldestFirst _).imp_of_mem fun he _ hle ↦ ⟨fun _ ↦ hmsg he, fun _ ↦ hle⟩
  · refine (pairwise_oldestFirst _).imp_of_mem fun _ he' hle ↦ ⟨fun hmsg' ↦ ?_, fun _ ↦ hle⟩
    rw [hthread he'] at hmsg'
    cases hmsg'
  · intro e he e' he'
    refine ⟨fun _ ↦ hmsg he, fun htier ↦ ?_⟩
    rw [hmsg he, hthread he'] at htier
    cases htier

/-- What the loop takes out. -/
def evicted (contexts : Record) (clientId : Units) (maxBytes : ℕ) : List Entry :=
  evictions maxBytes (blobBytes clientId contexts) (evictable contexts)

theorem evicted_subset {e : Entry} (he : e ∈ evicted contexts clientId maxBytes) :
    e ∈ contexts ∧ isChannel e.1 = false :=
  mem_evictable.mp ((evictions_initial _ _ _).mem he)

theorem mem_deleteKeys (clientId : Units) (maxBytes : ℕ)
    (hkeys : (contexts.map Prod.fst).Nodup) {e : Entry} :
    e ∈ deleteKeys contexts ((evicted contexts clientId maxBytes).map Prod.fst) ↔
      e ∈ contexts ∧ e ∉ evicted contexts clientId maxBytes := by
  rw [deleteKeys, List.mem_filter, Bool.not_eq_true', List.contains_eq_mem, decide_eq_false_iff_not]
  refine and_congr_right fun he ↦ not_congr ?_
  constructor
  · intro hkey
    obtain ⟨e', he', hfst⟩ := List.mem_map.mp hkey
    rwa [← List.inj_on_of_nodup_map hkeys (evicted_subset he').1 he hfst]
  · exact List.mem_map_of_mem

/-- What is taken out and what is left make up the record. -/
theorem perm_deleteKeys (clientId : Units) (maxBytes : ℕ) (hkeys : (contexts.map Prod.fst).Nodup) :
    (evicted contexts clientId maxBytes ++
      deleteKeys contexts ((evicted contexts clientId maxBytes).map Prod.fst)).Perm contexts := by
  have hnodup : contexts.Nodup := hkeys.of_map
  have hevicted : (evicted contexts clientId maxBytes).Nodup :=
    (nodup_evictable hnodup).sublist (evictions_initial _ _ _).sublist
  rw [List.perm_ext_iff_of_nodup _ hnodup]
  · intro e
    rw [List.mem_append, mem_deleteKeys clientId maxBytes hkeys]
    constructor
    · rintro (he | he)
      · exact (evicted_subset he).1
      · exact he.1
    · intro he
      by_cases hout : e ∈ evicted contexts clientId maxBytes
      · exact .inl hout
      · exact .inr ⟨he, hout⟩
  · refine hevicted.append (hnodup.filter _) fun e he hrest ↦ ?_
    exact ((mem_deleteKeys clientId maxBytes hkeys).mp hrest).2 he

theorem filter_deleteKeys (contexts : Record) (clientId : Units) (maxBytes : ℕ) :
    (deleteKeys contexts ((evicted contexts clientId maxBytes).map Prod.fst)).filter
      (fun e ↦ isChannel e.1) = contexts.filter fun e ↦ isChannel e.1 := by
  rw [deleteKeys, List.filter_filter]
  apply List.filter_congr
  intro e _
  by_cases hout : e.1 ∈ (evicted contexts clientId maxBytes).map Prod.fst
  · obtain ⟨e', he', hfst⟩ := List.mem_map.mp hout
    rw [← hfst, (evicted_subset he').2, Bool.false_and]
  · rw [List.contains_eq_mem, decide_eq_false hout, Bool.not_false, Bool.and_true]

structure Trimmed (contexts rest : Record) (clientId : Units) (maxBytes : ℕ) (r : TrimResult) :
    Prop where
  sublist : rest.Sublist contexts
  channels : (rest.filter fun e ↦ isChannel e.1) = contexts.filter fun e ↦ isChannel e.1
  order : ∀ e ∈ contexts, e ∉ rest → ∀ e' ∈ rest, isChannel e'.1 = false → Before e e'
  count : r.evicted + rest.length = contexts.length
  fits : r.fitsAfterTrim = true ↔ blobBytes clientId rest ≤ maxBytes
  fits_iff : r.fitsAfterTrim = true ↔
    blobBytes clientId (contexts.filter fun e ↦ isChannel e.1) ≤ maxBytes

/-- What is left fits when the channels alone do: the estimates are no more than what is taken out,
unless nothing but channels is left. -/
theorem blobBytes_deleteKeys (hkeys : (contexts.map Prod.fst).Nodup)
    (hchannels : blobBytes clientId (contexts.filter fun e ↦ isChannel e.1) ≤ maxBytes) :
    blobBytes clientId (deleteKeys contexts ((evicted contexts clientId maxBytes).map Prod.fst)) ≤
      maxBytes := by
  have hperm := perm_deleteKeys clientId maxBytes hkeys
  have hmem {e : Entry} := mem_deleteKeys clientId maxBytes hkeys (e := e)
  rcases evictions_stop maxBytes (blobBytes clientId contexts) (evictable contexts) with
    hall | hstop
  · -- everything that may go is gone
    have hrest : deleteKeys contexts ((evicted contexts clientId maxBytes).map Prod.fst) =
        contexts.filter fun e ↦ isChannel e.1 := by
      rw [← filter_deleteKeys contexts clientId maxBytes, eq_comm, List.filter_eq_self]
      intro e he
      obtain ⟨hin, hkept⟩ := hmem.mp he
      rw [evicted, hall, mem_evictable] at hkept
      simpa [hin] using hkept
    rwa [hrest]
  · have hestimate : ((evicted contexts clientId maxBytes).map estimate).sum ≤
        ((evicted contexts clientId maxBytes).map weight).sum :=
      List.sum_le_sum fun e _ ↦ estimate_le_weight e
    have hsum := (hperm.map weight).sum_eq
    rw [List.map_append, List.sum_append] at hsum
    have hlength := hperm.length_eq
    rw [List.length_append] at hlength
    have hsize := blobBytes_eq clientId contexts
    have hsizeRest := blobBytes_eq clientId
      (deleteKeys contexts ((evicted contexts clientId maxBytes).map Prod.fst))
    have hempty : blobBytes clientId [] ≤ maxBytes :=
      (blobBytes_mono clientId (List.nil_sublist _)).trans hchannels
    rw [← evicted] at hstop
    generalize deleteKeys contexts ((evicted contexts clientId maxBytes).map Prod.fst) = rest at *
    cases rest with
    | nil => exact hempty
    | cons e rest =>
      rw [List.length_cons] at hlength hsizeRest
      omega

theorem trim_of_fits (h : blobBytes clientId contexts ≤ maxBytes) :
    trimContextsToBudget contexts clientId maxBytes = (contexts, ⟨0, true⟩) := by
  simp only [trimContextsToBudget, if_pos h]

theorem trim_of_not_fits (h : ¬blobBytes clientId contexts ≤ maxBytes) :
    (trimContextsToBudget contexts clientId maxBytes).1 =
        deleteKeys contexts ((evicted contexts clientId maxBytes).map Prod.fst) ∧
      (trimContextsToBudget contexts clientId maxBytes).2.evicted =
        (evicted contexts clientId maxBytes).length ∧
      ((trimContextsToBudget contexts clientId maxBytes).2.fitsAfterTrim = true ↔
        blobBytes clientId
            (deleteKeys contexts ((evicted contexts clientId maxBytes).map Prod.fst)) ≤
          maxBytes) := by
  simp only [trimContextsToBudget, if_neg h, evicted, List.length_map, decide_eq_true_eq, and_self]

theorem before_of_evicted {e e' : Entry} (he : e ∈ evicted contexts clientId maxBytes)
    (hin' : e' ∈ contexts) (hkept' : e' ∉ evicted contexts clientId maxBytes)
    (hnot : isChannel e'.1 = false) :
    Before e e' := by
  obtain ⟨later, hlater⟩ := evictions_initial maxBytes (blobBytes clientId contexts)
    (evictable contexts)
  have hall := mem_evictable.mpr ⟨hin', hnot⟩
  have horder := pairwise_evictable contexts
  rw [← hlater, List.mem_append] at hall
  rw [← hlater, List.pairwise_append] at horder
  exact horder.2.2 e he e' (hall.resolve_left hkept')

theorem trimmed (contexts : Record) (clientId : Units) (maxBytes : ℕ)
    (hkeys : (contexts.map Prod.fst).Nodup) :
    Trimmed contexts (trimContextsToBudget contexts clientId maxBytes).1 clientId maxBytes
      (trimContextsToBudget contexts clientId maxBytes).2 := by
  have hchannels {rest : Record} (h : blobBytes clientId rest ≤ maxBytes)
      (hfilter : (rest.filter fun e ↦ isChannel e.1) = contexts.filter fun e ↦ isChannel e.1) :
      blobBytes clientId (contexts.filter fun e ↦ isChannel e.1) ≤ maxBytes := by
    rw [← hfilter]
    exact (blobBytes_mono clientId List.filter_sublist).trans h
  by_cases hfits : blobBytes clientId contexts ≤ maxBytes
  · rw [trim_of_fits hfits]
    exact {
      sublist := List.Sublist.refl _
      channels := rfl
      order := fun e he hout ↦ absurd he hout
      count := Nat.zero_add _
      fits := iff_of_true rfl hfits
      fits_iff := iff_of_true rfl (hchannels hfits rfl) }
  · obtain ⟨hrest, hcount, hdecide⟩ := trim_of_not_fits hfits
    have hlength := (perm_deleteKeys clientId maxBytes hkeys).length_eq
    rw [List.length_append] at hlength
    rw [hrest]
    exact {
      sublist := List.filter_sublist
      channels := filter_deleteKeys contexts clientId maxBytes
      order := by
        intro e he hout e' he' hnot
        rw [mem_deleteKeys clientId maxBytes hkeys] at hout he'
        have hgone : e ∈ evicted contexts clientId maxBytes := by
          by_contra hkept
          exact hout ⟨he, hkept⟩
        exact before_of_evicted hgone he'.1 he'.2 hnot
      count := by rw [hcount, hlength]
      fits := hdecide
      fits_iff := hdecide.trans
        ⟨fun h ↦ hchannels h (filter_deleteKeys contexts clientId maxBytes),
          blobBytes_deleteKeys hkeys⟩ }

end Trim

section Split

variable {clientId : Units} {maxBytes : ℕ}

def roundRobin (entries : List Entry) (count j : ℕ) : Record :=
  (entries.zipIdx.filter fun p ↦ p.2 % count = j).map Prod.fst

theorem setEntry_of_fresh {α : Type} {e : Units × α} {r : List (Units × α)}
    (h : e.1 ∉ r.map Prod.fst) :
    setEntry e r = r ++ [e] := by
  induction r with
  | nil => rfl
  | cons e' r ih =>
    rw [List.map_cons, List.mem_cons, not_or] at h
    rw [setEntry, if_neg fun heq ↦ h.1 heq.symm, ih h.2, List.cons_append]

theorem foldl_setEntry {α : Type} {entries r : List (Units × α)}
    (hkeys : ((r ++ entries).map Prod.fst).Nodup) :
    entries.foldl (fun r e ↦ setEntry e r) r = r ++ entries := by
  induction entries generalizing r with
  | nil => exact (List.append_nil r).symm
  | cons e entries ih =>
    have hfresh : e.1 ∉ r.map Prod.fst := by
      rw [List.map_append, List.nodup_append] at hkeys
      exact fun hin ↦ hkeys.2.2 _ hin _ List.mem_cons_self rfl
    rw [List.foldl_cons, setEntry_of_fresh hfresh, ih, List.append_assoc, List.singleton_append]
    rwa [List.append_assoc, List.singleton_append]

theorem foldl_assign {α : Type} {entries r : List (Units × α)}
    (hkeys : ((r ++ entries).map Prod.fst).Nodup) (hproto : ∀ e ∈ entries, e.1 ≠ proto) :
    entries.foldl assign r = r ++ entries := by
  rw [← foldl_setEntry hkeys]
  exact List.foldl_ext _ _ _ fun r e he ↦ if_neg (hproto e he)

theorem roundRobin_sublist (entries : List Entry) (count j : ℕ) :
    (roundRobin entries count j).Sublist entries := by
  have hsub := (List.filter_sublist (p := fun p : Entry × ℕ ↦ decide (p.2 % count = j))
    (l := entries.zipIdx)).map Prod.fst
  rwa [List.zipIdx_map_fst] at hsub

theorem roundRobin_concat (entries : List Entry) (e : Entry) (count j : ℕ) :
    roundRobin (entries ++ [e]) count j =
      if entries.length % count = j then roundRobin entries count j ++ [e]
      else roundRobin entries count j := by
  rw [roundRobin, List.zipIdx_append, List.filter_append, List.map_append]
  split_ifs with hplace
  · simp [roundRobin, hplace]
  · simp [roundRobin, hplace]

/-- The loop of `distribute` deals the entries out in turn. -/
theorem distribute_eq {entries : List Entry} (hkeys : (entries.map Prod.fst).Nodup)
    (hproto : ∀ e ∈ entries, e.1 ≠ proto) (count : ℕ) :
    distribute entries count = (List.range count).map (roundRobin entries count) := by
  induction entries using List.reverseRecOn with
  | nil =>
    rw [distribute, List.zipIdx_nil, List.foldl_nil, eq_comm, List.eq_replicate_iff]
    refine ⟨by simp, fun r hr ↦ ?_⟩
    obtain ⟨j, -, rfl⟩ := List.mem_map.mp hr
    rfl
  | append_singleton entries e ih =>
    rw [List.map_append, List.nodup_append] at hkeys
    have hdistribute : distribute (entries ++ [e]) count =
        (distribute entries count).modify (entries.length % count) (assign · e) := by
      rw [distribute, List.zipIdx_append, List.foldl_append, distribute]
      simp
    rw [hdistribute, ih hkeys.1 fun e' he' ↦ hproto e' (List.mem_append_left _ he')]
    apply List.ext_getElem (by simp)
    intro j hj _
    rw [List.getElem_modify, List.getElem_map, List.getElem_map, List.getElem_range,
      roundRobin_concat]
    split_ifs with hplace
    · have hfresh : e.1 ∉ (roundRobin entries count j).map Prod.fst := fun hin ↦
        hkeys.2.2 _ (((roundRobin_sublist entries count j).map Prod.fst).mem hin) _
          List.mem_cons_self rfl
      rw [assign, if_neg (hproto e (by simp)), setEntry_of_fresh hfresh]
    · rfl

theorem flatMap_filter_perm {α : Type} (f : α → ℕ) (l : List α) (n : ℕ) :
    ((List.range n).flatMap fun j ↦ l.filter fun a ↦ f a = j).Perm (l.filter fun a ↦ f a < n) := by
  induction n with
  | zero => simp
  | succ n ih =>
    have hsplit := List.filter_append_perm (fun a ↦ decide (f a < n))
      (l.filter fun a ↦ decide (f a < n + 1))
    have hlow : (l.filter fun a ↦ decide (f a < n + 1)).filter (fun a ↦ decide (f a < n)) =
        l.filter fun a ↦ decide (f a < n) := by
      rw [List.filter_filter]
      refine List.filter_congr fun a _ ↦ ?_
      rw [← Bool.decide_and]
      exact decide_eq_decide.mpr (by omega)
    have hlast : (l.filter fun a ↦ decide (f a < n + 1)).filter (fun a ↦ !decide (f a < n)) =
        l.filter fun a ↦ decide (f a = n) := by
      rw [List.filter_filter]
      refine List.filter_congr fun a _ ↦ ?_
      rw [← decide_not, ← Bool.decide_and]
      exact decide_eq_decide.mpr (by omega)
    rw [hlow, hlast] at hsplit
    rw [List.range_succ, List.flatMap_append, List.flatMap_singleton]
    exact (ih.append_right _).trans hsplit

theorem roundRobin_perm (entries : List Entry) {count : ℕ} (hcount : 0 < count) :
    ((List.range count).flatMap (roundRobin entries count)).Perm entries := by
  have hperm := (flatMap_filter_perm (fun p : Entry × ℕ ↦ p.2 % count) entries.zipIdx count).map
    Prod.fst
  have hall : (entries.zipIdx.filter fun p ↦ decide (p.2 % count < count)) = entries.zipIdx := by
    rw [List.filter_eq_self]
    exact fun p _ ↦ decide_eq_true (Nat.mod_lt _ hcount)
  rwa [hall, List.zipIdx_map_fst, List.map_flatMap] at hperm

theorem growSlots_spec (fits : ℕ → Bool) (n slotCount : ℕ) :
    slotCount ≤ growSlots fits n slotCount ∧ growSlots fits n slotCount ≤ slotCount + n ∧
      (∀ m, slotCount ≤ m → m < growSlots fits n slotCount → fits m = false) ∧
      (fits (growSlots fits n slotCount) = true ∨ growSlots fits n slotCount = slotCount + n) := by
  induction n generalizing slotCount with
  | zero => exact ⟨le_rfl, le_rfl, fun m hle hlt ↦ absurd hlt (by rw [growSlots]; omega), .inr rfl⟩
  | succ n ih =>
    rw [growSlots]
    split_ifs with hfits
    · exact ⟨le_rfl, by omega, fun m hle hlt ↦ absurd hlt (by omega), .inl hfits⟩
    · obtain ⟨hle, hbound, hsmall, hend⟩ := ih (slotCount + 1)
      refine ⟨by omega, by omega, fun m hm hlt ↦ ?_, hend.imp_right fun h ↦ by omega⟩
      rcases Nat.eq_or_lt_of_le hm with rfl | hm
      · exact Bool.not_eq_true _ ▸ hfits
      · exact hsmall m hm hlt

/-- What a split gives: every channel once, no slot too long, and beside the channels only what was
to be added to the first slot. -/
structure Partitioned (channelEntries threadMsgEntries : List Entry) (clientId : Units)
    (initialSlotCount maxBytes : ℕ) (result : SlotSplitResult) : Prop where
  channels : (result.slots.flatMap fun c ↦ c.filter fun e ↦ isChannel e.1).Perm channelEntries
  fit : ∀ c ∈ result.slots, blobBytes clientId c ≤ maxBytes
  others : ∀ c ∈ result.slots, ∀ e ∈ c, isChannel e.1 = false → e ∈ threadMsgEntries
  length : result.slots.length = initialSlotCount + result.extraSlotIds.length

theorem isChannel_proto : isChannel proto = true := by decide

theorem filter_channels {r : Record} {channelEntries : List Entry}
    (hchannel : ∀ e ∈ channelEntries, isChannel e.1 = true ∧ e.1 ≠ proto)
    (h : r.Sublist channelEntries) : (r.filter fun e ↦ isChannel e.1) = r :=
  List.filter_eq_self.mpr fun e he ↦ (hchannel e (h.mem he)).1

theorem trimmed_first {channelEntries threadMsgEntries : List Entry} {r : Record}
    (hkeys : ((channelEntries ++ threadMsgEntries).map Prod.fst).Nodup)
    (hchannel : ∀ e ∈ channelEntries, isChannel e.1 = true ∧ e.1 ≠ proto)
    (hother : ∀ e ∈ threadMsgEntries, isChannel e.1 = false)
    (hr : r.Sublist channelEntries) (hfit : blobBytes clientId r ≤ maxBytes) :
    let c := (trimContextsToBudget (threadMsgEntries.foldl assign r) clientId maxBytes).1
    (c.filter fun e ↦ isChannel e.1) = r ∧ blobBytes clientId c ≤ maxBytes ∧
      ∀ e ∈ c, isChannel e.1 = false → e ∈ threadMsgEntries := by
  have hnodup : ((r ++ threadMsgEntries).map Prod.fst).Nodup :=
    hkeys.sublist ((hr.append_right threadMsgEntries).map Prod.fst)
  have hproto (e : Entry) (he : e ∈ threadMsgEntries) : e.1 ≠ proto := by
    intro heq
    have hfalse := hother e he
    rw [heq, isChannel_proto] at hfalse
    cases hfalse
  have hnone : (threadMsgEntries.filter fun e ↦ isChannel e.1) = [] := by
    rw [List.filter_eq_nil_iff]
    intro e he
    rw [hother e he]
    exact Bool.false_ne_true
  have hall : ((r ++ threadMsgEntries).filter fun e ↦ isChannel e.1) = r := by
    rw [List.filter_append, filter_channels hchannel hr, hnone, List.append_nil]
  have htrim := trimmed (r ++ threadMsgEntries) clientId maxBytes hnodup
  rw [foldl_assign hnodup hproto]
  refine ⟨htrim.channels.trans hall, htrim.fits.mp (htrim.fits_iff.mpr ?_), ?_⟩
  · rwa [hall]
  · intro e he hnot
    rcases List.mem_append.mp (htrim.sublist.mem he) with hin | hin
    · rw [(hchannel e (hr.mem hin)).1] at hnot
      cases hnot
    · exact hin

/-- The split fails exactly when every number of slots leaves a slot of channels too long, and
otherwise keeps every channel in slots that are not. -/
theorem splitContexts_spec (channelEntries threadMsgEntries : List Entry) (clientId : Units)
    (initialSlotCount maxSlots maxBytes : ℕ) (slotIds : ℕ → Units) (hcount : 0 < initialSlotCount)
    (hkeys : ((channelEntries ++ threadMsgEntries).map Prod.fst).Nodup)
    (hchannel : ∀ e ∈ channelEntries, isChannel e.1 = true ∧ e.1 ≠ proto)
    (hother : ∀ e ∈ threadMsgEntries, isChannel e.1 = false) :
    (splitContextsIntoBudgetedSlots channelEntries threadMsgEntries clientId initialSlotCount
        maxSlots maxBytes slotIds = none ↔
      ∀ n, initialSlotCount ≤ n → n ≤ max initialSlotCount maxSlots →
        ∃ j < n, maxBytes < blobBytes clientId (roundRobin channelEntries n j)) ∧
    ∀ result, splitContextsIntoBudgetedSlots channelEntries threadMsgEntries clientId
        initialSlotCount maxSlots maxBytes slotIds = some result →
      Partitioned channelEntries threadMsgEntries clientId initialSlotCount maxBytes result := by
  have hchannels : (channelEntries.map Prod.fst).Nodup := by
    rw [List.map_append] at hkeys
    exact hkeys.of_append_left
  have hdistribute := distribute_eq hchannels fun e he ↦ (hchannel e he).2
  have hfalse (n : ℕ) : allFit clientId maxBytes (distribute channelEntries n) = false ↔
      ∃ j < n, maxBytes < blobBytes clientId (roundRobin channelEntries n j) := by
    rw [hdistribute, allFit, List.all_eq_false]
    simp only [List.mem_map, List.mem_range, decide_eq_true_eq, not_le]
    constructor
    · rintro ⟨_, ⟨j, hj, rfl⟩, hlt⟩
      exact ⟨j, hj, hlt⟩
    · rintro ⟨j, hj, hlt⟩
      exact ⟨_, ⟨j, hj, rfl⟩, hlt⟩
  obtain ⟨hle, hbound, hsmall, hend⟩ := growSlots_spec
    (fun count ↦ allFit clientId maxBytes (distribute channelEntries count))
    (maxSlots - initialSlotCount) initialSlotCount
  rw [splitContextsIntoBudgetedSlots]
  generalize growSlots (fun count ↦ allFit clientId maxBytes (distribute channelEntries count))
    (maxSlots - initialSlotCount) initialSlotCount = slotCount at hle hbound hsmall hend
  by_cases hfit : allFit clientId maxBytes (distribute channelEntries slotCount) = true
  · rw [if_pos hfit]
    constructor
    · refine iff_of_false (Option.some_ne_none _) fun hover ↦ ?_
      have hnot := (hfalse slotCount).mpr (hover slotCount hle (by omega))
      rw [hfit] at hnot
      cases hnot
    · rintro result ⟨⟩
      have hfits {j : ℕ} (hj : j < slotCount) :
          blobBytes clientId (roundRobin channelEntries slotCount j) ≤ maxBytes := by
        by_contra hover
        rw [(hfalse slotCount).mpr ⟨j, hj, not_le.mp hover⟩] at hfit
        cases hfit
      obtain ⟨m, rfl⟩ : ∃ m, slotCount = m + 1 := ⟨slotCount - 1, by omega⟩
      have hslots : distribute channelEntries (m + 1) =
          roundRobin channelEntries (m + 1) 0 ::
            (List.range m).map fun j ↦ roundRobin channelEntries (m + 1) (j + 1) := by
        rw [hdistribute, List.range_succ_eq_map, List.map_cons, List.map_map]
        rfl
      obtain ⟨hfirst, hfirstFit, hfirstOther⟩ := trimmed_first hkeys hchannel hother
        (roundRobin_sublist channelEntries (m + 1) 0) (hfits (Nat.succ_pos m))
      rw [hslots, List.modify_zero_cons]
      have hperm := roundRobin_perm channelEntries (Nat.succ_pos m)
      rw [List.range_succ_eq_map, List.flatMap_cons, List.flatMap_map] at hperm
      have hchannelOnly (j : ℕ) :=
        filter_channels hchannel (roundRobin_sublist channelEntries (m + 1) (j + 1))
      exact {
        channels := by
          simp only [List.flatMap_cons, hfirst, List.flatMap_map, hchannelOnly]
          exact hperm
        fit := by
          refine List.forall_mem_cons.mpr ⟨hfirstFit, fun c hc ↦ ?_⟩
          obtain ⟨j, hj, rfl⟩ := List.mem_map.mp hc
          have hlt := List.mem_range.mp hj
          exact hfits (by omega)
        others := by
          refine List.forall_mem_cons.mpr ⟨hfirstOther, fun c hc e he hnot ↦ ?_⟩
          obtain ⟨j, -, rfl⟩ := List.mem_map.mp hc
          rw [(hchannel e ((roundRobin_sublist _ _ _).mem he)).1] at hnot
          cases hnot
        length := by
          simp only [List.length_cons, List.length_map, List.length_range]
          omega }
  · rw [if_neg hfit]
    refine ⟨iff_of_true rfl fun n hn hmax ↦ ?_, fun result hresult ↦ by cases hresult⟩
    rw [← hfalse n]
    rcases hend with hend | hend
    · exact absurd hend hfit
    · rcases Nat.lt_or_ge n slotCount with hlt | hge
      · exact hsmall n hn hlt
      · have heq : n = slotCount := by omega
        rw [heq]
        exact Bool.not_eq_true _ ▸ hfit

/-- Two channels in two slots, and a message that is evicted. -/
theorem smallSplit :
    ∃ result, splitContextsIntoBudgetedSlots [(ascii ['a'], 1), (ascii ['b'], 2)]
      [(ascii ['m', 's', 'g', ':', 'x'], 3)] (ascii ['c']) 1 8 44 (fun _ ↦ []) = some result ∧
      Partitioned [(ascii ['a'], 1), (ascii ['b'], 2)] [(ascii ['m', 's', 'g', ':', 'x'], 3)]
        (ascii ['c']) 1 44 result := by
  have hspec := splitContexts_spec [(ascii ['a'], 1), (ascii ['b'], 2)]
    [(ascii ['m', 's', 'g', ':', 'x'], 3)] (ascii ['c']) 1 8 44 (fun _ ↦ [])
    (by decide) (by decide) (by decide) (by decide)
  exact ⟨_, rfl, hspec.2 _ rfl⟩

end Split

end Buzz.Desktop.ReadState
