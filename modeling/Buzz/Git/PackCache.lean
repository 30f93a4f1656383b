import Buzz.Lib.Collections
import Buzz.Lib.Runs
import Mathlib.Data.List.MinMax
import Mathlib.Algebra.GroupWithZero.Nat
import Mathlib.Algebra.Order.Group.Nat
import Mathlib.Algebra.BigOperators.Group.List.Basic

namespace Buzz.Git

open Buzz.Lib

/-- A pack with its index in the cache. `arc` tells the allocation, which its holders share. -/
structure CachedPack where
  arc : ℕ
  totalBytes : ℕ
deriving DecidableEq, Repr

structure CacheRecord where
  entry : CachedPack
  lastUsed : ℕ
deriving DecidableEq, Repr

def U64_MAX : ℕ := 2 ^ 64 - 1

/-- `u64::saturating_add`. -/
def saturate (a b : ℕ) : ℕ := min (a + b) U64_MAX

/-- The cache, with the references to its packs that are held outside of it (`holders`), and the
population flights: the flight of a digest, how many take part in a flight, the callers that do, and
those that have left as the last one and are about to remove the flight. -/
structure GitPackCache where
  maxBytes : ℕ
  entries : Map String CacheRecord := ∅
  totalBytes : ℕ := 0
  tick : ℕ := 0
  holders : List ℕ := []
  nextArc : ℕ := 0
  flights : Map String ℕ := ∅
  participants : ℕ → ℕ := fun _ ↦ 0
  callers : List (String × ℕ) := []
  leaving : List (String × ℕ) := []
  nextFlight : ℕ := 0

namespace GitPackCache

variable (s : GitPackCache)

/-- `Arc::strong_count` is one: nobody but the cache holds the entry. -/
def unpinned (holders : List ℕ) (r : CacheRecord) : Bool := r.entry.arc ∉ holders

/-- A hit holds a reference; `present` tells whether the files are still there. -/
def lookup (digest : String) (present : Bool) : GitPackCache :=
  let s := { s with tick := saturate s.tick 1 }
  match s.entries.lookup digest with
  | some record =>
    if present then
      { s with
        entries := AList.insert digest { record with lastUsed := s.tick } s.entries
        holders := record.entry.arc :: s.holders }
    else s
  | none => s

def bytesWithout (digest : String) : ℕ :=
  match s.entries.lookup digest with
  | some previous => s.totalBytes - previous.entry.totalBytes
  | none => s.totalBytes

def insert (digest : String) (bytes : ℕ) : GitPackCache :=
  let tick := saturate s.tick 1
  { s with
    tick := tick
    totalBytes := saturate (s.bytesWithout digest) bytes
    entries := AList.insert digest ⟨⟨s.nextArc, bytes⟩, tick⟩ s.entries
    holders := s.nextArc :: s.holders
    nextArc := s.nextArc + 1 }

def unpin (arc : ℕ) : GitPackCache := { s with holders := s.holders.erase arc }

def invalidate (digest : String) : GitPackCache :=
  match s.entries.lookup digest with
  | some record =>
    { s with
      entries := s.entries.erase digest
      totalBytes := s.totalBytes - record.entry.totalBytes }
  | none => s

/-- The entry that `prune` takes next: of those nobody else holds, the one used longest ago. -/
def candidate (holders : List ℕ) (entries : Map String CacheRecord) :
    Option ((_ : String) × CacheRecord) :=
  (entries.entries.filter fun e ↦ unpinned holders e.2).argmin fun e ↦ e.2.lastUsed

theorem candidate_spec {holders : List ℕ} {entries : Map String CacheRecord}
    {e : (_ : String) × CacheRecord} (h : candidate holders entries = some e) :
    entries.lookup e.1 = some e.2 ∧ unpinned holders e.2 = true := by
  obtain ⟨hmem, hfree⟩ := List.mem_filter.mp (List.argmin_mem h)
  exact ⟨Map.mem_entries_iff.mp hmem, hfree⟩

theorem length_erase_lt {entries : Map String CacheRecord} {digest : String} {r : CacheRecord}
    (h : entries.lookup digest = some r) :
    (entries.erase digest).entries.length < entries.entries.length := by
  rw [(Map.entries_perm_of_lookup h).length_eq]
  exact Nat.lt_succ_self _

def pruneLoop (maxBytes : ℕ) (holders : List ℕ) (entries : Map String CacheRecord)
    (totalBytes : ℕ) : Map String CacheRecord × ℕ :=
  if maxBytes < totalBytes then
    match _h : candidate holders entries with
    | none => (entries, totalBytes)
    | some e =>
      pruneLoop maxBytes holders (entries.erase e.1) (totalBytes - e.2.entry.totalBytes)
  else (entries, totalBytes)
termination_by entries.entries.length
decreasing_by exact length_erase_lt (candidate_spec _h).1

def prune : GitPackCache :=
  let (entries, totalBytes) := pruneLoop s.maxBytes s.holders s.entries s.totalBytes
  { s with entries := entries, totalBytes := totalBytes }

def join (digest : String) : GitPackCache :=
  match s.flights.lookup digest with
  | some flight =>
    { s with
      participants := Function.update s.participants flight (s.participants flight + 1)
      callers := (digest, flight) :: s.callers }
  | none =>
    { s with
      flights := AList.insert digest s.nextFlight s.flights
      participants := Function.update s.participants s.nextFlight 1
      callers := (digest, s.nextFlight) :: s.callers
      nextFlight := s.nextFlight + 1 }

/-- The drop of a participant up to `remove_flight`. -/
def leave (caller : String × ℕ) : GitPackCache :=
  if caller ∈ s.callers then
    let left := s.participants caller.2
    { s with
      participants := Function.update s.participants caller.2 (left - 1)
      callers := s.callers.erase caller
      leaving := if left = 1 then caller :: s.leaving else s.leaving }
  else s

def removeFlight (caller : String × ℕ) : GitPackCache :=
  if caller ∈ s.leaving then
    let s := { s with leaving := s.leaving.erase caller }
    if s.flights.lookup caller.1 = some caller.2 ∧ s.participants caller.2 = 0 then
      { s with flights := s.flights.erase caller.1 }
    else s
  else s

end GitPackCache

inductive CacheOp
  | lookup (digest : String) (present : Bool)
  | insert (digest : String) (bytes : ℕ)
  | unpin (arc : ℕ)
  | invalidate (digest : String)
  | prune
  | join (digest : String)
  | leave (caller : String × ℕ)
  | removeFlight (caller : String × ℕ)
deriving DecidableEq, Repr

namespace GitPackCache

def step (s : GitPackCache) : CacheOp → GitPackCache
  | .lookup digest present => s.lookup digest present
  | .insert digest bytes => s.insert digest bytes
  | .unpin arc => s.unpin arc
  | .invalidate digest => s.invalidate digest
  | .prune => s.prune
  | .join digest => s.join digest
  | .leave caller => s.leave caller
  | .removeFlight caller => s.removeFlight caller

def run (maxBytes : ℕ) (ops : List CacheOp) : GitPackCache :=
  ops.foldl step { maxBytes := maxBytes }

def sizes (entries : Map String CacheRecord) : ℕ :=
  (entries.entries.map fun e ↦ e.2.entry.totalBytes).sum

theorem sizes_of_lookup {entries : Map String CacheRecord} {digest : String} {r : CacheRecord}
    (h : entries.lookup digest = some r) :
    sizes entries = r.entry.totalBytes + sizes (entries.erase digest) := by
  rw [sizes, ((Map.entries_perm_of_lookup h).map _).sum_eq, List.map_cons, List.sum_cons, sizes]

theorem sizes_insert (entries : Map String CacheRecord) (digest : String) (r : CacheRecord) :
    sizes (AList.insert digest r entries) = r.entry.totalBytes + sizes (entries.erase digest) := by
  rw [sizes, AList.entries_insert, List.map_cons, List.sum_cons]
  rfl

theorem sizes_erase_of_none {entries : Map String CacheRecord} {digest : String}
    (h : entries.lookup digest = none) : sizes (entries.erase digest) = sizes entries := by
  have hnot : digest ∉ entries.entries.keys := AList.lookup_eq_none.mp h
  rw [sizes, sizes, show (entries.erase digest).entries = entries.entries from
    List.kerase_of_notMem_keys hnot]

theorem candidate_eq_none {holders : List ℕ} {entries : Map String CacheRecord}
    (h : candidate holders entries = none) {digest : String} {r : CacheRecord}
    (hr : entries.lookup digest = some r) : r.entry.arc ∈ holders := by
  by_contra hfree
  have hmem : ⟨digest, r⟩ ∈ entries.entries.filter fun e ↦ unpinned holders e.2 :=
    List.mem_filter.mpr ⟨Map.mem_entries_iff.mpr hr, decide_eq_true hfree⟩
  rw [List.argmin_eq_none.mp h] at hmem
  cases hmem

section Prune

variable {maxBytes totalBytes : ℕ} {holders : List ℕ} {entries : Map String CacheRecord}

theorem pruneLoop_exact (h : totalBytes = sizes entries) :
    (pruneLoop maxBytes holders entries totalBytes).2 =
      sizes (pruneLoop maxBytes holders entries totalBytes).1 := by
  fun_induction pruneLoop maxBytes holders entries totalBytes with
  | case1 entries totalBytes hlt hnone => exact h
  | case2 entries totalBytes hlt e he ih =>
    apply ih
    rw [h, sizes_of_lookup (candidate_spec he).1, Nat.add_sub_cancel_left]
  | case3 entries totalBytes hle => exact h

theorem pruneLoop_fits :
    (pruneLoop maxBytes holders entries totalBytes).2 ≤ maxBytes ∨
      ∀ digest r, (pruneLoop maxBytes holders entries totalBytes).1.lookup digest = some r →
        r.entry.arc ∈ holders := by
  fun_induction pruneLoop maxBytes holders entries totalBytes with
  | case1 entries totalBytes hlt hnone => exact .inr fun digest r ↦ candidate_eq_none hnone
  | case2 entries totalBytes hlt e he ih => exact ih
  | case3 entries totalBytes hle => exact .inl (Nat.not_lt.mp hle)

theorem lookup_pruneLoop {digest : String} {r : CacheRecord} (hpinned : r.entry.arc ∈ holders)
    (h : entries.lookup digest = some r) :
    (pruneLoop maxBytes holders entries totalBytes).1.lookup digest = some r := by
  fun_induction pruneLoop maxBytes holders entries totalBytes with
  | case1 entries totalBytes hlt hnone => exact h
  | case2 entries totalBytes hlt e he ih =>
    apply ih
    have hne : digest ≠ e.1 := by
      rintro rfl
      obtain ⟨hlookup, hfree⟩ := candidate_spec he
      obtain rfl := Option.some.inj (h.symm.trans hlookup)
      exact of_decide_eq_true hfree hpinned
    rw [Map.lookup_erase_eq, if_neg hne, h]
  | case3 entries totalBytes hle => exact h

end Prune

theorem saturate_eq {a b : ℕ} (h : a + b < 2 ^ 64) : saturate a b = a + b := by
  rw [saturate, U64_MAX]
  omega

theorem bytesWithout_eq {s : GitPackCache} (h : s.totalBytes = sizes s.entries) (digest : String) :
    s.bytesWithout digest = sizes (s.entries.erase digest) := by
  rw [bytesWithout]
  split
  · next previous hprevious => rw [h, sizes_of_lookup hprevious, Nat.add_sub_cancel_left]
  · next hnone => rw [h, sizes_erase_of_none hnone]

/-- A step keeps the account as long as the sizes fit the counter. -/
theorem step_exact {s : GitPackCache} (h : s.totalBytes = sizes s.entries) (op : CacheOp)
    (hfits : sizes (s.step op).entries < 2 ^ 64) :
    (s.step op).totalBytes = sizes (s.step op).entries := by
  cases op with
  | lookup digest present =>
    rw [step, lookup]
    split
    · next record hrecord =>
      split
      · rw [sizes_insert, ← sizes_of_lookup hrecord]
        exact h
      · exact h
    · exact h
  | insert digest bytes =>
    rw [step, insert] at hfits ⊢
    rw [sizes_insert] at hfits ⊢
    simp only at hfits ⊢
    rw [bytesWithout_eq h, saturate_eq (by omega), Nat.add_comm]
  | unpin arc => exact h
  | invalidate digest =>
    rw [step, invalidate]
    split
    · next record hrecord =>
      simp only
      rw [h, sizes_of_lookup hrecord, Nat.add_sub_cancel_left]
    · exact h
  | prune => exact pruneLoop_exact h
  | join digest =>
    rw [step, join]
    split
    · exact h
    · exact h
  | leave caller =>
    rw [step, leave]
    split
    · exact h
    · exact h
  | removeFlight caller =>
    rw [step, removeFlight]
    split
    · dsimp only
      split
      · exact h
      · exact h
    · exact h

theorem sizes_le_of_exact {s : GitPackCache} (hle : s.totalBytes ≤ U64_MAX)
    (h : s.totalBytes = sizes s.entries) : sizes s.entries < 2 ^ 64 := by
  rw [← h]
  rw [U64_MAX] at hle
  omega

theorem pruneLoop_le (maxBytes : ℕ) (holders : List ℕ) (entries : Map String CacheRecord)
    (totalBytes : ℕ) : (pruneLoop maxBytes holders entries totalBytes).2 ≤ totalBytes := by
  fun_induction pruneLoop maxBytes holders entries totalBytes with
  | case1 entries totalBytes hlt hnone => exact le_rfl
  | case2 entries totalBytes hlt e he ih => exact ih.trans (Nat.sub_le _ _)
  | case3 entries totalBytes hle => exact le_rfl

/-- The counter stays within its type. -/
theorem step_totalBytes_le {s : GitPackCache} (h : s.totalBytes ≤ U64_MAX) (op : CacheOp) :
    (s.step op).totalBytes ≤ U64_MAX := by
  cases op with
  | lookup digest present =>
    rw [step, lookup]
    split
    · split
      · exact h
      · exact h
    · exact h
  | insert digest bytes => exact Nat.min_le_right _ _
  | unpin arc => exact h
  | invalidate digest =>
    rw [step, invalidate]
    split
    · exact (Nat.sub_le _ _).trans h
    · exact h
  | prune => exact (pruneLoop_le _ _ _ _).trans h
  | join digest =>
    rw [step, join]
    split
    · exact h
    · exact h
  | leave caller =>
    rw [step, leave]
    split
    · exact h
    · exact h
  | removeFlight caller =>
    rw [step, removeFlight]
    split
    · dsimp only
      split
      · exact h
      · exact h
    · exact h

theorem step_maxBytes (s : GitPackCache) (op : CacheOp) : (s.step op).maxBytes = s.maxBytes := by
  cases op with
  | lookup digest present =>
    rw [step, lookup]
    split
    · split
      · rfl
      · rfl
    · rfl
  | insert digest bytes => rfl
  | unpin arc => rfl
  | invalidate digest =>
    rw [step, invalidate]
    split
    · rfl
    · rfl
  | prune => rfl
  | join digest =>
    rw [step, join]
    split
    · rfl
    · rfl
  | leave caller =>
    rw [step, leave]
    split
    · rfl
    · rfl
  | removeFlight caller =>
    rw [step, removeFlight]
    split
    · dsimp only
      split
      · rfl
      · rfl
    · rfl

structure FlightsOk (s : GitPackCache) : Prop where
  slot : ∀ c ∈ s.callers, s.flights.lookup c.1 = some c.2
  counts : ∀ flight, s.participants flight = s.callers.countP fun c ↦ c.2 = flight
  fresh : ∀ digest flight, s.flights.lookup digest = some flight → flight < s.nextFlight

namespace FlightsOk

variable {s : GitPackCache}

theorem congr {s' : GitPackCache} (h : FlightsOk s) (hcallers : s'.callers = s.callers)
    (hflights : s'.flights = s.flights) (hparticipants : s'.participants = s.participants)
    (hnext : s'.nextFlight = s.nextFlight) : FlightsOk s' where
  slot := by
    rw [hcallers, hflights]
    exact h.slot
  counts := by
    rw [hcallers, hparticipants]
    exact h.counts
  fresh := by
    rw [hflights, hnext]
    exact h.fresh

theorem join (h : FlightsOk s) (digest : String) : FlightsOk (s.join digest) := by
  rw [GitPackCache.join]
  split
  · next flight hflight =>
    refine ⟨?_, ?_, h.fresh⟩
    · simpa using ⟨hflight, fun d f hmem ↦ h.slot (d, f) hmem⟩
    · intro flight'
      simp only [List.countP_cons, decide_eq_true_eq]
      by_cases heq : flight = flight'
      · subst heq
        simp [h.counts flight]
      · rw [Function.update_of_ne (Ne.symm heq), if_neg heq, h.counts flight']
        rfl
  · next hnone =>
    have hne (c : String × ℕ) (hc : c ∈ s.callers) : c.1 ≠ digest := by
      rintro rfl
      rw [h.slot c hc] at hnone
      cases hnone
    refine ⟨?_, ?_, ?_⟩
    · intro c hc
      obtain rfl | hc := List.mem_cons.mp hc
      · exact AList.lookup_insert _
      · dsimp only
        rw [AList.lookup_insert_ne (hne c hc), h.slot c hc]
    · intro flight
      simp only [List.countP_cons, decide_eq_true_eq]
      by_cases heq : s.nextFlight = flight
      · subst heq
        have hzero : (s.callers.countP fun c ↦ c.2 = s.nextFlight) = 0 := by
          apply List.countP_eq_zero.mpr
          intro c hc
          have hlt := h.fresh c.1 c.2 (h.slot c hc)
          rw [decide_eq_true_eq]
          omega
        simp [hzero]
      · rw [Function.update_of_ne (Ne.symm heq), if_neg heq, h.counts flight]
        rfl
    · intro digest' flight hflight
      dsimp only at hflight ⊢
      rw [Map.lookup_insert_eq] at hflight
      split at hflight
      · cases hflight
        omega
      · have := h.fresh digest' flight hflight
        omega

theorem leave (h : FlightsOk s) (caller : String × ℕ) : FlightsOk (s.leave caller) := by
  rw [GitPackCache.leave]
  split
  · next hcaller =>
    refine ⟨fun c hc ↦ h.slot c (List.mem_of_mem_erase hc), ?_, h.fresh⟩
    intro flight
    have hcount := (List.perm_cons_erase hcaller).countP_eq fun c ↦ decide (c.2 = flight)
    rw [List.countP_cons, ← h.counts flight] at hcount
    simp only [decide_eq_true_eq] at hcount
    dsimp only
    by_cases heq : caller.2 = flight
    · subst heq
      rw [if_pos rfl] at hcount
      rw [Function.update_self, hcount, Nat.add_sub_cancel]
    · rw [if_neg heq] at hcount
      rw [Function.update_of_ne (Ne.symm heq), hcount, Nat.add_zero]
  · exact h

theorem removeFlight (h : FlightsOk s) (caller : String × ℕ) :
    FlightsOk (s.removeFlight caller) := by
  rw [GitPackCache.removeFlight]
  split
  · dsimp only
    split
    · next hempty =>
      obtain ⟨hflight, hzero⟩ := hempty
      refine ⟨?_, h.counts, ?_⟩
      · intro c hc
        have hne : c.1 ≠ caller.1 := by
          intro heq
          have hslot := h.slot c hc
          rw [heq, hflight] at hslot
          rw [h.counts caller.2] at hzero
          exact List.countP_eq_zero.mp hzero c hc (decide_eq_true (Option.some.inj hslot).symm)
        dsimp only
        rw [Map.lookup_erase_eq, if_neg hne, h.slot c hc]
      · intro digest flight hlookup
        dsimp only at hlookup
        rw [Map.lookup_erase_eq] at hlookup
        split at hlookup
        · cases hlookup
        · exact h.fresh digest flight hlookup
    · exact h.congr rfl rfl rfl rfl
  · exact h

theorem step (h : FlightsOk s) (op : CacheOp) : FlightsOk (s.step op) := by
  cases op with
  | lookup digest present =>
    rw [GitPackCache.step, GitPackCache.lookup]
    split
    · split
      · exact h.congr rfl rfl rfl rfl
      · exact h.congr rfl rfl rfl rfl
    · exact h.congr rfl rfl rfl rfl
  | insert digest bytes => exact h.congr rfl rfl rfl rfl
  | unpin arc => exact h.congr rfl rfl rfl rfl
  | invalidate digest =>
    rw [GitPackCache.step, GitPackCache.invalidate]
    split
    · exact h.congr rfl rfl rfl rfl
    · exact h
  | prune => exact h.congr rfl rfl rfl rfl
  | join digest => exact h.join digest
  | leave caller => exact h.leave caller
  | removeFlight caller => exact h.removeFlight caller

end FlightsOk

section Runs

variable (maxBytes : ℕ) (ops : List CacheOp)

theorem run_flightsOk : FlightsOk (run maxBytes ops) :=
  List.foldlRecOn ops step ⟨by simp, by simp, by simp⟩ fun _ h op _ ↦ h.step op

theorem run_totalBytes_le : (run maxBytes ops).totalBytes ≤ U64_MAX :=
  List.foldlRecOn (motive := fun s ↦ s.totalBytes ≤ U64_MAX) ops step (Nat.zero_le _)
    fun _ h op _ ↦ step_totalBytes_le h op

theorem run_maxBytes : (run maxBytes ops).maxBytes = maxBytes :=
  List.foldlRecOn (motive := fun s ↦ s.maxBytes = maxBytes) ops step rfl
    fun s h op _ ↦ (s.step_maxBytes op).trans h

theorem run_exact (hfits : ∀ pre, pre <+: ops → sizes (run maxBytes pre).entries < 2 ^ 64) :
    (run maxBytes ops).totalBytes = sizes (run maxBytes ops).entries := by
  induction ops using List.reverseRecOn with
  | nil => rfl
  | append_singleton ops op ih =>
    have hlast := hfits _ (List.prefix_refl _)
    rw [run, List.foldl_append] at hlast ⊢
    apply step_exact (ih ?_) op hlast
    intro pre hpre
    exact hfits pre (hpre.trans (List.prefix_append ops [op]))

/-- The account is exact as long as the sizes fit the counter. A prune ends at the limit or with
entries that are all held, and removes none of those. No flight is removed under a caller. -/
theorem packCache_account :
    ((∀ pre, pre <+: ops → (run maxBytes pre).totalBytes = sizes (run maxBytes pre).entries) ↔
      ∀ pre, pre <+: ops → sizes (run maxBytes pre).entries < 2 ^ 64) ∧
    ((run maxBytes ops).prune.totalBytes ≤ maxBytes ∨
      ∀ digest r, (run maxBytes ops).prune.entries.lookup digest = some r →
        r.entry.arc ∈ (run maxBytes ops).prune.holders) ∧
    (∀ digest r, (run maxBytes ops).entries.lookup digest = some r →
      r.entry.arc ∈ (run maxBytes ops).holders →
      (run maxBytes ops).prune.entries.lookup digest = some r) ∧
    ∀ caller ∈ (run maxBytes ops).callers,
      (run maxBytes ops).flights.lookup caller.1 = some caller.2 := by
  refine ⟨⟨?_, ?_⟩, ?_, ?_, (run_flightsOk maxBytes ops).slot⟩
  · intro hexact pre hpre
    exact sizes_le_of_exact (run_totalBytes_le maxBytes pre) (hexact pre hpre)
  · intro hfits pre hpre
    exact run_exact maxBytes pre fun pre' hpre' ↦ hfits pre' (hpre'.trans hpre)
  · rw [prune, run_maxBytes]
    exact pruneLoop_fits
  · intro digest r hr hheld
    exact lookup_pruneLoop hheld hr

end Runs

def hugePacks : List CacheOp :=
  [.insert "aaaaaaaaaaaaaaaaaaaaaaaaaaaaaaaaaaaaaaaaaaaaaaaaaaaaaaaaaaaaaaaa" (2 ^ 63),
    .insert "bbbbbbbbbbbbbbbbbbbbbbbbbbbbbbbbbbbbbbbbbbbbbbbbbbbbbbbbbbbbbbbb" (2 ^ 63)]

theorem saturated_total_inexact :
    (run U64_MAX hugePacks).totalBytes = 2 ^ 64 - 1 ∧
      sizes (run U64_MAX hugePacks).entries = 2 ^ 64 := by
  decide

end GitPackCache

end Buzz.Git
