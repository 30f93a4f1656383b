import Buzz.Lib.Collections

namespace Buzz.Lib

/-- A multi-valued index: each key holds a bucket of entries, and an absent key an empty one. -/
abbrev BucketIndex (κ ε : Type*) := Map κ (List ε)

namespace BucketIndex

variable {κ ε : Type*} [DecidableEq κ]

def bucket (m : BucketIndex κ ε) (k : κ) : List ε := (m.lookup k).getD []

def push (m : BucketIndex κ ε) (k : κ) (x : ε) : BucketIndex κ ε :=
  AList.insert k (m.bucket k ++ [x]) m

def pushAll (m : BucketIndex κ ε) (ks : List κ) (x : ε) : BucketIndex κ ε :=
  ks.foldl (fun m k ↦ m.push k x) m

@[simp] theorem bucket_empty (k : κ) : (∅ : BucketIndex κ ε).bucket k = [] := by
  simp [bucket, AList.lookup_empty]

theorem bucket_push {m : BucketIndex κ ε} {k k' : κ} {x : ε} :
    (m.push k x).bucket k' = if k' = k then m.bucket k ++ [x] else m.bucket k' := by
  simp only [bucket, push, Map.lookup_insert_eq]
  split <;> rfl

theorem mem_bucket_push {m : BucketIndex κ ε} {k k' : κ} {x y : ε} :
    y ∈ (m.push k x).bucket k' ↔ y ∈ m.bucket k' ∨ (k' = k ∧ y = x) := by
  rw [bucket_push]
  split
  · next h => simp [h]
  · next h => simp [h]

theorem mem_bucket_pushAll {m : BucketIndex κ ε} {ks : List κ} {k' : κ} {x y : ε} :
    y ∈ (m.pushAll ks x).bucket k' ↔ y ∈ m.bucket k' ∨ (k' ∈ ks ∧ y = x) := by
  induction ks generalizing m with
  | nil => simp [pushAll]
  | cons k ks ih =>
    have hstep := ih (m := m.push k x)
    simp only [pushAll, List.foldl_cons] at hstep ⊢
    rw [hstep, mem_bucket_push, List.mem_cons]
    tauto

variable [DecidableEq ε]

/-- Drop every copy of `x` from one bucket, and the bucket itself once it is empty. -/
def purge (m : BucketIndex κ ε) (k : κ) (x : ε) : BucketIndex κ ε :=
  match m.lookup k with
  | none => m
  | some entries =>
    let kept := entries.filter fun y ↦ !(y == x)
    if kept.isEmpty then m.erase k else AList.insert k kept m

def purgeAll (m : BucketIndex κ ε) (ks : List κ) (x : ε) : BucketIndex κ ε :=
  ks.foldl (fun m k ↦ m.purge k x) m

theorem bucket_purge {m : BucketIndex κ ε} {k k' : κ} {x : ε} :
    (m.purge k x).bucket k' =
      if k' = k then (m.bucket k).filter fun y ↦ !(y == x) else m.bucket k' := by
  unfold purge
  cases hl : m.lookup k with
  | none =>
    simp only
    split
    · next h => subst h; simp [bucket, hl]
    · rfl
  | some entries =>
    have hk : m.bucket k = entries := by simp [bucket, hl]
    simp only
    split
    · next he =>
      rw [List.isEmpty_iff] at he
      simp only [bucket, Map.lookup_erase_eq]
      split
      · rw [← bucket, hk, he]; rfl
      · rfl
    · simp only [bucket, Map.lookup_insert_eq]
      split
      · rw [← bucket, hk]; rfl
      · rfl

theorem mem_bucket_purge {m : BucketIndex κ ε} {k k' : κ} {x y : ε} :
    y ∈ (m.purge k x).bucket k' ↔ y ∈ m.bucket k' ∧ ¬ (k' = k ∧ y = x) := by
  rw [bucket_purge]
  split
  · next h => simp [h]
  · next h => simp [h]

theorem mem_bucket_purgeAll {m : BucketIndex κ ε} {ks : List κ} {k' : κ} {x y : ε} :
    y ∈ (m.purgeAll ks x).bucket k' ↔ y ∈ m.bucket k' ∧ ¬ (k' ∈ ks ∧ y = x) := by
  induction ks generalizing m with
  | nil => simp [purgeAll]
  | cons k ks ih =>
    have hstep := ih (m := m.purge k x)
    simp only [purgeAll, List.foldl_cons] at hstep ⊢
    rw [hstep, mem_bucket_purge, List.mem_cons]
    tauto

/-- No bucket is empty, and none holds an entry twice. -/
structure Tidy (m : BucketIndex κ ε) : Prop where
  ne_nil : ∀ k xs, m.lookup k = some xs → xs ≠ []
  nodup : ∀ k, (m.bucket k).Nodup

omit [DecidableEq ε] in
theorem tidy_empty : Tidy (∅ : BucketIndex κ ε) :=
  ⟨fun k xs h ↦ by simp at h, fun k ↦ by simp⟩

omit [DecidableEq ε] in
theorem Tidy.push {m : BucketIndex κ ε} (h : m.Tidy) {k : κ} {x : ε} (hx : x ∉ m.bucket k) :
    (m.push k x).Tidy := by
  constructor
  · intro k' xs hxs
    rw [BucketIndex.push, Map.lookup_insert_eq] at hxs
    split at hxs
    · cases hxs
      simp
    · exact h.ne_nil k' xs hxs
  · intro k'
    rw [bucket_push]
    split
    · exact (h.nodup k).append (List.nodup_singleton x) (by simpa using hx)
    · exact h.nodup k'

omit [DecidableEq ε] in
theorem Tidy.pushAll {m : BucketIndex κ ε} (h : m.Tidy) {ks : List κ} {x : ε} (hks : ks.Nodup)
    (hx : ∀ k ∈ ks, x ∉ m.bucket k) : (m.pushAll ks x).Tidy := by
  induction ks generalizing m with
  | nil => exact h
  | cons k ks ih =>
    obtain ⟨hk, hks⟩ := List.nodup_cons.mp hks
    rw [BucketIndex.pushAll, List.foldl_cons]
    refine ih (h.push (hx k (by simp))) hks ?_
    intro k' hk'
    have hne : k' ≠ k := fun heq ↦ hk (heq ▸ hk')
    rw [bucket_push, if_neg hne]
    exact hx k' (by simp [hk'])

theorem Tidy.purge {m : BucketIndex κ ε} (h : m.Tidy) (k : κ) (x : ε) : (m.purge k x).Tidy := by
  refine ⟨?_, fun k' ↦ ?_⟩
  · intro k' xs hxs
    rw [BucketIndex.purge] at hxs
    split at hxs
    · exact h.ne_nil k' xs hxs
    simp only at hxs
    split at hxs
    · rw [Map.lookup_erase_eq] at hxs
      split at hxs
      · cases hxs
      · exact h.ne_nil k' xs hxs
    · next hkept =>
      rw [Map.lookup_insert_eq] at hxs
      split at hxs
      · cases hxs
        simpa using hkept
      · exact h.ne_nil k' xs hxs
  · rw [bucket_purge]
    split
    · exact (h.nodup k).filter _
    · exact h.nodup k'

theorem Tidy.purgeAll {m : BucketIndex κ ε} (h : m.Tidy) (ks : List κ) (x : ε) :
    (m.purgeAll ks x).Tidy := by
  induction ks generalizing m with
  | nil => exact h
  | cons k ks ih =>
    rw [BucketIndex.purgeAll, List.foldl_cons]
    exact ih (h.purge k x)

end BucketIndex

section Covering

variable {X V S : Type*}

/-- Each bucket holds exactly the keys of the live values that claim its slot. -/
def Indexed (slots : V → List S) (live : X → Option V) (bucket : S → List X) : Prop :=
  ∀ s x, x ∈ bucket s ↔ ∃ v, live x = some v ∧ s ∈ slots v

variable {slots : V → List S} {live : X → Option V} {bucket bucket' : S → List X}

/-- Scanning the probed buckets is scanning the whole table, when every value that the query
accepts claims one of the probed slots. -/
theorem Indexed.mem_probe_iff (h : Indexed slots live bucket) {probes : List S}
    {accepts : V → Prop} (hcover : ∀ v, accepts v → ∃ s ∈ probes, s ∈ slots v) (x : X) :
    ((∃ s ∈ probes, x ∈ bucket s) ∧ ∃ v, live x = some v ∧ accepts v) ↔
      ∃ v, live x = some v ∧ accepts v := by
  refine and_iff_right_of_imp ?_
  rintro ⟨v, hv, hacc⟩
  obtain ⟨s, hs, hsv⟩ := hcover v hacc
  exact ⟨s, hs, (h s x).mpr ⟨v, hv, hsv⟩⟩

variable [DecidableEq X]

theorem Indexed.insert (h : Indexed slots live bucket) {x : X} {v : V} (hx : live x = none)
    (hb : ∀ s y, y ∈ bucket' s ↔ y ∈ bucket s ∨ (s ∈ slots v ∧ y = x)) :
    Indexed slots (Function.update live x (some v)) bucket' := by
  intro s y
  rw [hb, h s y]
  by_cases hy : y = x
  · subst hy
    simp [hx]
  · simp [hy]

theorem Indexed.remove (h : Indexed slots live bucket) {x : X} {v : V} (hx : live x = some v)
    (hb : ∀ s y, y ∈ bucket' s ↔ y ∈ bucket s ∧ ¬ (s ∈ slots v ∧ y = x)) :
    Indexed slots (Function.update live x none) bucket' := by
  intro s y
  rw [hb, h s y]
  by_cases hy : y = x
  · subst hy
    simp only [hx, Option.some.injEq, Function.update_self, reduceCtorEq, false_and,
      exists_false, iff_false]
    rintro ⟨⟨w, rfl, hs⟩, hn⟩
    exact hn ⟨hs, trivial⟩
  · simp [hy]

end Covering

end Buzz.Lib
