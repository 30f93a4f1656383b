import Buzz.Lib.Collections
import Mathlib.Data.List.Infix
import Mathlib.Data.List.Nodup

namespace Buzz.Lib

/-- The grants of one fenced resource, newest first, below a counter that never goes back. -/
structure Fence (ω : Type*) where
  counter : ℕ
  grants : List (ω × ℕ)
  decreasing : grants.Pairwise fun a b ↦ b.2 < a.2
  bounded : ∀ g ∈ grants, 0 < g.2 ∧ g.2 ≤ counter

namespace Fence

variable {ω : Type*}

def initial : Fence ω := ⟨0, [], List.Pairwise.nil, nofun⟩

/-- Hand the resource to `owner` under a fresh generation. -/
def grant (f : Fence ω) (owner : ω) : Fence ω where
  counter := f.counter + 1
  grants := (owner, f.counter + 1) :: f.grants
  decreasing := by
    refine List.Pairwise.cons (fun g hg ↦ ?_) f.decreasing
    have := (f.bounded g hg).2
    omega
  bounded := by
    intro g hg
    rcases List.mem_cons.mp hg with rfl | hg
    · exact ⟨Nat.succ_pos _, le_rfl⟩
    · have := f.bounded g hg
      omega

/-- Use up a generation without a grant. -/
def skip (f : Fence ω) : Fence ω where
  counter := f.counter + 1
  grants := f.grants
  decreasing := f.decreasing
  bounded := fun g hg ↦ ⟨(f.bounded g hg).1, Nat.le_succ_of_le (f.bounded g hg).2⟩

/-- `f'` is a later state of the resource than `f`. -/
def Extends (f f' : Fence ω) : Prop := f.grants <:+ f'.grants ∧ f.counter ≤ f'.counter

variable {f f' f'' : Fence ω}

theorem Extends.refl (f : Fence ω) : f.Extends f := ⟨List.suffix_rfl, le_rfl⟩

theorem Extends.trans (h : f.Extends f') (h' : f'.Extends f'') : f.Extends f'' :=
  ⟨h.1.trans h'.1, h.2.trans h'.2⟩

theorem extends_grant (f : Fence ω) (owner : ω) : f.Extends (f.grant owner) :=
  ⟨List.suffix_cons _ _, Nat.le_succ _⟩

theorem extends_skip (f : Fence ω) : f.Extends f.skip := ⟨List.suffix_rfl, Nat.le_succ _⟩

theorem Extends.mem (h : f.Extends f') {g : ω × ℕ} (hg : g ∈ f.grants) : g ∈ f'.grants :=
  h.1.subset hg

theorem owner_unique {g g' : ω × ℕ} (hg : g ∈ f.grants) (hg' : g' ∈ f.grants)
    (h : g.2 = g'.2) : g = g' := by
  have hinj : (f.grants.map Prod.snd).Nodup := by
    rw [List.Nodup, List.pairwise_map]
    exact f.decreasing.imp fun hlt ↦ hlt.ne'
  exact List.inj_on_of_nodup_map hinj hg hg' h

/-- No grant is newer than the last one. -/
theorem le_head {g g' : ω × ℕ} (hhead : f.grants.head? = some g) (hg' : g' ∈ f.grants) :
    g'.2 ≤ g.2 := by
  obtain ⟨rest, hrest⟩ := List.head?_eq_some_iff.mp hhead
  have hpair := f.decreasing
  rw [hrest] at hpair hg'
  rcases List.mem_cons.mp hg' with rfl | hg'
  · exact le_rfl
  · exact (List.rel_of_pairwise_cons hpair hg').le

theorem Extends.lt_grant (h : f.Extends f') {g : ω × ℕ} (hg : g ∈ f.grants) :
    g.2 < f'.counter + 1 := by
  have := (f.bounded g hg).2
  have := h.2
  omega

end Fence

/-- One time a key was taken: until when, and whether it was given back early. -/
structure Take (κ : Type*) where
  key : κ
  expiry : ℤ
  released : Bool

namespace Take

variable {κ : Type*}

def Live (t : Take κ) (clock : ℤ) : Prop := t.released = false ∧ clock ≤ t.expiry

theorem Live.of_le {t : Take κ} {clock now : ℤ} (h : t.Live now) (hle : clock ≤ now) :
    t.Live clock :=
  ⟨h.1, Int.le_trans hle h.2⟩

end Take

variable {κ : Type*} [DecidableEq κ]

structure ExpiringFences (fences : Map κ ℤ) (clock : ℤ) (takes : List (Take κ)) : Prop where
  stored : ∀ t ∈ takes, t.Live clock → fences.lookup t.key = some t.expiry
  single : takes.Pairwise fun t t' ↦ t.key = t'.key → ¬t.Live clock

namespace ExpiringFences

variable {fences : Map κ ℤ} {clock now : ℤ} {takes : List (Take κ)} {key : κ}

theorem empty (clock : ℤ) : ExpiringFences (∅ : Map κ ℤ) clock [] := ⟨nofun, List.Pairwise.nil⟩

theorem mem_of_live (h : ExpiringFences fences clock takes) {t : Take κ} (ht : t ∈ takes)
    (hlive : t.Live clock) : t.key ∈ fences := by
  rw [← AList.lookup_isSome, h.stored t ht hlive]
  rfl

theorem tick (h : ExpiringFences fences clock takes) (hle : clock ≤ now) :
    ExpiringFences fences now takes := by
  constructor
  · intro t ht hlive
    exact h.stored t ht (hlive.of_le hle)
  · exact h.single.imp fun hsingle heq hlive ↦ hsingle heq (hlive.of_le hle)

theorem not_live_of_free (h : ExpiringFences fences clock takes) (hfree : key ∉ fences) {t : Take κ}
    (ht : t ∈ takes) (hkey : t.key = key) : ¬t.Live clock :=
  fun hlive ↦ hfree (hkey ▸ h.mem_of_live ht hlive)

theorem take (h : ExpiringFences fences clock takes) (hfree : key ∉ fences) (expiry : ℤ) :
    ExpiringFences (AList.insert key expiry fences) clock (takes ++ [⟨key, expiry, false⟩]) := by
  constructor
  · intro t ht hlive
    rw [Map.lookup_insert_eq]
    rcases List.mem_append.mp ht with hold | hnew
    · have hne : t.key ≠ key := fun hkey ↦ h.not_live_of_free hfree hold hkey hlive
      rw [if_neg hne]
      exact h.stored t hold hlive
    · obtain rfl := List.mem_singleton.mp hnew
      rw [if_pos rfl]
  · rw [List.pairwise_append]
    refine ⟨h.single, List.pairwise_singleton _ _, ?_⟩
    intro t ht t' ht' hkey
    obtain rfl := List.mem_singleton.mp ht'
    exact h.not_live_of_free hfree ht hkey

theorem reap (h : ExpiringFences fences clock takes) :
    ExpiringFences (Map.keepEntries (fun _ e ↦ !decide (e < clock)) fences) clock takes := by
  refine ⟨fun t ht hlive ↦ ?_, h.single⟩
  rw [Map.lookup_keepEntries, h.stored t ht hlive, Option.filter_some, if_pos]
  simpa using hlive.2

omit [DecidableEq κ] in
/-- Marking a take as given back changes no key and brings no take to life. -/
theorem getElem?_released {k : ℕ} {t : Take κ} (hk : takes[k]? = some t) {j : ℕ} {t' : Take κ}
    (hj : (takes.set k { t with released := true })[j]? = some t') :
    ∃ t'', takes[j]? = some t'' ∧ t''.key = t'.key ∧
      ∀ {clock}, t'.Live clock → j ≠ k ∧ t'' = t' := by
  by_cases hjk : j = k
  · obtain ⟨hlt, -⟩ := List.getElem?_eq_some_iff.mp hk
    rw [hjk, List.getElem?_set_self hlt] at hj
    obtain rfl := Option.some.inj hj
    refine ⟨t, hjk ▸ hk, rfl, ?_⟩
    intro clock hlive
    exact Bool.noConfusion hlive.1
  · rw [List.getElem?_set_ne (Ne.symm hjk)] at hj
    exact ⟨t', hj, rfl, fun _ ↦ ⟨hjk, rfl⟩⟩

theorem not_live_of_later (h : ExpiringFences fences clock takes) {i j : ℕ} {t t' : Take κ}
    (hi : takes[i]? = some t) (hj : takes[j]? = some t') (hij : i < j) (hkey : t.key = t'.key) :
    ¬t.Live clock := by
  obtain ⟨hi', rfl⟩ := List.getElem?_eq_some_iff.mp hi
  obtain ⟨hj', rfl⟩ := List.getElem?_eq_some_iff.mp hj
  exact List.pairwise_iff_getElem.mp h.single i j hi' hj' hij hkey

/-- Giving back a take whose fence, if there is one, no later take has put there. -/
theorem release (h : ExpiringFences fences clock takes) {k : ℕ} {t : Take κ}
    (hk : takes[k]? = some t)
    (hown : t.key ∈ fences → ∀ j t', k < j → takes[j]? = some t' → t'.key ≠ t.key) :
    ExpiringFences (fences.erase t.key) clock (takes.set k { t with released := true }) := by
  constructor
  · intro t' ht' hlive
    obtain ⟨j, hj⟩ := List.mem_iff_getElem?.mp ht'
    obtain ⟨t'', hj', -, hsame⟩ := getElem?_released hk hj
    obtain ⟨hjk, rfl⟩ := hsame hlive
    have hmem := List.mem_of_getElem? hj'
    have hne : t''.key ≠ t.key := by
      intro hkey
      rcases Nat.lt_or_gt_of_ne hjk with hlt | hgt
      · exact h.not_live_of_later hj' hk hlt hkey hlive
      · exact hown (hkey ▸ h.mem_of_live hmem hlive) j t'' hgt hj' hkey
    rw [Map.lookup_erase_eq, if_neg hne]
    exact h.stored t'' hmem hlive
  · rw [List.pairwise_iff_getElem]
    intro i j hi hj hij hkey hlive
    obtain ⟨t₁, hi', hkey₁, hsame⟩ :=
      getElem?_released hk (List.getElem?_eq_getElem hi)
    obtain ⟨t₂, hj', hkey₂, -⟩ :=
      getElem?_released hk (List.getElem?_eq_getElem hj)
    obtain ⟨-, hsame⟩ := hsame hlive
    exact h.not_live_of_later hi' hj' hij (hkey₁.trans (hkey.trans hkey₂.symm)) (hsame ▸ hlive)

/-- Where a key fixes the expiry and nothing is given back, a key is taken once. -/
theorem fresh_of_fixed (h : ExpiringFences fences clock takes) (hfree : key ∉ fences)
    {expiry : ℤ} (hkept : ∀ t ∈ takes, t.released = false)
    (hfixed : ∀ t ∈ takes, t.key = key → t.expiry = expiry)
    (hexpiry : clock ≤ expiry) : ∀ t ∈ takes, t.key ≠ key := by
  intro t ht hkey
  apply h.not_live_of_free hfree ht hkey
  exact ⟨hkept t ht, hfixed t ht hkey ▸ hexpiry⟩

end ExpiringFences

end Buzz.Lib
