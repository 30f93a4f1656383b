import Mathlib.Data.List.Basic
import Mathlib.Data.List.Pairwise
import Mathlib.Order.Lattice

namespace Buzz.Lib.Claims

/-- A claim on a row, as it was given out. -/
structure Grant (κ τ θ : Type*) where
  key : κ
  token : τ
  expires : θ
deriving DecidableEq

/-- The claim that each row has, the claims ever given out, newest first, and those whose holder has
not ended them yet. -/
structure Ledger (κ τ θ : Type*) where
  current : κ → Option (τ × θ)
  issued : List (Grant κ τ θ)
  out : List (Grant κ τ θ)

variable {κ τ θ : Type*} [DecidableEq κ] [LinearOrder θ]

namespace Ledger

structure Inv (l : Ledger κ τ θ) (clock : θ) : Prop where
  newest : ∀ k c, l.current k = some c → l.issued.find? (fun g ↦ g.key = k) = some ⟨k, c.1, c.2⟩
  distinct : l.issued.Pairwise fun g g' ↦ g.key = g'.key → g.token ≠ g'.token
  held : ∀ g ∈ l.out, clock ≤ g.expires → l.current g.key = some (g.token, g.expires)

def claim (l : Ledger κ τ θ) (keys : List κ) (token : τ) (expires : θ) : Ledger κ τ θ where
  current k := if k ∈ keys then some (token, expires) else l.current k
  issued := keys.map (fun k ↦ ⟨k, token, expires⟩) ++ l.issued
  out := keys.map (fun k ↦ ⟨k, token, expires⟩) ++ l.out

/-- Some rows lose their claims, none of which may be unexpired and still out. -/
structure Clears (l l' : Ledger κ τ θ) (clock : θ) : Prop where
  current : ∀ k, l'.current k = l.current k ∨
    (l'.current k = none ∧ ∀ g ∈ l'.out, g.key = k → g.expires < clock)
  issued : l'.issued = l.issued
  out : l'.out ⊆ l.out

/-- A row has at most one claim that is out and unexpired. -/
def OneLive (l : Ledger κ τ θ) (clock : θ) : Prop :=
  ∀ g ∈ l.out, ∀ g' ∈ l.out, g.key = g'.key → clock ≤ g.expires → clock ≤ g'.expires → g = g'

/-- The row of the claim has been claimed again since. -/
def Reclaimed (l : Ledger κ τ θ) (g : Grant κ τ θ) : Prop :=
  ∃ newer older, l.issued = newer ++ g :: older ∧ ∃ g' ∈ newer, g'.key = g.key

variable {l l' : Ledger κ τ θ} {clock clock' : θ}

theorem Inv.tick (h : l.Inv clock) (hle : clock ≤ clock') : l.Inv clock' :=
  ⟨h.newest, h.distinct, fun g hg hlive ↦ h.held g hg (hle.trans hlive)⟩

omit [LinearOrder θ] in
theorem find?_map_grant {keys : List κ} {token : τ} {expires : θ} {rest : List (Grant κ τ θ)} {k : κ} :
    (keys.map (fun k ↦ (⟨k, token, expires⟩ : Grant κ τ θ)) ++ rest).find? (fun g ↦ g.key = k) =
      if k ∈ keys then some ⟨k, token, expires⟩ else rest.find? fun g ↦ g.key = k := by
  induction keys with
  | nil => rfl
  | cons k' keys ih =>
    rw [List.map_cons, List.cons_append, List.find?_cons]
    by_cases hk : k' = k
    · simp [hk]
    · rw [decide_eq_false hk]
      simp only [ih, List.mem_cons, Ne.symm hk, false_or]

theorem Inv.claim (h : l.Inv clock) {keys : List κ} {token : τ} {expires now : θ}
    (hkeys : keys.Nodup) (hfresh : ∀ g ∈ l.issued, g.token ≠ token) (hnow : now ≤ clock)
    (hpast : ∀ k ∈ keys, ∀ c, l.current k = some c → c.2 < now) :
    (l.claim keys token expires).Inv clock where
  newest k c hc := by
    rw [Ledger.claim] at hc ⊢
    simp only [find?_map_grant] at hc ⊢
    split at hc
    · next hk =>
      rw [if_pos hk, ← Option.some.inj hc]
    · next hk =>
      rw [if_neg hk]
      exact h.newest k c hc
  distinct := by
    refine List.pairwise_append.mpr ⟨?_, h.distinct, fun g hg g' hg' _ ↦ ?_⟩
    · rw [List.pairwise_map]
      exact hkeys.imp fun hne heq ↦ (hne heq).elim
    · obtain ⟨k, -, rfl⟩ := List.mem_map.mp hg
      exact (hfresh g' hg').symm
  held g hg hlive := by
    change (if g.key ∈ keys then some (token, expires) else l.current g.key) = _
    rcases List.mem_append.mp hg with hg | hg
    · obtain ⟨k, hk, rfl⟩ := List.mem_map.mp hg
      rw [if_pos hk]
    · have hcurrent := h.held g hg hlive
      have hnot : g.key ∉ keys := by
        intro hk
        have hlt := hpast g.key hk _ hcurrent
        exact absurd (hlt.trans_le hnow) (not_lt.mpr hlive)
      rw [if_neg hnot, hcurrent]

theorem Inv.clear (h : l.Inv clock) (hclears : l.Clears l' clock) : l'.Inv clock where
  newest k c hc := by
    rw [hclears.issued]
    rcases hclears.current k with heq | ⟨hnone, -⟩
    · exact h.newest k c (heq ▸ hc)
    · rw [hnone] at hc
      cases hc
  distinct := hclears.issued ▸ h.distinct
  held g hg hlive := by
    rcases hclears.current g.key with heq | ⟨-, hexpired⟩
    · rw [heq]
      exact h.held g (hclears.out hg) hlive
    · exact absurd (hexpired g hg rfl) (not_lt.mpr hlive)

theorem Inv.oneLive (h : l.Inv clock) : l.OneLive clock := by
  intro g hg g' hg' hkey hlive hlive'
  have hcurrent := h.held g hg hlive
  rw [hkey, h.held g' hg' hlive'] at hcurrent
  obtain ⟨key, token, expires⟩ := g
  obtain ⟨key', token', expires'⟩ := g'
  cases Option.some.inj hcurrent
  cases hkey
  rfl

/-- Once a row has been claimed again, an older claim on it is not the current one. -/
theorem Inv.ne_of_reclaimed (h : l.Inv clock) {g : Grant κ τ θ} (hreclaimed : l.Reclaimed g)
    {c : τ × θ} (hc : l.current g.key = some c) : c.1 ≠ g.token := by
  obtain ⟨newer, older, hissued, g', hg', hkey⟩ := hreclaimed
  have hfind := h.newest g.key c hc
  have hdistinct := h.distinct
  rw [hissued] at hfind hdistinct
  rw [List.find?_append] at hfind
  obtain ⟨g₀, hg₀⟩ : ∃ g₀, newer.find? (fun g'' ↦ g''.key = g.key) = some g₀ := by
    apply Option.isSome_iff_exists.mp
    rw [List.find?_isSome]
    exact ⟨g', hg', decide_eq_true hkey⟩
  rw [hg₀, Option.some_or] at hfind
  cases Option.some.inj hfind
  have hmem := List.mem_of_find?_eq_some hg₀
  exact (List.pairwise_append.mp hdistinct).2.2 _ hmem g List.mem_cons_self rfl

end Ledger

end Buzz.Lib.Claims
