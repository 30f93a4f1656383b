import Mathlib.Data.Sym.Sym2

namespace Buzz.Lib

/-- An ideal box: whoever holds a key at one of its ends could have sealed it and can open it,
and nobody else. -/
structure Box (κ π : Type*) where
  ends : Sym2 κ
  plain : π
  nonce : ℕ
deriving DecidableEq

/-- An attacker on the network, by the keys it holds and the values it can write down before the
run. -/
structure Intruder (κ ν : Type*) where
  owns : κ → Prop
  knows : ν → Prop

namespace Intruder

variable {κ π ν : Type*} (I : Intruder κ ν) (mentions : π → ν → Prop)

def CanOpen (b : Box κ π) : Prop := ∃ k, I.owns k ∧ k ∈ b.ends

def Learns (seen : Box κ π → Prop) (v : ν) : Prop :=
  I.knows v ∨ ∃ b, seen b ∧ I.CanOpen b ∧ mentions b.plain v

/-- A box is passed on as it was seen, or sealed with an own key around known values. -/
def CanSend (seen : Box κ π → Prop) (b : Box κ π) : Prop :=
  seen b ∨ I.CanOpen b ∧ ∀ v, mentions b.plain v → I.Learns mentions seen v

/-- A box the intruder could have sealed before it had seen any other. -/
def Foreign (b : Box κ π) : Prop := I.CanOpen b ∧ ∀ v, mentions b.plain v → I.knows v

variable {I mentions} {honest seen : Box κ π → Prop}

/-- Boxes sealed between others teach the intruder nothing. -/
theorem Learns.knows {v : ν} (h : I.Learns mentions seen v)
    (hseen : ∀ b, seen b → honest b ∨ I.Foreign mentions b)
    (hhonest : ∀ b, honest b → ¬I.CanOpen b) : I.knows v := by
  obtain h | ⟨b, hb, hopen, hv⟩ := h
  · exact h
  · rcases hseen b hb with hb | hb
    · exact (hhonest b hb hopen).elim
    · exact hb.2 v hv

theorem CanSend.honest_or_foreign {b : Box κ π} (h : I.CanSend mentions seen b)
    (hseen : ∀ b, seen b → honest b ∨ I.Foreign mentions b)
    (hhonest : ∀ b, honest b → ¬I.CanOpen b) : honest b ∨ I.Foreign mentions b := by
  obtain h | ⟨hopen, hknown⟩ := h
  · exact hseen b h
  · exact .inr ⟨hopen, fun v hv ↦ (hknown v hv).knows hseen hhonest⟩

end Intruder

end Buzz.Lib
