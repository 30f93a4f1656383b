import Buzz.Lib.Collections
import Buzz.Lib.Runs

namespace Buzz.Acp.Usage

open Buzz.Lib

/-- What a session has used so far, as the agent reports it. -/
structure UsageUpdatePayload (Cost : Type) where
  accumulatedInputTokens : UInt64
  accumulatedOutputTokens : UInt64
  accumulatedCost : Option Cost := none
  model : Option String := none
deriving DecidableEq

structure SessionState (Cost : Type) where
  publishedSeq : ℕ
  lastInput : UInt64
  lastOutput : UInt64
  lastCost : Option Cost
deriving DecidableEq

structure TurnUsage (Cost : Type) where
  sessionId : String
  turnSeq : ℕ
  deltaReliable : Bool
  turnInputTokens : Option UInt64
  turnOutputTokens : Option UInt64
  turnCostUsd : Option Cost
  cumulativeInputTokens : UInt64
  cumulativeOutputTokens : UInt64
  cumulativeCostUsd : Option Cost
  model : Option String
deriving DecidableEq

structure UsageTracker (Cost : Type) where
  sessions : Map String (SessionState Cost) := ∅
  inFlightSession : Option String := none
  pending : Option (TurnUsage Cost) := none

/-- The part of a record that is measured from the baseline. -/
structure Delta (Cost : Type) where
  reliable : Bool
  input : Option UInt64
  output : Option UInt64
  cost : Option Cost
  seq : ℕ

/-- A subtraction that would underflow panics. -/
def sub (a b : UInt64) : Option UInt64 := if b ≤ a then some (a - b) else none

variable {Cost : Type} [LE Cost] [DecidableLE Cost] [Sub Cost]

def Delta.unreliable (seq : ℕ) : Delta Cost := ⟨false, none, none, none, seq⟩

def delta (prev : Option (SessionState Cost)) (payload : UsageUpdatePayload Cost) :
    Option (Delta Cost) :=
  match prev with
  | none => some (.unreliable 1)
  | some prev =>
    let seq := prev.publishedSeq + 1
    if payload.accumulatedInputTokens < prev.lastInput ∨
        payload.accumulatedOutputTokens < prev.lastOutput then
      some (.unreliable seq)
    else
      (sub payload.accumulatedInputTokens prev.lastInput).bind fun di ↦
      (sub payload.accumulatedOutputTokens prev.lastOutput).map fun dout ↦
        match payload.accumulatedCost, prev.lastCost with
        | some c, some p =>
          if p ≤ c then ⟨true, some di, some dout, some (c - p), seq⟩ else .unreliable seq
        | _, _ => ⟨true, some di, some dout, none, seq⟩

namespace UsageTracker

def beginTurn (t : UsageTracker Cost) (sessionId : String) : UsageTracker Cost :=
  { t with inFlightSession := some sessionId, pending := none }

def pendingRecord (sessionId : String) (payload : UsageUpdatePayload Cost) (d : Delta Cost) :
    TurnUsage Cost where
  sessionId := sessionId
  turnSeq := d.seq
  deltaReliable := d.reliable
  turnInputTokens := d.input
  turnOutputTokens := d.output
  turnCostUsd := d.cost
  cumulativeInputTokens := payload.accumulatedInputTokens
  cumulativeOutputTokens := payload.accumulatedOutputTokens
  cumulativeCostUsd := payload.accumulatedCost
  model := payload.model

/-- The baseline that a notification outside any turn leaves. -/
def setupState (prev : Option (SessionState Cost)) (payload : UsageUpdatePayload Cost) :
    SessionState Cost where
  publishedSeq := (prev.map SessionState.publishedSeq).getD 0
  lastInput := payload.accumulatedInputTokens
  lastOutput := payload.accumulatedOutputTokens
  lastCost := payload.accumulatedCost

def record (t : UsageTracker Cost) (sessionId : String) (payload : UsageUpdatePayload Cost) :
    Option (UsageTracker Cost) :=
  (delta (t.sessions.lookup sessionId) payload).map fun d ↦
    if t.inFlightSession = some sessionId then
      { t with pending := some (pendingRecord sessionId payload d) }
    else if t.inFlightSession.isNone then
      { t with
        sessions := AList.insert sessionId (setupState (t.sessions.lookup sessionId) payload)
          t.sessions }
    else t

def publishedState (r : TurnUsage Cost) : SessionState Cost where
  publishedSeq := r.turnSeq
  lastInput := r.cumulativeInputTokens
  lastOutput := r.cumulativeOutputTokens
  lastCost := r.cumulativeCostUsd

def take (t : UsageTracker Cost) : UsageTracker Cost × Option (TurnUsage Cost) :=
  match t.pending with
  | none => ({ t with inFlightSession := none }, none)
  | some r =>
    ({ sessions := AList.insert r.sessionId (publishedState r) t.sessions
       inFlightSession := none
       pending := none }, some r)

end UsageTracker

inductive Call (Cost : Type)
  | beginTurn (sessionId : String)
  | record (sessionId : String) (payload : UsageUpdatePayload Cost)
  | take
deriving DecidableEq

structure Ledger (Cost : Type) where
  tracker : UsageTracker Cost := {}
  published : List (TurnUsage Cost) := []

namespace Ledger

def lastOf (published : List (TurnUsage Cost)) (sessionId : String) : Option (TurnUsage Cost) :=
  published.find? fun r ↦ r.sessionId = sessionId

/-- `none` is a panic. -/
def step (l : Ledger Cost) : Call Cost → Option (Ledger Cost)
  | .beginTurn sessionId => some { l with tracker := l.tracker.beginTurn sessionId }
  | .record sessionId payload =>
    (l.tracker.record sessionId payload).map fun tracker ↦ { l with tracker }
  | .take => some ⟨l.tracker.take.1, l.tracker.take.2.toList ++ l.published⟩

def run (calls : List (Call Cost)) : Option (Ledger Cost) := calls.foldlM step {}

end Ledger

def Numbered (published : List (TurnUsage Cost)) : Prop :=
  ∀ later r earlier, published = later ++ r :: earlier →
    r.turnSeq = ((Ledger.lastOf earlier r.sessionId).map TurnUsage.turnSeq).getD 0 + 1

def Telescopes (published : List (TurnUsage Cost)) : Prop :=
  ∀ later r earlier, published = later ++ r :: earlier → r.deltaReliable = true →
    ∀ p, Ledger.lastOf earlier r.sessionId = some p →
      ∃ di dout, r.turnInputTokens = some di ∧ r.turnOutputTokens = some dout ∧
        di.toNat + p.cumulativeInputTokens.toNat = r.cumulativeInputTokens.toNat ∧
        dout.toNat + p.cumulativeOutputTokens.toNat = r.cumulativeOutputTokens.toNat

/-- Outside any turn, a session that has published reports other totals than it published last. -/
def Ledger.Moves (l : Ledger Cost) : Call Cost → Prop
  | .record sessionId payload =>
    l.tracker.inFlightSession = none ∧ ∃ p, Ledger.lastOf l.published sessionId = some p ∧
      ¬(payload.accumulatedInputTokens = p.cumulativeInputTokens ∧
        payload.accumulatedOutputTokens = p.cumulativeOutputTokens)
  | _ => False

variable {l l' : Ledger Cost}

theorem sub_eq_some {a b : UInt64} (h : b ≤ a) :
    ∃ d, sub a b = some d ∧ d.toNat + b.toNat = a.toNat := by
  refine ⟨a - b, by rw [sub, if_pos h], ?_⟩
  rw [UInt64.toNat_sub_of_le a b h]
  exact Nat.sub_add_cancel (UInt64.le_iff_toNat_le.mp h)

/-- No subtraction underflows, and a reliable delta is the difference to the baseline. -/
theorem delta_spec (prev : Option (SessionState Cost)) (payload : UsageUpdatePayload Cost) :
    ∃ d, delta prev payload = some d ∧
      d.seq = (prev.map SessionState.publishedSeq).getD 0 + 1 ∧
      (d.reliable = true → ∃ p di dout, prev = some p ∧ d.input = some di ∧ d.output = some dout ∧
        di.toNat + p.lastInput.toNat = payload.accumulatedInputTokens.toNat ∧
        dout.toNat + p.lastOutput.toNat = payload.accumulatedOutputTokens.toNat) := by
  cases prev with
  | none => exact ⟨.unreliable 1, rfl, rfl, nofun⟩
  | some p =>
    simp only [delta, Option.map_some, Option.getD_some]
    split_ifs with hless
    · exact ⟨.unreliable (p.publishedSeq + 1), rfl, rfl, nofun⟩
    · rw [not_or] at hless
      obtain ⟨di, hdi, hin⟩ := sub_eq_some (UInt64.not_lt.mp hless.1)
      obtain ⟨dout, hdout, hout⟩ := sub_eq_some (UInt64.not_lt.mp hless.2)
      simp only [hdi, hdout, Option.bind_some, Option.map_some]
      refine ⟨_, rfl, ?_, ?_⟩
      · split
        · split_ifs <;> rfl
        · rfl
      · split
        · split_ifs
          · exact fun _ ↦ ⟨p, di, dout, rfl, rfl, rfl, hin, hout⟩
          · nofun
        · exact fun _ ↦ ⟨p, di, dout, rfl, rfl, rfl, hin, hout⟩

theorem forall_split_cons {α : Type} {P : α → List α → Prop} {a : α} {as : List α} :
    (∀ later r earlier, a :: as = later ++ r :: earlier → P r earlier) ↔
      P a as ∧ ∀ later r earlier, as = later ++ r :: earlier → P r earlier := by
  constructor
  · intro h
    refine ⟨h [] a as rfl, ?_⟩
    intro later r earlier has
    exact h (a :: later) r earlier (by rw [has, List.cons_append])
  · rintro ⟨ha, h⟩ later r earlier has
    cases later with
    | nil =>
      obtain ⟨rfl, rfl⟩ := List.cons_eq_cons.mp has
      exact ha
    | cons b later => exact h later r earlier (List.cons_eq_cons.mp has).2

def lastSeq (published : List (TurnUsage Cost)) (sessionId : String) : ℕ :=
  ((Ledger.lastOf published sessionId).map TurnUsage.turnSeq).getD 0

/-- What holds along every run. -/
structure Counted (l : Ledger Cost) : Prop where
  numbered : Numbered l.published
  seq : ∀ x, ((l.tracker.sessions.lookup x).map SessionState.publishedSeq).getD 0 =
    lastSeq l.published x
  flight : ∀ r, l.tracker.pending = some r → l.tracker.inFlightSession = some r.sessionId
  pending : ∀ r, l.tracker.pending = some r → ∃ payload d,
    delta (l.tracker.sessions.lookup r.sessionId) payload = some d ∧
      r = UsageTracker.pendingRecord r.sessionId payload d

def Settled (l : Ledger Cost) : Prop :=
  ∀ x p, Ledger.lastOf l.published x = some p → ∃ st, l.tracker.sessions.lookup x = some st ∧
    st.lastInput = p.cumulativeInputTokens ∧ st.lastOutput = p.cumulativeOutputTokens

omit [LE Cost] [DecidableLE Cost] [Sub Cost] in
theorem lastOf_cons (r : TurnUsage Cost) (published : List (TurnUsage Cost)) (x : String) :
    Ledger.lastOf (r :: published) x =
      if r.sessionId = x then some r else Ledger.lastOf published x := by
  rw [Ledger.lastOf, List.find?_cons]
  split_ifs with h <;> simp [h, Ledger.lastOf]

theorem counted_init : Counted ({} : Ledger Cost) where
  numbered := fun later r earlier h ↦ by simp at h
  seq _ := rfl
  flight := nofun
  pending := nofun

omit [LE Cost] [DecidableLE Cost] [Sub Cost] in
theorem settled_init : Settled ({} : Ledger Cost) := nofun

section Steps

theorem counted_take (h : Counted l) :
    Counted ⟨l.tracker.take.1, l.tracker.take.2.toList ++ l.published⟩ := by
  rw [UsageTracker.take]
  cases hpending : l.tracker.pending with
  | none =>
    exact { h with flight := by simp, pending := by simp }
  | some r =>
    obtain ⟨payload, d, hd, hr⟩ := h.pending r hpending
    obtain ⟨d', hd', hseq, -⟩ := delta_spec (l.tracker.sessions.lookup r.sessionId) payload
    obtain rfl := Option.some.inj (hd.symm.trans hd')
    have hnext : r.turnSeq = lastSeq l.published r.sessionId + 1 := by
      rw [← h.seq, ← hseq, hr]
      rfl
    refine ⟨forall_split_cons.mpr ⟨hnext, h.numbered⟩, ?_, nofun, nofun⟩
    intro x
    have hx := h.seq x
    simp only [Option.toList_some, List.singleton_append, lastSeq, lastOf_cons,
      Map.lookup_insert_eq] at hx ⊢
    by_cases hsame : r.sessionId = x
    · rw [if_pos hsame, if_pos hsame.symm]
      rfl
    · rw [if_neg hsame, if_neg (Ne.symm hsame)]
      exact hx

theorem counted_record {sessionId : String} {payload : UsageUpdatePayload Cost}
    {tracker : UsageTracker Cost} (h : Counted l)
    (hrecord : l.tracker.record sessionId payload = some tracker) :
    Counted { l with tracker } := by
  obtain ⟨d, hd, rfl⟩ := Option.map_eq_some_iff.mp hrecord
  split_ifs with hflight hnone
  · refine { h with flight := ?_, pending := ?_ }
    · intro r hr
      rw [← Option.some.inj hr]
      exact hflight
    · intro r hr
      rw [← Option.some.inj hr]
      exact ⟨payload, d, hd, rfl⟩
  · have hidle : l.tracker.pending = none := by
      by_contra hsome
      obtain ⟨r, hr⟩ := Option.ne_none_iff_exists'.mp hsome
      rw [h.flight r hr] at hnone
      simp at hnone
    refine { h with seq := ?_, pending := by simp [hidle], flight := by simp [hidle] }
    intro x
    rw [← h.seq x]
    simp only [Map.lookup_insert_eq]
    split_ifs with hx
    · rw [hx]
      rfl
    · rfl
  · exact h

omit [LE Cost] [DecidableLE Cost] [Sub Cost] in
theorem settled_take (h : Settled l) : Settled
    ⟨l.tracker.take.1, l.tracker.take.2.toList ++ l.published⟩ := by
  rw [UsageTracker.take]
  cases hpending : l.tracker.pending with
  | none => exact h
  | some r =>
    intro x p hp
    simp only [Option.toList_some, List.singleton_append, lastOf_cons, Map.lookup_insert_eq] at hp ⊢
    by_cases hsame : r.sessionId = x
    · rw [if_pos hsame] at hp
      rw [if_pos hsame.symm, ← Option.some.inj hp]
      exact ⟨_, rfl, rfl, rfl⟩
    · rw [if_neg hsame] at hp
      rw [if_neg (Ne.symm hsame)]
      exact h x p hp

theorem settled_record {sessionId : String} {payload : UsageUpdatePayload Cost}
    {tracker : UsageTracker Cost} (h : Settled l)
    (hrecord : l.tracker.record sessionId payload = some tracker)
    (hstill : ¬l.Moves (.record sessionId payload)) : Settled { l with tracker } := by
  obtain ⟨d, hd, rfl⟩ := Option.map_eq_some_iff.mp hrecord
  split_ifs with hflight hnone
  · exact h
  · intro x p hp
    simp only [Map.lookup_insert_eq]
    split_ifs with hx
    · subst hx
      have hsame : payload.accumulatedInputTokens = p.cumulativeInputTokens ∧
          payload.accumulatedOutputTokens = p.cumulativeOutputTokens := by
        by_contra hne
        exact hstill ⟨Option.isNone_iff_eq_none.mp hnone, p, hp, hne⟩
      exact ⟨_, rfl, hsame⟩
    · exact h x p hp
  · exact h

theorem telescopes_take (hcounted : Counted l) (hsettled : Settled l)
    (h : Telescopes l.published) : Telescopes (l.tracker.take.2.toList ++ l.published) := by
  rw [UsageTracker.take]
  cases hpending : l.tracker.pending with
  | none => exact h
  | some r =>
    refine forall_split_cons.mpr ⟨?_, h⟩
    intro hreliable p hp
    obtain ⟨payload, d, hd, hr⟩ := hcounted.pending r hpending
    obtain ⟨d', hd', -, hspec⟩ := delta_spec (l.tracker.sessions.lookup r.sessionId) payload
    obtain rfl := Option.some.inj (hd.symm.trans hd')
    obtain ⟨st, hst, hin, hout⟩ := hsettled r.sessionId p hp
    rw [hr] at hreliable
    obtain ⟨st', di, dout, hst', hdi, hdout, hdiff, hdiff'⟩ := hspec hreliable
    obtain rfl := Option.some.inj (hst.symm.trans hst')
    rw [hr, ← hin, ← hout]
    exact ⟨di, dout, hdi, hdout, hdiff, hdiff'⟩

end Steps

theorem exists_step (l : Ledger Cost) (c : Call Cost) : ∃ l', l.step c = some l' := by
  cases c with
  | beginTurn sessionId => exact ⟨_, rfl⟩
  | record sessionId payload =>
    obtain ⟨d, hd, -⟩ := delta_spec (l.tracker.sessions.lookup sessionId) payload
    simp only [Ledger.step, UsageTracker.record, hd, Option.map_some]
    exact ⟨_, rfl⟩
  | take => exact ⟨_, rfl⟩

theorem counted_step {c : Call Cost} (h : Counted l) (hstep : l.step c = some l') : Counted l' := by
  cases c with
  | beginTurn sessionId =>
    cases hstep
    exact { h with flight := nofun, pending := nofun }
  | record sessionId payload =>
    obtain ⟨tracker, htracker, rfl⟩ := Option.map_eq_some_iff.mp hstep
    exact counted_record h htracker
  | take =>
    cases hstep
    exact counted_take h

theorem telescopes_step {c : Call Cost} (hcounted : Counted l) (hsettled : Settled l)
    (h : Telescopes l.published) (hstill : ¬l.Moves c) (hstep : l.step c = some l') :
    Settled l' ∧ Telescopes l'.published := by
  cases c with
  | beginTurn sessionId =>
    cases hstep
    exact ⟨hsettled, h⟩
  | record sessionId payload =>
    obtain ⟨tracker, htracker, rfl⟩ := Option.map_eq_some_iff.mp hstep
    exact ⟨settled_record hsettled htracker hstill, h⟩
  | take =>
    cases hstep
    exact ⟨settled_take hsettled, telescopes_take hcounted hsettled h⟩

/-- What holds along the runs in which no baseline moves. -/
def Sound (l : Ledger Cost) : Prop := Counted l ∧ Settled l ∧ Telescopes l.published

theorem sound_init : Sound ({} : Ledger Cost) :=
  ⟨counted_init, settled_init, fun later r earlier h ↦ by simp at h⟩

theorem sound_step (t : Ledger Cost) (c : Call Cost) (t' : Ledger Cost) (h : Sound t)
    (hstill : ¬t.Moves c) (hstep : t.step c = some t') : Sound t' :=
  ⟨counted_step h.1 hstep, telescopes_step h.1 h.2.1 h.2.2 hstill hstep⟩

/-- No run panics, the numbers of each session follow one another, and the deltas telescope unless
a session that has published reports other totals between turns. -/
theorem run_telescopes (calls : List (Call Cost)) : ∃ l, Ledger.run calls = some l ∧
    Numbered l.published ∧
    ((∀ pre c, pre ++ [c] <+: calls → ∀ t, Ledger.run pre = some t → ¬t.Moves c) →
      Telescopes l.published) := by
  have hrun : ∃ l, Ledger.run calls = some l := by
    induction calls using List.reverseRecOn with
    | nil => exact ⟨_, rfl⟩
    | append_singleton calls c ih =>
      obtain ⟨l, hl⟩ := ih
      obtain ⟨l', hl'⟩ := exists_step l c
      exact ⟨l', foldlM_concat_eq_some.mpr ⟨l, hl, hl'⟩⟩
  obtain ⟨l, hl⟩ := hrun
  have hcounted : Counted l :=
    foldlM_invariant counted_init (fun _ _ _ h hstep ↦ counted_step h hstep) hl
  refine ⟨l, hl, hcounted.numbered, ?_⟩
  intro hstill
  exact (foldlM_invariant_of_allowed sound_init sound_step hstill hl).2.2

/-- A late notification between two turns hides a part of the second turn's usage. -/
theorem late_notification_hides_usage : ∃ l : Ledger ℕ,
    Ledger.run [.beginTurn "a", .record "a" ⟨1000, 100, none, none⟩, .take,
      .record "a" ⟨1500, 150, none, none⟩, .beginTurn "a", .record "a" ⟨2000, 250, none, none⟩,
      .take] = some l ∧ ¬Telescopes l.published := by
  refine ⟨_, rfl, ?_⟩
  intro h
  obtain ⟨di, dout, hdi, -, hdiff, -⟩ := h [] _ _ rfl rfl _ rfl
  cases hdi
  revert hdiff
  decide

end Buzz.Acp.Usage
