import Buzz.Lib.Runs
import Mathlib.Data.List.Perm.Subperm
import Mathlib.Data.Rat.Cast.Order
import Mathlib.Algebra.Order.Field.Rat
import Mathlib.Tactic.IntervalCases
import Mathlib.Tactic.Linarith
import Mathlib.Tactic.NormNum
import Mathlib.Tactic.Positivity

namespace Buzz.Acp

open Buzz.Lib

/-- Clock readings and durations are in nanoseconds. -/
def nanos (secs : ℕ) : ℕ := secs * 10 ^ 9

def CIRCUIT_BREAKER_THRESHOLD : ℕ := 3
def CIRCUIT_BREAKER_WINDOW : ℕ := nanos 60
def CIRCUIT_BREAKER_COOLDOWN : ℕ := nanos 300
def RESPAWN_BASE_DELAY : ℕ := nanos 1
def RESPAWN_MAX_DELAY : ℕ := nanos 30

/-- A crash at `t` still counts. -/
def inWindow (now t : ℕ) : Bool := now - t < CIRCUIT_BREAKER_WINDOW

theorem window_pos : 0 < CIRCUIT_BREAKER_WINDOW := by decide

theorem window_le_cooldown : CIRCUIT_BREAKER_WINDOW ≤ CIRCUIT_BREAKER_COOLDOWN := by decide

structure SlotCircuit where
  crashTimes : List ℕ := []
  openUntil : Option ℕ := none
  respawnInFlight : Bool := false
deriving DecidableEq, Repr

inductive CrashVerdict
  | respawn (delay : ℕ)
  | circuitOpen
  | halfOpenProbe
deriving DecidableEq, Repr

inductive CircuitCall
  | recordCrash (subsecNanos : ℕ)
  | canRefill
  | markSpawnFailed
deriving DecidableEq, Repr

/-- What a call returns; `underflow` is the panic of `recent - 1` where there is no crash. -/
inductive CircuitAnswer
  | verdict (v : CrashVerdict)
  | refill (allowed : Bool)
  | marked
  | underflow
deriving DecidableEq, Repr

/-- `Duration::mul_f64` by `0.8 + subsec_nanos / 1e9 * 0.4`. -/
abbrev Jitter := ℕ → ℕ → ℕ

/-- The floating-point product is the exact one, to a nanosecond and a relative error. -/
def Jitter.Accurate (jitter : Jitter) : Prop :=
  ∀ delay subsecNanos : ℕ, subsecNanos < 10 ^ 9 →
    |(jitter delay subsecNanos : ℚ) - delay * (8 / 10 + (subsecNanos : ℚ) / 10 ^ 9 * (4 / 10))| ≤
      1 + (delay : ℚ) / 2 ^ 50

namespace SlotCircuit

variable (jitter : Jitter) (s : SlotCircuit) (now : ℕ)

/-- Let one probe through; the next crash will find the threshold reached. -/
def halfOpen : SlotCircuit :=
  { s with crashTimes := List.replicate (CIRCUIT_BREAKER_THRESHOLD - 1) now, openUntil := none }

def backoff (recent subsecNanos : ℕ) : ℕ :=
  jitter (min (RESPAWN_BASE_DELAY * 2 ^ min (recent - 1) 5) RESPAWN_MAX_DELAY) subsecNanos

def recordCrash (subsecNanos : ℕ) : CircuitAnswer × SlotCircuit :=
  match s.openUntil with
  | some openUntil =>
    if openUntil ≤ now then (.verdict .halfOpenProbe, s.halfOpen now)
    else (.verdict .circuitOpen, s)
  | none =>
    let crashTimes := (s.crashTimes ++ [now]).filter (inWindow now)
    let recent := crashTimes.length
    if CIRCUIT_BREAKER_THRESHOLD ≤ recent then
      (.verdict .circuitOpen,
        { s with crashTimes := crashTimes, openUntil := some (now + CIRCUIT_BREAKER_COOLDOWN) })
    else if recent = 0 then (.underflow, { s with crashTimes := crashTimes })
    else
      (.verdict (.respawn (backoff jitter recent subsecNanos)), { s with crashTimes := crashTimes })

def markSpawnFailed : SlotCircuit :=
  { s with openUntil := some (now + CIRCUIT_BREAKER_COOLDOWN) }

def canRefill : Bool × SlotCircuit :=
  match s.openUntil with
  | some openUntil => if openUntil ≤ now then (true, s.halfOpen now) else (false, s)
  | none => (true, s)

def call : CircuitCall → CircuitAnswer × SlotCircuit
  | .recordCrash subsecNanos => s.recordCrash jitter now subsecNanos
  | .canRefill => ((.refill (s.canRefill now).1), (s.canRefill now).2)
  | .markSpawnFailed => (.marked, s.markSpawnFailed now)

end SlotCircuit

structure TimedCall where
  time : ℕ
  call : CircuitCall
deriving DecidableEq, Repr

structure ClockedCircuit where
  circuit : SlotCircuit := {}
  clock : ℕ := 0
deriving DecidableEq, Repr

structure CircuitEntry where
  before : SlotCircuit
  answer : CircuitAnswer
  after : SlotCircuit
deriving DecidableEq, Repr

def clockedStep (jitter : Jitter) (s : ClockedCircuit) (op : TimedCall) :
    CircuitEntry × ClockedCircuit :=
  let result := s.circuit.call jitter op.time op.call
  (⟨s.circuit, result.1, result.2⟩, ⟨result.2, op.time⟩)

/-- The clock does not go back, and `subsec_nanos` is less than a second. -/
def Admitted (s : ClockedCircuit) (op : TimedCall) : Prop :=
  s.clock ≤ op.time ∧ ∀ n, op.call = .recordCrash n → n < 10 ^ 9

def CircuitRun (jitter : Jitter) : List (TimedCall × CircuitEntry) → ClockedCircuit → Prop :=
  Answers Admitted (clockedStep jitter) {}

namespace CircuitAnswer

def Allows (a : CircuitAnswer) : Prop :=
  (∃ delay, a = .verdict (.respawn delay)) ∨ a = .verdict .halfOpenProbe ∨ a = .refill true

def isRespawn : CircuitAnswer → Bool
  | verdict (.respawn _) => true
  | _ => false

theorem isRespawn_eq_false {a : CircuitAnswer} (h : ¬a.Allows) : a.isRespawn = false := by
  cases a with
  | verdict v =>
    cases v with
    | respawn delay => exact absurd (.inl ⟨delay, rfl⟩) h
    | circuitOpen => rfl
    | halfOpenProbe => rfl
  | refill allowed => rfl
  | marked => rfl
  | underflow => rfl

end CircuitAnswer

def CircuitEntry.Probes (e : CircuitEntry) : Prop :=
  e.answer.Allows ∧ e.before.openUntil.isSome = true

structure BoundsCrashLoops (tr : List (TimedCall × CircuitEntry)) : Prop where
  closed : ∀ e ∈ tr, ∀ t ∈ e.2.before.openUntil, e.1.time < t → ¬e.2.answer.Allows
  respawns : ∀ a b, b < a + CIRCUIT_BREAKER_WINDOW →
    (tr.filter fun e ↦ e.2.answer.isRespawn && a ≤ e.1.time && e.1.time ≤ b).length ≤
      CIRCUIT_BREAKER_THRESHOLD - 1
  probes : ∀ e ∈ tr, ∀ t ∈ e.2.before.openUntil, t ≤ e.1.time → e.1.call ≠ .markSpawnFailed →
    e.2.Probes ∧ e.2.after.openUntil = none
  once : ∀ pre mid post e e', tr = pre ++ e :: (mid ++ e' :: post) → e.2.Probes → e'.2.Probes →
    ∃ o ∈ mid, o.2.after.openUntil = some (o.1.time + CIRCUIT_BREAKER_COOLDOWN) ∧
      o.1.time + CIRCUIT_BREAKER_COOLDOWN ≤ e'.1.time
  reopens : ∀ pre mid post e c n, tr = pre ++ e :: (mid ++ c :: post) → e.2.Probes →
    c.1.call = .recordCrash n → c.1.time < e.1.time + CIRCUIT_BREAKER_WINDOW →
    c.2.answer = .verdict .circuitOpen ∧ ∃ t ∈ c.2.after.openUntil, c.1.time < t
  backoff : ∀ e ∈ tr, e.2.answer ≠ .underflow ∧
    ∀ delay, e.2.answer = .verdict (.respawn delay) → 10 * delay ≤ 12 * RESPAWN_MAX_DELAY

inductive CallCases (jitter : Jitter) (s : SlotCircuit) (now : ℕ) :
    CircuitCall → CircuitAnswer × SlotCircuit → Prop
  | refused {c : CircuitCall} {a : CircuitAnswer} {t : ℕ} : s.openUntil = some t → now < t →
      c ≠ .markSpawnFailed → (∀ n, c = .recordCrash n → a = .verdict .circuitOpen) →
      ¬a.Allows → a ≠ .underflow → CallCases jitter s now c (a, s)
  | probe {c : CircuitCall} {a : CircuitAnswer} {t : ℕ} : s.openUntil = some t → t ≤ now →
      a = .verdict .halfOpenProbe ∨ a = .refill true → CallCases jitter s now c (a, s.halfOpen now)
  | refill : s.openUntil = none → CallCases jitter s now .canRefill (.refill true, s)
  | opened {n : ℕ} {crashTimes : List ℕ} : s.openUntil = none →
      crashTimes = (s.crashTimes ++ [now]).filter (inWindow now) →
      CallCases jitter s now (.recordCrash n) (.verdict .circuitOpen,
        { s with crashTimes := crashTimes, openUntil := some (now + CIRCUIT_BREAKER_COOLDOWN) })
  | respawn {n recent : ℕ} {crashTimes : List ℕ} : s.openUntil = none →
      crashTimes = (s.crashTimes ++ [now]).filter (inWindow now) → crashTimes.length = recent →
      1 ≤ recent → recent < CIRCUIT_BREAKER_THRESHOLD →
      CallCases jitter s now (.recordCrash n)
        (.verdict (.respawn (SlotCircuit.backoff jitter recent n)),
          { s with crashTimes := crashTimes })
  | failed : CallCases jitter s now .markSpawnFailed
      (.marked, { s with openUntil := some (now + CIRCUIT_BREAKER_COOLDOWN) })

theorem call_cases (jitter : Jitter) (s : SlotCircuit) (now : ℕ) (c : CircuitCall) :
    CallCases jitter s now c (s.call jitter now c) := by
  cases c with
  | recordCrash n =>
    rw [SlotCircuit.call, SlotCircuit.recordCrash]
    split
    · next t hopen =>
      split
      · next h => exact .probe hopen h (.inl rfl)
      · next h =>
        refine .refused hopen (by omega) (by simp) (fun _ _ ↦ rfl) ?_ (by simp)
        simp [CircuitAnswer.Allows]
    · next hopen =>
      dsimp only
      split
      · exact .opened hopen rfl
      · next hless =>
        have hnow : now ∈ (s.crashTimes ++ [now]).filter (inWindow now) :=
          List.mem_filter.mpr ⟨by simp, by simpa [inWindow] using window_pos⟩
        have hpos := List.length_pos_of_mem hnow
        rw [if_neg (by omega)]
        exact .respawn hopen rfl rfl hpos (by omega)
  | canRefill =>
    rw [SlotCircuit.call, SlotCircuit.canRefill]
    split
    · next t hopen =>
      split
      · next h => exact .probe hopen h (.inr rfl)
      · next h =>
        refine .refused hopen (by omega) (by simp) (by simp) ?_ (by simp)
        simp [CircuitAnswer.Allows]
    · next hopen => exact .refill hopen
  | markSpawnFailed => exact .failed

def respawnTimes (tr : List (TimedCall × CircuitEntry)) : List ℕ :=
  (tr.filter fun e ↦ e.2.answer.isRespawn).map fun e ↦ e.1.time

/-- The respawns that still count are told by the crashes that do, unless the circuit is open for a
cooldown after all of them; a probe is told by the entries it left, or by a later opening. -/
structure CircuitInv (tr : List (TimedCall × CircuitEntry)) (s : ClockedCircuit) : Prop where
  past : ∀ e ∈ tr, e.1.time ≤ s.clock
  opened : ∀ t ∈ s.circuit.openUntil, ∀ r ∈ respawnTimes tr, r + CIRCUIT_BREAKER_COOLDOWN ≤ t
  recent : s.circuit.openUntil = none →
    ((respawnTimes tr).filter (inWindow s.clock)).Subperm s.circuit.crashTimes
  probed : ∀ e ∈ tr, e.2.Probes → s.clock < e.1.time + CIRCUIT_BREAKER_WINDOW →
    (s.circuit.openUntil = none ∧ (List.replicate 2 e.1.time).Subperm s.circuit.crashTimes) ∨
      ∃ t ∈ s.circuit.openUntil, e.1.time + CIRCUIT_BREAKER_COOLDOWN ≤ t
  reopened : ∀ pre e mid, tr = pre ++ e :: mid → e.2.Probes → ∀ t ∈ s.circuit.openUntil,
    ∃ o ∈ mid, o.2.after.openUntil = some (o.1.time + CIRCUIT_BREAKER_COOLDOWN) ∧
      o.1.time + CIRCUIT_BREAKER_COOLDOWN = t

theorem inWindow_mono {now now' t : ℕ} (h : now ≤ now') (ht : inWindow now' t = true) :
    inWindow now t = true := by
  simp only [inWindow, decide_eq_true_eq] at ht ⊢
  omega

/-- The crashes that count later are among those that count now. -/
theorem filter_inWindow_sublist {now now' : ℕ} (h : now ≤ now') (l : List ℕ) :
    (l.filter (inWindow now')).Sublist (l.filter (inWindow now)) :=
  List.monotone_filter_right l fun _ ↦ inWindow_mono h

theorem respawnTimes_append (tr tr' : List (TimedCall × CircuitEntry)) :
    respawnTimes (tr ++ tr') = respawnTimes tr ++ respawnTimes tr' := by
  simp [respawnTimes]

theorem respawnTimes_singleton (op : TimedCall) (e : CircuitEntry) :
    respawnTimes [(op, e)] = if e.answer.isRespawn then [op.time] else [] := by
  cases h : e.answer.isRespawn <;> simp [respawnTimes, h]

theorem mem_respawnTimes {tr : List (TimedCall × CircuitEntry)} {r : ℕ} (h : r ∈ respawnTimes tr) :
    ∃ e ∈ tr, e.1.time = r := by
  obtain ⟨e, he, rfl⟩ := List.mem_map.mp h
  exact ⟨e, (List.mem_filter.mp he).1, rfl⟩

theorem split_concat {α : Type*} {tr pre mid : List α} {x e : α}
    (h : tr ++ [x] = pre ++ e :: mid) :
    (mid = [] ∧ tr = pre ∧ x = e) ∨ ∃ mid', mid = mid' ++ [x] ∧ tr = pre ++ e :: mid' := by
  induction mid using List.reverseRecOn with
  | nil =>
    obtain ⟨rfl, hx⟩ := List.append_inj' h rfl
    exact .inl ⟨rfl, rfl, List.singleton_inj.mp hx⟩
  | append_singleton mid y _ =>
    rw [← List.cons_append, ← List.append_assoc] at h
    obtain ⟨rfl, hx⟩ := List.append_inj' h rfl
    exact .inr ⟨mid, by rw [List.singleton_inj.mp hx], rfl⟩

namespace CircuitInv

variable {jitter : Jitter} {tr : List (TimedCall × CircuitEntry)} {s : ClockedCircuit}
  {op : TimedCall}

theorem init : CircuitInv [] {} where
  past := by simp
  opened := by simp
  recent := by simp [respawnTimes]
  probed := by simp
  reopened := by simp

theorem respawn_le (h : CircuitInv tr s) {r : ℕ} (hr : r ∈ respawnTimes tr) : r ≤ s.clock := by
  obtain ⟨e, he, rfl⟩ := mem_respawnTimes hr
  exact h.past e he

theorem filter_eq_nil_of_cooldown (h : CircuitInv tr s) {t now : ℕ}
    (hopen : s.circuit.openUntil = some t) (hle : t ≤ now) :
    (respawnTimes tr).filter (inWindow now) = [] := by
  rw [List.filter_eq_nil_iff]
  intro r hr hin
  have hcool := h.opened t hopen r hr
  have hwindow := window_le_cooldown
  have hpos := window_pos
  simp only [inWindow, decide_eq_true_eq] at hin
  omega

theorem past_step (h : CircuitInv tr s) (hle : s.clock ≤ op.time) {x : CircuitEntry} :
    ∀ e ∈ tr ++ [(op, x)], e.1.time ≤ op.time := by
  intro e he
  rcases List.mem_append.mp he with he | he
  · exact (h.past e he).trans hle
  · rw [List.mem_singleton.mp he]

theorem three_le_of_probe (h : CircuitInv tr s) (hle : s.clock ≤ op.time)
    (hopen : s.circuit.openUntil = none) {e : TimedCall × CircuitEntry} (he : e ∈ tr)
    (hprobe : e.2.Probes) (hlt : op.time < e.1.time + CIRCUIT_BREAKER_WINDOW) :
    CIRCUIT_BREAKER_THRESHOLD ≤
      ((s.circuit.crashTimes ++ [op.time]).filter (inWindow op.time)).length := by
  rcases h.probed e he hprobe (hle.trans_lt hlt) with ⟨-, hsub⟩ | ⟨t, ht, -⟩
  · have hboth := (hsub.append (List.Subperm.refl [op.time])).filter (inWindow op.time)
    have hlen := hboth.length_le
    have hpos := window_pos
    have hwindow : inWindow op.time e.1.time = true := by
      simp only [inWindow, decide_eq_true_eq]
      omega
    have hnow : inWindow op.time op.time = true := by
      simpa [inWindow] using hpos
    simp only [List.replicate_succ, List.replicate_zero, List.cons_append, List.nil_append,
      List.filter_cons_of_pos hwindow, List.filter_cons_of_pos hnow, List.filter_nil,
      List.length_cons, List.length_nil] at hlen
    exact hlen
  · rw [hopen] at ht
    cases ht

theorem recent_step (h : CircuitInv tr s) (hle : s.clock ≤ op.time)
    (hopen : s.circuit.openUntil = none) :
    ((respawnTimes tr).filter (inWindow op.time)).Subperm s.circuit.crashTimes :=
  (filter_inWindow_sublist hle _).subperm.trans (h.recent hopen)

theorem recent_respawn (h : CircuitInv tr s) (hle : s.clock ≤ op.time)
    (hopen : s.circuit.openUntil = none) :
    ((respawnTimes tr ++ [op.time]).filter (inWindow op.time)).Subperm
      ((s.circuit.crashTimes ++ [op.time]).filter (inWindow op.time)) := by
  have hold : ((respawnTimes tr).filter (inWindow op.time)).Subperm
      (s.circuit.crashTimes.filter (inWindow op.time)) := by
    have hsub := (h.recent_step hle hopen).filter (inWindow op.time)
    rwa [List.filter_filter, funext fun t ↦ Bool.and_self (inWindow op.time t)] at hsub
  rw [List.filter_append, List.filter_append]
  exact hold.append (List.Subperm.refl _)

theorem unchanged (h : CircuitInv tr s) (hle : s.clock ≤ op.time) {a : CircuitAnswer}
    (hrespawn : a.isRespawn = false) (hprobe : ¬(CircuitEntry.mk s.circuit a s.circuit).Probes) :
    CircuitInv (tr ++ [(op, ⟨s.circuit, a, s.circuit⟩)]) ⟨s.circuit, op.time⟩ := by
  have htimes : respawnTimes (tr ++ [(op, ⟨s.circuit, a, s.circuit⟩)]) = respawnTimes tr := by
    rw [respawnTimes_append, respawnTimes_singleton, hrespawn]
    exact List.append_nil _
  refine ⟨h.past_step hle, ?_, ?_, fun e he hp hlt ↦ ?_, fun pre e mid htr hp t ht ↦ ?_⟩
  · rw [htimes]
    exact h.opened
  · rw [htimes]
    exact h.recent_step hle
  · rcases List.mem_append.mp he with he | he
    · exact h.probed e he hp (hle.trans_lt hlt)
    · rw [List.mem_singleton.mp he] at hp
      exact absurd hp hprobe
  · rcases split_concat htr with ⟨-, -, rfl⟩ | ⟨mid', rfl, rfl⟩
    · exact absurd hp hprobe
    · obtain ⟨o, ho, hopens⟩ := h.reopened pre e mid' rfl hp t ht
      exact ⟨o, List.mem_append_left _ ho, hopens⟩

theorem opens (h : CircuitInv tr s) (hle : s.clock ≤ op.time) {a : CircuitAnswer}
    (crashTimes : List ℕ) (hrespawn : a.isRespawn = false)
    (hallows : ¬a.Allows) :
    CircuitInv (tr ++ [(op, ⟨s.circuit, a, { s.circuit with
      crashTimes := crashTimes
      openUntil := some (op.time + CIRCUIT_BREAKER_COOLDOWN) }⟩)])
      ⟨{ s.circuit with
        crashTimes := crashTimes
        openUntil := some (op.time + CIRCUIT_BREAKER_COOLDOWN) }, op.time⟩ := by
  refine ⟨h.past_step hle, fun t ht r hr ↦ ?_, fun hopen ↦ (Option.some_ne_none _ hopen).elim,
    fun e he hp hlt ↦ .inr ⟨_, rfl, ?_⟩, fun pre e mid htr hp t ht ↦ ?_⟩
  · obtain rfl := Option.mem_some_iff.mp ht
    rw [respawnTimes_append, respawnTimes_singleton, hrespawn] at hr
    have := h.respawn_le (List.append_nil (respawnTimes tr) ▸ hr)
    omega
  · have := h.past_step hle e he
    omega
  · obtain rfl := Option.mem_some_iff.mp ht
    rcases split_concat htr with ⟨-, -, rfl⟩ | ⟨mid', rfl, rfl⟩
    · exact absurd hp.1 hallows
    · exact ⟨_, List.mem_append_right _ (List.mem_singleton_self _), rfl, rfl⟩

theorem halfOpen (h : CircuitInv tr s) (hle : s.clock ≤ op.time) {a : CircuitAnswer} {t : ℕ}
    (hopen : s.circuit.openUntil = some t) (ht : t ≤ op.time) (hrespawn : a.isRespawn = false) :
    CircuitInv (tr ++ [(op, ⟨s.circuit, a, s.circuit.halfOpen op.time⟩)])
      ⟨s.circuit.halfOpen op.time, op.time⟩ := by
  refine ⟨h.past_step hle, fun t ht ↦ (Option.not_mem_none t ht).elim, fun _ ↦ ?_,
    fun e he hp hlt ↦ ?_, fun pre e mid htr hp t ht ↦ (Option.not_mem_none t ht).elim⟩
  · rw [respawnTimes_append, respawnTimes_singleton, hrespawn, List.filter_append,
      h.filter_eq_nil_of_cooldown hopen ht]
    exact List.nil_subperm
  · rcases List.mem_append.mp he with he | he
    · exfalso
      rcases h.probed e he hp (hle.trans_lt hlt) with ⟨hnone, -⟩ | ⟨t', ht', hcool⟩
      · rw [hopen] at hnone
        cases hnone
      · rw [hopen] at ht'
        obtain rfl := Option.mem_some_iff.mp ht'
        have hwindow := window_le_cooldown
        simp only at hlt
        omega
    · rw [List.mem_singleton.mp he]
      exact .inl ⟨rfl, List.Subperm.refl _⟩

theorem respawned (h : CircuitInv tr s) (hle : s.clock ≤ op.time) {a : CircuitAnswer}
    {crashTimes : List ℕ} (hopen : s.circuit.openUntil = none) (hrespawn : a.isRespawn = true)
    (hcrash : crashTimes = (s.circuit.crashTimes ++ [op.time]).filter (inWindow op.time))
    (hless : crashTimes.length < CIRCUIT_BREAKER_THRESHOLD) :
    CircuitInv (tr ++ [(op, ⟨s.circuit, a, { s.circuit with crashTimes := crashTimes }⟩)])
      ⟨{ s.circuit with crashTimes := crashTimes }, op.time⟩ := by
  have hnone : ∀ t, t ∉ s.circuit.openUntil := by simp [hopen]
  refine ⟨h.past_step hle, fun t ht ↦ absurd ht (hnone t), fun _ ↦ ?_, fun e he hp hlt ↦ ?_,
    fun pre e mid htr hp t ht ↦ absurd ht (hnone t)⟩
  · rw [respawnTimes_append, respawnTimes_singleton, hrespawn, hcrash]
    exact h.recent_respawn hle hopen
  · rcases List.mem_append.mp he with he | he
    · have hthree := h.three_le_of_probe hle hopen he hp hlt
      rw [← hcrash] at hthree
      omega
    · rw [List.mem_singleton.mp he] at hp
      rw [CircuitEntry.Probes, hopen] at hp
      cases hp.2

theorem step (h : CircuitInv tr s) (hadm : Admitted s op) :
    CircuitInv (tr ++ [(op, (clockedStep jitter s op).1)]) (clockedStep jitter s op).2 := by
  rw [clockedStep]
  obtain ⟨time, c⟩ := op
  have hcases := call_cases jitter s.circuit time c
  dsimp only
  generalize s.circuit.call jitter time c = result at hcases ⊢
  cases hcases with
  | refused hopen hlt hne hanswer hallows hunder =>
    exact h.unchanged hadm.1 (CircuitAnswer.isRespawn_eq_false hallows) fun hp ↦ hallows hp.1
  | probe hopen hle ha =>
    refine h.halfOpen hadm.1 hopen hle ?_
    rcases ha with rfl | rfl <;> rfl
  | refill hopen =>
    refine h.unchanged hadm.1 rfl fun hp ↦ ?_
    rw [CircuitEntry.Probes, hopen] at hp
    cases hp.2
  | opened hopen hcrash => exact h.opens hadm.1 _ rfl (by simp [CircuitAnswer.Allows])
  | respawn hopen hcrash hrecent hpos hless =>
    exact h.respawned hadm.1 hopen rfl hcrash (hrecent ▸ hless)
  | failed =>
    exact h.opens hadm.1 s.circuit.crashTimes rfl (by simp [CircuitAnswer.Allows])

end CircuitInv

section Runs

variable {jitter : Jitter} {tr : List (TimedCall × CircuitEntry)} {s : ClockedCircuit}

theorem CircuitRun.inv (h : CircuitRun jitter tr s) : CircuitInv tr s :=
  h.invariant CircuitInv.init fun _ _ _ ↦ CircuitInv.step

def respawnsIn (a b : ℕ) (tr : List (TimedCall × CircuitEntry)) : ℕ :=
  (tr.filter fun e ↦ e.2.answer.isRespawn && a ≤ e.1.time && e.1.time ≤ b).length

theorem respawnsIn_le (a b now : ℕ) (h : now < a + CIRCUIT_BREAKER_WINDOW) :
    respawnsIn a b tr ≤ ((respawnTimes tr).filter (inWindow now)).length := by
  rw [respawnTimes, List.filter_map, List.length_map, List.filter_filter]
  have hpos := window_pos
  refine (List.monotone_filter_right tr fun e he ↦ ?_).length_le
  simp only [Bool.and_eq_true, decide_eq_true_eq, inWindow, Function.comp_apply] at he ⊢
  exact ⟨by omega, he.1.1⟩

theorem CircuitInv.respawn_room (h : CircuitInv tr s) {op : TimedCall} (hadm : Admitted s op)
    (hrespawn : (clockedStep jitter s op).1.answer.isRespawn = true) :
    ((respawnTimes tr).filter (inWindow op.time)).length + 1 ≤ CIRCUIT_BREAKER_THRESHOLD - 1 := by
  obtain ⟨time, c⟩ := op
  have hcases := call_cases jitter s.circuit time c
  rw [clockedStep] at hrespawn
  dsimp only at hrespawn
  generalize s.circuit.call jitter time c = result at hcases hrespawn
  cases hcases with
  | respawn hopen hcrash hrecent hpos hless =>
    have hlen := (h.recent_respawn hadm.1 hopen).length_le
    have hnow : inWindow time time = true := by simpa [inWindow] using window_pos
    rw [List.filter_append, List.filter_cons_of_pos hnow, List.length_append, ← hcrash, hrecent,
      List.filter_nil, List.length_singleton] at hlen
    omega
  | refused hopen hlt hne hanswer hallows hunder =>
    rw [CircuitAnswer.isRespawn_eq_false hallows] at hrespawn
    cases hrespawn
  | probe hopen hle ha => rcases ha with rfl | rfl <;> cases hrespawn
  | refill hopen => cases hrespawn
  | opened hopen hcrash => cases hrespawn
  | failed => cases hrespawn

theorem CircuitRun.respawnsIn_le (h : CircuitRun jitter tr s) {a b : ℕ}
    (hlt : b < a + CIRCUIT_BREAKER_WINDOW) :
    respawnsIn a b tr ≤ CIRCUIT_BREAKER_THRESHOLD - 1 := by
  induction h with
  | nil => exact Nat.zero_le _
  | @snoc tr s op hrun hadm ih =>
    rw [respawnsIn, List.filter_append, List.length_append]
    by_cases hcounted : (clockedStep jitter s op).1.answer.isRespawn = true ∧ a ≤ op.time ∧
        op.time ≤ b
    · have hroom := (CircuitRun.inv hrun).respawn_room hadm hcounted.1
      have hold : respawnsIn a b tr ≤ _ :=
        Acp.respawnsIn_le a b op.time (hcounted.2.2.trans_lt hlt)
      have hlast := List.length_filter_le (fun e : TimedCall × CircuitEntry ↦
        e.2.answer.isRespawn && a ≤ e.1.time && e.1.time ≤ b) [(op, (clockedStep jitter s op).1)]
      rw [List.length_singleton] at hlast
      rw [respawnsIn] at hold
      omega
    · rw [List.filter_cons_of_neg (by simpa [and_assoc] using hcounted)]
      exact ih

theorem CircuitRun.of_split (h : CircuitRun jitter tr s)
    {pre post : List (TimedCall × CircuitEntry)} {e : TimedCall × CircuitEntry}
    (htr : tr = pre ++ e :: post) :
    ∃ s₀, CircuitInv pre s₀ ∧ Admitted s₀ e.1 ∧ e.2.before = s₀.circuit ∧
      CallCases jitter e.2.before e.1.time e.1.call (e.2.answer, e.2.after) := by
  subst htr
  obtain ⟨op, x⟩ := e
  obtain ⟨s₀, hpre, hadm, rfl⟩ := h.of_append
  exact ⟨s₀, CircuitRun.inv hpre, hadm, rfl, call_cases jitter s₀.circuit op.time op.call⟩

theorem base_delay_le {recent : ℕ} (hrecent : recent < CIRCUIT_BREAKER_THRESHOLD) :
    min (RESPAWN_BASE_DELAY * 2 ^ min (recent - 1) 5) RESPAWN_MAX_DELAY ≤ nanos 2 := by
  rw [CIRCUIT_BREAKER_THRESHOLD] at hrecent
  refine (min_le_left _ _).trans ?_
  interval_cases recent <;> decide

theorem backoff_le (hjitter : jitter.Accurate) {recent n : ℕ}
    (hrecent : recent < CIRCUIT_BREAKER_THRESHOLD) (hn : n < 10 ^ 9) :
    10 * SlotCircuit.backoff jitter recent n ≤ 12 * RESPAWN_MAX_DELAY := by
  have hbase := base_delay_le hrecent
  rw [SlotCircuit.backoff]
  generalize min (RESPAWN_BASE_DELAY * 2 ^ min (recent - 1) 5) RESPAWN_MAX_DELAY = delay at hbase ⊢
  have hdelay : (delay : ℚ) ≤ 2 * 10 ^ 9 := by exact_mod_cast hbase
  have hfactor : 8 / 10 + (n : ℚ) / 10 ^ 9 * (4 / 10) ≤ 12 / 10 := by
    have hle : (n : ℚ) ≤ 10 ^ 9 := by exact_mod_cast hn.le
    linarith
  have hprod : (delay : ℚ) * (8 / 10 + (n : ℚ) / 10 ^ 9 * (4 / 10)) ≤ 2 * 10 ^ 9 * (12 / 10) :=
    mul_le_mul hdelay hfactor (by positivity) (by norm_num)
  have hround := (abs_le.mp (hjitter delay n hn)).2
  have hresult : 10 * (jitter delay n : ℚ) ≤ 12 * (30 * 10 ^ 9) := by linarith
  exact_mod_cast hresult

theorem circuitRun_bounds (hjitter : jitter.Accurate) (h : CircuitRun jitter tr s) :
    BoundsCrashLoops tr where
  closed e he t ht hlt := by
    obtain ⟨pre, post, htr⟩ := List.append_of_mem he
    obtain ⟨s₀, -, -, -, hcases⟩ := h.of_split htr
    obtain ⟨⟨time, c⟩, before, answer, after⟩ := e
    dsimp only at hcases
    cases hcases with
    | refused hopen hlater hne hanswer hallows hunder => exact hallows
    | probe hopen hle ha =>
      obtain rfl := Option.some.inj (ht.symm.trans hopen)
      exact absurd hle (Nat.not_le.mpr hlt)
    | refill hopen => exact absurd (ht.symm.trans hopen) (Option.some_ne_none t)
    | opened hopen hcrash => exact absurd (ht.symm.trans hopen) (Option.some_ne_none t)
    | respawn hopen hcrash hrecent hpos hless =>
      exact absurd (ht.symm.trans hopen) (Option.some_ne_none t)
    | failed => simp [CircuitAnswer.Allows]
  respawns a b hlt := h.respawnsIn_le hlt
  probes e he t ht hle hcall := by
    obtain ⟨pre, post, htr⟩ := List.append_of_mem he
    obtain ⟨s₀, -, -, -, hcases⟩ := h.of_split htr
    obtain ⟨⟨time, c⟩, before, answer, after⟩ := e
    dsimp only at hcases
    cases hcases with
    | refused hopen hlater hne hanswer hallows hunder =>
      obtain rfl := Option.some.inj (ht.symm.trans hopen)
      exact absurd hle (Nat.not_le.mpr hlater)
    | probe hopen hle' ha =>
      refine ⟨⟨.inr ha, Option.isSome_of_mem ht⟩, rfl⟩
    | refill hopen => exact absurd (ht.symm.trans hopen) (Option.some_ne_none t)
    | opened hopen hcrash => exact absurd (ht.symm.trans hopen) (Option.some_ne_none t)
    | respawn hopen hcrash hrecent hpos hless =>
      exact absurd (ht.symm.trans hopen) (Option.some_ne_none t)
    | failed => exact absurd rfl hcall
  once pre mid post e e' htr hprobe hprobe' := by
    rw [← List.cons_append, ← List.append_assoc] at htr
    obtain ⟨s₀, hinv, -, hbefore, hcases⟩ := h.of_split htr
    obtain ⟨t, ht⟩ := Option.isSome_iff_exists.mp hprobe'.2
    have hle : t ≤ e'.1.time := by
      obtain ⟨⟨time, c⟩, before, answer, after⟩ := e'
      dsimp only at hcases
      cases hcases with
      | refused hopen hlater hne hanswer hallows hunder => exact absurd hprobe'.1 hallows
      | probe hopen hle ha =>
        obtain rfl := Option.some.inj (ht.symm.trans hopen)
        exact hle
      | refill hopen => exact absurd (ht.symm.trans hopen) (Option.some_ne_none t)
      | opened hopen hcrash => exact absurd (ht.symm.trans hopen) (Option.some_ne_none t)
      | respawn hopen hcrash hrecent hpos hless =>
        exact absurd (ht.symm.trans hopen) (Option.some_ne_none t)
      | failed => simp [CircuitEntry.Probes, CircuitAnswer.Allows] at hprobe'
    obtain ⟨o, ho, hopens, rfl⟩ := hinv.reopened pre e mid rfl hprobe t (hbefore ▸ ht)
    exact ⟨o, ho, hopens, hle⟩
  reopens pre mid post e c n htr hprobe hcall hlt := by
    rw [← List.cons_append, ← List.append_assoc] at htr
    obtain ⟨s₀, hinv, hadm, hbefore, hcases⟩ := h.of_split htr
    have hmem : e ∈ pre ++ e :: mid := List.mem_append_right _ List.mem_cons_self
    obtain ⟨⟨time, call⟩, before, answer, after⟩ := c
    obtain rfl : before = s₀.circuit := hbefore
    dsimp only at hcases
    cases hcases with
    | refused hopen hlater hne hanswer hallows hunder =>
      exact ⟨hanswer n hcall, _, hopen, hlater⟩
    | @probe _ _ t hopen hle ha =>
      exfalso
      have hwindow := window_le_cooldown
      rcases hinv.probed e hmem hprobe (hadm.1.trans_lt hlt) with ⟨hnone, -⟩ | ⟨t', ht', hcool⟩
      · exact Option.some_ne_none t (hopen.symm.trans hnone)
      · obtain rfl := Option.some.inj (hopen.symm.trans ht')
        simp only at hlt
        omega
    | refill hopen => cases hcall
    | opened hopen hcrash =>
      refine ⟨rfl, _, rfl, ?_⟩
      have := window_pos.trans_le window_le_cooldown
      simp only
      omega
    | respawn hopen hcrash hrecent hpos hless =>
      exfalso
      have hthree := hinv.three_le_of_probe hadm.1 hopen hmem hprobe hlt
      rw [← hcrash] at hthree
      omega
    | failed => cases hcall
  backoff e he := by
    obtain ⟨pre, post, htr⟩ := List.append_of_mem he
    obtain ⟨s₀, -, hadm, -, hcases⟩ := h.of_split htr
    obtain ⟨⟨time, c⟩, before, answer, after⟩ := e
    dsimp only at hcases
    cases hcases with
    | refused hopen hlater hne hanswer hallows hunder =>
      exact ⟨hunder, fun delay heq ↦ absurd (.inl ⟨delay, heq⟩) hallows⟩
    | probe hopen hle ha => rcases ha with rfl | rfl <;> simp
    | refill hopen => simp
    | opened hopen hcrash => simp
    | @respawn n recent crashTimes hopen hcrash hrecent hpos hless =>
      refine ⟨by simp, fun delay heq ↦ ?_⟩
      simp only [CircuitAnswer.verdict.injEq, CrashVerdict.respawn.injEq] at heq
      subst heq
      exact backoff_le hjitter hless (hadm.2 n rfl)
    | failed => simp

end Runs

def exactJitter : Jitter := fun delay subsecNanos ↦
  (delay * (8 * 10 ^ 9 + 4 * subsecNanos) + 5 * 10 ^ 9) / 10 ^ 10

theorem exactJitter_accurate : exactJitter.Accurate := by
  intro delay n _
  have hlow := Nat.div_mul_le_self (delay * (8 * 10 ^ 9 + 4 * n) + 5 * 10 ^ 9) (10 ^ 10)
  have hhigh := Nat.lt_div_mul_add (a := delay * (8 * 10 ^ 9 + 4 * n) + 5 * 10 ^ 9)
    (show 0 < 10 ^ 10 by norm_num)
  rw [← exactJitter] at hlow hhigh
  have hlow' : (exactJitter delay n : ℚ) * 10 ^ 10 ≤
      delay * (8 * 10 ^ 9 + 4 * n) + 5 * 10 ^ 9 := by exact_mod_cast hlow
  have hhigh' : (delay : ℚ) * (8 * 10 ^ 9 + 4 * n) + 5 * 10 ^ 9 <
      exactJitter delay n * 10 ^ 10 + 10 ^ 10 := by exact_mod_cast hhigh
  have hpos : (0 : ℚ) ≤ (delay : ℚ) / 2 ^ 50 := by positivity
  rw [abs_le]
  constructor
  · linarith
  · linarith

def crashLoop : List TimedCall :=
  [⟨0, .recordCrash 0⟩, ⟨nanos 1, .recordCrash 0⟩, ⟨nanos 2, .recordCrash 0⟩,
    ⟨nanos 302, .canRefill⟩, ⟨nanos 310, .recordCrash 0⟩]

def runCalls (jitter : Jitter) (calls : List TimedCall) :
    List (TimedCall × CircuitEntry) × ClockedCircuit :=
  calls.foldl (fun run op ↦
    (run.1 ++ [(op, (clockedStep jitter run.2 op).1)], (clockedStep jitter run.2 op).2)) ([], {})

theorem circuitRun_runCalls {jitter : Jitter} {calls : List TimedCall}
    (hclock : calls.Pairwise fun op op' ↦ op.time ≤ op'.time)
    (hsubsec : ∀ op ∈ calls, ∀ n, op.call = .recordCrash n → n < 10 ^ 9) :
    CircuitRun jitter (runCalls jitter calls).1 (runCalls jitter calls).2 ∧
      ∀ op ∈ calls.getLast?, (runCalls jitter calls).2.clock = op.time := by
  induction calls using List.reverseRecOn with
  | nil => exact ⟨.nil, by simp⟩
  | append_singleton calls op ih =>
    rw [List.pairwise_append] at hclock
    obtain ⟨hrun, hlast⟩ := ih hclock.1 fun op' hop' ↦ hsubsec op' (List.mem_append_left _ hop')
    have hle : (runCalls jitter calls).2.clock ≤ op.time := by
      cases hend : calls.getLast? with
      | none =>
        rw [List.getLast?_eq_none_iff.mp hend]
        exact Nat.zero_le _
      | some op' =>
        rw [hlast op' hend]
        exact hclock.2.2 op' (List.mem_of_getLast? hend) op (List.mem_singleton_self op)
    have hadm : Admitted (runCalls jitter calls).2 op :=
      ⟨hle, hsubsec op (List.mem_append_right _ (List.mem_singleton_self op))⟩
    rw [runCalls, List.foldl_append]
    exact ⟨.snoc op hrun hadm, by simp [clockedStep]⟩

theorem crashLoop_bounded : BoundsCrashLoops (runCalls exactJitter crashLoop).1 :=
  circuitRun_bounds exactJitter_accurate
    (circuitRun_runCalls (by simp [crashLoop, nanos]) (by simp [crashLoop])).1

/-- Once a probe has closed the circuit, a second refill is allowed as well. -/
theorem two_refills_after_cooldown :
    (∃ s, CircuitRun exactJitter (runCalls exactJitter [⟨0, .markSpawnFailed⟩,
      ⟨nanos 300, .canRefill⟩, ⟨nanos 300, .canRefill⟩]).1 s) ∧
    (runCalls exactJitter [⟨0, .markSpawnFailed⟩, ⟨nanos 300, .canRefill⟩,
      ⟨nanos 300, .canRefill⟩]).1.map (·.2.answer) = [.marked, .refill true, .refill true] := by
  refine ⟨⟨_, (circuitRun_runCalls ?_ ?_).1⟩, by decide⟩
  · simp [nanos]
  · simp

end Buzz.Acp
