import Buzz.Relay.Ingest

namespace Buzz.Relay

open Buzz.Lib Buzz.Nostr Ingest
open Buzz.Db (asI64 asI64_of_lt asI64_of_le fromTimestamp)

/-- The last second that a `DateTime` can hold. -/
def MAX_SECS : ℕ := 8210266876799

/-- What the server's clock can read: `Utc::now` gives nothing before 1970 or after the last
second. -/
structure Clock where
  secs : ℕ
  le : secs ≤ MAX_SECS

namespace Clock

variable (now : Clock)

def i64 : Int64 := .ofNat now.secs

def u64 : UInt64 := .ofNat now.secs

theorem toInt_i64 : now.i64.toInt = now.secs := by
  have hle : now.secs ≤ 8210266876799 := now.le
  exact Int64.toInt_ofNat_of_lt (by omega)

theorem toNat_u64 : now.u64.toNat = now.secs := by
  have hle : now.secs ≤ 8210266876799 := now.le
  exact UInt64.toNat_ofNat_of_lt (by simp only [UInt64.size]; omega)

end Clock

def unsignedAbs (x : Int64) : UInt64 := .ofNat x.toInt.natAbs

def absDiff (a b : UInt64) : UInt64 := if a < b then b - a else a - b

section Gates

variable (createdAt : UInt64) (now : Clock)

/-- `event_ts - now`, as a build without overflow checks has it. -/
def drift : Int64 := createdAt.toInt64 - now.i64

def driftGate : Except IngestError Unit :=
  require ((drift createdAt now).abs ≤ MAX_TIMESTAMP_DRIFT_SECS)
    (.rejected "invalid: event timestamp too far from server time")

def leaveRequestGate : Except IngestError Unit :=
  require ((drift createdAt now).abs ≤ 120)
    (.rejected ("invalid: leave request timestamp out of range (delta=" ++
      toString (drift createdAt now) ++ "s, max ±120s)"))

def outOfRange (bound : Int64) : String :=
  "event timestamp out of range: created_at=" ++ toString createdAt.toInt64 ++ ", now=" ++
    toString now.i64 ++ ", delta=" ++ toString (drift createdAt now) ++ "s (max ±" ++
    toString bound ++ "s)"

def relayAdminGate : Except String Unit :=
  require ((drift createdAt now).abs ≤ 120) (outOfRange createdAt now 120)

def MAX_COMMAND_SKEW_SECS : Int64 := 120

def moderationGate : Except String Unit :=
  require ((drift createdAt now).abs ≤ MAX_COMMAND_SKEW_SECS)
    ("invalid: " ++ outOfRange createdAt now MAX_COMMAND_SKEW_SECS)

def enforceFreshness : Except String Unit :=
  require ((drift createdAt now).abs ≤ 120) (outOfRange createdAt now 120)

def observerFrameGate : Except String Unit :=
  require (unsignedAbs (drift createdAt now) ≤ 300)
    "invalid: observer frame timestamp outside ±5 minute freshness window"

def OBSERVER_CONTROL_FRESHNESS_SECS : Int64 := 300

def observerControlGate : Except Unit Unit :=
  require (unsignedAbs (drift createdAt now) ≤ OBSERVER_CONTROL_FRESHNESS_SECS.toUInt64) ()

def TIMESTAMP_TOLERANCE_SECS : UInt64 := 60

inductive AuthError
  | eventExpired
  | nip98Invalid (text : String)
deriving DecidableEq

def nip42Gate : Except AuthError Unit :=
  require (absDiff now.u64 createdAt ≤ TIMESTAMP_TOLERANCE_SECS) .eventExpired

def nip98Gate : Except AuthError Unit :=
  require (absDiff now.u64 createdAt ≤ TIMESTAMP_TOLERANCE_SECS)
    (.nip98Invalid ("event timestamp outside ±" ++ toString TIMESTAMP_TOLERANCE_SECS ++
      "s window (delta: " ++ toString (absDiff now.u64 createdAt) ++ "s)"))

end Gates

/-- The checks of an event's time against the clock. -/
inductive FreshnessGate
  | ingest
  | leaveRequest
  | relayAdmin
  | moderation
  | identityArchive
  | observerFrame
  | observerControl
  | nip42
  | nip98
deriving DecidableEq

/-- How a gate takes the distance between two times. -/
inductive Distance
  | abs
  | unsignedAbs
  | absDiff
deriving DecidableEq

namespace FreshnessGate

variable (g : FreshnessGate) (createdAt : UInt64) (now : Clock)

def Accepts : FreshnessGate → UInt64 → Clock → Prop
  | ingest, createdAt, now => driftGate createdAt now = .ok ()
  | leaveRequest, createdAt, now => leaveRequestGate createdAt now = .ok ()
  | relayAdmin, createdAt, now => relayAdminGate createdAt now = .ok ()
  | moderation, createdAt, now => moderationGate createdAt now = .ok ()
  | identityArchive, createdAt, now => enforceFreshness createdAt now = .ok ()
  | observerFrame, createdAt, now => observerFrameGate createdAt now = .ok ()
  | observerControl, createdAt, now => observerControlGate createdAt now = .ok ()
  | nip42, createdAt, now => nip42Gate createdAt now = .ok ()
  | nip98, createdAt, now => nip98Gate createdAt now = .ok ()

def bound : FreshnessGate → ℕ
  | ingest => 900
  | leaveRequest | relayAdmin | moderation | identityArchive => 120
  | observerFrame | observerControl => 300
  | nip42 | nip98 => 60

def distance : FreshnessGate → Distance
  | ingest | leaveRequest | relayAdmin | moderation | identityArchive => .abs
  | observerFrame | observerControl => .unsignedAbs
  | nip42 | nip98 => .absDiff

def steps : List (ℤ × ℤ) :=
  let eventTs := createdAt.toInt64
  let delta := drift createdAt now
  match g.distance with
  | .abs => [(now.i64.toInt, now.secs), (eventTs.toInt, createdAt.toNat),
      (delta.toInt, eventTs.toInt - now.i64.toInt), (delta.abs.toInt, |delta.toInt|)]
  | .unsignedAbs => [(now.i64.toInt, now.secs), (eventTs.toInt, createdAt.toNat),
      (delta.toInt, eventTs.toInt - now.i64.toInt), ((unsignedAbs delta).toNat, |delta.toInt|)]
  | .absDiff => [(now.u64.toNat, now.secs),
      ((absDiff now.u64 createdAt).toNat, |(now.u64.toNat : ℤ) - createdAt.toNat|)]

/-- The window is the one of the integers, no step of the gate overflows, and a time that the
ingest gate lets through is one that a `DateTime` holds. -/
structure ExactAt : Prop where
  window : g.Accepts createdAt now ↔ |(createdAt.toNat : ℤ) - now.secs| ≤ g.bound
  exact : ∀ step ∈ g.steps createdAt now, step.1 = step.2
  representable : g = .ingest → g.Accepts createdAt now →
    fromTimestamp (asI64 createdAt) = some (createdAt.toNat : ℤ)

variable {g createdAt now}

section Arithmetic

theorem toInt_drift :
    (drift createdAt now).toInt = (asI64 createdAt - now.secs).bmod (2 ^ 64) := by
  rw [drift, Int64.toInt_sub, now.toInt_i64]
  rfl

theorem toInt_drift_of_lt (h : createdAt.toNat < 2 ^ 63) :
    (drift createdAt now).toInt = createdAt.toNat - now.secs := by
  have hle : now.secs ≤ 8210266876799 := now.le
  rw [toInt_drift, asI64_of_lt h]
  apply Int.bmod_eq_of_le <;> omega

/-- What the cast has made negative comes out positive again below the least difference. -/
theorem toInt_drift_of_le (h : 2 ^ 63 ≤ createdAt.toNat) :
    (drift createdAt now).toInt =
      if createdAt.toNat < 2 ^ 63 + now.secs then (createdAt.toNat - now.secs : ℤ)
      else createdAt.toNat - now.secs - 2 ^ 64 := by
  have hle : now.secs ≤ 8210266876799 := now.le
  have hlt := createdAt.toNat_lt
  rw [toInt_drift, asI64_of_le h, Int.bmod_def]
  omega

theorem toInt_abs (x : Int64) :
    x.abs.toInt = if x.toInt = -2 ^ 63 then -2 ^ 63 else |x.toInt| := by
  have hmin : x.toBitVec = BitVec.intMin 64 ↔ x.toInt = -2 ^ 63 := by
    rw [← BitVec.toInt_inj, BitVec.toInt_intMin]
    rfl
  have habs : x.abs.toInt = x.toBitVec.abs.toInt := rfl
  rw [habs, BitVec.toInt_abs_eq_ite, BitVec.msb_eq_toInt, BitVec.toInt_intMin]
  simp only [hmin, decide_eq_true_eq]
  split
  · rfl
  split
  · rename_i hneg
    exact (abs_of_neg hneg).symm
  · rename_i hpos
    exact (abs_of_nonneg (not_lt.mp hpos)).symm

theorem toNat_unsignedAbs (x : Int64) : ((unsignedAbs x).toNat : ℤ) = |x.toInt| := by
  have hle := x.le_toInt
  have hlt := x.toInt_lt
  have hnat : (unsignedAbs x).toNat = x.toInt.natAbs :=
    UInt64.toNat_ofNat_of_lt' (by simp only [UInt64.size]; omega)
  rw [hnat, Int.natCast_natAbs]

theorem toNat_absDiff (a b : UInt64) : ((absDiff a b).toNat : ℤ) = |(a.toNat : ℤ) - b.toNat| := by
  unfold absDiff
  split
  · rename_i hlt
    have hlt : a.toNat < b.toNat := UInt64.lt_iff_toNat_lt.mp hlt
    rw [UInt64.toNat_sub_of_le _ _ (UInt64.le_iff_toNat_le.mpr hlt.le), abs_of_neg] <;> omega
  · rename_i hge
    have hge : b.toNat ≤ a.toNat := UInt64.le_iff_toNat_le.mp (UInt64.not_lt.mp hge)
    rw [UInt64.toNat_sub_of_le _ _ (UInt64.le_iff_toNat_le.mpr hge), abs_of_nonneg] <;> omega

theorem abs_drift_le {bound : Int64} (b : ℕ) (hb : bound.toInt = b) (hle : b ≤ 900) :
    (drift createdAt now).abs ≤ bound ↔
      |(createdAt.toNat : ℤ) - now.secs| ≤ b ∨ createdAt.toNat = 2 ^ 63 + now.secs ∨
        2 ^ 64 + now.secs ≤ createdAt.toNat + b := by
  have hnow : now.secs ≤ 8210266876799 := now.le
  have hlt := createdAt.toNat_lt
  rw [Int64.le_iff_toInt_le, toInt_abs, hb]
  rcases Nat.lt_or_ge createdAt.toNat (2 ^ 63) with h | h
  · rw [toInt_drift_of_lt h, if_neg (by omega)]
    omega
  · have hfar : ¬|(createdAt.toNat : ℤ) - now.secs| ≤ b := by
      rw [abs_le]
      omega
    rw [toInt_drift_of_le h]
    by_cases hside : createdAt.toNat < 2 ^ 63 + now.secs
    · rw [if_pos hside, if_neg (by omega)]
      omega
    rw [if_neg hside]
    by_cases hmin : createdAt.toNat = 2 ^ 63 + now.secs
    · rw [if_pos (by omega)]
      omega
    · rw [if_neg (by omega), abs_of_neg (by omega)]
      omega

theorem unsignedAbs_drift_le {bound : UInt64} (b : ℕ) (hb : bound.toNat = b) (hle : b ≤ 900) :
    unsignedAbs (drift createdAt now) ≤ bound ↔
      |(createdAt.toNat : ℤ) - now.secs| ≤ b ∨ 2 ^ 64 + now.secs ≤ createdAt.toNat + b := by
  have hnow : now.secs ≤ 8210266876799 := now.le
  have hlt := createdAt.toNat_lt
  rw [UInt64.le_iff_toNat_le, ← Int.ofNat_le, toNat_unsignedAbs, hb]
  rcases Nat.lt_or_ge createdAt.toNat (2 ^ 63) with h | h
  · rw [toInt_drift_of_lt h]
    omega
  · rw [toInt_drift_of_le h]
    split
    · rw [abs_le]
      omega
    · rw [abs_le, abs_le]
      omega

theorem absDiff_le {bound : UInt64} (b : ℕ) (hb : bound.toNat = b) :
    absDiff now.u64 createdAt ≤ bound ↔ |(createdAt.toNat : ℤ) - now.secs| ≤ b := by
  rw [UInt64.le_iff_toNat_le, ← Int.ofNat_le, toNat_absDiff, now.toNat_u64, abs_sub_comm, hb]

end Arithmetic

/-- What a gate lets through beside its window: the time whose difference has no absolute value,
and the times that the cast puts shortly before a clock near the epoch. -/
theorem accepts_iff : g.Accepts createdAt now ↔
    |(createdAt.toNat : ℤ) - now.secs| ≤ g.bound ∨
      g.distance = .abs ∧ createdAt.toNat = 2 ^ 63 + now.secs ∨
        g.distance ≠ .absDiff ∧ 2 ^ 64 + now.secs ≤ createdAt.toNat + g.bound := by
  cases g with
  | ingest =>
    rw [Accepts, driftGate, require_eq_ok, abs_drift_le 900 (by decide) (by decide)]
    simp [bound, distance]
  | leaveRequest =>
    rw [Accepts, leaveRequestGate, require_eq_ok, abs_drift_le 120 (by decide) (by decide)]
    simp [bound, distance]
  | relayAdmin =>
    rw [Accepts, relayAdminGate, require_eq_ok, abs_drift_le 120 (by decide) (by decide)]
    simp [bound, distance]
  | moderation =>
    rw [Accepts, moderationGate, require_eq_ok, abs_drift_le 120 (by decide) (by decide)]
    simp [bound, distance]
  | identityArchive =>
    rw [Accepts, enforceFreshness, require_eq_ok, abs_drift_le 120 (by decide) (by decide)]
    simp [bound, distance]
  | observerFrame =>
    rw [Accepts, observerFrameGate, require_eq_ok, unsignedAbs_drift_le 300 (by decide) (by decide)]
    simp [bound, distance]
  | observerControl =>
    rw [Accepts, observerControlGate, require_eq_ok,
      unsignedAbs_drift_le 300 (by decide) (by decide)]
    simp [bound, distance]
  | nip42 =>
    rw [Accepts, nip42Gate, require_eq_ok, absDiff_le 60 (by decide)]
    simp [bound, distance]
  | nip98 =>
    rw [Accepts, nip98Gate, require_eq_ok, absDiff_le 60 (by decide)]
    simp [bound, distance]

theorem exact_iff : (∀ step ∈ g.steps createdAt now, step.1 = step.2) ↔
    g.distance = .absDiff ∨ createdAt.toNat < 2 ^ 63 := by
  have hcast : createdAt.toInt64.toInt = (createdAt.toNat : ℤ) ↔ createdAt.toNat < 2 ^ 63 := by
    refine ⟨fun h ↦ ?_, asI64_of_lt⟩
    have hlt := createdAt.toInt64.toInt_lt
    omega
  have hdelta (h : createdAt.toNat < 2 ^ 63) :
      (drift createdAt now).toInt = createdAt.toNat - now.secs := toInt_drift_of_lt h
  have habs (h : createdAt.toNat < 2 ^ 63) :
      (drift createdAt now).abs.toInt = |(drift createdAt now).toInt| := by
    have hle : now.secs ≤ 8210266876799 := now.le
    rw [toInt_abs, hdelta h, if_neg (by omega)]
  unfold steps
  cases g.distance with
  | abs =>
    simp only [List.forall_mem_cons, List.not_mem_nil, now.toInt_i64, hcast]
    refine ⟨fun h ↦ .inr h.2.1, fun h ↦ ?_⟩
    obtain h | h := h
    · cases h
    · exact ⟨trivial, h, by rw [hcast.mpr h, hdelta h], habs h, by simp⟩
  | unsignedAbs =>
    simp only [List.forall_mem_cons, List.not_mem_nil, now.toInt_i64, hcast, toNat_unsignedAbs]
    refine ⟨fun h ↦ .inr h.2.1, fun h ↦ ?_⟩
    obtain h | h := h
    · cases h
    · exact ⟨trivial, h, by rw [hcast.mpr h, hdelta h], trivial, by simp⟩
  | absDiff => simp [now.toNat_u64, toNat_absDiff]

theorem window_of_lt (h : g.distance = .absDiff ∨ createdAt.toNat < 2 ^ 63) :
    g.Accepts createdAt now ↔ |(createdAt.toNat : ℤ) - now.secs| ≤ g.bound := by
  have hbound : g.bound ≤ 900 := by cases g <;> decide
  rw [accepts_iff]
  obtain h | h := h
  · simp [h]
  · refine or_iff_left ?_
    omega

theorem fromTimestamp_asI64 (h : createdAt.toNat < 2 ^ 63) :
    fromTimestamp (asI64 createdAt) = some (createdAt.toNat : ℤ) ↔ createdAt.toNat ≤ MAX_SECS := by
  have hmax : MAX_SECS = 8210266876799 := rfl
  rw [asI64_of_lt h, fromTimestamp]
  split
  · simp only [true_iff]
    omega
  · simp only [reduceCtorEq, false_iff]
    omega

end FreshnessGate

/-- A gate keeps its window over the whole wire range just where the cast to a signed time is
exact, and the ingest gate passes on representable times but in the last minutes of the clock. -/
theorem freshness_exact_iff (g : FreshnessGate) (createdAt : UInt64) (now : Clock) :
    g.ExactAt createdAt now ↔ g.distance = .absDiff ∨
      createdAt.toNat < 2 ^ 63 ∧
        (g = .ingest → createdAt.toNat ≤ MAX_SECS ∨ now.secs + 900 < createdAt.toNat) := by
  constructor
  · rintro ⟨hwindow, hexact, hrepresentable⟩
    refine (FreshnessGate.exact_iff.mp hexact).imp_right fun hlt ↦ ⟨hlt, ?_⟩
    rintro rfl
    by_contra! hlate
    have hle := now.le
    have haccepts : FreshnessGate.Accepts .ingest createdAt now := by
      rw [hwindow, abs_le, FreshnessGate.bound]
      omega
    have hmax := (FreshnessGate.fromTimestamp_asI64 hlt).mp (hrepresentable rfl haccepts)
    omega
  · intro h
    have hlt : g.distance = .absDiff ∨ createdAt.toNat < 2 ^ 63 := h.imp_right fun h ↦ h.1
    have hwindow : g.Accepts createdAt now ↔ _ := FreshnessGate.window_of_lt hlt
    refine ⟨hwindow, FreshnessGate.exact_iff.mpr hlt, ?_⟩
    rintro rfl haccepts
    obtain h | ⟨hlt, h⟩ := h
    · cases h
    · rw [FreshnessGate.fromTimestamp_asI64 hlt]
      refine (h rfl).resolve_right ?_
      rw [hwindow, abs_le, FreshnessGate.bound] at haccepts
      omega

/-- In June of 2025 the ingest gate takes an event whose time is beyond any date. -/
theorem freshness_window_wraps :
    driftGate 9223372038604775808 ⟨1750000000, by decide⟩ = .ok () ∧
      fromTimestamp (asI64 9223372038604775808) = none ∧
      ¬FreshnessGate.ExactAt .ingest 9223372038604775808 ⟨1750000000, by decide⟩ := by
  have haccepts : driftGate 9223372038604775808 ⟨1750000000, by decide⟩ = .ok () := by decide
  refine ⟨haccepts, by decide, fun h ↦ ?_⟩
  have hwindow := h.window.mp haccepts
  revert hwindow
  decide

/-- An event that the pipeline routes on is in the window, and its time is stored as it is. -/
theorem createdAtOf_of_precheck {env : Env} {event : Event} {auth : IngestAuth} {now : Clock}
    (hnow : env.nowSecs = now.i64) (h : precheck env event auth = .ok ())
    (hlt : event.createdAt.toNat < 2 ^ 63) (hclock : now.secs + 900 ≤ MAX_SECS) :
    |(event.createdAt.toNat : ℤ) - now.secs| ≤ 900 ∧
      Buzz.Db.createdAtOf event = .ok (event.createdAt.toNat : ℤ) := by
  have haccepts : driftGate event.createdAt now = .ok () := by
    obtain ⟨_, -, h⟩ := bind_eq_ok.mp h
    obtain ⟨_, -, h⟩ := bind_eq_ok.mp h
    obtain ⟨_, -, h⟩ := bind_eq_ok.mp h
    obtain ⟨_, -, h⟩ := bind_eq_ok.mp h
    obtain ⟨_, -, h⟩ := bind_eq_ok.mp h
    obtain ⟨_, hdrift, -⟩ := bind_eq_ok.mp h
    rwa [hnow] at hdrift
  have hwindow := (FreshnessGate.window_of_lt (g := .ingest) (.inr hlt)).mp haccepts
  refine ⟨hwindow, ?_⟩
  rw [abs_le, FreshnessGate.bound] at hwindow
  rw [Buzz.Db.createdAtOf, (FreshnessGate.fromTimestamp_asI64 hlt).mpr (by omega)]

end Buzz.Relay
