import Buzz.Push.Delivery

namespace Buzz.Push

open Buzz.Lib Buzz.Nostr Buzz.Db

inductive Fault
  | arithmetic
  | duration
  | date
deriving DecidableEq, Repr

def minDateTime : ℤ := -8334601228800 * second

def maxDateTime : ℤ := 8210266876799 * second + 999999

abbrev DateTime := {t : ℤ // minDateTime ≤ t ∧ t ≤ maxDateTime}

def checkI32 (n : ℤ) : Except Fault ℤ :=
  if -2 ^ 31 ≤ n ∧ n < 2 ^ 31 then .ok n else .error .arithmetic

def checkI64 (n : ℤ) : Except Fault ℤ :=
  if -2 ^ 63 ≤ n ∧ n < 2 ^ 63 then .ok n else .error .arithmetic

def timeDelta (secs : ℤ) : Except Fault ℤ :=
  if -((2 ^ 63 - 1) / 1000) ≤ secs ∧ secs ≤ (2 ^ 63 - 1) / 1000 then .ok (secs * second)
  else .error .duration

def addTime (now : DateTime) (delta : ℤ) : Except Fault DateTime :=
  if h : minDateTime ≤ now.val + delta ∧ now.val + delta ≤ maxDateTime then
    .ok ⟨now.val + delta, h⟩
  else .error .date

theorem checkI32_eq_ok {n m : ℤ} : checkI32 n = .ok m ↔ (-2 ^ 31 ≤ n ∧ n < 2 ^ 31) ∧ n = m := by
  unfold checkI32
  split <;> simp_all

theorem checkI64_eq_ok {n m : ℤ} : checkI64 n = .ok m ↔ (-2 ^ 63 ≤ n ∧ n < 2 ^ 63) ∧ n = m := by
  unfold checkI64
  split <;> simp_all

theorem timeDelta_eq_ok {secs delta : ℤ} : timeDelta secs = .ok delta ↔
    (-((2 ^ 63 - 1) / 1000) ≤ secs ∧ secs ≤ (2 ^ 63 - 1) / 1000) ∧ secs * second = delta := by
  unfold timeDelta
  split <;> simp_all

theorem addTime_eq_ok {now next : DateTime} {delta : ℤ} :
    addTime now delta = .ok next ↔ now.val + delta = next.val := by
  unfold addTime
  split
  · next h => simp [Subtype.ext_iff]
  · next h =>
    have hrange := next.property
    constructor
    · intro heq
      cases heq
    · intro heq
      rw [heq] at h
      exact absurd hrange h

/-- What becomes of a wake that a worker is through with. -/
inductive Ending
  | completed
  | scheduled (next : DateTime)
  | failed
deriving DecidableEq

def retryShift (attempt : ℤ) : ℕ := (min (max (attempt - 1) 0) 6).toNat

def retryOrFailAt (attempt : Int32) (delay : ℤ) (now : DateTime) : Except Fault Ending :=
  if 8 ≤ attempt.toInt then .ok .failed
  else do
    let previous ← checkI32 (attempt.toInt - 1)
    let secs ← checkI64 (delay * 2 ^ (min (max previous 0) 6).toNat)
    let delta ← timeDelta secs
    let next ← addTime now delta
    return .scheduled next

namespace SendResult

/-- The arms of `deliver_one` on what the request to the gateway ends with. -/
def ending (attempt : Int32) (now : DateTime) : SendResult → Except Fault Ending
  | .response status body =>
    if isSuccess status then if body = some .accepted then .ok .completed else .ok .failed
    else if status = 410 then .ok .failed
    else if status = 503 then
      match body with
      | some (.retry (some seconds)) =>
        retryOrFailAt attempt (if 0 < seconds then seconds else 2) now
      | _ => retryOrFailAt attempt 2 now
    else if status = 429 then retryOrFailAt attempt 2 now
    else if status = 404 ∧ 1 < attempt.toInt then .ok .completed
    else .ok .failed
  | .timeout => retryOrFailAt attempt 2 now
  | .connect => retryOrFailAt attempt 2 now
  | .otherError => .ok .failed

def retryHint : SendResult → Option ℤ
  | .response status body =>
    if status = 503 then
      match body with
      | some (.retry (some seconds)) => some (if 0 < seconds then seconds else 2)
      | _ => some 2
    else if status = 429 then some 2
    else none
  | .timeout => some 2
  | .connect => some 2
  | .otherError => none

end SendResult

def Ending.op (wake : ClaimedWake) : Ending → Op
  | .completed => .completeWake wake.id wake.claimId
  | .scheduled next => .retryWake wake.id wake.claimId next.val
  | .failed => .failWake wake.id wake.claimId

/-- The wake is out of the worker's hands, and due no sooner than `now` and within the dates. -/
def WakeRow.Settled (row : WakeRow) (now : DateTime) : Prop :=
  row.state = .delivered ∨ row.state = .failed ∨
    row.state = .pending ∧ now.val ≤ row.nextAttemptAt ∧ row.nextAttemptAt ≤ maxDateTime

/-- The worker gets through the answer, the wake that it holds is settled, and an answer with the
same hint to a later attempt is not tried again any sooner. -/
structure SafelyAnswered (result : SendResult) (attempt : Int32) (now : DateTime) : Prop where
  settles : ∃ ending, result.ending attempt now = .ok ending ∧
    ∀ (w : World) (wake : ClaimedWake) (row : WakeRow) (leaseUntil : Timestamptz),
      w.tables.outbox.lookup wake.id = some row → row.state = .sending (wake.claimId, leaseUntil) →
      ∃ row', (w.step (ending.op wake)).tables.outbox.lookup wake.id = some row' ∧ row'.Settled now
  backsOff : ∀ (next next' now' : DateTime) (result' : SendResult) (attempt' : Int32),
    result.ending attempt now = .ok (.scheduled next) → result'.retryHint = result.retryHint →
    attempt.toInt ≤ attempt'.toInt → result'.ending attempt' now' = .ok (.scheduled next') →
    next.val - now.val ≤ next'.val - now'.val

/-- The time to try again at is a date, for an answer that a wake short of its last attempt is tried
again for. -/
def RetryInRange (result : SendResult) (attempt : Int32) (now : DateTime) : Prop :=
  ∀ hint ∈ result.retryHint, attempt.toInt < 8 →
    -2 ^ 31 < attempt.toInt ∧ now.val + hint * 2 ^ retryShift attempt.toInt * second ≤ maxDateTime

variable {result : SendResult} {attempt : Int32} {now next : DateTime} {delay hint : ℤ}
  {ending : Ending}

theorem retryOrFailAt_eq_ok (hdelay : 0 < delay) : retryOrFailAt attempt delay now = .ok ending ↔
    8 ≤ attempt.toInt ∧ ending = .failed ∨
      attempt.toInt < 8 ∧ -2 ^ 31 < attempt.toInt ∧ ∃ next : DateTime, ending = .scheduled next ∧
        next.val = now.val + delay * 2 ^ retryShift attempt.toInt * second := by
  unfold retryOrFailAt
  split
  · next hlast => simp [hlast, eq_comm]
  · next hlast =>
    have hmax := attempt.toInt_lt
    have hmin := attempt.le_toInt
    simp only [bind_eq_ok, checkI32_eq_ok, checkI64_eq_ok, timeDelta_eq_ok, addTime_eq_ok]
    constructor
    · rintro ⟨_, ⟨hprevious, rfl⟩, _, ⟨-, rfl⟩, _, ⟨-, rfl⟩, next, hnext, hending⟩
      exact .inr ⟨by omega, by omega, next, (Except.ok.inj hending).symm, hnext.symm⟩
    · rintro (⟨h, -⟩ | ⟨-, hlt, next, rfl, hnext⟩)
      · exact absurd h hlast
      · have hpos : 0 < delay * 2 ^ retryShift attempt.toInt := by positivity
        have hnow := now.property
        have hdate := next.property
        simp only [minDateTime, maxDateTime, second, retryShift] at hnow hdate hnext hpos
        exact ⟨_, ⟨by omega, rfl⟩, _, ⟨by omega, rfl⟩, _, ⟨by omega, rfl⟩, next, hnext.symm, rfl⟩

theorem retryHint_pos (h : result.retryHint = some hint) : 0 < hint := by
  cases result with
  | response status body =>
    simp only [SendResult.retryHint] at h
    split_ifs at h with h503 h429
    · split at h
      · next seconds =>
        have hhint := Option.some.inj h
        split at hhint <;> omega
      · have hhint := Option.some.inj h
        omega
    · have hhint := Option.some.inj h
      omega
  | otherError => cases h
  | timeout | connect =>
    have hhint := Option.some.inj h
    omega

/-- An answer is tried again for, or settled whatever the attempt and the time. -/
theorem ending_of_hint (h : result.retryHint = some hint) :
    result.ending attempt now = retryOrFailAt attempt hint now := by
  cases result with
  | response status body =>
    simp only [SendResult.retryHint] at h
    split_ifs at h with h503 h429
    · subst h503
      rcases body with _ | _ | _ | (_ | _) <;> cases h <;> rfl
    · subst h429
      cases h
      rfl
  | otherError => cases h
  | timeout | connect =>
    cases h
    rfl

theorem settlement_of_hint {n : ℕ} (h : result.retryHint = some hint) :
    result.settlement n = retryOrFail n hint := by
  cases result with
  | response status body =>
    simp only [SendResult.retryHint] at h
    split_ifs at h with h503 h429
    · subst h503
      rcases body with _ | _ | _ | (_ | _) <;> cases h <;> rfl
    · subst h429
      cases h
      rfl
  | otherError => cases h
  | timeout | connect =>
    cases h
    rfl

theorem ending_of_no_hint (h : result.retryHint = none) (attempt : Int32) (now : DateTime) :
    ∃ ending, result.ending attempt now = .ok ending ∧ ∀ next, ending ≠ .scheduled next := by
  cases result with
  | response status body =>
    simp only [SendResult.retryHint] at h
    simp only [SendResult.ending]
    split_ifs at h ⊢ with h503
    all_goals first
      | exact ⟨_, rfl, fun _ h ↦ by cases h⟩
      | (split at h <;> cases h)
  | otherError => exact ⟨_, rfl, fun _ h ↦ by cases h⟩
  | timeout | connect => cases h

def Ending.row (row : WakeRow) : Ending → WakeRow
  | .completed => { row with state := .delivered }
  | .scheduled next => { row with state := .pending, nextAttemptAt := next.val }
  | .failed => { row with state := .failed }

variable {w : World} {wake : ClaimedWake} {row : WakeRow} {leaseUntil : Timestamptz}

theorem lookup_updateFenced {t : Tables} {id claimId : Uuid} (f : WakeRow → WakeRow)
    (hrow : t.outbox.lookup id = some row) (hstate : row.state = .sending (claimId, leaseUntil)) :
    (t.updateFenced id claimId f).1.outbox.lookup id = some (f row) := by
  simp [Tables.updateFenced, hrow, hstate]

theorem lookup_step_op (hrow : w.tables.outbox.lookup wake.id = some row)
    (hstate : row.state = .sending (wake.claimId, leaseUntil)) :
    (w.step (ending.op wake)).tables.outbox.lookup wake.id = some (ending.row row) := by
  have hallowed : w.Allowed (ending.op wake) := by
    cases ending <;> exact ⟨fun _ h ↦ (by cases h), List.nodup_nil, fun _ h ↦ (by cases h)⟩
  rw [World.step, if_pos hallowed]
  cases ending <;> exact lookup_updateFenced _ hrow hstate

/-- What the worker tells the database is what the pipeline's own step of it does. -/
theorem settleOp_eq (h : result.ending attempt now = .ok ending)
    (hattempt : (wake.attempt : ℤ) = attempt.toInt) :
    Deliveries.settleOp wake now.val (result.settlement wake.attempt) = ending.op wake := by
  cases hhint : result.retryHint with
  | some hint =>
    rw [ending_of_hint hhint, retryOrFailAt_eq_ok (retryHint_pos hhint)] at h
    rw [settlement_of_hint hhint, retryOrFail]
    obtain ⟨hlast, rfl⟩ | ⟨hattempts, -, next, rfl, hnext⟩ := h
    · rw [if_pos (by simp only [maxAttempts]; omega)]
      rfl
    · have hshift : min (wake.attempt - 1) 6 = retryShift attempt.toInt := by
        unfold retryShift
        omega
      rw [if_neg (by simp only [maxAttempts]; omega), hshift]
      simp only [Deliveries.settleOp, Ending.op, hnext]
  | none =>
    cases result with
    | response status body =>
      have hagain : 1 < attempt.toInt ↔ 1 < wake.attempt := by omega
      simp only [SendResult.retryHint] at hhint
      simp only [SendResult.ending, hagain] at h
      simp only [SendResult.settlement]
      split_ifs at h hhint ⊢
      all_goals first
        | (cases h; rfl)
        | (split at hhint <;> cases hhint)
    | otherError =>
      cases h
      rfl
    | timeout | connect => cases hhint

theorem settled_row (h : ∀ next, ending = .scheduled next → now.val ≤ next.val) :
    (ending.row row).Settled now := by
  cases ending with
  | completed => exact .inl rfl
  | failed => exact .inr (.inl rfl)
  | scheduled next => exact .inr (.inr ⟨rfl, h next rfl, next.property.2⟩)

theorem retryShift_mono {a b : ℤ} (h : a ≤ b) : retryShift a ≤ retryShift b := by
  unfold retryShift
  omega

theorem scheduled_iff : result.ending attempt now = .ok (.scheduled next) ↔
    ∃ hint ∈ result.retryHint, attempt.toInt < 8 ∧ -2 ^ 31 < attempt.toInt ∧
      next.val = now.val + hint * 2 ^ retryShift attempt.toInt * second := by
  cases hhint : result.retryHint with
  | none =>
    obtain ⟨ending, hending, hne⟩ := ending_of_no_hint hhint attempt now
    simp [hending, hne]
  | some hint =>
    rw [ending_of_hint hhint, retryOrFailAt_eq_ok (retryHint_pos hhint)]
    simp

/-- A worker gets through every answer to a wake, but for a retry at a time past the last date. -/
theorem safelyAnswered_iff (result : SendResult) (attempt : Int32) (now : DateTime) :
    SafelyAnswered result attempt now ↔ RetryInRange result attempt now := by
  constructor
  · rintro ⟨⟨ending, hending, -⟩, -⟩ hint hhint hattempt
    rw [ending_of_hint hhint, retryOrFailAt_eq_ok (retryHint_pos hhint)] at hending
    obtain ⟨hlast, -⟩ | ⟨-, hmin, next, -, hnext⟩ := hending
    · omega
    · exact ⟨hmin, hnext ▸ next.property.2⟩
  · intro hrange
    constructor
    · have hends : ∃ ending, result.ending attempt now = .ok ending ∧
          ∀ next, ending = .scheduled next → now.val ≤ next.val := by
        cases hhint : result.retryHint with
        | none =>
          obtain ⟨ending, hending, hne⟩ := ending_of_no_hint hhint attempt now
          exact ⟨ending, hending, fun next hnext ↦ absurd hnext (hne next)⟩
        | some hint =>
          have hpos := retryHint_pos hhint
          simp only [ending_of_hint hhint, retryOrFailAt_eq_ok hpos]
          by_cases hlast : 8 ≤ attempt.toInt
          · exact ⟨.failed, .inl ⟨hlast, rfl⟩, fun _ h ↦ (by cases h)⟩
          · obtain ⟨hmin, hmax⟩ := hrange hint hhint (by omega)
            have hwait : 0 ≤ hint * 2 ^ retryShift attempt.toInt * second := by
              have hsecond : 0 < second := by decide
              positivity
            have hnow := now.property
            refine ⟨.scheduled ⟨_, by omega, hmax⟩,
              .inr ⟨by omega, hmin, _, rfl, rfl⟩, fun next hnext ↦ ?_⟩
            cases hnext
            change now.val ≤ now.val + _
            omega
      obtain ⟨ending, hending, hnext⟩ := hends
      exact ⟨ending, hending, fun w wake row leaseUntil hrow hstate ↦
        ⟨_, lookup_step_op hrow hstate, settled_row hnext⟩⟩
    · intro next next' now' result' attempt' h hsame hle h'
      obtain ⟨hint, hhint, -, -, hnext⟩ := scheduled_iff.mp h
      obtain ⟨hint', hhint', -, -, hnext'⟩ := scheduled_iff.mp h'
      rw [hsame, hhint] at hhint'
      cases hhint'
      have hpos := retryHint_pos hhint
      have hpow : (2 : ℤ) ^ retryShift attempt.toInt ≤ 2 ^ retryShift attempt'.toInt :=
        pow_le_pow_right₀ (by decide) (retryShift_mono hle)
      have hmul := mul_le_mul_of_nonneg_left hpow hpos.le
      simp only [second] at hnext hnext'
      omega

def hugeHint : SendResult := .response 503 (some (.retry (some (2 ^ 63 - 1))))

def oneMorning : DateTime := ⟨1700000000 * second, by decide⟩

/-- The largest hint is no duration, at the first attempt already. -/
theorem huge_hint_stops_worker : ¬SafelyAnswered hugeHint 1 oneMorning := by
  rintro ⟨⟨ending, hending, -⟩, -⟩
  have hhint : hugeHint.retryHint = some (2 ^ 63 - 1) := by decide
  rw [ending_of_hint hhint, retryOrFailAt_eq_ok (by decide)] at hending
  obtain ⟨hlast, -⟩ | ⟨-, -, next, -, hnext⟩ := hending
  · exact absurd hlast (by decide)
  · have hdate := next.property
    have hshift : retryShift (1 : Int32).toInt = 0 := by decide
    rw [hshift, oneMorning] at hnext
    simp only [minDateTime, maxDateTime, second] at hdate hnext
    omega

end Buzz.Push
