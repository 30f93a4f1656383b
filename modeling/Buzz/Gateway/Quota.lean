import Buzz.Gateway.ConformDelivery
import Buzz.Lib.QuotaWindow

namespace Buzz.Gateway

open Buzz.Lib Buzz.Nostr

/-- A store with the seconds of the gateway's clock and what it admitted under each endpoint. -/
structure QuotaWorld (σ κ : Type) where
  store : σ
  clock : ℤ
  log : List (Charge κ)
deriving DecidableEq

/-- A gateway that has admitted nothing yet. -/
def QuotaWorld.start {σ κ : Type} (store : σ) (clock : ℤ) : QuotaWorld σ κ := ⟨store, clock, []⟩

/-- `dbNow` is `now()` of the database server, which only its tables read. -/
inductive QuotaMove
  | authorize (dbNow : DateTime) (a : Delivery)
  | reap (now : ℤ)
  | other (dbNow : DateTime) (c : Call)
deriving DecidableEq

def chargesQuota : Call → Bool
  | .authorizeDelivery _ => true
  | _ => false

/-- The gateway's clock does not go back, and its configured quota is what each delivery carries. -/
def Timely (window max clock : ℤ) : QuotaMove → Prop
  | .authorize _ a =>
    a.quotaWindowSeconds = window ∧ a.quotaMaxDeliveries = max ∧ clock ≤ a.now
  | .reap now => clock ≤ now
  | .other _ c => chargesQuota c = false

instance (window max clock : ℤ) (m : QuotaMove) : Decidable (Timely window max clock m) := by
  cases m <;> unfold Timely <;> infer_instance

namespace Tables

variable {s s' : Tables} {dbNow : DateTime} {window max : ℤ}

def quotaOf (s : Tables) (fingerprint : List UInt8) : Option (ℤ × ℤ) :=
  (s.endpointQuotas.lookup fingerprint).map fun q ↦ (q.windowStartedAt, q.admitted)

def charged (s s' : Tables) (a : Delivery) : Option (Charge (List UInt8)) := do
  let id ← s.installationOf a.delegationId
  let i ← s.installations.lookup id
  let q ← s'.endpointQuotas.lookup i.tokenFingerprint
  return ⟨i.tokenFingerprint, seconds a.now, q.windowStartedAt⟩

def quotaStep (w : QuotaWorld Tables (List UInt8)) :
    QuotaMove → QuotaWorld Tables (List UInt8)
  | .authorize dbNow a =>
    match w.store.authorizeDelivery dbNow a with
    | .error _ => { w with clock := a.now }
    | .ok (_, s) => ⟨s, a.now, w.log ++ (w.store.charged s a).toList⟩
  | .reap now =>
    match w.store.reapExpired now with
    | .error _ => { w with clock := now }
    | .ok s => { w with store := s, clock := now }
  | .other dbNow c =>
    match w.store.call dbNow c with
    | .error _ => w
    | .ok (_, s) => { w with store := s }

def quotaRun (clock : ℤ) (moves : List QuotaMove) : QuotaWorld Tables (List UInt8) :=
  moves.foldl quotaStep (.start .empty clock)

def ReapsOver (window : ℤ) (s : Tables) : QuotaMove → Prop
  | .reap now => ∀ e ∈ s.endpointQuotas.entries, e.2.updatedAt < seconds now - day →
      e.2.windowStartedAt + seconds window ≤ seconds now
  | _ => True

instance (window : ℤ) (s : Tables) (m : QuotaMove) : Decidable (s.ReapsOver window m) := by
  cases m <;> unfold ReapsOver <;> infer_instance

/-- The server's clock is not behind the gateway's at an admission. -/
def ServerCaughtUp : QuotaMove → Prop
  | .authorize dbNow a => seconds a.now ≤ dbNow
  | _ => True

structure QuotaKept (window max : ℤ) (w : QuotaWorld Tables (List UInt8)) : Prop where
  holds : QuotaHolds (seconds window) max w.store.quotaOf (seconds w.clock) w.log
  refused : ∀ dbNow a err, w.store.authorizeDelivery dbNow a = .error err →
    (quotaStep w (.authorize dbNow a)).store = w.store
  admitted : ∀ dbNow a p s, w.store.authorizeDelivery dbNow a = .ok (p, s) →
    ∃ id i start, w.store.installationOf a.delegationId = some id ∧
      w.store.installations.lookup id = some i ∧ (quotaStep w (.authorize dbNow a)).log =
          w.log ++ [⟨i.tokenFingerprint, seconds a.now, start⟩]
  untouched : ∀ dbNow c, chargesQuota c = false →
    (quotaStep w (.other dbNow c)).store.endpointQuotas = w.store.endpointQuotas

theorem call_endpointQuotas {c : Call} {answer : Answer} (hc : chargesQuota c = false)
    (h : s.call dbNow c = .ok (answer, s')) : s'.endpointQuotas = s.endpointQuotas := by
  cases c with
  | authorizeDelivery a => cases hc
  | finishDelivery permit disposition =>
    rcases finishDelivery_spec (done_eq_ok.mp h).1 with ⟨-, rfl⟩ | ⟨-, relay, -, rfl⟩
    · rfl
    · rfl
  | _ => exact (call_fences rfl h).2.2

theorem quotaRow_charges {stored : Option QuotaRow} {now : DateTime} {a : Delivery} {q : QuotaRow}
    (h : quotaRow stored now dbNow a = .ok q) :
    Charges (seconds a.quotaWindowSeconds) a.quotaMaxDeliveries
      (stored.map fun q ↦ (q.windowStartedAt, q.admitted)) now (q.windowStartedAt, q.admitted) := by
  cases stored with
  | none =>
    cases h
    rfl
  | some old =>
    simp only [quotaRow, le_sub_iff_add_le] at h
    simp only [Option.map_some, Charges]
    split_ifs at h ⊢ with hover hroom
    · cases h
      rfl
    · cases h
      exact ⟨hroom, rfl⟩

/-- An admitted delivery has charged the endpoint of the installation it locked, and has written
no other row of the quotas. -/
theorem authorizeDelivery_charges {a : Delivery} {p : DeliveryPermit}
    (h : s.authorizeDelivery dbNow a = .ok (p, s')) :
    ∃ id i q, s.installationOf a.delegationId = some id ∧ s.installations.lookup id = some i ∧
      quotaRow (s.endpointQuotas.lookup i.tokenFingerprint) (seconds a.now) dbNow a = .ok q ∧
      s'.endpointQuotas = AList.insert i.tokenFingerprint q s.endpointQuotas := by
  obtain ⟨-, id, i, key, d, hid, hi, -, -, hadmit⟩ := authorizeDelivery_eq_ok.mp h
  obtain ⟨-, -, s₁, hcharge, hfence⟩ := admitDelivery_eq_ok.mp hadmit
  obtain ⟨-, q, hq, rfl⟩ := chargeQuota_eq_ok.mp hcharge
  obtain ⟨relay, event, -, -, -, -, -, -, rfl⟩ := fence_eq_ok.mp hfence
  exact ⟨id, i, q, hid, hi, hq, rfl⟩

theorem charged_eq_some {a : Delivery} {id : Uuid} {i : InstallationRow} {q : QuotaRow}
    (hid : s.installationOf a.delegationId = some id) (hi : s.installations.lookup id = some i)
    (hquotas : s'.endpointQuotas = AList.insert i.tokenFingerprint q s.endpointQuotas) :
    s.charged s' a = some ⟨i.tokenFingerprint, seconds a.now, q.windowStartedAt⟩ := by
  have hq : s'.endpointQuotas.lookup i.tokenFingerprint = some q := by
    rw [hquotas, AList.lookup_insert]
  simp only [charged, hid, hi, hq, Option.bind_eq_bind, Option.bind_some, Option.pure_def]

theorem quotaOf_insert {fingerprint : List UInt8} {q : QuotaRow}
    (h : s'.endpointQuotas = AList.insert fingerprint q s.endpointQuotas) :
    s'.quotaOf =
      Function.update s.quotaOf fingerprint (some (q.windowStartedAt, q.admitted)) := by
  funext k
  rw [quotaOf, h, Map.lookup_insert_eq, Function.update_apply]
  split_ifs
  · rfl
  · rfl

theorem reapExpired_endpointQuotas {now : ℤ} (h : s.reapExpired now = .ok s') :
    s'.endpointQuotas =
      Map.keepEntries (fun _ q ↦ !(q.updatedAt < seconds now - day)) s.endpointQuotas := by
  simp only [reapExpired, bind_eq_ok, bindAt_eq_ok] at h
  obtain ⟨t, ⟨-, rfl⟩, h⟩ := h
  cases h
  rfl

/-- A row that the reaper lets stay, or one whose window is over. -/
theorem quotaOf_reaped {now : ℤ} (h : s.reapExpired now = .ok s')
    (hover : s.ReapsOver window (.reap now)) (k : List UInt8) :
    s'.quotaOf k = s.quotaOf k ∨ s'.quotaOf k = none ∧
      ∀ start n, s.quotaOf k = some (start, n) → start + seconds window ≤ seconds now := by
  rw [quotaOf, reapExpired_endpointQuotas h, Map.lookup_keepEntries, quotaOf]
  cases hq : s.endpointQuotas.lookup k with
  | none => exact .inl rfl
  | some q =>
    by_cases hold : q.updatedAt < seconds now - day
    · right
      refine ⟨by simp [Option.filter, hold], fun start n hrow ↦ ?_⟩
      cases hrow
      exact hover ⟨k, q⟩ (Map.mem_entries_iff.mpr hq) hold
    · left
      simp [Option.filter, hold]

def QuotaWorldInv (window max : ℤ) (w : QuotaWorld Tables (List UInt8)) : Prop :=
  QuotaInv (seconds window) max w.store.quotaOf (seconds w.clock) w.log

theorem quotaStep_inv {w : QuotaWorld Tables (List UInt8)} {m : QuotaMove} (hwindow : 1 ≤ window)
    (hmax : 1 ≤ max) (h : QuotaWorldInv window max w) (htimely : Timely window max w.clock m)
    (hover : w.store.ReapsOver window m) : QuotaWorldInv window max (quotaStep w m) := by
  cases m with
  | authorize dbNow a =>
    obtain ⟨rfl, rfl, hclock⟩ := htimely
    cases hauth : w.store.authorizeDelivery dbNow a with
    | error err =>
      simp only [quotaStep, hauth]
      exact h.tick (seconds_le.mpr hclock)
    | ok r =>
      obtain ⟨p, s⟩ := r
      obtain ⟨id, i, q, hid, hi, hq, hquotas⟩ := authorizeDelivery_charges hauth
      simp only [quotaStep, hauth, charged_eq_some hid hi hquotas, Option.toList_some]
      rw [QuotaWorldInv, quotaOf_insert hquotas]
      apply h.charge
      · simp only [seconds]
        omega
      · exact hmax
      · exact seconds_le.mpr hclock
      · exact quotaRow_charges hq
  | reap now =>
    cases hreap : w.store.reapExpired now with
    | error err =>
      simp only [quotaStep, hreap]
      exact h.tick (seconds_le.mpr htimely)
    | ok s =>
      simp only [quotaStep, hreap]
      exact (h.tick (seconds_le.mpr htimely)).drop (quotaOf_reaped hreap hover)
  | other dbNow c =>
    cases hcall : w.store.call dbNow c with
    | error err =>
      simp only [quotaStep, hcall]
      exact h
    | ok r =>
      have hquotas := call_endpointQuotas htimely hcall
      have hrows : r.2.quotaOf = w.store.quotaOf := by
        funext k
        rw [quotaOf, hquotas, quotaOf]
      simp only [quotaStep, hcall]
      rw [QuotaWorldInv, hrows]
      exact h

theorem quotaKept_of_inv {w : QuotaWorld Tables (List UInt8)} (hmax : 1 ≤ max)
    (h : QuotaWorldInv window max w) : QuotaKept window max w where
  holds := h.holds (by omega)
  refused dbNow a err hauth := by simp only [quotaStep, hauth]
  admitted dbNow a p s hauth := by
    obtain ⟨id, i, q, hid, hi, -, hquotas⟩ := authorizeDelivery_charges hauth
    refine ⟨id, i, q.windowStartedAt, hid, hi, ?_⟩
    simp only [quotaStep, hauth, charged_eq_some hid hi hquotas, Option.toList_some]
  untouched dbNow c hc := by
    cases hcall : w.store.call dbNow c with
    | error err => simp only [quotaStep, hcall]
    | ok r =>
      simp only [quotaStep, hcall]
      exact call_endpointQuotas hc hcall

/-- Where the server's clock is not behind, no window starts after the last change of its row. -/
def StartedBeforeUpdate (s : Tables) : Prop :=
  ∀ k q, s.endpointQuotas.lookup k = some q → q.windowStartedAt ≤ q.updatedAt

theorem startedBeforeUpdate_empty : StartedBeforeUpdate Tables.empty := by
  intro k q hq
  cases hq

theorem StartedBeforeUpdate.reapsOver (h : s.StartedBeforeUpdate) (hwindow : window ≤ 86400)
    (m : QuotaMove) : s.ReapsOver window m := by
  cases m with
  | reap now =>
    intro e he hold
    have hstarted := h e.1 e.2 (Map.mem_entries_iff.mp he)
    have hday : seconds window ≤ day := seconds_le.mpr hwindow
    calc e.2.windowStartedAt + seconds window
        ≤ e.2.updatedAt + day := add_le_add hstarted hday
      _ ≤ seconds now := (lt_sub_iff_add_lt.mp hold).le
  | _ => trivial

theorem quotaRow_started {stored : Option QuotaRow} {now dbNow : DateTime} {a : Delivery}
    {q : QuotaRow} (h : quotaRow stored now dbNow a = .ok q) :
    (q.windowStartedAt = now ∨ ∃ old, stored = some old ∧ q.windowStartedAt = old.windowStartedAt) ∧
      q.updatedAt = dbNow := by
  cases stored with
  | none =>
    cases h
    exact ⟨.inl rfl, rfl⟩
  | some old =>
    rw [quotaRow] at h
    split_ifs at h
    · cases h
      exact ⟨.inl rfl, rfl⟩
    · cases h
      exact ⟨.inr ⟨old, rfl, rfl⟩, rfl⟩

theorem quotaStep_started {w : QuotaWorld Tables (List UInt8)} {m : QuotaMove}
    (h : QuotaWorldInv window max w) (hstarted : w.store.StartedBeforeUpdate)
    (htimely : Timely window max w.clock m) (hserver : ServerCaughtUp m) :
    (quotaStep w m).store.StartedBeforeUpdate := by
  cases m with
  | authorize dbNow a =>
    cases hauth : w.store.authorizeDelivery dbNow a with
    | error err =>
      simp only [quotaStep, hauth]
      exact hstarted
    | ok r =>
      obtain ⟨p, s⟩ := r
      obtain ⟨id, i, q, hid, hi, hq, hquotas⟩ := authorizeDelivery_charges hauth
      obtain ⟨hstart, hupdate⟩ := quotaRow_started hq
      simp only [quotaStep, hauth]
      intro k q' hq'
      rw [hquotas, Map.lookup_insert_eq] at hq'
      split_ifs at hq' with hk
      · cases hq'
        rw [hupdate]
        rcases hstart with heq | ⟨old, hold, heq⟩
        · exact heq.trans_le hserver
        · -- a window that goes on has started before now
          have hrow : w.store.quotaOf i.tokenFingerprint =
              some (old.windowStartedAt, old.admitted) := by
            rw [quotaOf, hold]
            rfl
          obtain ⟨hs, -⟩ := h.current i.tokenFingerprint _ _ hrow
          have hclock := seconds_le.mpr htimely.2.2
          exact heq.trans_le (hs.trans (hclock.trans hserver))
      · exact hstarted k q' hq'
  | reap now =>
    cases hreap : w.store.reapExpired now with
    | error err =>
      simp only [quotaStep, hreap]
      exact hstarted
    | ok s =>
      simp only [quotaStep, hreap]
      intro k q hq
      rw [reapExpired_endpointQuotas hreap, Map.lookup_keepEntries,
        Option.filter_eq_some_iff] at hq
      exact hstarted k q hq.1
  | other dbNow c =>
    cases hcall : w.store.call dbNow c with
    | error err =>
      simp only [quotaStep, hcall]
      exact hstarted
    | ok r =>
      simp only [quotaStep, hcall]
      intro k q hq
      rw [call_endpointQuotas htimely hcall] at hq
      exact hstarted k q hq

end Tables

namespace MemoryState

variable {s s' : MemoryState} {window max : ℤ}

def quotaOf (s : MemoryState) (fingerprint : Bytes32) : Option (ℤ × ℤ) :=
  s.endpointQuotas.lookup fingerprint

def charged (s s' : MemoryState) (a : Delivery) : Option (Charge Bytes32) := do
  let key ← s.delegationIds.lookup a.delegationId
  let d ← s.delegations.lookup key
  let i ← s.installations.lookup d.installationId
  let q ← s'.endpointQuotas.lookup i.tokenFingerprint
  return ⟨i.tokenFingerprint, a.now, q.1⟩

def quotaStep (w : QuotaWorld MemoryState Bytes32) : QuotaMove → QuotaWorld MemoryState Bytes32
  | .authorize _ a =>
    match w.store.authorizeDelivery a with
    | (.error _, s) => { w with store := s, clock := a.now }
    | (.ok _, s) => ⟨s, a.now, w.log ++ (w.store.charged s a).toList⟩
  | .reap now => { w with store := (w.store.reapExpired now).2, clock := now }
  | .other _ c => { w with store := (w.store.call c).2 }

def quotaRun (clock : ℤ) (moves : List QuotaMove) : QuotaWorld MemoryState Bytes32 :=
  moves.foldl quotaStep (.start .empty clock)

structure QuotaKept (window max : ℤ) (w : QuotaWorld MemoryState Bytes32) : Prop where
  holds : QuotaHolds window max w.store.quotaOf w.clock w.log
  refused : ∀ dbNow a err, a.quotaWindowSeconds = window → a.quotaMaxDeliveries = max →
    (w.store.authorizeDelivery a).1 = .error err →
      (quotaStep w (.authorize dbNow a)).store = w.store
  admitted : ∀ dbNow a p, a.quotaWindowSeconds = window → a.quotaMaxDeliveries = max →
    (w.store.authorizeDelivery a).1 = .ok p →
      ∃ key d i start, w.store.delegationIds.lookup a.delegationId = some key ∧
        w.store.delegations.lookup key = some d ∧
        w.store.installations.lookup d.installationId = some i ∧
        (quotaStep w (.authorize dbNow a)).log =
          w.log ++ [⟨i.tokenFingerprint, a.now, start⟩]
  untouched : ∀ dbNow c, chargesQuota c = false →
    (quotaStep w (.other dbNow c)).store.endpointQuotas = w.store.endpointQuotas

theorem le_saturatingSub {w a b : ℤ} (hlo : 1 ≤ w) (hhi : w ≤ 86400) :
    w ≤ saturatingSub a b ↔ w ≤ a - b := by
  simp only [saturatingSub, i64Min, i64Max]
  omega

/-- The entry that a delivery finds, with one more in it, is the one that a charge leaves. -/
theorem quotaEntry_charges (quotas : Map Bytes32 (ℤ × ℤ)) (fingerprint : Bytes32) {a : Delivery}
    (hlo : 1 ≤ a.quotaWindowSeconds) (hhi : a.quotaWindowSeconds ≤ 86400) :
    let e := quotaEntry quotas fingerprint a
    (e.2.2 < a.quotaMaxDeliveries →
      Charges a.quotaWindowSeconds a.quotaMaxDeliveries (quotas.lookup fingerprint) a.now
        (e.2.1, e.2.2 + 1)) ∧
      (1 ≤ a.quotaMaxDeliveries → a.quotaMaxDeliveries ≤ e.2.2 → e.1 = quotas) := by
  intro e
  cases hq : quotas.lookup fingerprint with
  | none =>
    have hmem : fingerprint ∉ quotas := AList.lookup_eq_none.mp hq
    have he : e.2 = (a.now, 0) := by
      simp only [e, quotaEntry, hmem, if_false, AList.lookup_insert, Option.getD_some]
      split <;> rfl
    rw [he]
    exact ⟨fun _ ↦ rfl, fun hmax hfull ↦ absurd (hmax.trans hfull) (not_le.mpr one_pos)⟩
  | some q =>
    have hmem : fingerprint ∈ quotas := AList.lookup_isSome.mp (hq ▸ rfl)
    by_cases hover : a.quotaWindowSeconds ≤ a.now - q.1
    · have he : e.2 = (a.now, 0) := by
        simp only [e, quotaEntry, hmem, if_true, hq, Option.getD_some, le_saturatingSub hlo hhi,
          hover]
      have hpast : q.1 + a.quotaWindowSeconds ≤ a.now := by omega
      rw [he]
      simp only [Charges, hpast, if_true]
      exact ⟨fun _ ↦ rfl, fun hmax hfull ↦ absurd (hmax.trans hfull) (not_le.mpr one_pos)⟩
    · have he : e = (quotas, q) := by
        simp only [e, quotaEntry, hmem, if_true, hq, Option.getD_some, le_saturatingSub hlo hhi,
          hover, if_false]
      have hnot : ¬q.1 + a.quotaWindowSeconds ≤ a.now := by omega
      rw [he]
      simp only [Charges, hnot, if_false]
      exact ⟨fun hroom ↦ ⟨hroom, trivial⟩, fun _ _ ↦ trivial⟩

theorem call_endpointQuotas {c : Call} (hc : chargesQuota c = false) :
    (s.call c).2.endpointQuotas = s.endpointQuotas := by
  cases c with
  | authorizeDelivery a => cases hc
  | putChallenge c => rfl
  | consumeChallenge id value now =>
    simp only [call, answering, consumeChallenge]
    split <;> rfl
  | createInstallation n =>
    simp only [call, answering, createInstallation]
    split <;> rfl
  | installation id now =>
    simp only [call, answering, installation]
    split <;> rfl
  | advanceAssertionCounter id previous next =>
    simp only [call, answering, advanceAssertionCounter]
    repeat' split
    all_goals rfl
  | upsertDelegation d =>
    simp only [call, answering, upsertDelegation]
    repeat' split
    all_goals rfl
  | rotateEndpoint id expected new ciphertext fingerprint =>
    simp only [call, answering, rotateEndpoint]
    repeat' split
    all_goals rfl
  | revokeDelegation id relay generation =>
    simp only [call, answering, revokeDelegation]
    repeat' split
    all_goals rfl
  | revokeInstallation id expected new =>
    simp only [call, answering, revokeInstallation]
    repeat' split
    all_goals rfl
  | finishDelivery permit disposition =>
    cases disposition with
    | terminal => rfl
    | retryable => rfl

theorem authorizeDelivery_cases (s : MemoryState) {a : Delivery}
    (hlo : 1 ≤ a.quotaWindowSeconds) (hhi : a.quotaWindowSeconds ≤ 86400)
    (hmax : 1 ≤ a.quotaMaxDeliveries) :
    (∃ err, s.authorizeDelivery a = (.error err, s)) ∨
      ∃ p key d i start n s', s.authorizeDelivery a = (.ok p, s') ∧
        s.delegationIds.lookup a.delegationId = some key ∧ s.delegations.lookup key = some d ∧
        s.installations.lookup d.installationId = some i ∧
        Charges a.quotaWindowSeconds a.quotaMaxDeliveries (s.quotaOf i.tokenFingerprint) a.now
          (start, n) ∧
        s'.quotaOf = Function.update s.quotaOf i.tokenFingerprint (some (start, n)) := by
  by_cases hex : ∃ key d i, Agree.Deliverable s a key d i
  · right
    obtain ⟨key, d, i, hdeliverable⟩ := hex
    refine ⟨_, key, d, i, _, _, _, hdeliverable.authorize, hdeliverable.id,
      hdeliverable.delegation, hdeliverable.installation,
      (quotaEntry_charges s.endpointQuotas i.tokenFingerprint hlo hhi).1 hdeliverable.quota, ?_⟩
    funext k
    simp only [quotaOf, Agree.delivered, Map.lookup_insert_eq, Function.update_apply]
    split_ifs with hk
    · rfl
    · exact Agree.quotaEntry_lookup_of_ne hk
  · left
    refine ⟨.rejected, Agree.authorize_of_not_deliverable ?_ fun fingerprint hfull ↦ ?_⟩
    · exact fun key d i h ↦ hex ⟨key, d, i, h⟩
    · exact (quotaEntry_charges s.endpointQuotas fingerprint hlo hhi).2 hmax hfull

theorem charged_eq_some {a : Delivery} {key : Uuid × String} {d : Delegation} {i : Installation}
    {q : ℤ × ℤ} (hid : s.delegationIds.lookup a.delegationId = some key)
    (hd : s.delegations.lookup key = some d)
    (hi : s.installations.lookup d.installationId = some i)
    (hquotas : s'.quotaOf = Function.update s.quotaOf i.tokenFingerprint (some q)) :
    s.charged s' a = some ⟨i.tokenFingerprint, a.now, q.1⟩ := by
  have hq : s'.endpointQuotas.lookup i.tokenFingerprint = some q := by
    change s'.quotaOf i.tokenFingerprint = some q
    rw [hquotas, Function.update_self]
  simp only [charged, hid, hd, hi, hq, Option.bind_eq_bind, Option.bind_some, Option.pure_def]

/-- An entry that the reaper lets stay, or one whose window is over. -/
theorem quotaOf_reaped (s : MemoryState) (now : ℤ) (hhi : window ≤ 86400) (k : Bytes32) :
    (s.reapExpired now).2.quotaOf k = s.quotaOf k ∨
      (s.reapExpired now).2.quotaOf k = none ∧
        ∀ start n, s.quotaOf k = some (start, n) → start + window ≤ now := by
  simp only [quotaOf, reapExpired, Map.lookup_keepEntries]
  cases s.endpointQuotas.lookup k with
  | none => exact .inl rfl
  | some q =>
    by_cases hkeep : saturatingSub now q.1 < 86400
    · left
      simp [Option.filter, hkeep]
    · right
      refine ⟨by simp [Option.filter, hkeep], fun start n hrow ↦ ?_⟩
      cases hrow
      have hold := (le_saturatingSub (by decide) le_rfl).mp (not_lt.mp hkeep)
      omega

/-- The invariant of a run: what the entries count. -/
def QuotaWorldInv (window max : ℤ) (w : QuotaWorld MemoryState Bytes32) : Prop :=
  QuotaInv window max w.store.quotaOf w.clock w.log

theorem quotaStep_inv {w : QuotaWorld MemoryState Bytes32} {m : QuotaMove} (hlo : 1 ≤ window)
    (hhi : window ≤ 86400) (hmax : 1 ≤ max) (h : QuotaWorldInv window max w)
    (htimely : Timely window max w.clock m) : QuotaWorldInv window max (quotaStep w m) := by
  cases m with
  | authorize dbNow a =>
    obtain ⟨rfl, rfl, hclock⟩ := htimely
    rcases w.store.authorizeDelivery_cases hlo hhi hmax with ⟨err, herr⟩ |
      ⟨p, key, d, i, start, n, s', hok, hid, hd, hi, hcharges, hquotas⟩
    · simp only [quotaStep, herr]
      exact h.tick hclock
    · simp only [quotaStep, hok, charged_eq_some hid hd hi hquotas, Option.toList_some]
      rw [QuotaWorldInv, hquotas]
      exact h.charge (by omega) hmax hclock hcharges
  | reap now => exact (h.tick htimely).drop (w.store.quotaOf_reaped now hhi)
  | other dbNow c =>
    have hrows : (w.store.call c).2.quotaOf = w.store.quotaOf := by
      funext k
      rw [quotaOf, call_endpointQuotas htimely, quotaOf]
    rw [QuotaWorldInv, quotaStep, hrows]
    exact h

theorem quotaKept_of_inv {w : QuotaWorld MemoryState Bytes32} (hlo : 1 ≤ window)
    (hhi : window ≤ 86400) (hmax : 1 ≤ max) (h : QuotaWorldInv window max w) :
    QuotaKept window max w where
  holds := h.holds (by omega)
  refused dbNow a err hwindow hmax' herr := by
    subst hwindow hmax'
    rcases w.store.authorizeDelivery_cases hlo hhi hmax with ⟨err', hsame⟩ |
      ⟨p, key, d, i, start, n, s', hok, -⟩
    · simp only [quotaStep, hsame]
    · rw [hok] at herr
      cases herr
  admitted dbNow a p hwindow hmax' hok := by
    subst hwindow hmax'
    rcases w.store.authorizeDelivery_cases hlo hhi hmax with ⟨err, herr⟩ |
      ⟨p', key, d, i, start, n, s', hok', hid, hd, hi, -, hquotas⟩
    · rw [herr] at hok
      cases hok
    · refine ⟨key, d, i, start, hid, hd, hi, ?_⟩
      simp only [quotaStep, hok', charged_eq_some hid hd hi hquotas, Option.toList_some]
  untouched dbNow c hc := call_endpointQuotas hc

end MemoryState

section Runs

variable {window max : ℤ}

/-- Over every run with a clock that does not go back, the store in memory keeps the quota, and the
tables keep it where each row that a reap deletes is one whose window is over; and that is so as
long as the server's clock is not behind the gateway's. -/
theorem quota_kept (hlo : 1 ≤ window) (hhi : window ≤ 86400) (hmax : 1 ≤ max) (clock : ℤ)
    (moves : List QuotaMove) :
    ((∀ pre m, pre ++ [m] <+: moves →
        Timely window max (MemoryState.quotaRun clock pre).clock m) →
      ∀ pre, pre <+: moves → MemoryState.QuotaKept window max (MemoryState.quotaRun clock pre)) ∧
    ((∀ pre m, pre ++ [m] <+: moves → Timely window max (Tables.quotaRun clock pre).clock m ∧
        (Tables.quotaRun clock pre).store.ReapsOver window m) →
      ∀ pre, pre <+: moves → Tables.QuotaKept window max (Tables.quotaRun clock pre)) ∧
    ((∀ pre m, pre ++ [m] <+: moves → Timely window max (Tables.quotaRun clock pre).clock m ∧
        Tables.ServerCaughtUp m) →
      ∀ pre m, pre ++ [m] <+: moves → (Tables.quotaRun clock pre).store.ReapsOver window m) := by
  have hmemory : MemoryState.QuotaWorldInv window max (.start .empty clock) :=
    QuotaInv.start (by omega) clock
  have htables : Tables.QuotaWorldInv window max (.start .empty clock) :=
    QuotaInv.start (by omega) (seconds clock)
  refine ⟨?memory, ?tables, ?server⟩
  case memory =>
    intro hsteps pre hpre
    apply MemoryState.quotaKept_of_inv hlo hhi hmax
    refine forall_prefix_of_steps MemoryState.quotaStep (MemoryState.QuotaWorldInv window max)
      (fun w m ↦ ¬Timely window max w.clock m) hmemory ?_ ?_ pre hpre
    · intro w m hinv htimely
      exact MemoryState.quotaStep_inv hlo hhi hmax hinv (not_not.mp htimely)
    · exact fun pre m hpre ↦ not_not.mpr (hsteps pre m hpre)
  case tables =>
    intro hsteps pre hpre
    apply Tables.quotaKept_of_inv hmax
    refine forall_prefix_of_steps Tables.quotaStep (Tables.QuotaWorldInv window max)
      (fun w m ↦ ¬(Timely window max w.clock m ∧ w.store.ReapsOver window m))
      htables ?_ ?_ pre hpre
    · intro w m hinv hallowed
      obtain ⟨htimely, hover⟩ := not_not.mp hallowed
      exact Tables.quotaStep_inv hlo hmax hinv htimely hover
    · exact fun pre m hpre ↦ not_not.mpr (hsteps pre m hpre)
  case server =>
    intro hsteps pre m hpre
    refine Tables.StartedBeforeUpdate.reapsOver ?_ hhi m
    have hinv := forall_prefix_of_steps Tables.quotaStep
      (fun w ↦ Tables.QuotaWorldInv window max w ∧ w.store.StartedBeforeUpdate)
      (fun w m ↦ ¬(Timely window max w.clock m ∧ Tables.ServerCaughtUp m))
      ⟨htables, Tables.startedBeforeUpdate_empty⟩ ?_
      (fun pre m hpre ↦ not_not.mpr (hsteps pre m hpre)) pre
      ((List.prefix_append pre [m]).trans hpre)
    · exact hinv.2
    · rintro w m ⟨hinv, hstarted⟩ hallowed
      obtain ⟨htimely, hserver⟩ := not_not.mp hallowed
      have hover := hstarted.reapsOver hhi m
      exact ⟨Tables.quotaStep_inv hlo hmax hinv htimely hover,
        Tables.quotaStep_started hinv hstarted htimely hserver⟩

theorem length_fingerprint : (List.replicate 32 (9 : UInt8)).length = 32 := length_replicate32 9

/-- An installation and its delegation, two deliveries a second less than a day apart, and a reap
before the second, with the server's clock `lag` seconds behind the gateway's. -/
def dailyDeliveries (lag : ℤ) : List QuotaMove :=
  let relay := String.ofList (List.replicate 64 '1')
  let delivery (event : Char) (requestId : Uuid) (now : ℤ) : QuotaMove :=
    .authorize (seconds (now - lag))
      { delegationId := 2, relay := relay, epoch := 1, generation := 5,
        eventId := String.ofList (List.replicate 64 event), requestId := requestId,
        requestExpiresAt := now + 100, quotaWindowSeconds := 86400, quotaMaxDeliveries := 1,
        now := now }
  [.other 0 (.createInstallation
    { id := 1, appAttestKeyId := List.replicate 32 5, appAttestPublicKey := List.replicate 65 4,
      assertionCounter := 0, profile := .buzzIosProduction, tokenCiphertext := [7],
      tokenFingerprint := ⟨List.replicate 32 9, length_fingerprint⟩, endpointEpoch := 1,
      expiresAt := 900000 }),
    .other 0 (.upsertDelegation
      { id := 2, installationId := 1, relayPubkey := relay, endpointEpoch := 1, generation := 5,
        notBefore := 900, expiresAt := 800000, revoked := false }),
    delivery '2' 7 1000, .reap 87399, delivery '3' 8 87399]

/-- A reap inside the window of a maximum of one delivery a day lets a second one through. -/
theorem reap_restarts_window :
    (∀ pre m, pre ++ [m] <+: dailyDeliveries 2 →
      Timely 86400 1 (Tables.quotaRun 0 pre).clock m) ∧
    ¬Tables.QuotaKept 86400 1 (Tables.quotaRun 0 (dailyDeliveries 2)) := by
  constructor
  · apply forall_step_of_lt
    decide +kernel
  · intro hkept
    have hlog : (Tables.quotaRun 0 (dailyDeliveries 2)).log =
        [⟨List.replicate 32 9, seconds 1000, seconds 1000⟩,
          ⟨List.replicate 32 9, seconds 87399, seconds 87399⟩] := by decide +kernel
    have hwindow := hkept.holds.window
    rw [hlog] at hwindow
    have hfirst := hwindow _ List.mem_cons_self
    revert hfirst
    decide

/-- With the server's clock in step the second delivery of the day is refused. -/
theorem quota_kept_in_step :
    Tables.QuotaKept 86400 1 (Tables.quotaRun 0 (dailyDeliveries 0)) := by
  refine (quota_kept (by decide) le_rfl le_rfl 0 (dailyDeliveries 0)).2.1 ?_ _ List.prefix_rfl
  apply forall_step_of_lt
  decide +kernel

end Runs

end Buzz.Gateway
