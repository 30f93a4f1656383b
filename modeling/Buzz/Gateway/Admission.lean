import Buzz.Gateway.PostgresSpec
import Buzz.Lib.Fence
import Buzz.Lib.Runs

namespace Buzz.Gateway

open Buzz.Lib Buzz.Nostr

/-- A permit that `authorize_delivery` granted, and how its delivery was finished. -/
structure Admission where
  permit : DeliveryPermit
  eventId : List UInt8
  expiresAt : ℤ
  disposition : Option DeliveryDisposition
deriving DecidableEq, Repr

namespace Admission

def relay (m : Admission) : List UInt8 := (hexDecode m.permit.relayPubkey).getD []

def requestKey (m : Admission) : List UInt8 × Uuid := (m.relay, m.permit.requestId)

def authKey (m : Admission) : List UInt8 × List UInt8 := (m.relay, m.eventId)

def finish (m : Admission) (disposition : DeliveryDisposition) : Admission :=
  { m with disposition := some disposition }

def Holds (m : Admission) (now : ℤ) : Prop :=
  m.disposition ≠ some .retryable ∧ now ≤ m.expiresAt

instance (m : Admission) (now : ℤ) : Decidable (m.Holds now) :=
  inferInstanceAs (Decidable (_ ∧ _))

def requestTake (m : Admission) : Take (List UInt8 × Uuid) :=
  ⟨m.requestKey, seconds m.expiresAt, m.disposition = some .retryable⟩

def authTake (m : Admission) : Take (List UInt8 × List UInt8) :=
  ⟨m.authKey, seconds m.expiresAt, false⟩

theorem holds_iff {m : Admission} {now : ℤ} : m.Holds now ↔ m.requestTake.Live (seconds now) := by
  simp only [Holds, requestTake, Take.Live, seconds_le, decide_eq_false_iff_not, ne_eq]

end Admission

/-- The store and the permits it has granted, with the latest clock value it was called with. -/
structure Deliveries where
  tables : Tables
  clock : ℤ
  admissions : List Admission
deriving DecidableEq

inductive Move
  | authorize (a : Delivery) (dbNow : DateTime)
  | finish (k : ℕ) (disposition : DeliveryDisposition)
  | reap (now : ℤ)
  | other (c : Call) (dbNow : DateTime)
deriving DecidableEq, Repr

namespace Deliveries

def start (tables : Tables) (clock : ℤ) : Deliveries := ⟨tables, clock, []⟩

def authorize (w : Deliveries) (a : Delivery) (dbNow : DateTime) : Deliveries :=
  match w.tables.authorizeDelivery dbNow a with
  | .error _ => { w with clock := a.now }
  | .ok (permit, tables) =>
    ⟨tables, a.now,
      w.admissions ++ [⟨permit, (hexDecode a.eventId).getD [], a.requestExpiresAt, none⟩]⟩

/-- `none` stands for a move that cannot happen: the clock goes back, or the permit is not there. -/
def step (w : Deliveries) : Move → Option Deliveries
  | .authorize a dbNow => if w.clock ≤ a.now then some (w.authorize a dbNow) else none
  | .finish k disposition =>
    match w.admissions[k]? with
    | none => none
    | some m =>
      if m.disposition.isSome then none
      else match w.tables.finishDelivery m.permit disposition with
        | .error _ => some w
        | .ok tables =>
          some { w with
            tables := tables, admissions := w.admissions.set k (m.finish disposition) }
  | .reap now =>
    if w.clock ≤ now then
      match w.tables.reapExpired now with
      | .error _ => some { w with clock := now }
      | .ok tables => some { w with tables := tables, clock := now }
    else none
  | .other c dbNow =>
    if Tables.touchesFences c then none
    else match w.tables.call dbNow c with
      | .error _ => some w
      | .ok (_, tables) => some { w with tables := tables }

/-- When a permit is finished as retryable and a fence for its request id is stored, the request id
has not been admitted again since. -/
def FinishesOwn (w : Deliveries) : Move → Prop
  | .finish k .retryable =>
    ∀ m ∈ w.admissions[k]?, m.requestKey ∈ w.tables.deliveryRequestReplays →
      ∀ m' ∈ w.admissions.drop (k + 1), m'.requestKey ≠ m.requestKey
  | _ => True

def BindsExpiry (expiryOf : List UInt8 → ℤ) : Move → Prop
  | .authorize a _ => ∀ event ∈ hexDecode a.eventId, a.requestExpiresAt = expiryOf event
  | _ => True

instance (w : Deliveries) (move : Move) : Decidable (w.FinishesOwn move) := by
  unfold FinishesOwn
  split <;> infer_instance

instance (expiryOf : List UInt8 → ℤ) (move : Move) : Decidable (BindsExpiry expiryOf move) := by
  unfold BindsExpiry
  split <;> infer_instance

def ownStep (expiryOf : List UInt8 → ℤ) (w : Deliveries) (move : Move) : Option Deliveries :=
  if BindsExpiry expiryOf move ∧ w.FinishesOwn move then w.step move else none

def OwnRun (expiryOf : List UInt8 → ℤ) (tables : Tables) (clock : ℤ) (moves : List Move)
    (w : Deliveries) : Prop :=
  moves.foldlM (ownStep expiryOf) (start tables clock) = some w

theorem ownRun_induction {expiryOf : List UInt8 → ℤ} {tables : Tables} {clock : ℤ}
    {P : Deliveries → Prop} (hstart : P (start tables clock))
    (hstep : ∀ w move w', P w → w.step move = some w' → BindsExpiry expiryOf move →
      w.FinishesOwn move → P w') {moves : List Move} {w : Deliveries}
    (h : OwnRun expiryOf tables clock moves w) : P w := by
  induction moves using List.reverseRecOn generalizing w with
  | nil =>
    cases h
    exact hstart
  | append_singleton moves move ih =>
    obtain ⟨w₀, hrun, hlast⟩ := foldlM_concat_eq_some.mp h
    rw [ownStep, Option.ite_none_right_eq_some] at hlast
    obtain ⟨⟨hbinds, hown⟩, hlast⟩ := hlast
    exact hstep w₀ move w (ih hrun) hlast hbinds hown

structure Inv (expiryOf : List UInt8 → ℤ) (w : Deliveries) : Prop where
  auth : ExpiringFences w.tables.deliveryAuthReplays (seconds w.clock)
    (w.admissions.map Admission.authTake)
  request : ExpiringFences w.tables.deliveryRequestReplays (seconds w.clock)
    (w.admissions.map Admission.requestTake)
  bound : ∀ m ∈ w.admissions, m.expiresAt = expiryOf m.eventId
  once : (w.admissions.map Admission.authKey).Nodup
  decodes : ∀ m ∈ w.admissions, hexDecode m.permit.relayPubkey = some m.relay

variable {expiryOf : List UInt8 → ℤ} {w w' : Deliveries}

theorem Inv.start {tables : Tables} (hauth : tables.deliveryAuthReplays = ∅)
    (hrequest : tables.deliveryRequestReplays = ∅) (clock : ℤ) :
    Inv expiryOf (start tables clock) where
  auth := by
    change ExpiringFences tables.deliveryAuthReplays (seconds clock) []
    rw [hauth]
    exact ExpiringFences.empty _
  request := by
    change ExpiringFences tables.deliveryRequestReplays (seconds clock) []
    rw [hrequest]
    exact ExpiringFences.empty _
  bound := nofun
  once := List.nodup_nil
  decodes := nofun

theorem Inv.tick (h : Inv expiryOf w) {now : ℤ} (hle : w.clock ≤ now) :
    Inv expiryOf { w with clock := now } where
  auth := h.auth.tick (seconds_le.mpr hle)
  request := h.request.tick (seconds_le.mpr hle)
  bound := h.bound
  once := h.once
  decodes := h.decodes

theorem Inv.not_holds (h : Inv expiryOf w) {a : Delivery} {dbNow : DateTime} {permit : DeliveryPermit}
    {tables : Tables} (hok : w.tables.authorizeDelivery dbNow a = .ok (permit, tables))
    (hle : w.clock ≤ a.now) :
    ∀ m ∈ w.admissions, m.requestKey = ((hexDecode a.relay).getD [], a.requestId) →
      ¬m.Holds a.now := by
  intro m hm hkey hholds
  obtain ⟨⟨relay, event, hfence⟩, -, -⟩ := Tables.authorizeDelivery_spec hok
  rw [hfence.relay_eq, Option.getD_some] at hkey
  have hlive := Admission.holds_iff.mp hholds
  have htick := h.request.tick (seconds_le.mpr hle)
  exact htick.not_live_of_free hfence.request_free (List.mem_map_of_mem hm) hkey hlive

theorem Inv.authorize (h : Inv expiryOf w) {a : Delivery} {dbNow : DateTime}
    (hle : w.clock ≤ a.now) (hbinds : BindsExpiry expiryOf (.authorize a dbNow)) :
    Inv expiryOf (w.authorize a dbNow) := by
  rw [Deliveries.authorize]
  cases hok : w.tables.authorizeDelivery dbNow a with
  | error err => exact h.tick hle
  | ok r =>
    obtain ⟨permit, tables⟩ := r
    obtain ⟨⟨relay, event, hf⟩, -, _, _, _, _, -, -, -, -, hgranted⟩ :=
      Tables.authorizeDelivery_spec hok
    have hticked := h.tick hle
    have hrelay : (hexDecode permit.relayPubkey).getD [] = relay := by
      rw [hgranted.relay_eq, hf.relay_eq, Option.getD_some]
    have hevent : (hexDecode a.eventId).getD [] = event := by rw [hf.event_eq, Option.getD_some]
    have hexpiry : a.requestExpiresAt = expiryOf event := hbinds event hf.event_eq
    have hfresh : ∀ t ∈ w.admissions.map Admission.authTake, t.key ≠ (relay, event) := by
      refine hticked.auth.fresh_of_fixed hf.auth_free ?_ ?_ (seconds_le.mpr hgranted.unexpired)
      · intro t ht
        obtain ⟨m, -, rfl⟩ := List.mem_map.mp ht
        rfl
      · intro t ht hkey
        obtain ⟨m, hm, rfl⟩ := List.mem_map.mp ht
        have hevent' : m.eventId = event := congrArg Prod.snd hkey
        change seconds m.expiresAt = _
        rw [h.bound m hm, hevent', hexpiry]
    constructor
    · have htake := hticked.auth.take hf.auth_free (seconds a.requestExpiresAt)
      rw [← hf.auth_taken] at htake
      simpa only [List.map_append, List.map_cons, List.map_nil, Admission.authTake,
        Admission.authKey, Admission.relay, hrelay, hevent] using htake
    · have htake := hticked.request.take hf.request_free (seconds a.requestExpiresAt)
      rw [← hf.request_taken] at htake
      simpa only [List.map_append, List.map_cons, List.map_nil, Admission.requestTake,
        Admission.requestKey, Admission.relay, hrelay, hgranted.request_eq, reduceCtorEq,
        decide_false] using htake
    · intro m hm
      rcases List.mem_append.mp hm with hold | hnew
      · exact h.bound m hold
      · obtain rfl := List.mem_singleton.mp hnew
        exact hevent ▸ hexpiry
    · rw [List.map_append, List.nodup_append]
      refine ⟨h.once, List.nodup_singleton _, ?_⟩
      intro key hkey key' hkey' heq
      obtain ⟨m, hm, rfl⟩ := List.mem_map.mp hkey
      rw [List.map_singleton, List.mem_singleton] at hkey'
      apply hfresh m.authTake (List.mem_map_of_mem hm)
      change m.authKey = _
      rw [heq, hkey']
      exact Prod.ext hrelay hevent
    · intro m hm
      rcases List.mem_append.mp hm with hold | hnew
      · exact h.decodes m hold
      · obtain rfl := List.mem_singleton.mp hnew
        change hexDecode permit.relayPubkey = some ((hexDecode permit.relayPubkey).getD [])
        rw [hrelay, hgranted.relay_eq, hf.relay_eq]

theorem Inv.reap (h : Inv expiryOf w) {now : ℤ} {tables : Tables} (hle : w.clock ≤ now)
    (hok : w.tables.reapExpired now = .ok tables) :
    Inv expiryOf { w with tables := tables, clock := now } := by
  simp only [Tables.reapExpired, bind_eq_ok, bindAt_eq_ok] at hok
  obtain ⟨-, ⟨-, rfl⟩, hok⟩ := hok
  cases hok
  have hticked := h.tick hle
  exact ⟨hticked.auth.reap, hticked.request.reap, h.bound, h.once, h.decodes⟩

theorem map_set_finish {β : Type} {f : Admission → β} {k : ℕ} {m : Admission}
    (hk : w.admissions[k]? = some m) (disposition : DeliveryDisposition)
    (hf : f (m.finish disposition) = f m) :
    (w.admissions.set k (m.finish disposition)).map f = w.admissions.map f := by
  rw [List.map_set, hf]
  apply List.ext_getElem?
  intro j
  by_cases hjk : k = j
  · subst hjk
    obtain ⟨hlt, -⟩ := List.getElem?_eq_some_iff.mp hk
    rw [List.getElem?_set_self (by simpa using hlt), List.getElem?_map, hk, Option.map_some]
  · rw [List.getElem?_set_ne hjk]

theorem Inv.finish (h : Inv expiryOf w) {k : ℕ} {m : Admission} {disposition : DeliveryDisposition}
    {tables : Tables} (hk : w.admissions[k]? = some m) (hopen : m.disposition.isSome = false)
    (hok : w.tables.finishDelivery m.permit disposition = .ok tables)
    (hown : w.FinishesOwn (.finish k disposition)) :
    Inv expiryOf { w with
      tables := tables, admissions := w.admissions.set k (m.finish disposition) } := by
  have hmem := List.mem_of_getElem? hk
  have hbound : ∀ m' ∈ w.admissions.set k (m.finish disposition),
      m'.expiresAt = expiryOf m'.eventId := by
    intro m' hm'
    rcases List.mem_or_eq_of_mem_set hm' with hold | rfl
    · exact h.bound m' hold
    · exact h.bound m hmem
  have hdecodes : ∀ m' ∈ w.admissions.set k (m.finish disposition),
      hexDecode m'.permit.relayPubkey = some m'.relay := by
    intro m' hm'
    rcases List.mem_or_eq_of_mem_set hm' with hold | rfl
    · exact h.decodes m' hold
    · exact h.decodes m hmem
  have honce := h.once
  rw [← map_set_finish (f := Admission.authKey) hk disposition rfl] at honce
  have hauth := h.auth
  rw [← map_set_finish (f := Admission.authTake) hk disposition rfl] at hauth
  have hnone : m.disposition = none := by simpa using hopen
  rcases Tables.finishDelivery_spec hok with ⟨rfl, rfl⟩ | ⟨rfl, relay, hrelay, rfl⟩
  · refine ⟨hauth, ?_, hbound, honce, hdecodes⟩
    have hrequest := h.request
    rw [← map_set_finish (f := Admission.requestTake) hk .terminal (by
      simp [Admission.requestTake, Admission.finish, Admission.requestKey, Admission.relay,
        hnone])] at hrequest
    exact hrequest
  · refine ⟨hauth, ?_, hbound, honce, hdecodes⟩
    have htake : (w.admissions.map Admission.requestTake)[k]? = some m.requestTake := by
      rw [List.getElem?_map, hk, Option.map_some]
    have hrelease := h.request.release htake (by
      intro hstored j t hlt hj
      rw [List.getElem?_map, Option.map_eq_some_iff] at hj
      obtain ⟨m', hj, rfl⟩ := hj
      apply hown m hk hstored m'
      rw [List.mem_iff_getElem?]
      refine ⟨j - (k + 1), ?_⟩
      rw [List.getElem?_drop, show k + 1 + (j - (k + 1)) = j by omega, hj])
    have hkey : m.requestTake.key = (relay, m.permit.requestId) := by
      change (m.relay, _) = _
      rw [Admission.relay, hrelay, Option.getD_some]
    have hset : { m.requestTake with released := true } = (m.finish .retryable).requestTake := by
      simp [Admission.requestTake, Admission.finish, Admission.requestKey, Admission.relay]
    rw [hset, ← List.map_set] at hrelease
    change ExpiringFences (AList.erase (relay, m.permit.requestId) _) _ _
    rw [← hkey]
    exact hrelease

theorem Inv.step (h : Inv expiryOf w) {move : Move} (hstep : w.step move = some w')
    (hbinds : BindsExpiry expiryOf move) (hown : w.FinishesOwn move) : Inv expiryOf w' := by
  cases move with
  | authorize a dbNow =>
    simp only [Deliveries.step, Option.ite_none_right_eq_some, Option.some.injEq] at hstep
    obtain ⟨hle, rfl⟩ := hstep
    exact h.authorize hle hbinds
  | finish k disposition =>
    simp only [Deliveries.step] at hstep
    cases hk : w.admissions[k]? with
    | none => simp [hk] at hstep
    | some m =>
      simp only [hk, Option.ite_none_left_eq_some] at hstep
      obtain ⟨hopen, hstep⟩ := hstep
      cases hok : w.tables.finishDelivery m.permit disposition with
      | error err =>
        rw [hok] at hstep
        cases hstep
        exact h
      | ok tables =>
        rw [hok] at hstep
        cases hstep
        exact h.finish hk (by simpa using hopen) hok hown
  | reap now =>
    simp only [Deliveries.step, Option.ite_none_right_eq_some] at hstep
    obtain ⟨hle, hstep⟩ := hstep
    cases hok : w.tables.reapExpired now with
    | error err =>
      rw [hok] at hstep
      cases hstep
      exact h.tick hle
    | ok tables =>
      rw [hok] at hstep
      cases hstep
      exact h.reap hle hok
  | other c dbNow =>
    simp only [Deliveries.step, Option.ite_none_left_eq_some] at hstep
    obtain ⟨hother, hstep⟩ := hstep
    have hother : Tables.touchesFences c = false := by simpa using hother
    cases hok : w.tables.call dbNow c with
    | error err =>
      rw [hok] at hstep
      cases hstep
      exact h
    | ok r =>
      rw [hok] at hstep
      cases hstep
      obtain ⟨hauth, hrequest, -⟩ := Tables.call_fences hother hok
      exact ⟨hauth ▸ h.auth, hrequest ▸ h.request, h.bound, h.once, h.decodes⟩

theorem inv_of_run {tables : Tables} {clock : ℤ} (hauth : tables.deliveryAuthReplays = ∅)
    (hrequest : tables.deliveryRequestReplays = ∅) {moves : List Move}
    (h : OwnRun expiryOf tables clock moves w) : Inv expiryOf w :=
  ownRun_induction (Inv.start hauth hrequest clock)
    (fun _ _ _ hinv hstep hbinds hown ↦ hinv.step hstep hbinds hown) h

/-- A retryable finish that meets the condition leaves every other holding permit fenced. -/
theorem Inv.fenced_after_finish (h : Inv expiryOf w) {k : ℕ}
    (hstep : w.step (.finish k .retryable) = some w') (hown : w.FinishesOwn (.finish k .retryable))
    {j : ℕ} {m : Admission} (hjk : j ≠ k) (hj : w.admissions[j]? = some m)
    (hholds : m.Holds w.clock) :
    w'.tables.deliveryRequestReplays.lookup m.requestKey = some (seconds m.expiresAt) := by
  have h' : Inv expiryOf w' := h.step hstep trivial hown
  have hkept : m ∈ w'.admissions ∧ w'.clock = w.clock := by
    simp only [Deliveries.step] at hstep
    cases hk : w.admissions[k]? with
    | none => simp [hk] at hstep
    | some m₀ =>
      simp only [hk, Option.ite_none_left_eq_some] at hstep
      obtain ⟨-, hstep⟩ := hstep
      cases hok : w.tables.finishDelivery m₀.permit .retryable with
      | error err =>
        rw [hok] at hstep
        cases hstep
        exact ⟨List.mem_of_getElem? hj, rfl⟩
      | ok tables =>
        rw [hok] at hstep
        cases hstep
        refine ⟨List.mem_iff_getElem?.mpr ⟨j, ?_⟩, rfl⟩
        rw [List.getElem?_set_ne (Ne.symm hjk)]
        exact hj
  apply h'.request.stored m.requestTake (List.mem_map_of_mem hkept.1)
  rw [hkept.2]
  exact Admission.holds_iff.mp hholds

/-- While every retryable finish meets the condition, no auth event is admitted twice, no request
id is admitted again under a permit that holds, and a retryable finish lifts no other fence. -/
theorem deliveries_admitted_once {expiryOf : List UInt8 → ℤ} {tables : Tables} {clock : ℤ}
    (hauth : tables.deliveryAuthReplays = ∅) (hrequest : tables.deliveryRequestReplays = ∅)
    {moves : List Move} {w : Deliveries} (h : OwnRun expiryOf tables clock moves w) :
    (w.admissions.map Admission.authKey).Nodup ∧
      (∀ a dbNow permit tables', w.clock ≤ a.now →
        w.tables.authorizeDelivery dbNow a = .ok (permit, tables') →
        ∀ m ∈ w.admissions, m.requestKey = ((hexDecode a.relay).getD [], a.requestId) →
          ¬m.Holds a.now) ∧
      ∀ k w', w.step (.finish k .retryable) = some w' → w.FinishesOwn (.finish k .retryable) →
        ∀ j m, j ≠ k → w.admissions[j]? = some m → m.Holds w.clock →
          w'.tables.deliveryRequestReplays.lookup m.requestKey = some (seconds m.expiresAt) := by
  have hinv := inv_of_run hauth hrequest h
  refine ⟨hinv.once, ?_, ?_⟩
  · intro a dbNow permit tables' hle hok
    exact hinv.not_holds hok hle
  · intro k w' hstep hown j m hjk hj hholds
    exact hinv.fenced_after_finish hstep hown hjk hj hholds

def relayHex : String := String.ofList (List.replicate 64 '1')

def enrolled : Tables :=
  { Tables.empty with
    installations := AList.insert 1
      ⟨[1], List.replicate 33 4, 0, "buzz-ios-production", [7], List.replicate 32 9, 1,
        seconds 2000, none⟩ ∅
    delegations := AList.insert (1, List.replicate 32 17)
      ⟨2, 1, 1, seconds 900, seconds 2000, none⟩ ∅ }

def push (digit : Char) (requestExpiresAt now : ℤ) : Move :=
  .authorize
    { delegationId := 2, relay := relayHex, epoch := 1, generation := 1,
      eventId := String.ofList (List.replicate 64 digit), requestId := 5,
      requestExpiresAt := requestExpiresAt, quotaWindowSeconds := 10, quotaMaxDeliveries := 10,
      now := now } 0

def expiries (event : List UInt8) : ℤ := if event = List.replicate 32 34 then 1010 else 1100

/-- The first permit is finished only after its fence has expired, been reaped and been taken
again. -/
def lateRelease : List Move :=
  [push '2' 1010 1000, .reap 1011, push '3' 1100 1011, .finish 0 .retryable, push '4' 1100 1012]

theorem late_release_admits_again :
    (∀ move ∈ lateRelease, BindsExpiry expiries move) ∧
      ∃ w ∈ lateRelease.foldlM step (start enrolled 1000), ∃ m ∈ w.admissions[1]?,
        ∃ m' ∈ w.admissions[2]?, m.requestKey = m'.requestKey ∧ m.Holds w.clock := by
  decide +kernel

def promptRelease : List Move :=
  [push '2' 1010 1000, .finish 0 .retryable, push '3' 1100 1001]

theorem deliveries_admitted_once_prompt :
    ∃ w, OwnRun expiries enrolled 1000 promptRelease w ∧ w.admissions.length = 2 ∧
      (w.admissions.map Admission.authKey).Nodup := by
  have hrun : ∃ w ∈ promptRelease.foldlM (ownStep expiries) (start enrolled 1000),
      w.admissions.length = 2 := by decide +kernel
  obtain ⟨w, hw, hlen⟩ := hrun
  exact ⟨w, hw, hlen, (deliveries_admitted_once rfl rfl hw).1⟩

end Deliveries

end Buzz.Gateway
