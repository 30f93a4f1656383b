import Buzz.Push.FencedRun
import Buzz.Push.LeaseSpec
import Buzz.Push.Delivery

namespace Buzz.Push

open Buzz.Lib Buzz.Lib.Claims Buzz.Nostr Buzz.Db

def Op.isDisable : Op → Bool
  | .disableEndpoint .. => true
  | _ => false

inductive LeaseMove : Option LeaseRow → Option LeaseRow → Prop
  | same (row : Option LeaseRow) : LeaseMove row row
  | disabled (row : LeaseRow) : LeaseMove (some row) (some { row with endpointEnabled := false })
  | replaced {old : Option LeaseRow} {row : LeaseRow}
      (h : ∀ oldRow, old = some oldRow → oldRow.version.generation < row.version.generation) :
      LeaseMove old (some row)

theorem Leases.disable_move (leases : Leases) (address : Address) (generation : ℤ)
    (other : Address) :
    LeaseMove (leases.lookup other)
      ((leases.disableEndpointGeneration address generation).1.lookup other) := by
  unfold disableEndpointGeneration
  split
  · exact .same _
  · next row hrow =>
    split
    · rw [Map.lookup_insert_eq]
      split
      · next hother =>
        rw [hother, hrow]
        exact .disabled row
      · exact .same _
    · exact .same _

theorem LeaseTables.accept_move (t : LeaseTables) (event : Event) (installationId : String)
    (version : LeaseVersion) (active : Option ActiveLease) (maxActiveLeases : ℤ)
    (now : Timestamptz) (other : Address) :
    LeaseMove (t.leases.lookup other)
      ((t.acceptLeaseEvent event installationId version active maxActiveLeases
        now).2.leases.lookup other) := by
  rcases t.acceptLeaseEvent_cases event installationId version active maxActiveLeases now with
    ⟨haccepts, -⟩ | ⟨hsame, -⟩
  · rw [haccepts.leases, Map.lookup_insert_eq]
    split
    · next hother =>
      refine .replaced fun row hrow ↦ ?_
      rw [hother] at hrow
      exact (haccepts.follows row hrow).2
    · exact .same _
  · rw [hsame]
    exact .same _

theorem LeaseRow.eligible_anti {row : LeaseRow} {now now' : Timestamptz} {lease : ActiveLease}
    (hnow : now ≤ now') (h : row.eligible now' = some lease) : row.eligible now = some lease := by
  unfold eligible at h ⊢
  split at h
  · next hlive => rw [if_pos ⟨hlive.1, (epoch_mono hnow).trans_lt hlive.2⟩, h]
  · cases h

namespace Tables

variable {t t' : Tables} {now now' : Timestamptz} {wake : Wake}

theorem enqueueWakes_leases (t : Tables) (now : Timestamptz) (requests : List (WakeRequest × Uuid)) :
    (t.enqueueWakes now requests).2.leases = t.leases ∧
      (t.enqueueWakes now requests).2.events = t.events := by
  induction requests generalizing t with
  | nil => exact ⟨rfl, rfl⟩
  | cons first rest ih =>
    have hone : (t.enqueueWake first.1 first.2 now).2.leases = t.leases ∧
        (t.enqueueWake first.1 first.2 now).2.events = t.events := by
      rcases t.enqueueWake_cases first.1 first.2 now with hsame | ⟨lease, -, -, heq⟩
      · rw [hsame]
        exact ⟨rfl, rfl⟩
      · rw [heq]
        exact ⟨rfl, rfl⟩
    obtain ⟨hleases, hevents⟩ := ih (t.enqueueWake first.1 first.2 now).2
    exact ⟨hleases.trans hone.1, hevents.trans hone.2⟩

theorem updateFenced_leases {id claimId : Uuid} {f : WakeRow → WakeRow} :
    (t.updateFenced id claimId f).1.leases = t.leases := by
  rcases t.updateFenced_cases id claimId f with hsame | ⟨row, leaseUntil, -, -, heq⟩
  · rw [hsame]
  · rw [heq]

theorem updateFenced_events {id claimId : Uuid} {f : WakeRow → WakeRow} :
    (t.updateFenced id claimId f).1.events = t.events := by
  rcases t.updateFenced_cases id claimId f with hsame | ⟨row, leaseUntil, -, -, heq⟩
  · rw [hsame]
  · rw [heq]

theorem enqueueWakes_pending {requests : List (WakeRequest × Uuid)} {id : Uuid} {row : WakeRow}
    (h : (t.enqueueWakes now requests).2.outbox.lookup id = some row) :
    t.outbox.lookup id = some row ∨ row.state = .pending := by
  induction requests generalizing t with
  | nil => exact .inl h
  | cons first rest ih =>
    rcases ih h with hmid | hpending
    · rcases t.enqueueWake_cases first.1 first.2 now with hsame | ⟨lease, -, -, heq⟩
      · rw [hsame] at hmid
        exact .inl hmid
      · rw [heq, Map.lookup_insert_eq] at hmid
        split at hmid
        · cases hmid
          exact .inr rfl
        · exact .inl hmid
    · exact .inr hpending

theorem joinedLease_eq_none : t.joinedLease wake now = none ↔
    ∀ row lease, t.leases.lookup wake.address = some row → row.eligible now = some lease →
      row.version.generation = wake.leaseGeneration → lease.endpointHash ≠ wake.endpointHash := by
  rw [joinedLease, Option.bind_eq_none_iff]
  constructor
  · intro h row lease hrow heligible hgeneration hendpoint
    have hnone := h row hrow
    rw [heligible, Option.filter_some] at hnone
    simp [hgeneration, hendpoint] at hnone
  · intro h row hrow
    rw [Option.filter_eq_none_iff]
    intro lease heligible hjoins
    obtain ⟨hgeneration, hendpoint⟩ := (Bool.and_eq_true _ _).mp hjoins
    exact h row lease hrow heligible (of_decide_eq_true hgeneration) (of_decide_eq_true hendpoint)

theorem joinedLease_stays_none {row : LeaseRow} (hrow : t.leases.lookup wake.address = some row)
    (hgeneration : wake.leaseGeneration ≤ row.version.generation)
    (hmove : LeaseMove (t.leases.lookup wake.address) (t'.leases.lookup wake.address))
    (hnow : now ≤ now') (h : t.joinedLease wake now = none) : t'.joinedLease wake now' = none := by
  rw [joinedLease_eq_none] at h ⊢
  intro row' lease hrow' heligible' hgeneration'
  rw [hrow, hrow'] at hmove
  cases hmove with
  | same => exact h row lease hrow (LeaseRow.eligible_anti hnow heligible') hgeneration'
  | disabled => simp [LeaseRow.eligible] at heligible'
  | replaced hnewer =>
    have hlt := hnewer row rfl
    omega

theorem joined_eq_none : t.joined wake now = none ↔ wake.expiresAt ≤ epoch now ∨
    t.joinedLease wake now = none ∨ t.liveEvent wake.eventId = none := by
  unfold joined
  split
  · next hlive =>
    rw [or_iff_right (not_le.mpr hlive)]
    cases t.joinedLease wake now with
    | none => simp
    | some lease => simp
  · next hexpired =>
    simp [not_lt.mp hexpired]

end Tables

namespace World

variable {w : World} {op : Op}

/-- Each arm of `step` that leaves the leases alone. -/
theorem lease_move (w : World) (op : Op) (address : Address) :
    LeaseMove (w.tables.leases.lookup address) ((w.step op).tables.leases.lookup address) := by
  have hfenced (id claimId : Uuid) (f : WakeRow → WakeRow) :
      LeaseMove (w.tables.leases.lookup address)
        ((w.tables.updateFenced id claimId f).1.leases.lookup address) := by
    rw [Tables.updateFenced_leases]
    exact .same _
  rw [World.step]
  split
  · cases op with
    | enqueueWakes requests now =>
      change LeaseMove _ ((w.tables.enqueueWakes now requests).2.leases.lookup address)
      rw [(w.tables.enqueueWakes_leases now requests).1]
      exact .same _
    | completeWake id claimId => exact hfenced id claimId _
    | retryWake id claimId next => exact hfenced id claimId _
    | failWake id claimId => exact hfenced id claimId _
    | acceptLease event installationId version active maxActiveLeases now =>
      exact LeaseTables.accept_move ⟨w.tables.events, w.tables.leases⟩ event installationId version
        active maxActiveLeases now address
    | disableEndpoint disabled generation => exact Leases.disable_move _ disabled generation address
    | enqueueMatch eventId now =>
      change LeaseMove _ ((w.tables.enqueueMatch eventId now).leases.lookup address)
      unfold Tables.enqueueMatch
      split <;> exact .same _
    | _ => exact .same _
  · exact .same _

def Reached (w : World) : Prop :=
  ∀ id row, w.tables.outbox.lookup id = some row →
    ∃ lease, w.tables.leases.lookup row.wake.address = some lease ∧
      row.wake.leaseGeneration ≤ lease.version.generation

theorem reached_move {address : Address} {generation : ℤ} {lease : LeaseRow}
    (hlease : w.tables.leases.lookup address = some lease)
    (hle : generation ≤ lease.version.generation) (op : Op) :
    ∃ lease', (w.step op).tables.leases.lookup address = some lease' ∧
      generation ≤ lease'.version.generation := by
  have hmove := w.lease_move op address
  rw [hlease] at hmove
  generalize (w.step op).tables.leases.lookup address = after at hmove
  cases hmove with
  | same => exact ⟨lease, rfl, hle⟩
  | disabled => exact ⟨_, rfl, hle⟩
  | replaced hnewer => exact ⟨_, rfl, hle.trans (hnewer lease rfl).le⟩

theorem Reached.step (h : w.Reached) (op : Op) : (w.step op).Reached := by
  intro id row hrow
  by_cases hop : ∃ requests now, op = .enqueueWakes requests now
  · obtain ⟨requests, now, rfl⟩ := hop
    have hmade : w.tables.outbox.lookup id = some row ∨
        ∃ request, (request, id) ∈ requests ∧ w.tables.Requests request row.wake now := by
      rw [World.step] at hrow
      split at hrow
      · exact Tables.enqueueWakes_made hrow
      · exact .inl hrow
    rcases hmade with hold | ⟨request, -, -, -, -, held, lease, hheld, -, -, -, hgeneration, -⟩
    · obtain ⟨lease, hlease, hle⟩ := h id row hold
      exact reached_move hlease hle _
    · exact reached_move hheld hgeneration.ge _
  · obtain ⟨old, hold, hwake⟩ :=
      step_keepsWakes (fun requests now heq ↦ hop ⟨requests, now, heq⟩) id row hrow
    obtain ⟨lease, hlease, hle⟩ := h id old hold
    rw [hwake]
    exact reached_move hlease hle op

inductive RowStep (w : World) (op : Op) (id : Uuid) (row' : WakeRow) : Prop
  | same (h : w.tables.outbox.lookup id = some row')
  | enqueued (h : row'.state = .pending)
  | claimed {limit : ℕ} {claimId : Uuid} {leaseUntil now : Timestamptz} {locked : List Uuid}
      (hop : op = .claimWakes limit claimId leaseUntil now locked) (hfresh : claimId ∉ w.drawn)
      (h : row'.state = .sending (claimId, leaseUntil))
  | settled {claimId : Uuid} {leaseUntil : Timestamptz} {row : WakeRow}
      (hrow : w.tables.outbox.lookup id = some row)
      (hsending : row.state = .sending (claimId, leaseUntil)) (hdone : ∀ c, row'.state ≠ .sending c)
      (hfail : row'.state = .failed → op = .failWake id claimId)

theorem rowStep {id : Uuid} {row' : WakeRow}
    (h : (w.step op).tables.outbox.lookup id = some row') : RowStep w op id row' := by
  have hfenced {id' claimId : Uuid} {f : WakeRow → WakeRow}
      (hdone : ∀ row c, (f row).state ≠ .sending c)
      (hfail : ∀ row, (f row).state = .failed → op = .failWake id' claimId)
      (h : (w.tables.updateFenced id' claimId f).1.outbox.lookup id = some row') :
      RowStep w op id row' := by
    rcases w.tables.updateFenced_cases id' claimId f with hsame | ⟨row, leaseUntil, hrow, hsending, heq⟩
    · rw [hsame] at h
      exact .same h
    · rw [heq, Map.lookup_insert_eq] at h
      split at h
      · next hid =>
        cases h
        rw [hid]
        exact .settled hrow hsending (hdone row) (hfail row)
      · exact .same h
  rw [World.step] at h
  split at h
  · next hallowed =>
    cases op with
    | enqueueWakes requests now =>
      rcases Tables.enqueueWakes_pending h with hold | hpending
      · exact .same hold
      · exact .enqueued hpending
    | claimWakes limit claimId leaseUntil now locked =>
      change (Map.mapValues _ w.tables.outbox).lookup id = _ at h
      rw [Map.lookup_mapValues, Option.map_eq_some_iff] at h
      obtain ⟨row, hrow, rfl⟩ := h
      split
      · exact .claimed rfl (hallowed.2.2 claimId List.mem_cons_self) rfl
      · exact .same hrow
    | completeWake id' claimId =>
      exact hfenced (f := fun row ↦ { row with state := .delivered })
        (fun _ _ h ↦ by cases h) (fun _ h ↦ by cases h) h
    | retryWake id' claimId next =>
      exact hfenced (f := fun row ↦ { row with state := .pending, nextAttemptAt := next })
        (fun _ _ h ↦ by cases h) (fun _ h ↦ by cases h) h
    | failWake id' claimId =>
      exact hfenced (f := fun row ↦ { row with state := .failed })
        (fun _ _ h ↦ by cases h) (fun _ _ ↦ rfl) h
    | pruneWakes before now =>
      change (Map.keepEntries _ w.tables.outbox).lookup id = _ at h
      rw [Map.lookup_keepEntries, Option.filter_eq_some_iff] at h
      exact .same h.1
    | enqueueMatch eventId now =>
      change (w.tables.enqueueMatch eventId now).outbox.lookup id = _ at h
      rw [Tables.enqueueMatch_outbox] at h
      exact .same h
    | _ => exact .same h
  · exact .same h

/-- The operations that the delivery workers run. -/
theorem step_events (hop : (op.isDelivery || op.isDisable) = true) :
    (w.step op).tables.events = w.tables.events := by
  rw [World.step]
  split
  · cases op with
    | claimWakes => rfl
    | completeWake => exact Tables.updateFenced_events
    | retryWake => exact Tables.updateFenced_events
    | failWake => exact Tables.updateFenced_events
    | disableEndpoint => rfl
    | _ => cases hop
  · rfl

theorem drawn_step {id : Uuid} (h : id ∈ w.drawn) : id ∈ (w.step op).drawn := by
  rw [World.step]
  split
  · exact List.mem_append_right _ h
  · exact h

theorem row_of_sending {id claimId : Uuid} {leaseUntil : Timestamptz} {row : WakeRow}
    (hdrawn : claimId ∈ w.drawn) (h : (w.step op).tables.outbox.lookup id = some row)
    (hsending : row.state = .sending (claimId, leaseUntil)) :
    w.tables.outbox.lookup id = some row := by
  cases rowStep h with
  | same hsame => exact hsame
  | enqueued hpending =>
    rw [hsending] at hpending
    cases hpending
  | claimed _ hfresh hstate =>
    rw [hsending] at hstate
    cases hstate
    exact (hfresh hdrawn).elim
  | settled _ _ hdone _ => exact (hdone _ hsending).elim

theorem clock_le_step (w : World) (op : Op) : w.clock ≤ (w.step op).clock := by
  rw [World.step]
  split
  · cases op with
    | tick clock => exact le_max_left _ _
    | _ => exact le_rfl
  · exact le_rfl

/-- A wake that may not be sent stays so, unless its event comes back. -/
theorem joined_stays_none (h : w.Reached) {id : Uuid} {row : WakeRow}
    (hrow : w.tables.outbox.lookup id = some row)
    (hevent : w.tables.liveEvent row.wake.eventId = none →
      (w.step op).tables.liveEvent row.wake.eventId = none)
    (hnone : w.tables.joined row.wake w.clock = none) :
    (w.step op).tables.joined row.wake (w.step op).clock = none := by
  obtain ⟨lease, hlease, hgeneration⟩ := h id row hrow
  rw [Tables.joined_eq_none] at hnone ⊢
  rcases hnone with hexpired | hjoined | hgone
  · exact .inl (hexpired.trans (epoch_mono (w.clock_le_step op)))
  · exact .inr (.inl (Tables.joinedLease_stays_none hlease hgeneration (w.lease_move op _)
      (w.clock_le_step op) hjoined))
  · exact .inr (.inr (hevent hgone))

end World

end Buzz.Push
