import Buzz.Lib.Runs
import Buzz.Push.Delivery
import Buzz.Push.DeliverySteps

namespace Buzz.Push

open Buzz.Lib Buzz.Lib.Claims Buzz.Nostr Buzz.Db

namespace SendResult

/-- An answer that refuses the request for good. -/
def isPermanent : SendResult → Bool
  | .response status _ => 400 ≤ status && status < 500 && status ∉ [408, 425, 429]
  | _ => false

/-- The request ends as accepted, refused for good, put off, or without having reached the gateway. -/
def isConclusive : SendResult → Bool
  | .response status body =>
    if isSuccess status then body = some .accepted
    else status = 503 || status = 429 || isPermanent (.response status body)
  | .timeout => true
  | .connect => true
  | .otherError => false

theorem settlement_eq_fail {attempt : ℕ} {result : SendResult} (hconclusive : result.isConclusive)
    (h : result.settlement attempt = .fail) :
    result.isPermanent = true ∨ maxAttempts ≤ attempt := by
  have hretry {delay : ℤ} (h : retryOrFail attempt delay = .fail) : maxAttempts ≤ attempt := by
    unfold retryOrFail at h
    split at h
    · assumption
    · cases h
  cases result with
  | response status body =>
    simp only [isConclusive] at hconclusive
    simp only [settlement] at h
    by_cases hsuccess : isSuccess status = true
    · rw [if_pos hsuccess] at hconclusive h
      rw [if_pos (of_decide_eq_true hconclusive)] at h
      cases h
    · rw [if_neg hsuccess, Bool.or_eq_true, Bool.or_eq_true] at hconclusive
      rcases hconclusive with (h503 | h429) | hpermanent
      · have h503 := of_decide_eq_true h503
        subst h503
        right
        rw [if_neg hsuccess, if_neg (by decide), if_pos rfl] at h
        split at h
        · exact hretry h
        · exact hretry h
      · have h429 := of_decide_eq_true h429
        subst h429
        rw [if_neg hsuccess, if_neg (by decide), if_neg (by decide), if_pos rfl] at h
        exact .inr (hretry h)
      · exact .inl hpermanent
  | timeout => exact .inr (hretry h)
  | connect => exact .inr (hretry h)
  | otherError => cases hconclusive

end SendResult

namespace Phase

def wakes : Phase → List ClaimedWake
  | .batch wakes => wakes
  | .member wake rest => wake :: rest
  | .recheck wake rest => wake :: rest
  | .send wake rest => wake :: rest
  | .disable wake _ _ rest => wake :: rest
  | .settle wake _ rest => wake :: rest

/-- The wake whose channel or revalidation the worker has read. -/
def inHand : Phase → Option ClaimedWake
  | .member wake _ => some wake
  | .settle wake _ _ => some wake
  | _ => none

end Phase

/-- What a worker knows of a wake it has claimed, as long as its claim stands. -/
structure Held (w : World) (wake : ClaimedWake) : Prop where
  drawn : wake.claimId ∈ w.drawn
  row : ∀ row leaseUntil, w.tables.outbox.lookup wake.id = some row →
    row.state = .sending (wake.claimId, leaseUntil) → row.wake.address = wake.address ∧
      row.wake.eventId = wake.eventId ∧ row.attempts = wake.attempt

def ChannelKnown (w : World) (wake : ClaimedWake) : Prop :=
  ∀ event, w.tables.liveEvent wake.eventId = some event → event.channelId = wake.channelId

def Found (w : World) (members : List (Uuid × PublicKey)) (wake : ClaimedWake) : Reason → Prop
  | .suppressed => ∀ row leaseUntil, w.tables.outbox.lookup wake.id = some row →
      row.state = .sending (wake.claimId, leaseUntil) → w.tables.joined row.wake w.clock = none
  | .notMember => ChannelKnown w wake ∧
      ∃ channel, wake.channelId = some channel ∧ (channel, wake.address.1) ∉ members
  | .membershipError => True
  | .answered result => result.isConclusive = true

def Steady (t t' : Tables) (id : EventId) : Prop :=
  t'.liveEvent id = none ∨ t'.liveEvent id = t.liveEvent id

def PhaseFacts (w : World) (members : List (Uuid × PublicKey)) : Phase → Prop
  | .member wake _ => ChannelKnown w wake ∧ wake.channelId.isSome
  | .disable _ _ result _ => result.isConclusive = true
  | .settle wake reason _ => Found w members wake reason
  | _ => True

structure PhaseOk (w : World) (members : List (Uuid × PublicKey)) (phase : Phase) : Prop where
  held : ∀ wake ∈ phase.wakes, Held w wake
  facts : PhaseFacts w members phase

section

variable {w : World} {members : List (Uuid × PublicKey)} {op : Op}

theorem Held.step {wake : ClaimedWake} (h : Held w wake) (op : Op) : Held (w.step op) wake := by
  refine ⟨World.drawn_step h.drawn, fun row leaseUntil hrow hsending ↦ ?_⟩
  exact h.row row leaseUntil (World.row_of_sending h.drawn hrow hsending) hsending

theorem ChannelKnown.step {wake : ClaimedWake} (h : ChannelKnown w wake)
    (hsteady : Steady w.tables (w.step op).tables wake.eventId) :
    ChannelKnown (w.step op) wake := by
  intro event hevent
  rcases hsteady with hnone | hsame
  · rw [hnone] at hevent
    cases hevent
  · exact h event (hsame ▸ hevent)

theorem Found.step (hreached : w.Reached) {wake : ClaimedWake} {reason : Reason}
    (hheld : Held w wake) (h : Found w members wake reason)
    (hsteady : Steady w.tables (w.step op).tables wake.eventId) :
    Found (w.step op) members wake reason := by
  cases reason with
  | suppressed =>
    intro row leaseUntil hrow hsending
    have hold := World.row_of_sending hheld.drawn hrow hsending
    refine World.joined_stays_none hreached hold (fun hgone ↦ ?_) (h row leaseUntil hold hsending)
    rw [(hheld.row row leaseUntil hold hsending).2.1] at hgone ⊢
    rcases hsteady with hnone | hsame
    · exact hnone
    · rw [hsame, hgone]
  | notMember => exact ⟨h.1.step hsteady, h.2⟩
  | membershipError => trivial
  | answered result => exact h

theorem PhaseOk.step (hreached : w.Reached) {phase : Phase} (h : PhaseOk w members phase)
    (hsteady : ∀ wake ∈ phase.inHand, Steady w.tables (w.step op).tables wake.eventId) :
    PhaseOk (w.step op) members phase := by
  refine ⟨fun wake hwake ↦ (h.held wake hwake).step op, ?_⟩
  cases phase with
  | batch => trivial
  | member wake rest => exact ⟨h.facts.1.step (hsteady wake rfl), h.facts.2⟩
  | recheck => trivial
  | send => trivial
  | disable => exact h.facts
  | settle wake reason rest =>
    exact Found.step hreached (h.held wake List.mem_cons_self) h.facts (hsteady wake rfl)

/-- Other members do not matter to a worker that found no member missing. -/
theorem PhaseOk.setMembers {members' : List (Uuid × PublicKey)} {phase : Phase}
    (h : PhaseOk w members phase)
    (hmembers : ∀ wake rest, phase = .settle wake .notMember rest → ∀ channel,
      wake.channelId = some channel → (channel, wake.address.1) ∉ members →
        (channel, wake.address.1) ∉ members') : PhaseOk w members' phase := by
  refine ⟨h.held, ?_⟩
  cases phase with
  | settle wake reason rest =>
    cases reason with
    | notMember =>
      obtain ⟨hknown, channel, hchannel, hmissing⟩ := h.facts
      exact ⟨hknown, channel, hchannel, hmembers wake rest rfl channel hchannel hmissing⟩
    | suppressed => exact h.facts
    | membershipError => exact h.facts
    | answered result => exact h.facts
  | _ => exact h.facts

theorem PhaseOk.rest {phase phase' : Phase} (h : PhaseOk w members phase)
    (hwakes : phase'.wakes ⊆ phase.wakes) (hfacts : PhaseFacts w members phase') :
    PhaseOk w members phase' :=
  ⟨fun wake hwake ↦ h.held wake (hwakes hwake), hfacts⟩

end

namespace Tables

variable {t : Tables} {id claimId : Uuid} {now : Timestamptz}

theorem revalidate_deliver {wake : ClaimedWake}
    (h : t.revalidateWakeForSend id claimId now = .deliver wake) :
    ∃ row leaseUntil lease event, t.outbox.lookup id = some row ∧
      row.state = .sending (claimId, leaseUntil) ∧ t.liveEvent row.wake.eventId = some event ∧
      wake = claimedWake id claimId row lease event := by
  unfold revalidateWakeForSend at h
  split at h
  · cases h
  · next row hrow =>
    split at h
    · next claim lease event hsending hjoined =>
      split at h
      · next hclaim =>
        cases h
        unfold joined at hjoined
        split at hjoined
        · obtain ⟨_, -, hevent⟩ := Option.bind_eq_some_iff.mp hjoined
          obtain ⟨_, hlive, heq⟩ := Option.map_eq_some_iff.mp hevent
          cases heq
          exact ⟨row, claim.2, lease, event, hrow, by rw [hsending, ← hclaim.1], hlive, rfl⟩
        · cases hjoined
      · cases h
    · cases h

theorem revalidate_suppressed {row : WakeRow} {leaseUntil : Timestamptz}
    (h : t.revalidateWakeForSend id claimId now = .suppressed) (hrow : t.outbox.lookup id = some row)
    (hsending : row.state = .sending (claimId, leaseUntil)) (hlive : now ≤ leaseUntil) :
    t.joined row.wake now = none := by
  unfold revalidateWakeForSend at h
  rw [hrow] at h
  simp only [hsending] at h
  cases hjoined : t.joined row.wake now with
  | none => rfl
  | some j =>
    rw [hjoined] at h
    simp only [if_pos (And.intro trivial hlive)] at h
    cases h

theorem joined_none_mono {wake : Wake} {now' : Timestamptz} (hnow : now ≤ now')
    (h : t.joined wake now = none) : t.joined wake now' = none := by
  rw [joined_eq_none, joinedLease_eq_none] at h ⊢
  rcases h with hexpired | hjoined | hgone
  · exact .inl (hexpired.trans (epoch_mono hnow))
  · exact .inr (.inl fun row lease hrow heligible ↦
      hjoined row lease hrow (LeaseRow.eligible_anti hnow heligible))
  · exact .inr (.inr hgone)

theorem held_of_claimed {limit : ℕ} {leaseUntil : Timestamptz} {locked : List Uuid}
    {wake : ClaimedWake} (h : wake ∈ (t.claimDueWakes limit claimId leaseUntil now locked).1) :
    wake.claimId = claimId ∧ ∃ row, (t.claimDueWakes limit claimId leaseUntil now
      locked).2.outbox.lookup wake.id = some row ∧ row.wake.address = wake.address ∧
      row.wake.eventId = wake.eventId ∧ row.attempts = wake.attempt := by
  obtain ⟨e, he, hwake⟩ := List.mem_filterMap.mp h
  obtain ⟨j, -, rfl⟩ := Option.map_eq_some_iff.mp hwake
  refine ⟨rfl, { e.2 with state := .sending (claimId, leaseUntil), attempts := e.2.attempts + 1 }, ?_,
    rfl, rfl, rfl⟩
  change (Map.mapValues _ t.outbox).lookup e.1 = _
  rw [Map.lookup_mapValues, (mem_dueWakes he).1, Option.map_some,
    if_pos (List.mem_map_of_mem he)]

end Tables

def Phase.revalidating : Phase → Option ClaimedWake
  | .batch (wake :: _) => some wake
  | .recheck wake _ => some wake
  | _ => none

namespace Deliveries

/-- The steps that keep to what the workers rely on: a wake is revalidated before the claim on it
lapses, requests end conclusively, and what a worker has found gone does not come back before it
settles the wake. -/
def Heeds (d : Deliveries) : DeliveryOp → Prop
  | .pipeline op => ∀ worker, ∀ wake ∈ (d.phase worker).inHand,
      Steady d.world.tables (d.world.step op).tables wake.eventId
  | .addMember channel author => ∀ worker wake rest,
      d.phase worker = .settle wake .notMember rest →
        ¬(wake.channelId = some channel ∧ wake.address.1 = author)
  | .revalidate worker now _ => ∀ wake ∈ (d.phase worker).revalidating, ∀ row leaseUntil,
      d.world.tables.outbox.lookup wake.id = some row →
        row.state = .sending (wake.claimId, leaseUntil) → now ≤ leaseUntil
  | .post _ result => ∀ r ∈ result, r.isConclusive = true
  | _ => True

def answer (d : Deliveries) : DeliveryOp → Option SendResult
  | .settle worker _ _ =>
    match d.phase worker with
    | .settle _ (.answered result) _ => some result
    | _ => none
  | _ => none

def HasCause (d : Deliveries) (op : DeliveryOp) (row : WakeRow) : Prop :=
  (d.world.tables.joinedLease row.wake d.world.clock).isNone ∨
  row.wake.expiresAt ≤ epoch d.world.clock ∨
  (d.world.tables.liveEvent row.wake.eventId).isNone ∨
  ((d.world.tables.liveEvent row.wake.eventId).any fun event ↦
    event.channelId.any fun channel ↦ (channel, row.wake.address.1) ∉ d.members) ∨
  (d.answer op).any SendResult.isPermanent ∨
  maxAttempts ≤ row.attempts

instance (d : Deliveries) (op : DeliveryOp) (row : WakeRow) : Decidable (d.HasCause op row) :=
  inferInstanceAs (Decidable (_ ∨ _))

def Fails (d d' : Deliveries) (id : Uuid) (row : WakeRow) : Prop :=
  d.world.tables.outbox.lookup id = some row ∧ row.state ≠ .failed ∧
    ∃ row', d'.world.tables.outbox.lookup id = some row' ∧ row'.state = .failed

structure Inv (d : Deliveries) : Prop where
  reached : d.world.Reached
  phases : ∀ worker, PhaseOk d.world d.members (d.phase worker)

variable {d : Deliveries}

theorem Inv.setPhase (h : d.Inv) {worker : ℕ} {phase : Phase}
    (hphase : PhaseOk d.world d.members phase) : (d.setPhase worker phase).Inv := by
  refine ⟨h.reached, fun other ↦ ?_⟩
  change PhaseOk d.world d.members (Function.update d.phase worker phase other)
  rw [Function.update_apply]
  split
  · exact hphase
  · exact h.phases other

theorem Inv.world (h : d.Inv) {op : Op}
    (hsteady : ∀ worker, ∀ wake ∈ (d.phase worker).inHand,
      Steady d.world.tables (d.world.step op).tables wake.eventId) :
    Inv { d with world := d.world.step op } :=
  ⟨h.reached.step op, fun worker ↦ (h.phases worker).step h.reached (hsteady worker)⟩

/-- The wake pipeline's own statements do not touch the events. -/
theorem Inv.statement (h : d.Inv) {op : Op}
    (hevents : (d.world.step op).tables.events = d.world.tables.events) :
    Inv { d with world := d.world.step op } := by
  refine h.world fun _ wake _ ↦ .inr ?_
  rw [Tables.liveEvent, hevents]
  rfl

theorem Inv.claim (h : d.Inv) (worker : ℕ) (claimId : Uuid) (relayNow now : Timestamptz)
    (locked : List Uuid) : (d.claim worker claimId relayNow now locked).Inv := by
  unfold Deliveries.claim
  dsimp only
  split
  · next hclaim =>
    refine (h.statement (World.step_events rfl)).setPhase ⟨fun wake hwake ↦ ?_, trivial⟩
    obtain ⟨hclaimId, row, hrow, haddress, hevent, hattempts⟩ := Tables.held_of_claimed hwake
    have hstep : d.world.step (.claimWakes 16 claimId (relayNow + claimSecs * second) now locked) = _ :=
      if_pos hclaim.2
    refine ⟨?_, fun row' leaseUntil hrow' _ ↦ ?_⟩
    · change wake.claimId ∈ (d.world.step _).drawn
      rw [hstep, hclaimId]
      exact List.mem_cons_self
    · change (d.world.step _).tables.outbox.lookup wake.id = some row' at hrow'
      rw [hstep] at hrow'
      cases hrow.symm.trans hrow'
      exact ⟨haddress, hevent, hattempts⟩
  · exact h

/-- A wake that a revalidation answers with is held like the one it was asked about. -/
theorem Held.of_deliver {claimed wake : ClaimedWake} {now : Timestamptz} (h : Held d.world claimed)
    (hdeliver : d.world.tables.revalidateWakeForSend claimed.id claimed.claimId now =
      .deliver wake) : Held d.world wake ∧ ChannelKnown d.world wake := by
  obtain ⟨row, leaseUntil, lease, event, hrow, hsending, hlive, rfl⟩ :=
    Tables.revalidate_deliver hdeliver
  refine ⟨⟨h.drawn, fun row' _ hrow' _ ↦ ?_⟩, fun event' hlive' ↦ ?_⟩
  · cases hrow.symm.trans hrow'
    exact ⟨rfl, rfl, rfl⟩
  · cases hlive.symm.trans hlive'
    rfl

theorem Found.of_suppressed {claimed : ClaimedWake} {now : Timestamptz}
    (hclock : now ≤ d.world.clock)
    (hlive : ∀ row leaseUntil, d.world.tables.outbox.lookup claimed.id = some row →
      row.state = .sending (claimed.claimId, leaseUntil) → now ≤ leaseUntil)
    (h : d.world.tables.revalidateWakeForSend claimed.id claimed.claimId now = .suppressed) :
    Found d.world d.members claimed .suppressed := by
  intro row leaseUntil hrow hsending
  have hnone := Tables.revalidate_suppressed h hrow hsending (hlive row leaseUntil hrow hsending)
  exact Tables.joined_none_mono hclock hnone

theorem Inv.revalidate (h : d.Inv) {worker : ℕ} {now : Timestamptz} {ok : Bool}
    (hclock : now ≤ d.world.clock) (hheeds : d.Heeds (.revalidate worker now ok)) :
    (d.revalidate worker now ok).Inv := by
  have hphase := h.phases worker
  unfold Deliveries.revalidate
  split
  · next claimed rest heq =>
    rw [heq] at hphase
    have hheld := hphase.held claimed List.mem_cons_self
    split
    · split
      · next wake hdeliver =>
        obtain ⟨hwake, hknown⟩ := Held.of_deliver hheld hdeliver
        have hrest : ∀ wake' ∈ wake :: rest, Held d.world wake' :=
          List.forall_mem_cons.mpr ⟨hwake, fun wake' hmem ↦ hphase.held wake' (.tail _ hmem)⟩
        apply h.setPhase
        split
        · next hchannel => exact ⟨hrest, hknown, hchannel⟩
        · exact ⟨hrest, trivial⟩
      · next hsuppressed =>
        exact h.setPhase (hphase.rest (List.Subset.refl _) (Found.of_suppressed hclock
          (hheeds claimed (by rw [heq]; rfl)) hsuppressed))
    · exact h.setPhase (hphase.rest (List.subset_cons_self _ _) trivial)
  · next claimed rest heq =>
    rw [heq] at hphase
    have hheld := hphase.held claimed List.mem_cons_self
    split
    · split
      · next wake hdeliver =>
        exact h.setPhase ⟨List.forall_mem_cons.mpr ⟨(Held.of_deliver hheld hdeliver).1,
          fun wake' hmem ↦ hphase.held wake' (.tail _ hmem)⟩, trivial⟩
      · next hsuppressed =>
        exact h.setPhase (hphase.rest (List.Subset.refl _) (Found.of_suppressed hclock
          (hheeds claimed (by rw [heq]; rfl)) hsuppressed))
    · exact h.setPhase (hphase.rest (List.subset_cons_self _ _) trivial)
  · exact h

theorem Inv.checkMember (h : d.Inv) (worker : ℕ) (ok : Bool) : (d.checkMember worker ok).Inv := by
  have hphase := h.phases worker
  unfold Deliveries.checkMember
  split
  · next wake rest heq =>
    rw [heq] at hphase
    split
    · split
      · exact h.setPhase (hphase.rest (List.Subset.refl _) trivial)
      · next hnot =>
        obtain ⟨hknown, hchannel⟩ := hphase.facts
        obtain ⟨channel, hchannel⟩ := Option.isSome_iff_exists.mp hchannel
        refine h.setPhase (hphase.rest (List.Subset.refl _) ⟨hknown, channel, hchannel, fun hmem ↦ ?_⟩)
        rw [isMember, hchannel] at hnot
        exact hnot (decide_eq_true hmem)
    · exact h.setPhase (hphase.rest (List.Subset.refl _) trivial)
  · exact h

theorem Inv.post (h : d.Inv) {worker : ℕ} {result : Option SendResult}
    (hheeds : d.Heeds (.post worker result)) : (d.post worker result).Inv := by
  have hphase := h.phases worker
  unfold Deliveries.post
  split
  · next wake rest heq =>
    rw [heq] at hphase
    exact h.setPhase (hphase.rest (List.subset_cons_self _ _) trivial)
  · next wake rest result heq =>
    rw [heq] at hphase
    have hconclusive := hheeds result rfl
    split
    · split
      · exact h.setPhase (hphase.rest (List.Subset.refl _) hconclusive)
      · exact h.setPhase (hphase.rest (List.Subset.refl _) hconclusive)
    · exact h.setPhase (hphase.rest (List.Subset.refl _) hconclusive)
  · exact h

theorem Inv.disable (h : d.Inv) (worker : ℕ) (ok : Bool) : (d.disable worker ok).Inv := by
  unfold Deliveries.disable
  split
  · next wake generation result rest heq =>
    have hafter : Inv { d with world :=
        if ok then d.world.step (.disableEndpoint wake.address generation) else d.world } := by
      split
      · exact h.statement (World.step_events rfl)
      · exact h
    have hphase := hafter.phases worker
    change PhaseOk _ _ (d.phase worker) at hphase
    rw [heq] at hphase
    exact hafter.setPhase (hphase.rest (List.Subset.refl _) hphase.facts)
  · exact h

theorem Inv.settle (h : d.Inv) (worker : ℕ) (relayNow : Timestamptz) (ok : Bool) :
    (d.settle worker relayNow ok).Inv := by
  unfold Deliveries.settle
  split
  · next wake reason rest heq =>
    have hafter : Inv { d with world :=
        if ok then d.world.step (settleOp wake relayNow (reason.settlement wake.attempt))
        else d.world } := by
      split
      · refine h.statement (World.step_events ?_)
        cases reason.settlement wake.attempt <;> rfl
      · exact h
    have hphase := hafter.phases worker
    change PhaseOk _ _ (d.phase worker) at hphase
    rw [heq] at hphase
    exact hafter.setPhase (hphase.rest (List.subset_cons_self _ _) trivial)
  · exact h

theorem Inv.step (h : d.Inv) {op : DeliveryOp} (hheeds : d.Heeds op) : (d.step op).Inv := by
  cases op with
  | pipeline op =>
    rw [Deliveries.step]
    split
    · exact h
    · exact h.world hheeds
  | addMember channel author =>
    refine ⟨h.reached, fun worker ↦ (h.phases worker).setMembers ?_⟩
    intro wake rest heq channel' hchannel hmissing hmem
    rcases List.mem_cons.mp hmem with hadded | hold
    · cases hadded
      exact hheeds worker wake rest heq ⟨hchannel, rfl⟩
    · exact hmissing hold
  | removeMember channel author =>
    refine ⟨h.reached, fun worker ↦ (h.phases worker).setMembers ?_⟩
    intro wake rest _ channel' _ hmissing hmem
    exact hmissing (List.mem_filter.mp hmem).1
  | claim worker claimId relayNow now locked => exact h.claim worker claimId relayNow now locked
  | revalidate worker now ok =>
    rw [Deliveries.step]
    split
    · next hclock => exact h.revalidate hclock hheeds
    · exact h
  | checkMember worker ok => exact h.checkMember worker ok
  | post worker result => exact h.post hheeds
  | disable worker ok => exact h.disable worker ok
  | settle worker relayNow ok => exact h.settle worker relayNow ok
  | crash worker => exact h.setPhase ⟨fun _ hwake ↦ (List.not_mem_nil hwake).elim, trivial⟩

theorem inv_start (events : EventsTable) (clock : Timestamptz) (members : List (Uuid × PublicKey)) :
    (start events clock members).Inv where
  reached _ _ hrow := by cases hrow
  phases _ := ⟨fun _ hwake ↦ (List.not_mem_nil hwake).elim, trivial⟩

theorem failWake_of_fails {w : World} {op : Op} {id : Uuid} {row row' : WakeRow}
    (hrow : w.tables.outbox.lookup id = some row) (hnot : row.state ≠ .failed)
    (h : (w.step op).tables.outbox.lookup id = some row') (hfailed : row'.state = .failed) :
    ∃ claimId leaseUntil, op = .failWake id claimId ∧
      row.state = .sending (claimId, leaseUntil) := by
  cases World.rowStep h with
  | same hsame =>
    cases hrow.symm.trans hsame
    exact (hnot hfailed).elim
  | enqueued hpending =>
    rw [hfailed] at hpending
    cases hpending
  | claimed _ _ hstate =>
    rw [hfailed] at hstate
    cases hstate
  | settled hold hsending _ hfail =>
    cases hrow.symm.trans hold
    exact ⟨_, _, hfail hfailed, hsending⟩

structure FailsWake (d : Deliveries) (op : DeliveryOp) (wake : ClaimedWake) (reason : Reason) :
    Prop where
  op : ∃ worker relayNow rest, op = .settle worker relayNow true ∧
    d.phase worker = .settle wake reason rest
  settlement : reason.settlement wake.attempt = .fail

theorem step_world (d : Deliveries) (op : DeliveryOp) : (d.step op).world = d.world ∨
    ∃ wop, (d.step op).world = d.world.step wop ∧ ∀ id claimId, wop = .failWake id claimId →
      ∃ wake reason, d.FailsWake op wake reason ∧ id = wake.id ∧ claimId = wake.claimId := by
  cases op with
  | pipeline op =>
    rw [Deliveries.step]
    split
    · exact .inl rfl
    · next hop =>
      refine .inr ⟨op, rfl, ?_⟩
      rintro id claimId rfl
      exact (hop rfl).elim
  | addMember => exact .inl rfl
  | removeMember => exact .inl rfl
  | claim worker claimId relayNow now locked =>
    rw [Deliveries.step, Deliveries.claim]
    dsimp only
    split
    · exact .inr ⟨_, rfl, fun _ _ h ↦ nomatch h⟩
    · exact .inl rfl
  | revalidate worker now ok =>
    left
    rw [Deliveries.step]
    split
    · unfold Deliveries.revalidate
      split
      · split
        · split <;> rfl
        · rfl
      · split
        · split <;> rfl
        · rfl
      · rfl
    · rfl
  | checkMember worker ok =>
    left
    rw [Deliveries.step]
    unfold Deliveries.checkMember
    split
    · split
      · split <;> rfl
      · rfl
    · rfl
  | post worker result =>
    left
    rw [Deliveries.step]
    unfold Deliveries.post
    split
    · rfl
    · split
      · split <;> rfl
      · rfl
    · rfl
  | disable worker ok =>
    rw [Deliveries.step]
    unfold Deliveries.disable
    split
    · next wake generation result rest _ =>
      cases ok with
      | true =>
        refine .inr ⟨.disableEndpoint wake.address generation, ?_, fun _ _ h ↦ nomatch h⟩
        dsimp only [setPhase]
        rw [if_pos rfl]
      | false => exact .inl rfl
    · exact .inl rfl
  | settle worker relayNow ok =>
    rw [Deliveries.step]
    unfold Deliveries.settle
    split
    · next wake reason rest heq =>
      cases ok with
      | false => exact .inl rfl
      | true =>
        refine .inr ⟨_, rfl, fun id claimId hfail ↦ ?_⟩
        cases hsettlement : reason.settlement wake.attempt with
        | fail =>
          rw [hsettlement] at hfail
          cases hfail
          exact ⟨wake, reason, ⟨⟨worker, relayNow, rest, rfl, heq⟩, hsettlement⟩, rfl, rfl⟩
        | complete =>
          rw [hsettlement] at hfail
          cases hfail
        | retry seconds =>
          rw [hsettlement] at hfail
          cases hfail
    · exact .inl rfl
  | crash => exact .inl rfl

theorem failsWake_of_fails {op : DeliveryOp} {id : Uuid} {row : WakeRow}
    (h : d.Fails (d.step op) id row) : ∃ wake reason leaseUntil, d.FailsWake op wake reason ∧
      d.world.tables.outbox.lookup wake.id = some row ∧
      row.state = .sending (wake.claimId, leaseUntil) := by
  obtain ⟨hrow, hnot, row', hrow', hfailed⟩ := h
  rcases d.step_world op with hsame | ⟨wop, heq, hcause⟩
  · rw [hsame] at hrow'
    cases hrow.symm.trans hrow'
    exact (hnot hfailed).elim
  · rw [heq] at hrow'
    obtain ⟨claimId, leaseUntil, rfl, hsending⟩ := failWake_of_fails hrow hnot hrow' hfailed
    obtain ⟨wake, reason, hfails, rfl, rfl⟩ := hcause id claimId rfl
    exact ⟨wake, reason, leaseUntil, hfails, hrow, hsending⟩

theorem Inv.hasCause (h : d.Inv) {op : DeliveryOp} {id : Uuid} {row : WakeRow}
    (hfails : d.Fails (d.step op) id row) : d.HasCause op row := by
  obtain ⟨wake, reason, leaseUntil, ⟨⟨worker, relayNow, rest, rfl, heq⟩, hsettlement⟩, hrow,
    hsending⟩ :=
    failsWake_of_fails hfails
  have hphase := h.phases worker
  rw [heq] at hphase
  obtain ⟨haddress, hevent, hattempts⟩ :=
    (hphase.held wake List.mem_cons_self).row row leaseUntil hrow hsending
  have hfound : Found d.world d.members wake reason := hphase.facts
  cases reason with
  | suppressed =>
    have hnone := hfound row leaseUntil hrow hsending
    rcases Tables.joined_eq_none.mp hnone with hexpired | hlease | hgone
    · exact .inr (.inl hexpired)
    · exact .inl (by rw [hlease]; rfl)
    · exact .inr (.inr (.inl (by rw [hgone]; rfl)))
  | notMember =>
    obtain ⟨hknown, channel, hchannel, hmissing⟩ := hfound
    cases hlive : d.world.tables.liveEvent row.wake.eventId with
    | none => exact .inr (.inr (.inl (by rw [hlive]; rfl)))
    | some event =>
      refine .inr (.inr (.inr (.inl ?_)))
      have hof := hknown event (hevent ▸ hlive)
      rw [hlive, Option.any_some, hof, hchannel, Option.any_some, haddress]
      exact decide_eq_true hmissing
  | membershipError => cases hsettlement
  | answered result =>
    rcases SendResult.settlement_eq_fail hfound hsettlement with hpermanent | hexhausted
    · refine .inr (.inr (.inr (.inr (.inl ?_))))
      rw [answer, heq]
      exact hpermanent
    · refine .inr (.inr (.inr (.inr (.inr ?_))))
      rwa [hattempts]

/-- A wake is failed only for cause, as long as every step heeds what the workers rely on. -/
theorem failed_for_cause (events : EventsTable) (clock : Timestamptz)
    (members : List (Uuid × PublicKey)) (ops : List DeliveryOp)
    (hheeds : ∀ pre op, pre ++ [op] <+: ops →
      (pre.foldl step (start events clock members)).Heeds op)
    (pre : List DeliveryOp) (op : DeliveryOp) (hpre : pre ++ [op] <+: ops) (id : Uuid)
    (row : WakeRow) :
    let d := pre.foldl step (start events clock members)
    d.Fails (d.step op) id row → d.HasCause op row := by
  intro d hfails
  have hinv := forall_prefix_of_steps step Inv (fun d op ↦ ¬d.Heeds op)
    (inv_start events clock members) (fun d op h hheeds ↦ h.step (not_not.mp hheeds))
    (fun pre op hpre ↦ not_not.mpr (hheeds pre op hpre))
  exact (hinv pre ((List.prefix_append pre [op]).trans hpre)).hasCause hfails

theorem heeds_of_inHand {op : Op} (h : ∀ worker, (d.phase worker).inHand = none) :
    d.Heeds (.pipeline op) := by
  intro worker wake hwake
  rw [h worker] at hwake
  cases hwake

theorem heeds_of_claim {worker : ℕ} {now : Timestamptz} {ok : Bool}
    (h : ((d.phase worker).revalidating.all fun wake ↦
      ((d.world.tables.outbox.lookup wake.id).bind WakeRow.claim).all fun c ↦ now ≤ c.2) = true) :
    d.Heeds (.revalidate worker now ok) := by
  intro wake hwake row leaseUntil hrow hsending
  rw [hwake, Option.all_some, hrow, Option.bind_some, WakeRow.claim, hsending] at h
  exact of_decide_eq_true h

/-- Two messages in channel 7, whose member 1 holds a lease. -/
def sampleEvents : EventsTable :=
  [((0, 11), ⟨⟨11, 2, 0, 9, [], "", 0⟩, some 7, none, false⟩),
    ((0, 12), ⟨⟨12, 2, 0, 9, [], "", 0⟩, some 7, none, false⟩)].foldl
      (fun events e ↦ AList.insert e.1 e.2 events) ∅

def sampleStart : Deliveries := start sampleEvents 0 [(7, 1)]

def sampleClaim : List DeliveryOp :=
  [.pipeline (.acceptLease ⟨5, 1, 0, kindPushLease, [], "", 0⟩ "phone" ⟨5, 0, 1, 10000⟩
      (some ⟨"ios", 9, "grant", .default, .arr []⟩) 5 0),
    .pipeline (.enqueueWakes [(⟨(1, "phone"), 1, 11, .default, 3600⟩, 21),
      (⟨(1, "phone"), 1, 12, .default, 3600⟩, 22)] 0),
    .claim 0 31 0 0 []]

def sampleSend (now : Timestamptz) (result : SendResult) : List DeliveryOp :=
  [.revalidate 0 now true, .checkMember 0 true, .revalidate 0 now true, .post 0 (some result)]

def sampleRow : WakeRow :=
  ⟨⟨(1, "phone"), 1, 9, 11, .default, 3600, 0⟩, .sending (31, claimSecs * second), 1, 0⟩

theorem failed_for_cause_bad_request :
    let d := (sampleClaim ++ sampleSend 0 (.response 400 none)).foldl step sampleStart
    d.Fails (d.step (.settle 0 0 true)) 21 sampleRow ∧ d.HasCause (.settle 0 0 true) sampleRow := by
  intro d
  have hfails : d.Fails (d.step (.settle 0 0 true)) 21 sampleRow :=
    ⟨by decide +kernel, by decide, { sampleRow with state := .failed }, by decide +kernel, rfl⟩
  refine ⟨hfails, failed_for_cause sampleEvents 0 [(7, 1)]
    (sampleClaim ++ sampleSend 0 (.response 400 none) ++ [.settle 0 0 true]) ?_ _ (.settle 0 0 true)
    (List.prefix_refl _) 21 sampleRow hfails⟩
  apply forall_step_of_lt
  intro n hn
  match n, hn with
  | 0, _ => exact heeds_of_inHand fun _ ↦ rfl
  | 1, _ => exact heeds_of_inHand fun _ ↦ rfl
  | 2, _ => trivial
  | 3, _ => exact heeds_of_claim (by decide +kernel)
  | 4, _ => trivial
  | 5, _ => exact heeds_of_claim (by decide +kernel)
  | 6, _ =>
    rintro r ⟨⟩
    rfl
  | 7, _ => trivial

/-- The first wake of the batch takes 31 seconds; then the second is failed, though its lease, its
event and its membership stand, it was never sent, and this was its first attempt. -/
theorem lapsed_claim_fails :
    let late : List DeliveryOp :=
      [.pipeline (.tick (31 * second)), .settle 0 0 true, .revalidate 0 (31 * second) true]
    let d := (sampleClaim ++ sampleSend 0 (.response 200 (some .accepted)) ++ late).foldl step
      sampleStart
    let row : WakeRow := { sampleRow with wake := { sampleRow.wake with eventId := 12 } }
    d.Fails (d.step (.settle 0 0 true)) 22 row ∧ ¬d.HasCause (.settle 0 0 true) row := by
  intro late d row
  refine ⟨⟨by decide +kernel, by decide, { row with state := .failed }, by decide +kernel, rfl⟩, ?_⟩
  decide +kernel

end Deliveries

end Buzz.Push
