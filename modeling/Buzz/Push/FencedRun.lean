import Buzz.Push.Fenced
import Mathlib.Data.List.Induction

namespace Buzz.Push

open Buzz.Lib Buzz.Lib.Claims Buzz.Nostr Buzz.Db

def Outbox.KeysUnique (outbox : Outbox) : Prop :=
  ∀ id id' row row', outbox.lookup id = some row → outbox.lookup id' = some row' →
    row.wake.endpointHash = row'.wake.endpointHash → row.wake.eventId = row'.wake.eventId → id = id'

def KeepsWakes (outbox outbox' : Outbox) : Prop :=
  ∀ id row', outbox'.lookup id = some row' → ∃ row, outbox.lookup id = some row ∧ row'.wake = row.wake

theorem KeepsWakes.mem {outbox outbox' : Outbox} (h : KeepsWakes outbox outbox') :
    ∀ id ∈ outbox', id ∈ outbox := by
  intro id hid
  obtain ⟨row', hrow'⟩ := Option.isSome_iff_exists.mp (AList.lookup_isSome.mpr hid)
  obtain ⟨row, hrow, -⟩ := h id row' hrow'
  exact AList.lookup_isSome.mp (by rw [hrow]; rfl)

theorem Outbox.KeysUnique.of_wakes {outbox outbox' : Outbox} (h : outbox.KeysUnique)
    (hwakes : KeepsWakes outbox outbox') : outbox'.KeysUnique := by
  intro a b rowA rowB ha hb hendpoint hevent
  obtain ⟨oldA, hA, hwakeA⟩ := hwakes a rowA ha
  obtain ⟨oldB, hB, hwakeB⟩ := hwakes b rowB hb
  rw [hwakeA, hwakeB] at hendpoint hevent
  exact h a b oldA oldB hA hB hendpoint hevent

theorem nodup_selectDue {κ ν β : Type} [DecidableEq κ] [LinearOrder β]
    {rows : List ((_ : κ) × ν)} (h : rows.NodupKeys) (f : κ → ν → β) (locked : List κ)
    (limit : ℕ) : ((selectDue rows f locked limit).map Sigma.fst).Nodup := by
  have hfilter : ((rows.filter fun e ↦ e.1 ∉ locked).map Sigma.fst).Nodup :=
    (List.filter_sublist.map _).nodup h
  have hsort : (((rows.filter fun e ↦ e.1 ∉ locked).insertionSort
      fun a b ↦ f a.1 a.2 ≤ f b.1 b.2).map Sigma.fst).Nodup :=
    ((List.perm_insertionSort _ _).map _).nodup_iff.mpr hfilter
  exact ((List.take_sublist _ _).map _).nodup hsort

theorem claimable_iff {claim : ClaimColumns} {now : Timestamptz} :
    claimable claim now = true ↔ ∀ c, claim = some c → c.2 < now := by
  cases claim with
  | none => simp [claimable]
  | some c => simp [claimable]

theorem LeaseRow.eligible_eq_some {row : LeaseRow} {now : Timestamptz} {lease : ActiveLease}
    (h : row.eligible now = some lease) :
    row.active = some lease ∧ row.endpointEnabled = true ∧ epoch now < row.version.expiresAt := by
  unfold eligible at h
  split at h
  · next hlive => exact ⟨h, hlive⟩
  · cases h

namespace Tables

variable {t : Tables} {now : Timestamptz} {id claimId : Uuid}

theorem mem_dueWakes {locked : List Uuid} {limit : ℕ} {e : (_ : Uuid) × WakeRow}
    (h : e ∈ t.dueWakes now locked limit) :
    t.outbox.lookup e.1 = some e.2 ∧ t.wakeDue now e.2 = true := by
  obtain ⟨hmem, hdue⟩ := List.mem_filter.mp (mem_selectDue h)
  exact ⟨Map.mem_entries_iff.mp hmem, hdue⟩

theorem claimable_of_wakeDue {row : WakeRow} (h : t.wakeDue now row = true) :
    ∀ c, row.claim = some c → c.2 < now := by
  have hstate := (Bool.and_eq_true _ _).mp h |>.2
  intro c hc
  unfold WakeRow.claim at hc
  split at hc
  · next claim hsending =>
    rw [hsending] at hstate
    exact claimable_iff.mp hstate c hc
  · cases hc

theorem mem_dueMatches {locked : List EventId} {limit : ℕ} {e : (_ : EventId) × MatchJob}
    (h : e ∈ t.dueMatches now locked limit) :
    t.queue.lookup e.1 = some e.2 ∧ claimable e.2.claim now = true := by
  obtain ⟨hmem, hdue⟩ := List.mem_filter.mp (mem_selectDue h)
  exact ⟨Map.mem_entries_iff.mp hmem, ((Bool.and_eq_true _ _).mp hdue).2⟩

theorem updateFenced_cases (t : Tables) (id claimId : Uuid) (f : WakeRow → WakeRow) :
    t.updateFenced id claimId f = (t, false) ∨
      ∃ row leaseUntil, t.outbox.lookup id = some row ∧
        row.state = .sending (claimId, leaseUntil) ∧
        t.updateFenced id claimId f =
          ({ t with outbox := AList.insert id (f row) t.outbox }, true) := by
  unfold updateFenced
  split
  · exact .inl rfl
  · next row hrow =>
    split
    · next claim hsending =>
      split
      · next hclaim => exact .inr ⟨row, claim.2, hrow, by rw [hsending, ← hclaim], rfl⟩
      · exact .inl rfl
    · exact .inl rfl

theorem updateFenced_of_ne {f : WakeRow → WakeRow}
    (h : ∀ c, (t.outbox.lookup id).bind WakeRow.claim = some c → c.1 ≠ claimId) :
    t.updateFenced id claimId f = (t, false) := by
  rcases t.updateFenced_cases id claimId f with hsame | ⟨row, leaseUntil, hrow, hsending, -⟩
  · exact hsame
  · refine (h (claimId, leaseUntil) ?_ rfl).elim
    rw [hrow, Option.bind_some, WakeRow.claim, hsending]

theorem outboxHas_eq_none {endpointHash : EndpointHash} {eventId : EventId} :
    t.outboxHas endpointHash eventId = none ↔ ∀ id row, t.outbox.lookup id = some row →
      ¬(row.wake.endpointHash = endpointHash ∧ row.wake.eventId = eventId) := by
  rw [outboxHas, Option.map_eq_none_iff, Map.findRow_eq_none]
  simp only [Bool.and_eq_false_iff, decide_eq_false_iff_not, ← not_and_or]

theorem updateFenced_keepsWakes {f : WakeRow → WakeRow} (hwake : ∀ row, (f row).wake = row.wake) :
    KeepsWakes t.outbox (t.updateFenced id claimId f).1.outbox := by
  intro id' row' h
  rcases t.updateFenced_cases id claimId f with hsame | ⟨row, leaseUntil, hrow, -, heq⟩
  · rw [hsame] at h
    exact ⟨row', h, rfl⟩
  · rw [heq, Map.lookup_insert_eq] at h
    split at h
    · next hid =>
      cases h
      exact ⟨row, by rw [hid, hrow], hwake row⟩
    · exact ⟨row', h, rfl⟩

theorem pruneWakeOutbox_keepsWakes (t : Tables) (before now : Timestamptz) :
    KeepsWakes t.outbox (t.pruneWakeOutbox before now).outbox := by
  intro id row h
  rw [pruneWakeOutbox, Map.lookup_keepEntries, Option.filter_eq_some_iff] at h
  exact ⟨row, h.1, rfl⟩

theorem claimDueWakes_keepsWakes (t : Tables) (limit : ℕ) (claimId : Uuid)
    (leaseUntil now : Timestamptz) (locked : List Uuid) :
    KeepsWakes t.outbox (t.claimDueWakes limit claimId leaseUntil now locked).2.outbox := by
  intro id row h
  rw [claimDueWakes, Map.lookup_mapValues, Option.map_eq_some_iff] at h
  obtain ⟨old, hold, rfl⟩ := h
  refine ⟨old, hold, ?_⟩
  split <;> rfl

theorem enqueueMatch_outbox (t : Tables) (eventId : EventId) (now : Timestamptz) :
    (t.enqueueMatch eventId now).outbox = t.outbox := by
  unfold enqueueMatch
  split <;> rfl

theorem enqueueWake_cases (t : Tables) (request : WakeRequest) (id : Uuid) (now : Timestamptz) :
    (t.enqueueWake request id now).2 = t ∨ ∃ lease : ActiveLease,
      (∃ row, t.leases.lookup request.address = some row ∧ row.eligible now = some lease ∧
        row.version.generation = request.leaseGeneration) ∧
      t.outboxHas lease.endpointHash request.eventId = none ∧
      t.enqueueWake request id now = (.enqueued id,
        { t with outbox := AList.insert id ⟨⟨request.address, request.leaseGeneration,
          lease.endpointHash, request.eventId, request.wakeClass, request.expiresAt, now⟩,
          .pending, 0, now⟩ t.outbox }) := by
  unfold enqueueWake
  split
  · exact .inl rfl
  · next lease hlease =>
    obtain ⟨row, hrow, heligible⟩ := Option.bind_eq_some_iff.mp hlease
    obtain ⟨heligible, hgeneration⟩ := Option.filter_eq_some_iff.mp heligible
    split
    · exact .inl rfl
    · next hnone =>
      exact .inr ⟨lease, ⟨row, hrow, heligible, of_decide_eq_true hgeneration⟩, hnone, rfl⟩

theorem keysUnique_insert {wake : Wake} {state : WakeState} {attempts : ℕ} {next : Timestamptz}
    (h : t.outbox.KeysUnique) (hnone : t.outboxHas wake.endpointHash wake.eventId = none) :
    Outbox.KeysUnique (AList.insert id ⟨wake, state, attempts, next⟩ t.outbox) := by
  have hfree := outboxHas_eq_none.mp hnone
  intro a b row row' ha hb hendpoint hevent
  rw [Map.lookup_insert_eq] at ha hb
  split at ha
  · next hida =>
    cases ha
    split at hb
    · next hidb => rw [hida, hidb]
    · exact (hfree b row' hb ⟨hendpoint.symm, hevent.symm⟩).elim
  · split at hb
    · cases hb
      exact (hfree a row ha ⟨hendpoint, hevent⟩).elim
    · exact h a b row row' ha hb hendpoint hevent

structure Enqueues (t t' : Tables) (ids : List Uuid) : Prop where
  claims : ∀ id, (t'.outbox.lookup id).bind WakeRow.claim = (t.outbox.lookup id).bind WakeRow.claim
  rows : ∀ id ∈ t'.outbox, id ∈ t.outbox ∨ id ∈ ids
  unique : t'.outbox.KeysUnique
  queue : t'.queue = t.queue

theorem Enqueues.one (h : t.outbox.KeysUnique) (request : WakeRequest) (hid : id ∉ t.outbox) :
    Enqueues t (t.enqueueWake request id now).2 [id] := by
  rcases t.enqueueWake_cases request id now with hsame | ⟨lease, -, hnone, heq⟩
  · rw [hsame]
    exact ⟨fun _ ↦ rfl, fun _ ↦ .inl, h, rfl⟩
  · rw [heq]
    refine ⟨fun id' ↦ ?_, fun id' hid' ↦ ?_, keysUnique_insert h hnone, rfl⟩
    · change Option.bind (AList.lookup id' (AList.insert id _ t.outbox)) _ = _
      rw [Map.lookup_insert_eq]
      split
      · next heq =>
        rw [heq, AList.lookup_eq_none.mpr hid]
        rfl
      · rfl
    · rcases (AList.mem_insert _).mp hid' with rfl | hmem
      · exact .inr List.mem_cons_self
      · exact .inl hmem

theorem Enqueues.many {requests : List (WakeRequest × Uuid)} (h : t.outbox.KeysUnique)
    (hnodup : (requests.map Prod.snd).Nodup) (hids : ∀ id ∈ requests.map Prod.snd, id ∉ t.outbox) :
    Enqueues t (t.enqueueWakes now requests).2 (requests.map Prod.snd) := by
  induction requests generalizing t with
  | nil => exact ⟨fun _ ↦ rfl, fun _ ↦ .inl, h, rfl⟩
  | cons first rest ih =>
    obtain ⟨request, id⟩ := first
    rw [List.map_cons, List.nodup_cons] at hnodup
    have hone : Enqueues t (t.enqueueWake request id now).2 [id] :=
      .one h request (hids id List.mem_cons_self)
    have hrest := ih hone.unique hnodup.2 fun id' hid' hmem ↦ by
      rcases hone.rows id' hmem with hold | hnew
      · exact hids id' (List.mem_cons_of_mem _ hid') hold
      · rw [List.mem_singleton.mp hnew] at hid'
        exact hnodup.1 hid'
    refine ⟨fun id' ↦ (hrest.claims id').trans (hone.claims id'), fun id' hmem ↦ ?_, hrest.unique,
      hrest.queue.trans hone.queue⟩
    rcases hrest.rows id' hmem with hmid | hnew
    · rcases hone.rows id' hmid with hold | hnew
      · exact .inl hold
      · rw [List.mem_singleton.mp hnew]
        exact .inr List.mem_cons_self
    · exact .inr (List.mem_cons_of_mem _ hnew)

def LeaseHolds (t : Tables) (wake : Wake) (now : Timestamptz) : Prop :=
  ∃ row lease, t.leases.lookup wake.address = some row ∧ row.active = some lease ∧
    row.endpointEnabled = true ∧ epoch now < row.version.expiresAt ∧
    row.version.generation = wake.leaseGeneration ∧ lease.endpointHash = wake.endpointHash

def Requests (t : Tables) (request : WakeRequest) (wake : Wake) (now : Timestamptz) : Prop :=
  request.address = wake.address ∧ request.leaseGeneration = wake.leaseGeneration ∧
    request.eventId = wake.eventId ∧ t.LeaseHolds wake now

theorem enqueueWakes_made {requests : List (WakeRequest × Uuid)} {row : WakeRow}
    (h : (t.enqueueWakes now requests).2.outbox.lookup id = some row) :
    t.outbox.lookup id = some row ∨
      ∃ request, (request, id) ∈ requests ∧ t.Requests request row.wake now := by
  induction requests generalizing t with
  | nil => exact .inl h
  | cons first rest ih =>
    obtain ⟨request, id'⟩ := first
    rcases t.enqueueWake_cases request id' now
      with hsame | ⟨lease, ⟨held, hheld, heligible, hgen⟩, -, heq⟩
    · rw [enqueueWakes, hsame] at h
      rcases ih h with hold | ⟨request', hmem, hrequests⟩
      · exact .inl hold
      · exact .inr ⟨request', List.mem_cons_of_mem _ hmem, hrequests⟩
    · rw [enqueueWakes, heq] at h
      rcases ih h with hmid | ⟨request', hmem, hrequests⟩
      · rw [Map.lookup_insert_eq] at hmid
        split at hmid
        · next hid =>
          cases hmid
          obtain ⟨hactive, henabled, hunexpired⟩ := LeaseRow.eligible_eq_some heligible
          exact .inr ⟨request, hid ▸ List.mem_cons_self, rfl, rfl, rfl,
            held, lease, hheld, hactive, henabled, hunexpired, hgen, rfl⟩
        · exact .inl hmid
      · exact .inr ⟨request', List.mem_cons_of_mem _ hmem, hrequests⟩

theorem leaseHolds_of_deliver {wake : ClaimedWake}
    (h : t.revalidateWakeForSend id claimId now = .deliver wake) :
    ∃ row, t.outbox.lookup id = some row ∧ t.LeaseHolds row.wake now := by
  unfold revalidateWakeForSend at h
  split at h
  · cases h
  · next row hrow =>
    split at h
    · next claim lease event _ hjoined =>
      refine ⟨row, hrow, ?_⟩
      unfold joined at hjoined
      split at hjoined
      · obtain ⟨lease', hlease, -⟩ := Option.bind_eq_some_iff.mp hjoined
        obtain ⟨held, hheld, heligible⟩ := Option.bind_eq_some_iff.mp hlease
        obtain ⟨heligible, hjoins⟩ := Option.filter_eq_some_iff.mp heligible
        obtain ⟨hactive, henabled, hunexpired⟩ := LeaseRow.eligible_eq_some heligible
        obtain ⟨hgen, hendpoint⟩ := (Bool.and_eq_true _ _).mp hjoins
        exact ⟨held, lease', hheld, hactive, henabled, hunexpired, of_decide_eq_true hgen,
          of_decide_eq_true hendpoint⟩
      · cases hjoined
    · cases h

end Tables

namespace World

structure Inv (w : World) : Prop where
  wakes : w.wakeLedger.Inv w.clock
  jobs : w.jobLedger.Inv w.clock
  drawnWakes : ∀ g ∈ w.wakesIssued, g.token ∈ w.drawn
  drawnMatches : ∀ g ∈ w.matchesIssued, g.token ∈ w.drawn
  drawnRows : ∀ id ∈ w.tables.outbox, id ∈ w.drawn
  unique : w.tables.outbox.KeysUnique

variable {w w' : World}

structure Keeps (w w' : World) : Prop where
  wakes : w'.wakeLedger.Inv w'.clock
  jobs : w'.jobLedger.Inv w'.clock
  wakesIssued : w'.wakesIssued = w.wakesIssued
  matchesIssued : w'.matchesIssued = w.matchesIssued
  rows : ∀ id ∈ w'.tables.outbox, id ∈ w.tables.outbox
  unique : w'.tables.outbox.KeysUnique

theorem Inv.of_keeps (h : w.Inv) (hkeeps : Keeps w w') {ids : List Uuid} :
    Inv { w' with drawn := ids ++ w.drawn } where
  wakes := hkeeps.wakes
  jobs := hkeeps.jobs
  drawnWakes g hg := List.mem_append_right _ (h.drawnWakes g (hkeeps.wakesIssued ▸ hg))
  drawnMatches g hg := List.mem_append_right _ (h.drawnMatches g (hkeeps.matchesIssued ▸ hg))
  drawnRows id hid := List.mem_append_right _ (h.drawnRows id (hkeeps.rows id hid))
  unique := hkeeps.unique

theorem Inv.endWake (h : w.Inv) (id claimId : Uuid) {f : WakeRow → WakeRow}
    (hfree : ∀ row, (f row).claim = none) (hwake : ∀ row, (f row).wake = row.wake) :
    Keeps w (w.endWake (w.tables.updateFenced id claimId f).1 id claimId) := by
  have hout : ∀ g ∈ (w.endWake (w.tables.updateFenced id claimId f).1 id claimId).wakesOut,
      g ∈ w.wakesOut ∧ ¬(g.key = id ∧ g.token = claimId) := by
    intro g hg
    obtain ⟨hmem, hne⟩ := List.mem_filter.mp hg
    refine ⟨hmem, fun hboth ↦ ?_⟩
    rw [hboth.1, hboth.2] at hne
    simp at hne
  have hsub : (w.endWake (w.tables.updateFenced id claimId f).1 id claimId).wakesOut ⊆ w.wakesOut :=
    fun g hg ↦ (hout g hg).1
  rcases w.tables.updateFenced_cases id claimId f with hsame | ⟨row, leaseUntil, hrow, hsending, heq⟩
  · have htables : (w.endWake (w.tables.updateFenced id claimId f).1 id claimId).tables = w.tables :=
      congrArg Prod.fst hsame
    refine ⟨h.wakes.clear ⟨fun k ↦ .inl ?_, rfl, hsub⟩, ?_, rfl, rfl, ?_, ?_⟩
    · rw [wakeLedger, htables]
      rfl
    · rw [jobLedger, htables]
      exact h.jobs
    · rw [htables]
      exact fun _ hid ↦ hid
    · rw [htables]
      exact h.unique
  · have htables : (w.endWake (w.tables.updateFenced id claimId f).1 id claimId).tables =
        { w.tables with outbox := AList.insert id (f row) w.tables.outbox } :=
      congrArg Prod.fst heq
    refine ⟨h.wakes.clear ⟨fun k ↦ ?_, rfl, hsub⟩, ?_, rfl, rfl, ?_, ?_⟩
    · rw [wakeLedger, htables]
      simp only [Map.lookup_insert_eq]
      by_cases hk : k = id
      · refine .inr ⟨?_, fun g hg hkey ↦ ?_⟩
        · rw [if_pos hk, Option.bind_some, hfree]
        · by_contra hlive
          obtain ⟨hmem, hne⟩ := hout g hg
          have hcurrent := h.wakes.held g hmem (not_lt.mp hlive)
          apply hne
          refine ⟨hkey.trans hk, ?_⟩
          change (w.tables.outbox.lookup g.key).bind WakeRow.claim = _ at hcurrent
          rw [hkey, hk, hrow, Option.bind_some, WakeRow.claim, hsending] at hcurrent
          exact (congrArg Prod.fst (Option.some.inj hcurrent)).symm
      · exact .inl (by rw [if_neg hk]; rfl)
    · rw [jobLedger, htables]
      exact h.jobs
    · exact (Tables.updateFenced_keepsWakes hwake).mem
    · exact h.unique.of_wakes (Tables.updateFenced_keepsWakes hwake)

theorem Inv.pruneWakes (h : w.Inv) (before now : Timestamptz) :
    Keeps w (w.run (.pruneWakes before now)) where
  wakes := by
    refine h.wakes.clear ⟨fun k ↦ ?_, rfl, fun g hg ↦ (List.mem_filter.mp hg).1⟩
    change ((w.tables.pruneWakeOutbox before now).outbox.lookup k).bind _ = _ ∨
      ((w.tables.pruneWakeOutbox before now).outbox.lookup k).bind _ = none ∧ _
    cases hk : (w.tables.pruneWakeOutbox before now).outbox.lookup k with
    | none =>
      refine .inr ⟨rfl, fun g hg hkey ↦ ?_⟩
      have hmem := of_decide_eq_true (List.mem_filter.mp hg).2
      rw [hkey] at hmem
      exact (AList.lookup_eq_none.mp hk hmem).elim
    | some row =>
      rw [Tables.pruneWakeOutbox, Map.lookup_keepEntries, Option.filter_eq_some_iff] at hk
      refine .inl ?_
      rw [wakeLedger]
      simp only [hk.1]
  jobs := h.jobs
  wakesIssued := rfl
  matchesIssued := rfl
  rows := (w.tables.pruneWakeOutbox_keepsWakes before now).mem
  unique := h.unique.of_wakes (w.tables.pruneWakeOutbox_keepsWakes before now)

/-- Nothing but the clock and the queue's claims changes. -/
theorem Inv.of_jobs (h : w.Inv) (houtbox : w'.tables.outbox = w.tables.outbox)
    (hclock : w'.clock = w.clock) (hwakes : w'.wakesIssued = w.wakesIssued)
    (hout : w'.wakesOut = w.wakesOut) (hissued : w'.matchesIssued = w.matchesIssued)
    (hjobs : w.jobLedger.Clears w'.jobLedger w.clock) : Keeps w w' where
  wakes := by
    rw [hclock, wakeLedger, houtbox, hwakes, hout]
    exact h.wakes
  jobs := hclock ▸ h.jobs.clear hjobs
  wakesIssued := hwakes
  matchesIssued := hissued
  rows := by
    rw [houtbox]
    exact fun _ hid ↦ hid
  unique := houtbox ▸ h.unique

theorem Inv.endMatches (h : w.Inv) (claimId : Uuid) (eventIds : List EventId) {queue : MatchQueue}
    (hqueue : ∀ id, (queue.lookup id).bind MatchJob.claim =
        (w.tables.queue.lookup id).bind MatchJob.claim ∨
      ((queue.lookup id).bind MatchJob.claim = none ∧ ∃ job, w.tables.queue.lookup id = some job ∧
        Tables.fencedMatch claimId eventIds id job = true)) :
    Keeps w (w.endMatches { w.tables with queue := queue } claimId eventIds) := by
  refine h.of_jobs rfl rfl rfl rfl rfl ⟨fun id ↦ ?_, rfl, fun g hg ↦ (List.mem_filter.mp hg).1⟩
  rcases hqueue id with heq | ⟨hnone, job, hjob, hfenced⟩
  · exact .inl heq
  · refine .inr ⟨hnone, fun g hg hkey ↦ ?_⟩
    by_contra hlive
    obtain ⟨hmem, hne⟩ := List.mem_filter.mp hg
    have hcurrent := h.jobs.held g hmem (not_lt.mp hlive)
    change (w.tables.queue.lookup g.key).bind MatchJob.claim = _ at hcurrent
    rw [hkey, hjob, Option.bind_some] at hcurrent
    rw [Tables.fencedMatch, hcurrent, Bool.and_eq_true] at hfenced
    rw [hkey, hfenced.1, Bool.true_and] at hne
    rw [show decide (g.token = claimId) = true from hfenced.2] at hne
    cases hne

theorem Inv.completeMatches (h : w.Inv) (claimId : Uuid) (eventIds : List EventId) :
    Keeps w (w.run (.completeMatches claimId eventIds)) := by
  refine h.endMatches claimId eventIds fun id ↦ ?_
  rw [Map.lookup_keepEntries]
  cases hjob : w.tables.queue.lookup id with
  | none => exact .inl rfl
  | some job =>
    cases hfenced : Tables.fencedMatch claimId eventIds id job with
    | true =>
      refine .inr ⟨?_, job, rfl, hfenced⟩
      rw [Option.filter_some, hfenced]
      rfl
    | false =>
      refine .inl ?_
      rw [Option.filter_some, hfenced]
      rfl

theorem Inv.retryMatches (h : w.Inv) (claimId : Uuid) (eventIds : List EventId)
    (next : Timestamptz) : Keeps w (w.run (.retryMatches claimId eventIds next)) := by
  refine h.endMatches claimId eventIds fun id ↦ ?_
  rw [Map.lookup_mapValues]
  cases hjob : w.tables.queue.lookup id with
  | none => exact .inl rfl
  | some job =>
    cases hfenced : Tables.fencedMatch claimId eventIds id job with
    | true =>
      refine .inr ⟨?_, job, rfl, hfenced⟩
      rw [Option.map_some, if_pos hfenced]
      rfl
    | false =>
      refine .inl ?_
      rw [Option.map_some, if_neg (by rw [hfenced]; exact Bool.false_ne_true)]

theorem Inv.reapMatches (h : w.Inv) {now : Timestamptz} (hnow : now ≤ w.clock) :
    Keeps w (w.run (.reapMatches now)) := by
  refine h.of_jobs rfl rfl rfl rfl rfl ⟨fun id ↦ ?_, rfl, fun _ hg ↦ hg⟩
  change ((Map.keepEntries _ w.tables.queue).lookup id).bind _ = _ ∨
    ((Map.keepEntries _ w.tables.queue).lookup id).bind _ = none ∧ _
  rw [Map.lookup_keepEntries]
  cases hjob : w.tables.queue.lookup id with
  | none =>
    refine .inl ?_
    rw [jobLedger]
    simp only [hjob]
    rfl
  | some job =>
    cases hexhausted : decide (maxMatchAttempts ≤ job.attempts) && claimable job.claim now with
    | true =>
      refine .inr ⟨by rw [Option.filter_some, hexhausted]; rfl, fun g hg hkey ↦ ?_⟩
      by_contra hlive
      have hcurrent := h.jobs.held g hg (not_lt.mp hlive)
      change (w.tables.queue.lookup g.key).bind MatchJob.claim = _ at hcurrent
      rw [hkey, hjob, Option.bind_some] at hcurrent
      have hclaimable := ((Bool.and_eq_true _ _).mp hexhausted).2
      exact hlive ((claimable_iff.mp hclaimable _ hcurrent).trans_le hnow)
    | false =>
      refine .inl ?_
      rw [Option.filter_some, hexhausted, jobLedger]
      simp only [hjob]
      rfl

theorem Inv.enqueueMatch (h : w.Inv) (eventId : EventId) (now : Timestamptz) :
    Keeps w (w.run (.enqueueMatch eventId now)) := by
  refine h.of_jobs (w.tables.enqueueMatch_outbox eventId now) rfl rfl rfl rfl
    ⟨fun id ↦ .inl ?_, rfl, fun _ hg ↦ hg⟩
  change ((w.tables.enqueueMatch eventId now).queue.lookup id).bind _ = _
  unfold Tables.enqueueMatch
  split
  · rfl
  · next hnew =>
    rw [jobLedger]
    simp only [Map.lookup_insert_eq]
    split
    · next hid =>
      rw [hid, AList.lookup_eq_none.mpr hnew]
      rfl
    · rfl

theorem Inv.enqueueWakes (h : w.Inv) {requests : List (WakeRequest × Uuid)} {now : Timestamptz}
    (hallowed : w.Allowed (.enqueueWakes requests now)) :
    Inv { w.run (.enqueueWakes requests now) with
      drawn := requests.map Prod.snd ++ w.drawn } := by
  have henqueues : Tables.Enqueues w.tables (w.tables.enqueueWakes now requests).2
      (requests.map Prod.snd) :=
    .many h.unique hallowed.2.1 fun id hid hmem ↦ hallowed.2.2 id hid (h.drawnRows id hmem)
  refine ⟨h.wakes.clear ⟨fun id ↦ .inl (henqueues.claims id), rfl, fun _ hg ↦ hg⟩, ?_,
    fun g hg ↦ List.mem_append_right _ (h.drawnWakes g hg),
    fun g hg ↦ List.mem_append_right _ (h.drawnMatches g hg), fun id hid ↦ ?_, henqueues.unique⟩
  · have hjobs := h.jobs
    rw [jobLedger] at hjobs ⊢
    rw [← henqueues.queue] at hjobs
    exact hjobs
  · rcases henqueues.rows id hid with hold | hnew
    · exact List.mem_append_right _ (h.drawnRows id hold)
    · exact List.mem_append_left _ hnew

theorem Inv.claimWakes (h : w.Inv) {limit : ℕ} {claimId : Uuid} {leaseUntil now : Timestamptz}
    {locked : List Uuid} (hallowed : w.Allowed (.claimWakes limit claimId leaseUntil now locked)) :
    Inv { w.run (.claimWakes limit claimId leaseUntil now locked) with
      drawn := claimId :: w.drawn } := by
  have hkeeps := w.tables.claimDueWakes_keepsWakes limit claimId leaseUntil now locked
  set due := w.tables.dueWakes now locked limit
  have hledger : ({ w.run (.claimWakes limit claimId leaseUntil now locked) with
      drawn := claimId :: w.drawn } : World).wakeLedger =
        w.wakeLedger.claim (due.map Sigma.fst) claimId leaseUntil := by
    refine congrArg (fun current ↦ (⟨current, _, _⟩ : Ledger _ _ _)) (funext fun id ↦ ?_)
    change ((Map.mapValues _ w.tables.outbox).lookup id).bind _ = if id ∈ due.map Sigma.fst then
      _ else _
    rw [Map.lookup_mapValues]
    split
    · next hid =>
      obtain ⟨e, he, rfl⟩ := List.mem_map.mp hid
      rw [(Tables.mem_dueWakes he).1]
      simp only [Option.map_some, Option.bind_some]
      rfl
    · next hid =>
      cases hrow : w.tables.outbox.lookup id with
      | none =>
        rw [wakeLedger]
        simp only [hrow]
        rfl
      | some row =>
        rw [wakeLedger]
        simp only [Option.map_some, hrow]
  refine ⟨?_, h.jobs, fun g hg ↦ ?_, fun g hg ↦ List.mem_cons_of_mem _ (h.drawnMatches g hg),
    fun id hid ↦ ?_, ?_⟩
  · rw [hledger]
    have hrows : w.tables.outbox.entries.NodupKeys := w.tables.outbox.nodupKeys
    refine h.wakes.claim (nodup_selectDue (List.NodupKeys.sublist List.filter_sublist hrows) _ _ _)
      (fun g hg heq ↦ hallowed.2.2 claimId List.mem_cons_self (heq ▸ h.drawnWakes g hg))
      (hallowed.1 now rfl) fun id hid c hc ↦ ?_
    obtain ⟨e, he, rfl⟩ := List.mem_map.mp hid
    obtain ⟨hrow, hwakeDue⟩ := Tables.mem_dueWakes he
    change (w.tables.outbox.lookup e.1).bind WakeRow.claim = _ at hc
    rw [hrow, Option.bind_some] at hc
    exact Tables.claimable_of_wakeDue hwakeDue c hc
  · rcases List.mem_append.mp hg with hnew | hold
    · obtain ⟨id, -, rfl⟩ := List.mem_map.mp hnew
      exact List.mem_cons_self
    · exact List.mem_cons_of_mem _ (h.drawnWakes g hold)
  · exact List.mem_cons_of_mem _ (h.drawnRows id (hkeeps.mem id hid))
  · exact h.unique.of_wakes hkeeps

theorem Inv.claimMatches (h : w.Inv) {limit : ℕ} {claimId : Uuid} {leaseUntil now : Timestamptz}
    {locked : List EventId}
    (hallowed : w.Allowed (.claimMatches limit claimId leaseUntil now locked)) :
    Inv { w.run (.claimMatches limit claimId leaseUntil now locked) with
      drawn := claimId :: w.drawn } := by
  set due := w.tables.dueMatches now locked limit
  have hledger : ({ w.run (.claimMatches limit claimId leaseUntil now locked) with
      drawn := claimId :: w.drawn } : World).jobLedger =
        w.jobLedger.claim (due.map Sigma.fst) claimId leaseUntil := by
    refine congrArg (fun current ↦ (⟨current, _, _⟩ : Ledger _ _ _)) (funext fun id ↦ ?_)
    change ((Map.mapValues _ w.tables.queue).lookup id).bind _ = if id ∈ due.map Sigma.fst then _ else _
    rw [Map.lookup_mapValues]
    split
    · next hid =>
      obtain ⟨e, he, rfl⟩ := List.mem_map.mp hid
      rw [(Tables.mem_dueMatches he).1]
      simp only [Option.map_some, Option.bind_some]
    · next hid =>
      cases hjob : w.tables.queue.lookup id with
      | none =>
        rw [jobLedger]
        simp only [hjob]
        rfl
      | some job =>
        rw [jobLedger]
        simp only [Option.map_some, hjob]
  refine ⟨h.wakes, ?_, fun g hg ↦ List.mem_cons_of_mem _ (h.drawnWakes g hg), fun g hg ↦ ?_,
    fun id hid ↦ List.mem_cons_of_mem _ (h.drawnRows id hid), h.unique⟩
  · rw [hledger]
    have hjobs : w.tables.queue.entries.NodupKeys := w.tables.queue.nodupKeys
    refine h.jobs.claim (nodup_selectDue (List.NodupKeys.sublist List.filter_sublist hjobs) _ _ _)
      (fun g hg heq ↦ hallowed.2.2 claimId List.mem_cons_self (heq ▸ h.drawnMatches g hg))
      (hallowed.1 now rfl) fun id hid c hc ↦ ?_
    obtain ⟨e, he, rfl⟩ := List.mem_map.mp hid
    obtain ⟨hjob, hclaimable⟩ := Tables.mem_dueMatches he
    change (w.tables.queue.lookup e.1).bind MatchJob.claim = _ at hc
    rw [hjob, Option.bind_some] at hc
    exact claimable_iff.mp hclaimable c hc
  · rcases List.mem_append.mp hg with hnew | hold
    · obtain ⟨id, -, rfl⟩ := List.mem_map.mp hnew
      exact List.mem_cons_self
    · exact List.mem_cons_of_mem _ (h.drawnMatches g hold)

theorem Inv.step (h : w.Inv) (op : Op) : (w.step op).Inv := by
  rw [World.step]
  split
  · next hallowed =>
    cases op with
    | tick clock =>
      exact ⟨h.wakes.tick (le_max_left _ _), h.jobs.tick (le_max_left _ _), h.drawnWakes,
        h.drawnMatches, h.drawnRows, h.unique⟩
    | enqueueWakes requests now => exact h.enqueueWakes hallowed
    | claimWakes limit claimId leaseUntil now locked => exact h.claimWakes hallowed
    | completeWake id claimId =>
      exact h.of_keeps (h.endWake (f := fun row ↦ { row with state := .delivered }) id claimId
        (fun _ ↦ rfl) fun _ ↦ rfl)
    | retryWake id claimId next =>
      exact h.of_keeps (h.endWake
        (f := fun row ↦ { row with state := .pending, nextAttemptAt := next }) id claimId
        (fun _ ↦ rfl) fun _ ↦ rfl)
    | failWake id claimId =>
      exact h.of_keeps (h.endWake (f := fun row ↦ { row with state := .failed }) id claimId
        (fun _ ↦ rfl) fun _ ↦ rfl)
    | pruneWakes before now => exact h.of_keeps (h.pruneWakes before now)
    | acceptLease => exact ⟨h.wakes, h.jobs, h.drawnWakes, h.drawnMatches, h.drawnRows, h.unique⟩
    | disableEndpoint => exact ⟨h.wakes, h.jobs, h.drawnWakes, h.drawnMatches, h.drawnRows, h.unique⟩
    | enqueueMatch eventId now => exact h.of_keeps (h.enqueueMatch eventId now)
    | claimMatches limit claimId leaseUntil now locked => exact h.claimMatches hallowed
    | completeMatches claimId eventIds => exact h.of_keeps (h.completeMatches claimId eventIds)
    | retryMatches claimId eventIds next => exact h.of_keeps (h.retryMatches claimId eventIds next)
    | reapMatches now => exact h.of_keeps (h.reapMatches (hallowed.1 now rfl))
    | writeEvents => exact ⟨h.wakes, h.jobs, h.drawnWakes, h.drawnMatches, h.drawnRows, h.unique⟩
  · exact h

theorem inv_start (events : EventsTable) (clock : Timestamptz) : (start events clock).Inv where
  wakes := ⟨fun _ _ hc ↦ (by cases hc), List.Pairwise.nil, fun _ hg ↦ (List.not_mem_nil hg).elim⟩
  jobs := ⟨fun _ _ hc ↦ (by cases hc), List.Pairwise.nil, fun _ hg ↦ (List.not_mem_nil hg).elim⟩
  drawnWakes _ hg := (List.not_mem_nil hg).elim
  drawnMatches _ hg := (List.not_mem_nil hg).elim
  drawnRows _ hid := (AList.notMem_empty _ hid).elim
  unique _ _ _ _ ha := by cases ha

theorem inv_run (events : EventsTable) (clock : Timestamptz) (ops : List Op) :
    (ops.foldl step (start events clock)).Inv := by
  have hrun {w : World} (h : w.Inv) : (ops.foldl World.step w).Inv := by
    induction ops generalizing w with
    | nil => exact h
    | cons op ops ih => exact ih (h.step op)
  exact hrun (inv_start events clock)

/-- An operation other than an enqueuing writes no wakes. -/
theorem step_keepsWakes {op : Op} (hop : ∀ requests now, op ≠ .enqueueWakes requests now) :
    KeepsWakes w.tables.outbox (w.step op).tables.outbox := by
  have hself : KeepsWakes w.tables.outbox w.tables.outbox := fun _ row h ↦ ⟨row, h, rfl⟩
  rw [World.step]
  split
  · cases op with
    | enqueueWakes requests now => exact (hop requests now rfl).elim
    | claimWakes limit claimId leaseUntil now locked =>
      exact Tables.claimDueWakes_keepsWakes _ _ _ _ _ _
    | completeWake id claimId => exact Tables.updateFenced_keepsWakes fun _ ↦ rfl
    | retryWake id claimId next => exact Tables.updateFenced_keepsWakes fun _ ↦ rfl
    | failWake id claimId => exact Tables.updateFenced_keepsWakes fun _ ↦ rfl
    | pruneWakes before now => exact Tables.pruneWakeOutbox_keepsWakes _ _ _
    | enqueueMatch eventId now =>
      change KeepsWakes w.tables.outbox (w.tables.enqueueMatch eventId now).outbox
      rw [Tables.enqueueMatch_outbox]
      exact hself
    | _ => exact hself
  · exact hself

def Enqueued (w : World) (ops : List Op) (id : Uuid) (wake : Wake) : Prop :=
  ∃ before requests now after request, ops = before ++ .enqueueWakes requests now :: after ∧
    (request, id) ∈ requests ∧ (before.foldl step w).tables.Requests request wake now

theorem enqueued_of_row (events : EventsTable) (clock : Timestamptz) (ops : List Op) {id : Uuid}
    {row : WakeRow}
    (h : (ops.foldl step (start events clock)).tables.outbox.lookup id = some row) :
    Enqueued (start events clock) ops id row.wake := by
  induction ops using List.reverseRecOn generalizing row with
  | nil => cases h
  | append_singleton ops op ih =>
    rw [List.foldl_concat] at h
    have hlater {wake : Wake} : Enqueued (start events clock) ops id wake →
        Enqueued (start events clock) (ops ++ [op]) id wake := by
      rintro ⟨before, requests, now, after, request, rfl, hmem, hrequests⟩
      exact ⟨before, requests, now, after ++ [op], request, by simp, hmem, hrequests⟩
    by_cases hop : ∃ requests now, op = .enqueueWakes requests now
    · obtain ⟨requests, now, rfl⟩ := hop
      rw [World.step] at h
      split at h
      · rcases Tables.enqueueWakes_made h with hold | ⟨request, hmem, hrequests⟩
        · exact hlater (ih hold)
        · exact ⟨ops, requests, now, [], request, rfl, hmem, hrequests⟩
      · exact hlater (ih h)
    · obtain ⟨old, hold, hwake⟩ :=
        step_keepsWakes (fun requests now heq ↦ hop ⟨requests, now, heq⟩) id row h
      rw [hwake]
      exact hlater (ih hold)

/-- A worker whose claim was taken over cannot settle the wake. -/
theorem Inv.stale_wake (h : w.Inv) {g : Grant Uuid Uuid Timestamptz}
    (hreclaimed : w.wakeLedger.Reclaimed g) (f : WakeRow → WakeRow) :
    w.tables.updateFenced g.key g.token f = (w.tables, false) :=
  Tables.updateFenced_of_ne fun _ hc ↦ h.wakes.ne_of_reclaimed hreclaimed hc

theorem Inv.stale_match (h : w.Inv) {g : Grant EventId Uuid Timestamptz}
    (hreclaimed : w.jobLedger.Reclaimed g) {eventIds : List EventId} {job : MatchJob}
    (hjob : w.tables.queue.lookup g.key = some job) :
    Tables.fencedMatch g.token eventIds g.key job = false := by
  rw [Tables.fencedMatch, Bool.and_eq_false_iff]
  right
  cases hclaim : job.claim with
  | none => rfl
  | some c =>
    have hne := h.jobs.ne_of_reclaimed hreclaimed (c := c) (by
      change (w.tables.queue.lookup g.key).bind MatchJob.claim = _
      rw [hjob, Option.bind_some, hclaim])
    exact decide_eq_false hne

theorem Inv.stale_completeMatches (h : w.Inv) {g : Grant EventId Uuid Timestamptz}
    (hreclaimed : w.jobLedger.Reclaimed g) (eventIds : List EventId) :
    (w.tables.completeMatchBatch g.token eventIds).queue.lookup g.key =
      w.tables.queue.lookup g.key := by
  rw [Tables.completeMatchBatch, Map.lookup_keepEntries]
  cases hjob : w.tables.queue.lookup g.key with
  | none => rfl
  | some job =>
    rw [Option.filter_some, h.stale_match hreclaimed hjob]
    rfl

theorem Inv.stale_retryMatches (h : w.Inv) {g : Grant EventId Uuid Timestamptz}
    (hreclaimed : w.jobLedger.Reclaimed g) (eventIds : List EventId) (next : Timestamptz) :
    (w.tables.retryMatchBatch g.token eventIds next).queue.lookup g.key =
      w.tables.queue.lookup g.key := by
  rw [Tables.retryMatchBatch, Map.lookup_mapValues]
  cases hjob : w.tables.queue.lookup g.key with
  | none => rfl
  | some job =>
    rw [Option.map_some, h.stale_match hreclaimed hjob]
    rfl

/-- Over every interleaving: one live claim for each row, no effect of a claim that was taken over,
no delivery under another lease than the one enqueued for, one row for each endpoint and event. -/
theorem delivery_fenced (events : EventsTable) (clock : Timestamptz) (ops : List Op) :
    let w := ops.foldl step (start events clock)
    w.wakeLedger.OneLive w.clock ∧ w.jobLedger.OneLive w.clock ∧
    (∀ g, w.wakeLedger.Reclaimed g → ∀ next,
      w.tables.completeWake g.key g.token = (w.tables, false) ∧
      w.tables.retryWake g.key g.token next = (w.tables, false) ∧
      w.tables.failWake g.key g.token = (w.tables, false)) ∧
    (∀ g, w.jobLedger.Reclaimed g → ∀ eventIds next,
      (w.tables.completeMatchBatch g.token eventIds).queue.lookup g.key =
        w.tables.queue.lookup g.key ∧
      (w.tables.retryMatchBatch g.token eventIds next).queue.lookup g.key =
        w.tables.queue.lookup g.key) ∧
    (∀ id claimId now wake, w.tables.revalidateWakeForSend id claimId now = .deliver wake →
      ∃ row, w.tables.outbox.lookup id = some row ∧ w.tables.LeaseHolds row.wake now ∧
        Enqueued (start events clock) ops id row.wake) ∧
    w.tables.outbox.KeysUnique := by
  intro w
  have h : w.Inv := inv_run events clock ops
  refine ⟨h.wakes.oneLive, h.jobs.oneLive, fun g hreclaimed next ↦ ?_, fun g hreclaimed ids next ↦ ?_,
    fun id claimId now wake hdeliver ↦ ?_, h.unique⟩
  · exact ⟨h.stale_wake hreclaimed _, h.stale_wake hreclaimed _, h.stale_wake hreclaimed _⟩
  · exact ⟨h.stale_completeMatches hreclaimed ids, h.stale_retryMatches hreclaimed ids next⟩
  · obtain ⟨row, hrow, hholds⟩ := Tables.leaseHolds_of_deliver hdeliver
    exact ⟨row, hrow, hholds, enqueued_of_row events clock ops hrow⟩

end World

end Buzz.Push
