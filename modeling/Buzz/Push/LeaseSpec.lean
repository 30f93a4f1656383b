import Buzz.Push.Leases

namespace Buzz.Push

open Buzz.Lib Buzz.Nostr Buzz.Db

namespace LeaseVersion

/-- Later in both orders. -/
def Follows (version current : LeaseVersion) : Prop :=
  version.WinsEvent current ∧ current.generation < version.generation

theorem WinsEvent.trans {a b c : LeaseVersion} (h : a.WinsEvent b) (h' : b.WinsEvent c) :
    a.WinsEvent c := by
  rcases h with hlt | ⟨heq, hid⟩
  · rcases h' with hlt' | ⟨heq', -⟩
    · exact .inl (hlt'.trans hlt)
    · exact .inl (heq'.symm.trans_lt hlt)
  · rcases h' with hlt' | ⟨heq', hid'⟩
    · exact .inl (hlt'.trans_eq heq.symm)
    · exact .inr ⟨heq.trans heq', Fin.lt_trans hid hid'⟩

theorem Follows.trans {a b c : LeaseVersion} (h : a.Follows b) (h' : b.Follows c) : a.Follows c :=
  ⟨h.1.trans h'.1, h'.2.trans h.2⟩

end LeaseVersion

namespace Leases

variable {leases leases' : Leases} {address other : Address} {version : LeaseVersion}
  {lease : ActiveLease} {active : Option ActiveLease} {row : LeaseRow} {maxActiveLeases : ℤ}

theorem endpointTaken_eq_false : leases.endpointTaken address lease = false ↔
    ∀ other row, other.1 = address.1 → other ≠ address → leases.lookup other = some row →
      row.hasEndpoint lease = false := by
  rw [endpointTaken, Map.otherHas_eq_false]
  constructor
  · intro h other row hauthor hne hrow
    refine h other row hne ?_
    rw [Map.lookup_keepEntries, hrow, Option.filter_some, if_pos (decide_eq_true hauthor)]
  · intro h other row hne hrow
    rw [Map.lookup_keepEntries, Option.filter_eq_some_iff] at hrow
    exact h other row (of_decide_eq_true hrow.2) hne hrow.1

theorem sourceAddress_eq_none {id : EventId} : leases.sourceAddress id = none ↔
    ∀ other row, leases.lookup other = some row → row.version.sourceEventId ≠ id := by
  rw [sourceAddress, Option.map_eq_none_iff, Map.findRow_eq_none]
  simp only [decide_eq_false_iff_not, ne_eq]

theorem checkOrder_eq_ok : leases.checkOrder address version = .ok () ↔
    ∀ row, leases.lookup address = some row → version.Follows row.version := by
  unfold checkOrder
  cases hrow : leases.lookup address with
  | none => simp
  | some row =>
    simp only [ite_error_eq_ok, not_not, not_le, and_true, Option.some.injEq, forall_eq']
    rfl

theorem checkActive_eq_ok (h : leases.checkActive address (some lease) maxActiveLeases = .ok ()) :
    (leases.activeCount address.1 address.2 : ℤ) < maxActiveLeases ∧
      leases.endpointTaken address lease = false := by
  simp only [checkActive, ite_error_eq_ok, not_le, Bool.not_eq_true, and_true] at h
  exact h

theorem checked_of_upsert (h : leases.upsert address version active = .ok leases') :
    Checked address version := by
  obtain ⟨_, hconstraint, -⟩ := bind_eq_ok.mp h
  rw [constraint, ite_error_eq_ok] at hconstraint
  exact not_not.mp hconstraint.1

theorem upsert_eq_ok (h : leases.upsert address version active = .ok leases') :
    leases' = AList.insert address ⟨version, active, true⟩ leases := by
  obtain ⟨-, -, hpure⟩ := bind_eq_ok.mp h
  exact (Except.ok.inj hpure).symm

end Leases

namespace LeaseTables

variable {t t' : LeaseTables} {event : Event} {installationId : String} {version : LeaseVersion}
  {active : Option ActiveLease} {maxActiveLeases : ℤ} {now : Timestamptz}

structure Accepts (t : LeaseTables) (event : Event) (installationId : String)
    (version : LeaseVersion) (active : Option ActiveLease) (maxActiveLeases : ℤ)
    (t' : LeaseTables) : Prop where
  fresh : ∀ other row, t.leases.lookup other = some row →
    row.version.sourceEventId ≠ version.sourceEventId
  follows : ∀ row, t.leases.lookup (event.pubkey, installationId) = some row →
    version.Follows row.version
  checked : Leases.Checked (event.pubkey, installationId) version
  quota : ∀ lease, active = some lease →
    (t.leases.activeCount event.pubkey installationId : ℤ) < maxActiveLeases ∧
      t.leases.endpointTaken (event.pubkey, installationId) lease = false
  leases : t'.leases = AList.insert (event.pubkey, installationId) ⟨version, active, true⟩ t.leases
  events : ∃ time, t'.events =
    AList.insert (time, event.id) ⟨{ event with kind := kindPushLease }, none, some installationId,
      false⟩ (t.events.softDelete fun _ row ↦ isLeaseEvent (event.pubkey, installationId) row)

theorem transaction_eq_ok
    (h : t.transaction event installationId version active maxActiveLeases now = .ok t') :
    t.Accepts event installationId version active maxActiveLeases t' := by
  simp only [transaction, bind_eq_ok] at h
  obtain ⟨_, hsource, _, horder, _, _, _, hactive, events, hevents, leases, hleases, hpure⟩ := h
  cases Except.ok.inj hpure
  refine ⟨?_, Leases.checkOrder_eq_ok.mp horder, Leases.checked_of_upsert hleases, ?_,
    Leases.upsert_eq_ok hleases, ?_⟩
  · apply Leases.sourceAddress_eq_none.mp
    unfold Leases.checkSource at hsource
    split at hsource
    · assumption
    · split at hsource <;> cases hsource
  · rintro lease rfl
    have hroom := Leases.checkActive_eq_ok hactive
    exact hroom
  · simp only [replaceEvent, bind_eq_ok, okOr_eq_ok, ite_error_eq_ok] at hevents
    obtain ⟨time, -, -, hinsert⟩ := hevents
    exact ⟨time, (Except.ok.inj hinsert).symm⟩

theorem acceptLeaseEvent_cases (t : LeaseTables) (event : Event) (installationId : String)
    (version : LeaseVersion) (active : Option ActiveLease) (maxActiveLeases : ℤ)
    (now : Timestamptz) :
    (t.Accepts event installationId version active maxActiveLeases
        (t.acceptLeaseEvent event installationId version active maxActiveLeases now).2 ∧
      (t.acceptLeaseEvent event installationId version active maxActiveLeases now).1 =
        .ok .accepted) ∨
    ((t.acceptLeaseEvent event installationId version active maxActiveLeases now).2 = t ∧
      (t.acceptLeaseEvent event installationId version active maxActiveLeases now).1 ≠
        .ok .accepted) := by
  unfold acceptLeaseEvent
  cases hrun : t.transaction event installationId version active maxActiveLeases now with
  | ok t' => exact .inl ⟨transaction_eq_ok hrun, rfl⟩
  | error refusal =>
    cases refusal with
    | outcome o ho =>
      refine .inr ⟨rfl, ?_⟩
      intro heq
      exact ho (Except.ok.inj heq)
    | error e =>
      refine .inr ⟨rfl, ?_⟩
      intro heq
      cases heq

theorem Accepts.live_iff
    (h : t.Accepts event installationId version active maxActiveLeases t') :
    ∃ time, ∀ key, (∃ row, t'.events.lookup key = some row ∧
      isLeaseEvent (event.pubkey, installationId) row = true) ↔ key = (time, event.id) := by
  obtain ⟨time, hevents⟩ := h.events
  refine ⟨time, fun key ↦ ?_⟩
  rw [hevents, Map.lookup_insert_eq]
  constructor
  · rintro ⟨row, hrow, hlive⟩
    split at hrow
    · assumption
    · rw [EventsTable.lookup_softDelete, Option.map_eq_some_iff] at hrow
      obtain ⟨old, -, rfl⟩ := hrow
      split at hlive
      · simp [isLeaseEvent] at hlive
      · next hold => exact (hold hlive).elim
  · rintro rfl
    rw [if_pos rfl]
    exact ⟨_, rfl, by simp [isLeaseEvent]⟩

end LeaseTables

def Refusal.stale : Refusal → Option ReplaceLeaseOutcome
  | outcome .staleEvent _ => some .staleEvent
  | outcome .staleGeneration _ => some .staleGeneration
  | _ => none

def Stale {α : Type} (o : ReplaceLeaseOutcome) (x : Except Refusal α) : Prop :=
  ∃ r, x = .error r ∧ r.stale = some o

def ReplaceLeaseOutcome.accept : ReplaceLeaseOutcome → AcceptLeaseOutcome
  | accepted => .accepted
  | staleEvent => .staleEvent
  | staleGeneration => .staleGeneration

section

variable {α β : Type} {o : ReplaceLeaseOutcome} {x : Except Refusal α} {f : α → Except Refusal β}

theorem not_stale_ok {a : α} : ¬Stale o (.ok a : Except Refusal α) := by
  rintro ⟨r, hr, -⟩
  cases hr

theorem not_stale_error {r : Refusal} (h : r.stale = none) :
    ¬Stale o (.error r : Except Refusal α) := by
  rintro ⟨r', hr, hstale⟩
  cases hr
  rw [h] at hstale
  cases hstale

theorem stale_bind : Stale o (x >>= f) ↔ Stale o x ∨ ∃ a, x = .ok a ∧ Stale o (f a) := by
  cases x with
  | error r => simp [Stale, bind, Except.bind]
  | ok a => simp [Stale, bind, Except.bind]

theorem not_stale_bind (hx : ¬Stale o x) (hf : ∀ a, ¬Stale o (f a)) : ¬Stale o (x >>= f) := by
  rw [stale_bind]
  rintro (h | ⟨a, -, h⟩)
  · exact hx h
  · exact hf a h

theorem stale_bind_of_not_stale (hf : ∀ a, ¬Stale o (f a)) : Stale o (x >>= f) ↔ Stale o x := by
  rw [stale_bind]
  refine or_iff_left ?_
  rintro ⟨a, -, h⟩
  exact hf a h

end

namespace Leases

variable {leases : Leases} {address : Address} {version : LeaseVersion}
  {active : Option ActiveLease} {o : ReplaceLeaseOutcome}

theorem not_stale_expireLeases {author : PublicKey} {now : Timestamptz} :
    ¬Stale o (leases.expireLeases author now) := by
  unfold expireLeases
  split
  · exact not_stale_error rfl
  · exact not_stale_ok

theorem not_stale_checkActive {maxActiveLeases : ℤ} :
    ¬Stale o (leases.checkActive address active maxActiveLeases) := by
  unfold checkActive
  split
  · exact not_stale_ok
  · split
    · exact not_stale_error rfl
    · split
      · exact not_stale_error rfl
      · exact not_stale_ok

theorem not_stale_upsert : ¬Stale o (leases.upsert address version active) := by
  apply not_stale_bind
  · unfold constraint
    split
    · exact not_stale_error rfl
    · split
      · exact not_stale_error rfl
      · split
        · exact not_stale_error rfl
        · exact not_stale_ok
  · exact fun _ ↦ not_stale_ok

theorem not_stale_replaceEvent {events : EventsTable} {event : Event} {installationId : String}
    {createdAt : ℤ} :
    ¬Stale o (LeaseTables.replaceEvent events event installationId createdAt) := by
  apply not_stale_bind
  · cases fromTimestamp createdAt with
    | none => exact not_stale_error rfl
    | some time => exact not_stale_ok
  · intro time
    simp only
    split
    · exact not_stale_error rfl
    · exact not_stale_ok

theorem upsert_not_stale (leases : Leases) (address : Address) (version : LeaseVersion)
    (active : Option ActiveLease) (ho : o ≠ .accepted) :
    (match leases.upsert address version active with
      | .error _ => ((.error (.database "23505"), leases) : Except DbError ReplaceLeaseOutcome × Leases)
      | .ok leases' => (.ok .accepted, leases')).1 ≠ .ok o := by
  cases leases.upsert address version active with
  | error r =>
    intro h
    cases h
  | ok leases' => exact fun h ↦ ho (Except.ok.inj h).symm

theorem replaceLease_stale (ho : o ≠ .accepted)
    (hchecked : ∀ row, leases.lookup address = some row → Checked address version) :
    (leases.replaceLease address version active).1 = .ok o ↔
      Stale o (leases.checkOrder address version) := by
  have hwrite := upsert_not_stale leases address version active ho
  have hreport {o' : ReplaceLeaseOutcome} {r : Refusal} (hr : r.stale = some o') :
      (.ok o' : Except DbError ReplaceLeaseOutcome) = .ok o ↔
        Stale o (.error r : Except Refusal Unit) := by
    constructor
    · intro h
      exact ⟨r, rfl, by rw [hr, Except.ok.inj h]⟩
    · rintro ⟨r', hr', hstale⟩
      cases hr'
      rw [hr] at hstale
      rw [Option.some.inj hstale]
  unfold replaceLease checkOrder
  cases hrow : leases.lookup address with
  | none =>
    by_cases hnew : Checked address version
    · rw [if_neg (not_not.mpr hnew)]
      exact iff_of_false hwrite not_stale_ok
    · rw [if_pos hnew]
      refine iff_of_false ?_ not_stale_ok
      intro h
      cases h
  | some row =>
    rw [if_neg (not_not.mpr (hchecked row hrow))]
    simp only
    by_cases hwins : version.WinsEvent row.version
    · by_cases hgeneration : row.version.generation < version.generation
      · rw [if_pos ⟨hwins, hgeneration⟩, if_neg (not_not.mpr hwins), if_neg (by omega)]
        exact iff_of_false hwrite not_stale_ok
      · rw [if_neg fun h ↦ hgeneration h.2, if_neg (not_not.mpr hwins), if_neg (not_not.mpr hwins),
          if_pos (by omega)]
        exact hreport rfl
    · rw [if_neg fun h ↦ hwins h.1, if_pos hwins, if_pos hwins]
      exact hreport rfl

end Leases

namespace LeaseTables

/-- Unless the source event is the source of another row, or of the address's own with another time,
`replace_lease` and `accept_lease_event` report the same as stale. -/
theorem replaceLease_eq_iff_acceptLeaseEvent_eq (t : LeaseTables) (event : Event)
    (installationId : String) (version : LeaseVersion) (active : Option ActiveLease)
    (maxActiveLeases : ℤ) (now : Timestamptz) (o : ReplaceLeaseOutcome) (ho : o ≠ .accepted)
    (hsource : ∀ other row, t.leases.lookup other = some row →
      row.version.sourceEventId = version.sourceEventId →
        other = (event.pubkey, installationId) ∧
          row.version.sourceCreatedAt = version.sourceCreatedAt)
    (hchecked : ∀ row, t.leases.lookup (event.pubkey, installationId) = some row →
      Leases.Checked (event.pubkey, installationId) version) :
    (t.leases.replaceLease (event.pubkey, installationId) version active).1 = .ok o ↔
      (t.acceptLeaseEvent event installationId version active maxActiveLeases now).1 =
        .ok o.accept := by
  have haccept : (t.acceptLeaseEvent event installationId version active maxActiveLeases now).1 =
      .ok o.accept ↔
        Stale o (t.transaction event installationId version active maxActiveLeases now) := by
    unfold acceptLeaseEvent
    cases t.transaction event installationId version active maxActiveLeases now with
    | ok t' =>
      refine iff_of_false (fun h ↦ ?_) not_stale_ok
      cases o <;> cases h
      exact ho rfl
    | error r =>
      cases r with
      | error e => exact iff_of_false (fun h ↦ nomatch h) (not_stale_error rfl)
      | outcome o' ho' =>
        cases o' <;> cases o <;> simp [Stale, Refusal.stale, ReplaceLeaseOutcome.accept] at ho ho' ⊢
  rw [haccept, Leases.replaceLease_stale ho hchecked, transaction, stale_bind]
  have hrest (u : Unit) : Stale o (t.leases.checkOrder (event.pubkey, installationId) version) ↔
      Stale o (do
        t.leases.checkOrder (event.pubkey, installationId) version
        t.leases.expireLeases event.pubkey now
        t.leases.checkActive (event.pubkey, installationId) active maxActiveLeases
        let events ← replaceEvent t.events event installationId version.sourceCreatedAt
        let leases ← t.leases.upsert (event.pubkey, installationId) version active
        return (⟨events, leases⟩ : LeaseTables)) := by
    refine (stale_bind_of_not_stale fun _ ↦ ?_).symm
    refine not_stale_bind Leases.not_stale_expireLeases fun _ ↦ ?_
    refine not_stale_bind Leases.not_stale_checkActive fun _ ↦ ?_
    refine not_stale_bind Leases.not_stale_replaceEvent fun _ ↦ ?_
    exact not_stale_bind Leases.not_stale_upsert fun _ ↦ not_stale_ok
  cases hcheck : t.leases.checkSource (event.pubkey, installationId) version with
  | ok u =>
    rw [hrest u]
    constructor
    · exact fun h ↦ .inr ⟨u, rfl, h⟩
    · rintro (h | ⟨u', hu', h⟩)
      · exact (not_stale_ok h).elim
      · exact h
  | error r =>
    rw [Leases.checkSource] at hcheck
    split at hcheck
    · cases hcheck
    · next other hother =>
      obtain ⟨⟨other', row⟩, hfind, heq⟩ := Option.map_eq_some_iff.mp hother
      obtain ⟨hrow, hid⟩ := Map.findRow_spec hfind
      obtain ⟨haddress, htime⟩ := hsource other' row hrow (of_decide_eq_true hid)
      have hnot : ¬version.WinsEvent row.version := by
        rintro (hlt | ⟨-, hlt⟩)
        · exact (htime ▸ hlt).false
        · rw [of_decide_eq_true hid] at hlt
          exact Fin.lt_irrefl _ hlt
      rw [if_pos (heq.symm.trans haddress)] at hcheck
      rw [haddress] at hrow
      rw [Leases.checkOrder, hrow]
      simp only [if_pos hnot]
      rw [hcheck]
      refine ⟨.inl, ?_⟩
      rintro (h | ⟨u, hu, -⟩)
      · exact h
      · cases hu

end LeaseTables

end Buzz.Push
