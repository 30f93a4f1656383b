import Buzz.Lib.Runs
import Buzz.Push.LeaseSpec

namespace Buzz.Push

open Buzz.Lib Buzz.Nostr Buzz.Db

/-- A call of the relay: a lease event that it accepts or refuses, or the gateway's report of an
endpoint that is gone. -/
inductive LeaseOp
  | accept (event : Event) (installationId : String) (generation expiresAt : ℤ)
      (active : Option ActiveLease) (now : Timestamptz)
  | disable (address : Address) (generation : ℤ)

inductive LeaseAnswer
  | accept (result : Except DbError AcceptLeaseOutcome)
  | disable (changed : Bool)

def LeaseTables.step (maxActiveLeases : ℤ) (t : LeaseTables) : LeaseOp → LeaseAnswer × LeaseTables
  | .accept event installationId generation expiresAt active now =>
    let run := t.acceptLeaseEvent event installationId (.ofEvent event generation expiresAt) active
      maxActiveLeases now
    (.accept run.1, run.2)
  | .disable address generation =>
    let run := t.leases.disableEndpointGeneration address generation
    (.disable run.2, { t with leases := run.1 })

def replacement : LeaseOp × LeaseAnswer → Option (Address × LeaseVersion)
  | (.accept event installationId generation expiresAt _ _, .accept (.ok .accepted)) =>
    some ((event.pubkey, installationId), .ofEvent event generation expiresAt)
  | _ => none

def replacements (tr : List (LeaseOp × LeaseAnswer)) : List (Address × LeaseVersion) :=
  tr.filterMap replacement

namespace Leases

def activeOf (leases : Leases) (author : PublicKey) : ℕ :=
  Map.count (fun address row ↦ address.1 = author && row.isActive) leases

def EndpointsUnique (leases : Leases) : Prop :=
  ∀ a b row row' lease, a.1 = b.1 → leases.lookup a = some row → leases.lookup b = some row' →
    row.active = some lease → row'.hasEndpoint lease = true → a = b

variable {leases : Leases} {address : Address} {row row' : LeaseRow}

theorem hasEndpoint_comm {lease lease' : ActiveLease} (h : row.active = some lease)
    (h' : row'.active = some lease') (hendpoint : row'.hasEndpoint lease = true) :
    row.hasEndpoint lease' = true := by
  rw [LeaseRow.hasEndpoint, h', Option.any_some] at hendpoint
  rw [LeaseRow.hasEndpoint, h, Option.any_some]
  simp only [Bool.and_eq_true, decide_eq_true_eq] at hendpoint ⊢
  exact ⟨hendpoint.1.symm, hendpoint.2.symm⟩

/-- A write changes the number of an author's active leases only through the row written. -/
theorem activeOf_insert (leases : Leases) (address : Address) (row : LeaseRow)
    (author : PublicKey) :
    activeOf (AList.insert address row leases) author = activeOf (leases.erase address) author +
      if address.1 = author ∧ row.isActive = true then 1 else 0 := by
  rw [activeOf, Map.count_insert_eq]
  simp [activeOf]

theorem activeOf_eq_add (leases : Leases) (address : Address) (author : PublicKey) :
    leases.activeOf author = activeOf (leases.erase address) author +
      if address.1 = author ∧ (leases.lookup address).any LeaseRow.isActive = true then 1 else 0 := by
  rw [activeOf, Map.count_eq_add address, activeOf]
  cases leases.lookup address <;> simp

theorem activeOf_erase (leases : Leases) (author : PublicKey) (installationId : String) :
    activeOf (leases.erase (author, installationId)) author =
      leases.activeCount author installationId := by
  rw [activeCount, Map.count_eq_add (author, installationId)]
  have hself : ((leases.lookup (author, installationId)).any fun row ↦
      decide (author = author) && row.isActive && decide (installationId ≠ installationId)) =
      false := by
    cases leases.lookup (author, installationId) <;> simp
  rw [hself, if_neg Bool.false_ne_true, Nat.add_zero, activeOf]
  apply Map.count_congr
  intro address row hrow
  by_cases haddress : address = (author, installationId)
  · rw [haddress, AList.lookup_erase] at hrow
    cases hrow
  · by_cases hauthor : address.1 = author
    · have hother : address.2 ≠ installationId := fun h ↦ haddress (Prod.ext hauthor h)
      simp [hother]
    · simp [hauthor]

end Leases

structure LeaseInv (maxActiveLeases : ℤ) (tr : List (LeaseOp × LeaseAnswer)) (t : LeaseTables) :
    Prop where
  rising : (replacements tr).Pairwise fun a b ↦ a.1 = b.1 → b.2.Follows a.2
  latest : ∀ a ∈ replacements tr, ∃ row, t.leases.lookup a.1 = some row ∧
    (row.version = a.2 ∨ row.version.Follows a.2)
  quota : ∀ author, (t.leases.activeOf author : ℤ) ≤ max maxActiveLeases 0
  endpoints : t.leases.EndpointsUnique
  checked : ∀ address row, t.leases.lookup address = some row → Leases.Checked address row.version

section

variable {maxActiveLeases : ℤ} {tr : List (LeaseOp × LeaseAnswer)} {t t' : LeaseTables}
  {event : Event} {installationId : String} {generation expiresAt : ℤ}
  {active : Option ActiveLease} {now : Timestamptz}

theorem quota_of_accepts {version : LeaseVersion} (hquota : ∀ author,
      (t.leases.activeOf author : ℤ) ≤ max maxActiveLeases 0)
    (h : t.Accepts event installationId version active maxActiveLeases t') (author : PublicKey) :
    (t'.leases.activeOf author : ℤ) ≤ max maxActiveLeases 0 := by
  have hbefore := hquota author
  rw [Leases.activeOf_eq_add _ (event.pubkey, installationId)] at hbefore
  rw [h.leases, Leases.activeOf_insert]
  by_cases hnew : event.pubkey = author ∧ active.isSome = true
  · obtain ⟨rfl, hactive⟩ := hnew
    obtain ⟨lease, hlease⟩ := Option.isSome_iff_exists.mp hactive
    have hcount := (h.quota lease hlease).1
    have hself : event.pubkey = event.pubkey ∧ (⟨version, active, true⟩ : LeaseRow).isActive = true :=
      ⟨rfl, hactive⟩
    rw [Leases.activeOf_erase, if_pos hself]
    omega
  · have hself : ¬(event.pubkey = author ∧
        (⟨version, active, true⟩ : LeaseRow).isActive = true) := hnew
    rw [if_neg hself]
    omega

theorem endpointsUnique_of_accepts {version : LeaseVersion} (hunique : t.leases.EndpointsUnique)
    (h : t.Accepts event installationId version active maxActiveLeases t') :
    t'.leases.EndpointsUnique := by
  have hclash (b : Address) (row' : LeaseRow) (lease : ActiveLease) (hactive : active = some lease)
      (hauthor : b.1 = event.pubkey) (hrow' : t.leases.lookup b = some row')
      (hendpoint : row'.hasEndpoint lease = true) : b = (event.pubkey, installationId) := by
    by_contra hne
    have hfree := Leases.endpointTaken_eq_false.mp (h.quota lease hactive).2 b row' hauthor hne hrow'
    rw [hendpoint] at hfree
    cases hfree
  intro a b row row' lease hauthor hrow hrow' hactive hendpoint
  rw [h.leases, Map.lookup_insert_eq] at hrow hrow'
  split at hrow
  · next ha =>
    cases hrow
    split at hrow'
    · next hb => rw [ha, hb]
    · next hb =>
      rw [ha] at hauthor
      exact (hb (hclash b row' lease hactive hauthor.symm hrow' hendpoint)).elim
  · next ha =>
    split at hrow'
    · next hb =>
      cases hrow'
      obtain ⟨lease', hlease', -⟩ := (Option.any_eq_true _ _).mp hendpoint
      have hback := Leases.hasEndpoint_comm hactive hlease' hendpoint
      rw [hb] at hauthor
      exact (ha (hclash a row lease' hlease' hauthor hrow hback)).elim
    · exact hunique a b row row' lease hauthor hrow hrow' hactive hendpoint

theorem replacements_concat_accept (tr : List (LeaseOp × LeaseAnswer)) :
    replacements (tr ++ [(.accept event installationId generation expiresAt active now,
      .accept (.ok .accepted))]) =
      replacements tr ++ [((event.pubkey, installationId), .ofEvent event generation expiresAt)] := by
  rw [replacements, List.filterMap_append]
  rfl

theorem replacements_concat_of_none (tr : List (LeaseOp × LeaseAnswer))
    {answered : LeaseOp × LeaseAnswer}
    (h : replacement answered = none) :
    replacements (tr ++ [answered]) = replacements tr := by
  rw [replacements, List.filterMap_append, List.filterMap_cons, h, List.filterMap_nil,
    List.append_nil]
  rfl

theorem LeaseInv.of_no_replacement (hinv : LeaseInv maxActiveLeases tr t)
    {answered : LeaseOp × LeaseAnswer} (h : replacement answered = none) :
    LeaseInv maxActiveLeases (tr ++ [answered]) t := by
  have htr := replacements_concat_of_none tr h
  exact ⟨htr ▸ hinv.rising, htr ▸ hinv.latest, hinv.quota, hinv.endpoints, hinv.checked⟩

theorem replacement_of_ne {result : Except DbError AcceptLeaseOutcome}
    (h : result ≠ .ok .accepted) :
    replacement (.accept event installationId generation expiresAt active now, .accept result) =
      none := by
  cases result with
  | error e => rfl
  | ok o =>
    cases o with
    | accepted => exact (h rfl).elim
    | staleEvent | staleGeneration | endpointAlreadyLeased | leaseQuotaExceeded
      | sourceEventCollision | constraintViolation => rfl

theorem LeaseInv.of_accepts (hinv : LeaseInv maxActiveLeases tr t)
    (h : t.Accepts event installationId (.ofEvent event generation expiresAt) active
      maxActiveLeases t') :
    LeaseInv maxActiveLeases (tr ++ [(.accept event installationId generation expiresAt active now,
      .accept (.ok .accepted))]) t' where
  rising := by
    rw [replacements_concat_accept, List.pairwise_append]
    refine ⟨hinv.rising, List.pairwise_singleton _ _, fun a ha b hb hab ↦ ?_⟩
    rw [List.mem_singleton] at hb
    subst hb
    obtain ⟨row, hrow, hcase⟩ := hinv.latest a ha
    rw [hab] at hrow
    have hfollows := h.follows row hrow
    rcases hcase with heq | hrowFollows
    · rw [← heq]
      exact hfollows
    · exact hfollows.trans hrowFollows
  latest := by
    intro a ha
    rw [replacements_concat_accept, List.mem_append, List.mem_singleton] at ha
    rw [h.leases, Map.lookup_insert_eq]
    rcases ha with ha | rfl
    · obtain ⟨row, hrow, hcase⟩ := hinv.latest a ha
      split
      · next haddress =>
        rw [haddress] at hrow
        refine ⟨_, rfl, .inr ?_⟩
        have hfollows := h.follows row hrow
        rcases hcase with heq | hrowFollows
        · rw [← heq]
          exact hfollows
        · exact hfollows.trans hrowFollows
      · exact ⟨row, hrow, hcase⟩
    · rw [if_pos rfl]
      exact ⟨_, rfl, .inl rfl⟩
  quota := quota_of_accepts hinv.quota h
  endpoints := endpointsUnique_of_accepts hinv.endpoints h
  checked := by
    intro address row hrow
    rw [h.leases, Map.lookup_insert_eq] at hrow
    split at hrow
    · next haddress =>
      cases hrow
      exact haddress ▸ h.checked
    · exact hinv.checked address row hrow

theorem LeaseInv.disable (hinv : LeaseInv maxActiveLeases tr t) (address : Address)
    (generation : ℤ) :
    LeaseInv maxActiveLeases tr
      { t with leases := (t.leases.disableEndpointGeneration address generation).1 } := by
  unfold Leases.disableEndpointGeneration
  split
  · exact hinv
  · next row hrow =>
    split
    · have hlookup (a : Address) (row' : LeaseRow)
          (h : (AList.insert address { row with endpointEnabled := false } t.leases).lookup a =
            some row') : ∃ old, t.leases.lookup a = some old ∧ row'.version = old.version ∧
              row'.active = old.active := by
        rw [Map.lookup_insert_eq] at h
        split at h
        · next ha =>
          cases h
          exact ⟨row, by rw [ha, hrow], rfl, rfl⟩
        · exact ⟨row', h, rfl, rfl⟩
      refine ⟨hinv.rising, fun a ha ↦ ?_, fun author ↦ ?_, ?_, fun a row' hrow' ↦ ?_⟩
      · obtain ⟨old, hold, hcase⟩ := hinv.latest a ha
        change ∃ row', (AList.insert address _ t.leases).lookup a.1 = some row' ∧ _
        rw [Map.lookup_insert_eq]
        split
        · next haddress =>
          rw [haddress, hrow] at hold
          cases hold
          exact ⟨_, rfl, hcase⟩
        · exact ⟨old, hold, hcase⟩
      · have hbefore := hinv.quota author
        rw [Leases.activeOf_eq_add _ address, hrow] at hbefore
        rw [Leases.activeOf_insert]
        exact hbefore
      · intro a b rowA rowB lease hauthor hrowA hrowB hactive hendpoint
        obtain ⟨oldA, holdA, -, hactiveA⟩ := hlookup a rowA hrowA
        obtain ⟨oldB, holdB, -, hactiveB⟩ := hlookup b rowB hrowB
        refine hinv.endpoints a b oldA oldB lease hauthor holdA holdB (hactiveA ▸ hactive) ?_
        rw [LeaseRow.hasEndpoint] at hendpoint ⊢
        rw [← hactiveB]
        exact hendpoint
      · obtain ⟨old, hold, hversion, -⟩ := hlookup a row' hrow'
        rw [hversion]
        exact hinv.checked a old hold
    · exact hinv

theorem LeaseInv.of_run {events : EventsTable}
    (h : Answers (fun _ _ ↦ True) (LeaseTables.step maxActiveLeases) ⟨events, ∅⟩ tr t) :
    LeaseInv maxActiveLeases tr t := by
  refine Answers.invariant h ?_ ?_
  · refine ⟨.nil, fun a ha ↦ ?_, fun author ↦ le_max_right _ _, ?_, fun address row hrow ↦ ?_⟩
    · cases ha
    · intro a b row row' lease _ hrow
      cases hrow
    · cases hrow
  · intro tr t op hinv _
    cases op with
    | accept event installationId generation expiresAt active now =>
      rcases t.acceptLeaseEvent_cases event installationId (.ofEvent event generation expiresAt)
        active maxActiveLeases now with ⟨haccepts, hanswer⟩ | ⟨hsame, hanswer⟩
      · rw [LeaseTables.step, hanswer]
        exact hinv.of_accepts haccepts
      · rw [LeaseTables.step, hsame]
        exact hinv.of_no_replacement (replacement_of_ne hanswer)
    | disable address generation =>
      exact (hinv.disable address generation).of_no_replacement rfl

end

/-- Over every run: replacements of an address rise in both orders, no author exceeds its quota, no
endpoint of an app profile has two installations of one author, a refusal changes nothing, an
accepted event is the only live one of its address and the source of its row, and `replace_lease`
reports the same as stale for positive generations. -/
theorem leases_move_forward {maxActiveLeases : ℤ} {events : EventsTable}
    {tr : List (LeaseOp × LeaseAnswer)} {t : LeaseTables}
    (h : Answers (fun _ _ ↦ True) (LeaseTables.step maxActiveLeases) ⟨events, ∅⟩ tr t) :
    ((replacements tr).Pairwise fun a b ↦ a.1 = b.1 → b.2.Follows a.2) ∧
      (∀ author, (t.leases.activeOf author : ℤ) ≤ max maxActiveLeases 0) ∧
      t.leases.EndpointsUnique ∧
      (∀ event installationId generation expiresAt active now,
        let run := t.acceptLeaseEvent event installationId (.ofEvent event generation expiresAt)
          active maxActiveLeases now
        (run.1 ≠ .ok .accepted → run.2 = t) ∧
          (run.1 = .ok .accepted →
            (∃ row, run.2.leases.lookup (event.pubkey, installationId) = some row ∧
              row.version.sourceEventId = event.id) ∧
            ∃ time, ∀ key, (∃ row, run.2.events.lookup key = some row ∧
              LeaseTables.isLeaseEvent (event.pubkey, installationId) row = true) ↔
                key = (time, event.id))) ∧
      ∀ event installationId version active now, ∀ o ≠ ReplaceLeaseOutcome.accepted,
        0 < version.generation →
        (∀ other row, t.leases.lookup other = some row →
          row.version.sourceEventId = version.sourceEventId →
            other = (event.pubkey, installationId) ∧
              row.version.sourceCreatedAt = version.sourceCreatedAt) →
        ((t.leases.replaceLease (event.pubkey, installationId) version active).1 = .ok o ↔
          (t.acceptLeaseEvent event installationId version active maxActiveLeases now).1 =
            .ok o.accept) := by
  have hinv := LeaseInv.of_run h
  refine ⟨hinv.rising, hinv.quota, hinv.endpoints, ?_, ?_⟩
  · intro event installationId generation expiresAt active now run
    rcases t.acceptLeaseEvent_cases event installationId (.ofEvent event generation expiresAt)
      active maxActiveLeases now with ⟨haccepts, hanswer⟩ | ⟨hsame, hanswer⟩
    · refine ⟨fun hne ↦ (hne hanswer).elim, fun _ ↦ ⟨?_, haccepts.live_iff⟩⟩
      refine ⟨⟨.ofEvent event generation expiresAt, active, true⟩, ?_, rfl⟩
      rw [haccepts.leases, AList.lookup_insert]
    · exact ⟨fun _ ↦ hsame, fun heq ↦ (hanswer heq).elim⟩
  · intro event installationId version active now o ho hgeneration hsource
    refine t.replaceLease_eq_iff_acceptLeaseEvent_eq event installationId version active
      maxActiveLeases now o ho hsource fun row hrow ↦ ?_
    exact ⟨hgeneration, (hinv.checked _ row hrow).2⟩

def leaseOp (id : EventId) (installationId appProfile : String) : LeaseOp :=
  .accept ⟨id, 1, 5, kindPushLease, [], "", 0⟩ installationId 1 100
    (some ⟨appProfile, 9, "grant", .default, .arr []⟩) 0

def oneInstallation : LeaseTables :=
  (LeaseTables.step 5 ⟨∅, ∅⟩ (leaseOp 1 "phone" "ios-production")).2

def twoInstallations : LeaseTables :=
  (LeaseTables.step 5 oneInstallation (leaseOp 2 "tablet" "ios-sandbox")).2

theorem leases_move_forward_two_installations : twoInstallations.leases.EndpointsUnique :=
  (leases_move_forward (.snoc (leaseOp 2 "tablet" "ios-sandbox")
    (.snoc (leaseOp 1 "phone" "ios-production") .nil trivial) trivial)).2.2.1

/-- One endpoint is active under two installations of an author, for different app profiles; and
for a version whose source event is that of another address, `replace_lease` reports a stale event,
`accept_lease_event` a collision. -/
theorem endpoint_active_twice :
    (twoInstallations.leases.lookup (1, "phone")).bind (fun row ↦ row.active.map (·.endpointHash)) =
        some 9 ∧
      (twoInstallations.leases.lookup (1, "tablet")).bind
        (fun row ↦ row.active.map (·.endpointHash)) = some 9 ∧
      (twoInstallations.leases.replaceLease (1, "phone") ⟨2, 4, 2, 100⟩ none).1 =
        .ok .staleEvent ∧
      (twoInstallations.acceptLeaseEvent ⟨2, 1, 4, kindPushLease, [], "", 0⟩ "phone" ⟨2, 4, 2, 100⟩
        none 5 0).1 = .ok .sourceEventCollision := by
  decide +kernel

end Buzz.Push
