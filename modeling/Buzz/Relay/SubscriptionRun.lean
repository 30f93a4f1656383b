import Buzz.Relay.SubscriptionScan

namespace Buzz.Relay

open Buzz.Lib Buzz.Nostr

namespace SubscriptionRegistry

variable {r : SubscriptionRegistry} {connId : ConnId} {subId : SubId} {entry : SubEntry}

def bucketAt (r : SubscriptionRegistry) : Slot → List SubKey
  | .channelKind key => r.channelKindIndex.bucket key
  | .channelWildcard key => r.channelWildcardIndex.bucket key
  | .globalKind key => r.globalKindIndex.bucket key
  | .globalPKind key => r.globalPKindIndex.bucket key
  | .globalWildcard key => r.globalWildcardIndex.bucket key

theorem mem_candidates {c : CommunityId} {event : StoredEvent} {x : SubKey} :
    x ∈ r.candidates c event ↔ ∃ s ∈ probesOf c event, x ∈ r.bucketAt s := by
  unfold candidates probesOf
  cases event.channelId with
  | some ch => simp [bucketAt]
  | none =>
    simp only [List.mem_append, List.mem_flatMap, List.mem_map, List.mem_cons, List.not_mem_nil,
      or_false, or_assoc]
    constructor
    · rintro (⟨p, hp, hx⟩ | hx | hx)
      · exact ⟨_, .inl ⟨p, hp, rfl⟩, hx⟩
      · exact ⟨_, .inr (.inl rfl), hx⟩
      · exact ⟨_, .inr (.inr rfl), hx⟩
    · rintro ⟨s, ⟨p, hp, rfl⟩ | rfl | rfl, hx⟩
      · exact .inl ⟨p, hp, hx⟩
      · exact .inr (.inl hx)
      · exact .inr (.inr hx)

theorem subs_addToIndex : (r.addToIndex connId subId entry).subs = r.subs := by
  unfold addToIndex
  cases entry.channelId <;> cases extractKindsFromFilters entry.filters <;>
    cases extractGlobalPKindIndexKeys entry.communityId entry.filters <;> rfl

theorem subs_removeFromIndex : (r.removeFromIndex connId subId entry).subs = r.subs := by
  unfold removeFromIndex
  cases entry.channelId <;> cases extractKindsFromFilters entry.filters <;>
    cases extractGlobalPKindIndexKeys entry.communityId entry.filters <;> rfl

theorem mem_bucketAt_addToIndex {s : Slot} {x : SubKey} :
    x ∈ (r.addToIndex connId subId entry).bucketAt s ↔
      x ∈ r.bucketAt s ∨ (s ∈ slotsOf entry ∧ x = (connId, subId)) := by
  unfold addToIndex slotsOf
  cases entry.channelId with
  | some chId =>
    cases extractKindsFromFilters entry.filters with
    | none =>
      cases s <;> simp [bucketAt, BucketIndex.mem_bucket_push]
    | some kinds =>
      cases s <;> simp [bucketAt, BucketIndex.mem_bucket_pushAll]
  | none =>
    cases extractGlobalPKindIndexKeys entry.communityId entry.filters with
    | some keys =>
      cases s <;> simp [bucketAt, BucketIndex.mem_bucket_pushAll]
    | none =>
      cases extractKindsFromFilters entry.filters with
      | none =>
        cases s <;> simp [bucketAt, BucketIndex.mem_bucket_push]
      | some kinds =>
        cases s <;> simp [bucketAt, BucketIndex.mem_bucket_pushAll]

theorem mem_bucketAt_removeFromIndex {s : Slot} {x : SubKey} :
    x ∈ (r.removeFromIndex connId subId entry).bucketAt s ↔
      x ∈ r.bucketAt s ∧ ¬ (s ∈ slotsOf entry ∧ x = (connId, subId)) := by
  unfold removeFromIndex slotsOf
  cases entry.channelId with
  | some chId =>
    cases extractKindsFromFilters entry.filters with
    | none =>
      cases s <;> simp [bucketAt, BucketIndex.mem_bucket_purge]
    | some kinds =>
      cases s <;> simp [bucketAt, BucketIndex.mem_bucket_purgeAll]
  | none =>
    cases extractGlobalPKindIndexKeys entry.communityId entry.filters with
    | some keys =>
      cases s <;> simp [bucketAt, BucketIndex.mem_bucket_purgeAll]
    | none =>
      cases extractKindsFromFilters entry.filters with
      | none =>
        cases s <;> simp [bucketAt, BucketIndex.mem_bucket_purge]
      | some kinds =>
        cases s <;> simp [bucketAt, BucketIndex.mem_bucket_purgeAll]

/-- The index says exactly what the table of live subscriptions says. -/
def Coherent (r : SubscriptionRegistry) : Prop := Indexed slotsOf r.lookup r.bucketAt

theorem removeSubscription_of_none (h : r.lookup (connId, subId) = none) :
    (r.removeSubscription connId subId).1 = r := by
  unfold removeSubscription
  cases hc : r.subs.lookup connId with
  | none => rfl
  | some connSubs =>
    have hs : connSubs.lookup subId = none := by simpa [lookup, Map.lookup₂, hc] using h
    simp only [hs]

theorem removeSubscription_of_some (h : r.lookup (connId, subId) = some entry) :
    ∃ connSubs, r.subs.lookup connId = some connSubs ∧
      (r.removeSubscription connId subId).1 =
        { r with subs := AList.insert connId (connSubs.erase subId) r.subs }.removeFromIndex
          connId subId entry := by
  obtain ⟨connSubs, hc, hs⟩ := Option.bind_eq_some_iff.mp h
  refine ⟨connSubs, hc, ?_⟩
  unfold removeSubscription
  simp only [hc, hs]

theorem lookup_removeSubscription (r : SubscriptionRegistry) (connId : ConnId) (subId : SubId) :
    (r.removeSubscription connId subId).1.lookup =
      Function.update r.lookup (connId, subId) none := by
  cases hx : r.lookup (connId, subId) with
  | none => rw [removeSubscription_of_none hx, ← hx, Function.update_eq_self]
  | some entry =>
    obtain ⟨connSubs, hc, hr⟩ := removeSubscription_of_some hx
    rw [hr]
    funext x
    simp only [lookup, subs_removeFromIndex]
    exact congrFun (Map.lookup₂_insert_erase hc) x

theorem Coherent.removeSubscription (h : r.Coherent) (connId : ConnId) (subId : SubId) :
    (r.removeSubscription connId subId).1.Coherent := by
  unfold Coherent
  rw [lookup_removeSubscription]
  cases hx : r.lookup (connId, subId) with
  | none =>
    rw [removeSubscription_of_none hx, ← hx, Function.update_eq_self]
    exact h
  | some entry =>
    obtain ⟨connSubs, hc, hr⟩ := removeSubscription_of_some hx
    refine h.remove hx ?_
    intro s y
    rw [hr, mem_bucketAt_removeFromIndex]
    cases s <;> rfl

theorem lookup_registerScoped {communityId : CommunityId} {filters : List Filter}
    {channelId : Option Uuid} :
    (r.registerScoped communityId connId subId filters channelId).1.lookup =
      Function.update r.lookup (connId, subId) (some ⟨filters, communityId, channelId⟩) := by
  have hrem := lookup_removeSubscription r connId subId
  funext x
  unfold registerScoped
  simp only [lookup, subs_addToIndex, Map.lookup₂_insert_insert]
  change Function.update (r.removeSubscription connId subId).1.lookup _ _ x = _
  rw [hrem, Function.update_idem]

theorem Coherent.registerScoped (h : r.Coherent) {communityId : CommunityId}
    {filters : List Filter} {channelId : Option Uuid} :
    (r.registerScoped communityId connId subId filters channelId).1.Coherent := by
  have hrem := h.removeSubscription connId subId
  have hnone : (r.removeSubscription connId subId).1.lookup (connId, subId) = none := by
    rw [lookup_removeSubscription, Function.update_self]
  have hins : Indexed slotsOf _
      (r.registerScoped communityId connId subId filters channelId).1.bucketAt :=
    hrem.insert hnone (v := ⟨filters, communityId, channelId⟩) (by
      intro s y
      unfold SubscriptionRegistry.registerScoped
      simp only [mem_bucketAt_addToIndex]
      cases s <;> rfl)
  unfold Coherent
  rw [lookup_registerScoped]
  rwa [lookup_removeSubscription, Function.update_idem] at hins

/-- Purging the index of a whole connection. -/
theorem mem_bucketAt_purgeEntries {entries : List ((_ : SubId) × SubEntry)} {s : Slot}
    {x : SubKey} :
    x ∈ (entries.foldl (fun r e ↦ r.removeFromIndex connId e.1 e.2) r).bucketAt s ↔
      x ∈ r.bucketAt s ∧ ¬ ∃ e ∈ entries, s ∈ slotsOf e.2 ∧ x = (connId, e.1) := by
  induction entries generalizing r with
  | nil => simp
  | cons e entries ih =>
    rw [List.foldl_cons, ih, mem_bucketAt_removeFromIndex, and_assoc, List.exists_mem_cons_iff,
      not_or]

theorem subs_purgeEntries {entries : List ((_ : SubId) × SubEntry)} :
    (entries.foldl (fun r e ↦ r.removeFromIndex connId e.1 e.2) r).subs = r.subs := by
  induction entries generalizing r with
  | nil => rfl
  | cons e entries ih => rw [List.foldl_cons, ih, subs_removeFromIndex]

theorem lookup_eq_none_of_conn {x : SubKey} (h : r.subs.lookup x.1 = none) :
    r.lookup x = none := by
  rw [lookup, Map.lookup₂, h, Option.bind_none]

theorem lookup_removeConnection {x : SubKey} :
    (r.removeConnection connId).1.lookup x = if x.1 = connId then none else r.lookup x := by
  unfold removeConnection
  cases hc : r.subs.lookup connId with
  | none =>
    split_ifs with hx
    · exact lookup_eq_none_of_conn (hx ▸ hc)
    · rfl
  | some connSubs =>
    simp only [lookup, subs_purgeEntries]
    exact Map.lookup₂_erase

theorem Coherent.removeConnection (h : r.Coherent) : (r.removeConnection connId).1.Coherent := by
  intro s x
  rw [lookup_removeConnection]
  unfold SubscriptionRegistry.removeConnection
  cases hc : r.subs.lookup connId with
  | none =>
    have hsame : (if x.1 = connId then none else r.lookup x) = r.lookup x := by
      split_ifs with hx
      · exact (lookup_eq_none_of_conn (hx ▸ hc)).symm
      · rfl
    rw [hsame]
    exact h s x
  | some connSubs =>
    have hlook (hx : x.1 = connId) {e : SubEntry} :
        r.lookup x = some e ↔ (⟨x.2, e⟩ : (_ : SubId) × SubEntry) ∈ connSubs.entries := by
      rw [Map.mem_entries_iff, lookup, Map.lookup₂, hx, hc, Option.bind_some]
    have hbucket : x ∈ ({ r with subs := r.subs.erase connId } : SubscriptionRegistry).bucketAt s ↔
        ∃ e, r.lookup x = some e ∧ s ∈ slotsOf e := by
      rw [← h s x]
      cases s <;> rfl
    simp only [mem_bucketAt_purgeEntries, hbucket]
    split
    · next hx =>
      simp only [reduceCtorEq, false_and, exists_false, iff_false, not_and, not_not]
      intro ⟨e, he, hs⟩
      exact ⟨_, (hlook hx).mp he, hs, Prod.ext hx rfl⟩
    · next hx =>
      refine and_iff_left ?_
      intro ⟨e, _, _, hx'⟩
      exact hx (congrArg Prod.fst hx')

theorem mem_channelSubIds (r : SubscriptionRegistry) (communityId : CommunityId) (connId : ConnId)
    (channelId : Uuid) (subId : SubId) :
    subId ∈ r.channelSubIds communityId connId channelId ↔
      ∃ entry, r.lookup (connId, subId) = some entry ∧ entry.communityId = communityId ∧
        entry.channelId = some channelId := by
  unfold channelSubIds lookup Map.lookup₂
  cases hc : r.subs.lookup connId with
  | none => simp
  | some connSubs =>
    simp only [List.mem_map, List.mem_filter, Bool.and_eq_true, beq_iff_eq, Option.bind_some]
    constructor
    · rintro ⟨e, ⟨he, h₁, h₂⟩, rfl⟩
      exact ⟨e.2, Map.mem_entries_iff.mp he, h₁, h₂⟩
    · rintro ⟨entry, he, h₁, h₂⟩
      exact ⟨⟨subId, entry⟩, ⟨Map.mem_entries_iff.mpr he, h₁, h₂⟩, rfl⟩

theorem removeCollected_fst (connId : ConnId)
    (acc : SubscriptionRegistry × List (SubId × RemovedSubscription)) (subId : SubId) :
    (removeCollected connId acc subId).1 = (acc.1.removeSubscription connId subId).1 := by
  unfold removeCollected
  rcases acc.1.removeSubscription connId subId with ⟨r', _ | removed⟩
  · rfl
  · rfl

theorem removeCollected_fold {acc : SubscriptionRegistry × List (SubId × RemovedSubscription)}
    (h : acc.1.Coherent) (connId : ConnId) (subIds : List SubId) :
    (subIds.foldl (removeCollected connId) acc).1.Coherent ∧
      ∀ x, (subIds.foldl (removeCollected connId) acc).1.lookup x =
        if x.1 = connId ∧ x.2 ∈ subIds then none else acc.1.lookup x := by
  induction subIds generalizing acc with
  | nil => exact ⟨h, by simp⟩
  | cons subId subIds ih =>
    have hstep := removeCollected_fst connId acc subId
    have hcoh : (removeCollected connId acc subId).1.Coherent := by
      rw [hstep]
      exact h.removeSubscription connId subId
    obtain ⟨hcoh, hlook⟩ := ih hcoh
    refine ⟨hcoh, ?_⟩
    intro x
    rw [List.foldl_cons, hlook, hstep, lookup_removeSubscription]
    by_cases hx : x = (connId, subId)
    · subst hx
      simp
    · rw [Function.update_of_ne hx]
      have hne : x.1 = connId → x.2 ≠ subId := fun h₁ h₂ ↦ hx (Prod.ext h₁ h₂)
      by_cases hc : x.1 = connId
      · simp [hc, hne hc]
      · simp [hc]

theorem Coherent.empty : ({} : SubscriptionRegistry).Coherent := by
  intro s x
  cases s <;> simp [bucketAt, lookup, Map.lookup₂]

end SubscriptionRegistry

/-- What each call means for the table of live subscriptions, indexes left aside. -/
def applyLive (live : SubKey → Option SubEntry) : RegistryOp → SubKey → Option SubEntry
  | .registerScoped communityId connId subId filters channelId =>
    Function.update live (connId, subId) (some ⟨filters, communityId, channelId⟩)
  | .removeSubscription connId subId => Function.update live (connId, subId) none
  | .removeConnection connId => fun x ↦ if x.1 = connId then none else live x
  | .removeChannelSubscriptionsScoped communityId connId channelId => fun x ↦
    if x.1 = connId then
      (live x).filter fun entry ↦
        !(entry.communityId == communityId && entry.channelId == some channelId)
    else live x

def liveAfter (ops : List RegistryOp) : SubKey → Option SubEntry :=
  ops.foldl applyLive fun _ ↦ none

namespace SubscriptionRegistry

variable {r : SubscriptionRegistry}

theorem lookup_removeChannel (h : r.Coherent) {communityId : CommunityId} {connId : ConnId}
    {channelId : Uuid} {x : SubKey} :
    (r.removeChannelSubscriptionsScoped communityId connId channelId).1.lookup x =
      if x.1 = connId then
        (r.lookup x).filter fun entry ↦
          !(entry.communityId == communityId && entry.channelId == some channelId)
      else r.lookup x := by
  have hacc : ((r, []) : SubscriptionRegistry × List (SubId × RemovedSubscription)).1.Coherent := h
  have hlook := (removeCollected_fold hacc connId
    (r.channelSubIds communityId connId channelId)).2 x
  unfold removeChannelSubscriptionsScoped
  rw [hlook]
  by_cases hx : x.1 = connId
  · have hmem := mem_channelSubIds r communityId connId channelId x.2
    have hpair : (connId, x.2) = x := Prod.ext hx.symm rfl
    rw [hpair] at hmem
    simp only [hx, true_and, if_true]
    cases hl : r.lookup x with
    | none => simp
    | some entry =>
      simp only [hl, Option.some.injEq, exists_eq_left'] at hmem
      by_cases he : entry.communityId = communityId ∧ entry.channelId = some channelId
      · rw [if_pos (hmem.mpr he)]
        simp [Option.filter, he.1, he.2]
      · rw [if_neg (he ∘ hmem.mp)]
        simpa [Option.filter] using he
  · simp [hx]

/-- One call keeps the index coherent and does to the table what `applyLive` says. -/
theorem apply_spec (h : r.Coherent) (op : RegistryOp) :
    (r.apply op).Coherent ∧ (r.apply op).lookup = applyLive r.lookup op := by
  cases op with
  | registerScoped communityId connId subId filters channelId =>
    exact ⟨h.registerScoped, lookup_registerScoped⟩
  | removeSubscription connId subId =>
    exact ⟨h.removeSubscription connId subId, lookup_removeSubscription r connId subId⟩
  | removeConnection connId =>
    exact ⟨h.removeConnection, funext fun x ↦ lookup_removeConnection⟩
  | removeChannelSubscriptionsScoped communityId connId channelId =>
    exact ⟨(removeCollected_fold h _ _).1, funext fun x ↦ lookup_removeChannel h⟩

theorem foldl_apply_spec (h : r.Coherent) (ops : List RegistryOp) :
    (ops.foldl apply r).Coherent ∧ (ops.foldl apply r).lookup = ops.foldl applyLive r.lookup := by
  induction ops generalizing r with
  | nil => exact ⟨h, rfl⟩
  | cons op ops ih =>
    obtain ⟨hcoh, hlook⟩ := apply_spec h op
    rw [List.foldl_cons, List.foldl_cons, ← hlook]
    exact ih hcoh

theorem run_spec (ops : List RegistryOp) :
    (run ops).Coherent ∧ (run ops).lookup = liveAfter ops :=
  foldl_apply_spec .empty ops

theorem pushMatch_fold (event : StoredEvent) (xs : List SubKey) {results : List SubKey}
    (h : results.Nodup) :
    (xs.foldl (r.pushMatch event) results).Nodup ∧
      ∀ x, x ∈ xs.foldl (r.pushMatch event) results ↔ x ∈ results ∨ (x ∈ xs ∧
        ∃ entry, r.lookup x = some entry ∧ filtersMatch entry.filters event = true) := by
  induction xs generalizing results with
  | nil => exact ⟨h, by simp⟩
  | cons y xs ih =>
    have hstep : (r.pushMatch event results y).Nodup ∧
        ∀ x, x ∈ r.pushMatch event results y ↔ x ∈ results ∨ (x = y ∧
          ∃ entry, r.lookup x = some entry ∧ filtersMatch entry.filters event = true) := by
      unfold pushMatch
      cases hl : r.lookup y with
      | none =>
        refine ⟨h, fun x ↦ ⟨.inl, ?_⟩⟩
        rintro (hx | ⟨rfl, entry, he, _⟩)
        · exact hx
        · simp [hl] at he
      | some entry =>
        simp only
        split
        · next hm =>
          refine ⟨nodup_pushNew h y, fun x ↦ ?_⟩
          rw [mem_pushNew]
          refine or_congr_right (iff_self_and.mpr ?_)
          rintro rfl
          exact ⟨entry, hl, hm⟩
        · next hm =>
          refine ⟨h, fun x ↦ ⟨.inl, ?_⟩⟩
          rintro (hx | ⟨rfl, entry', he, hm'⟩)
          · exact hx
          · rw [hl] at he
            cases he
            exact absurd hm' hm
    obtain ⟨hnodup, hmem⟩ := ih hstep.1
    refine ⟨hnodup, fun x ↦ ?_⟩
    rw [List.foldl_cons, hmem, hstep.2, List.mem_cons, or_assoc, ← or_and_right]

/-- On a coherent index a fan-out selects what a scan of the whole table selects. -/
theorem Coherent.mem_fanOutScoped (h : r.Coherent) {c : CommunityId} {event : StoredEvent}
    {x : SubKey} :
    x ∈ r.fanOutScoped c event ↔ ∃ entry, r.lookup x = some entry ∧ Accepts c event entry := by
  have hfold := (pushMatch_fold (r := r) event (r.candidates c event) List.nodup_nil).2 x
  unfold fanOutScoped
  rw [hfold, mem_candidates]
  simp only [List.not_mem_nil, false_or]
  have hcover (entry : SubEntry) (hacc : Accepts c event entry) :
      ∃ s ∈ probesOf c event, s ∈ slotsOf entry := slot_complete hacc
  rw [← Indexed.mem_probe_iff h hcover]
  refine and_congr_right ?_
  intro ⟨s, hs, hx⟩
  obtain ⟨entry', hl', hslot⟩ := (h s x).mp hx
  obtain ⟨hcomm, hchan⟩ := slot_sound hs hslot
  refine exists_congr fun entry ↦ and_congr_right fun hl ↦ ⟨fun hm ↦ ?_, Accepts.matched⟩
  rw [hl] at hl'
  cases hl'
  exact ⟨hcomm, hchan, hm⟩

theorem nodup_fanOutScoped (c : CommunityId) (event : StoredEvent) :
    (r.fanOutScoped c event).Nodup :=
  (pushMatch_fold event _ List.nodup_nil).1

/-- After any run of calls, indexed fan-out is the scan of the live subscriptions. -/
theorem fanOutScoped_run_eq_scan (ops : List RegistryOp) (c : CommunityId) (event : StoredEvent) :
    ((run ops).fanOutScoped c event).Nodup ∧
      ∀ x, x ∈ (run ops).fanOutScoped c event ↔
        ∃ entry, liveAfter ops x = some entry ∧ Accepts c event entry := by
  obtain ⟨hcoh, hlook⟩ := run_spec ops
  refine ⟨nodup_fanOutScoped c event, ?_⟩
  intro x
  rw [hcoh.mem_fanOutScoped, hlook]

end SubscriptionRegistry

end Buzz.Relay
