import Mathlib.Data.List.Dedup
import Mathlib.Data.Set.Card
import Buzz.Relay.SubscriptionRun

namespace Buzz.Relay

open Buzz.Lib Buzz.Nostr

namespace SubscriptionRegistry

def totalSubscriptions (r : SubscriptionRegistry) : ℕ :=
  (r.subs.entries.map fun e ↦ e.2.entries.length).sum

def totalConnections (r : SubscriptionRegistry) : ℕ := r.subs.entries.length

def countCommunity (counts : Map CommunityId ℕ) (entry : SubEntry) : Map CommunityId ℕ :=
  AList.insert entry.communityId ((counts.lookup entry.communityId).getD 0 + 1) counts

def perCommunitySubscriptions (r : SubscriptionRegistry) : Map CommunityId ℕ :=
  r.subs.entries.foldl (fun counts e ↦
    e.2.entries.foldl (fun counts sub ↦ countCommunity counts sub.2) counts) ∅

def channelSubscriberConnsScoped (r : SubscriptionRegistry) (communityId : CommunityId)
    (channelId : Uuid) : List ConnId :=
  let byKind := r.channelKindIndex.entries.filter fun e ↦
    e.1.1 == communityId && e.1.2.channelId == channelId
  ((byKind.flatMap (·.2) ++ r.channelWildcardIndex.bucket (communityId, channelId)).map
    Prod.fst).dedup

structure Tidy (r : SubscriptionRegistry) : Prop where
  channelKind : r.channelKindIndex.Tidy
  channelWildcard : r.channelWildcardIndex.Tidy
  globalKind : r.globalKindIndex.Tidy
  globalPKind : r.globalPKindIndex.Tidy
  globalWildcard : r.globalWildcardIndex.Tidy

variable {r : SubscriptionRegistry} {connId : ConnId} {subId : SubId} {entry : SubEntry}

theorem nodup_extractKindsFromFilters {filters : List Filter} {kinds : List Kind}
    (h : extractKindsFromFilters filters = some kinds) : kinds.Nodup := by
  have hacc (filters : List Filter) (acc : List Kind) (hnodup : acc.Nodup) {kinds : List Kind}
      (h : filters.foldlM pushKinds acc = some kinds) : kinds.Nodup := by
    induction filters generalizing acc with
    | nil =>
      obtain rfl : acc = kinds := by simpa using h
      exact hnodup
    | cons f filters ih =>
      rw [List.foldlM_cons] at h
      obtain ⟨acc', hf, hrest⟩ := Option.bind_eq_some_iff.mp h
      obtain ⟨ks, -, rfl⟩ := Option.map_eq_some_iff.mp hf
      refine ih _ ?_ hrest
      exact List.foldlRecOn (motive := List.Nodup) ks.elems pushNew hnodup
        fun acc hacc k _ ↦ nodup_pushNew hacc k
  exact hacc filters [] List.nodup_nil h

theorem nodup_extractGlobalPKindIndexKeys {c : CommunityId} {filters : List Filter}
    {keys : List GlobalPKindIndexKey} (h : extractGlobalPKindIndexKeys c filters = some keys) :
    keys.Nodup := by
  have hproduct (ks : List Kind) (ps : List String) (acc : List GlobalPKindIndexKey)
      (hacc : acc.Nodup) : (ks.foldl (fun keys kind ↦
        ps.foldl (fun keys p ↦ pushNew keys ⟨c, kind, p⟩) keys) acc).Nodup := by
    refine List.foldlRecOn (motive := List.Nodup) ks _ hacc fun acc hacc kind _ ↦ ?_
    exact List.foldlRecOn (motive := List.Nodup) ps _ hacc fun acc hacc p _ ↦ nodup_pushNew hacc _
  have hacc (filters : List Filter) (acc : List GlobalPKindIndexKey) (hnodup : acc.Nodup)
      {keys : List GlobalPKindIndexKey}
      (h : filters.foldlM (pushGlobalPKindKeys c) acc = some keys) : keys.Nodup := by
    induction filters generalizing acc with
    | nil =>
      obtain rfl : acc = keys := by simpa using h
      exact hnodup
    | cons f filters ih =>
      rw [List.foldlM_cons] at h
      obtain ⟨acc', hf, hrest⟩ := Option.bind_eq_some_iff.mp h
      refine ih acc' ?_ hrest
      rw [pushGlobalPKindKeys] at hf
      split at hf
      · cases hf
      split at hf
      · cases hf
        exact hnodup
      split at hf
      · cases hf
      split at hf
      · cases hf
      · cases hf
        exact hproduct _ _ _ hnodup
  exact hacc filters [] List.nodup_nil h

theorem Tidy.addToIndex (h : r.Tidy) (hx : ∀ s, (connId, subId) ∉ r.bucketAt s) :
    (r.addToIndex connId subId entry).Tidy := by
  obtain ⟨channelKind, channelWildcard, globalKind, globalPKind, globalWildcard⟩ := h
  rw [SubscriptionRegistry.addToIndex]
  split
  · next chId _ =>
    split
    · exact ⟨channelKind, channelWildcard.push (hx (.channelWildcard _)), globalKind, globalPKind,
        globalWildcard⟩
    · next kinds hkinds =>
      refine ⟨channelKind.pushAll ?_ fun key _ ↦ hx (.channelKind key), channelWildcard, globalKind,
        globalPKind, globalWildcard⟩
      exact (nodup_extractKindsFromFilters hkinds).map fun a b hab ↦ by simpa using hab
  · split
    · next keys hkeys =>
      exact ⟨channelKind, channelWildcard, globalKind,
        globalPKind.pushAll (nodup_extractGlobalPKindIndexKeys hkeys) fun key _ ↦
          hx (.globalPKind key), globalWildcard⟩
    · split
      · exact ⟨channelKind, channelWildcard, globalKind, globalPKind,
          globalWildcard.push (hx (.globalWildcard _))⟩
      · next kinds hkinds =>
        refine ⟨channelKind, channelWildcard, globalKind.pushAll ?_ fun key _ ↦ hx (.globalKind key),
          globalPKind, globalWildcard⟩
        exact (nodup_extractKindsFromFilters hkinds).map fun a b hab ↦ by simpa using hab

theorem Tidy.removeFromIndex (h : r.Tidy) (connId : ConnId) (subId : SubId) (entry : SubEntry) :
    (r.removeFromIndex connId subId entry).Tidy := by
  obtain ⟨channelKind, channelWildcard, globalKind, globalPKind, globalWildcard⟩ := h
  rw [SubscriptionRegistry.removeFromIndex]
  split
  · split
    · exact ⟨channelKind, channelWildcard.purge _ _, globalKind, globalPKind, globalWildcard⟩
    · exact ⟨channelKind.purgeAll _ _, channelWildcard, globalKind, globalPKind, globalWildcard⟩
  · split
    · exact ⟨channelKind, channelWildcard, globalKind, globalPKind.purgeAll _ _, globalWildcard⟩
    · split
      · exact ⟨channelKind, channelWildcard, globalKind, globalPKind, globalWildcard.purge _ _⟩
      · exact ⟨channelKind, channelWildcard, globalKind.purgeAll _ _, globalPKind, globalWildcard⟩

theorem Tidy.removeSubscription (h : r.Tidy) (connId : ConnId) (subId : SubId) :
    (r.removeSubscription connId subId).1.Tidy := by
  obtain ⟨channelKind, channelWildcard, globalKind, globalPKind, globalWildcard⟩ := h
  rw [SubscriptionRegistry.removeSubscription]
  split
  · constructor <;> assumption
  · split
    · constructor <;> assumption
    · apply Tidy.removeFromIndex
      constructor <;> assumption

theorem mem_subs_removeSubscription {connId connId' : ConnId} {subId : SubId} :
    connId' ∈ (r.removeSubscription connId subId).1.subs ↔ connId' ∈ r.subs := by
  rw [SubscriptionRegistry.removeSubscription]
  split
  · rfl
  · next connSubs hconn =>
    split
    · rfl
    · rw [subs_removeFromIndex, AList.mem_insert, or_iff_right_iff_imp]
      rintro rfl
      exact AList.lookup_isSome.mp (by simp [hconn])

theorem Tidy.registerScoped (h : r.Tidy) (hcoherent : r.Coherent) {communityId : CommunityId}
    {filters : List Filter} {channelId : Option Uuid} :
    (r.registerScoped communityId connId subId filters channelId).1.Tidy := by
  obtain ⟨channelKind, channelWildcard, globalKind, globalPKind, globalWildcard⟩ :=
    h.removeSubscription connId subId
  apply Tidy.addToIndex
  · constructor <;> assumption
  · intro s hs
    have hbucket : (connId, subId) ∈ (r.removeSubscription connId subId).1.bucketAt s := by
      cases s <;> exact hs
    obtain ⟨entry, hentry, -⟩ := (hcoherent.removeSubscription connId subId s _).mp hbucket
    rw [lookup_removeSubscription, Function.update_self] at hentry
    cases hentry

theorem mem_subs_registerScoped {communityId : CommunityId} {filters : List Filter}
    {channelId : Option Uuid} {connId' : ConnId} :
    connId' ∈ (r.registerScoped communityId connId subId filters channelId).1.subs ↔
      connId' = connId ∨ connId' ∈ r.subs := by
  rw [SubscriptionRegistry.registerScoped]
  simp only [subs_addToIndex]
  rw [AList.mem_insert, mem_subs_removeSubscription]

theorem Tidy.removeConnection (h : r.Tidy) (connId : ConnId) :
    (r.removeConnection connId).1.Tidy := by
  obtain ⟨channelKind, channelWildcard, globalKind, globalPKind, globalWildcard⟩ := h
  rw [SubscriptionRegistry.removeConnection]
  split
  · constructor <;> assumption
  · refine List.foldlRecOn (motive := Tidy) _ _ ?_ fun r hr e _ ↦ hr.removeFromIndex connId e.1 e.2
    constructor <;> assumption

theorem mem_subs_removeConnection {connId connId' : ConnId} :
    connId' ∈ (r.removeConnection connId).1.subs ↔ connId' ≠ connId ∧ connId' ∈ r.subs := by
  rw [SubscriptionRegistry.removeConnection]
  split
  · next hnone =>
    have habsent : connId ∉ r.subs := AList.lookup_eq_none.mp hnone
    rw [iff_and_self]
    rintro hmem rfl
    exact habsent hmem
  · rw [subs_purgeEntries, AList.mem_erase]

theorem Tidy.removeChannel (h : r.Tidy) (communityId : CommunityId) (connId : ConnId)
    (channelId : Uuid) : (r.removeChannelSubscriptionsScoped communityId connId channelId).1.Tidy := by
  rw [removeChannelSubscriptionsScoped]
  refine List.foldlRecOn (motive := fun acc : SubscriptionRegistry × List _ ↦ acc.1.Tidy) _ _ h
    fun acc hacc subId _ ↦ ?_
  rw [removeCollected_fst]
  exact hacc.removeSubscription connId subId

theorem mem_subs_removeChannel {communityId : CommunityId} {connId connId' : ConnId}
    {channelId : Uuid} :
    connId' ∈ (r.removeChannelSubscriptionsScoped communityId connId channelId).1.subs ↔
      connId' ∈ r.subs := by
  rw [removeChannelSubscriptionsScoped]
  refine List.foldlRecOn (motive := fun acc : SubscriptionRegistry × List _ ↦
    connId' ∈ acc.1.subs ↔ connId' ∈ r.subs) _ _ .rfl fun acc hacc subId _ ↦ ?_
  rw [removeCollected_fst, mem_subs_removeSubscription]
  exact hacc

end SubscriptionRegistry

def applyOpen (conns : Set ConnId) : RegistryOp → Set ConnId
  | .registerScoped _ connId _ _ _ => insert connId conns
  | .removeConnection connId => conns \ {connId}
  | .removeSubscription _ _ => conns
  | .removeChannelSubscriptionsScoped _ _ _ => conns

def openAfter (ops : List RegistryOp) : Set ConnId := ops.foldl applyOpen ∅

namespace SubscriptionRegistry

variable {r : SubscriptionRegistry}

theorem apply_books (hcoherent : r.Coherent) (h : r.Tidy) (op : RegistryOp) :
    (r.apply op).Tidy ∧ {conn | conn ∈ (r.apply op).subs} = applyOpen {conn | conn ∈ r.subs} op := by
  cases op with
  | registerScoped communityId connId subId filters channelId =>
    exact ⟨h.registerScoped hcoherent, Set.ext fun conn ↦ mem_subs_registerScoped⟩
  | removeSubscription connId subId =>
    exact ⟨h.removeSubscription connId subId, Set.ext fun conn ↦ mem_subs_removeSubscription⟩
  | removeConnection connId =>
    refine ⟨h.removeConnection connId, Set.ext fun conn ↦ ?_⟩
    exact mem_subs_removeConnection.trans and_comm
  | removeChannelSubscriptionsScoped communityId connId channelId =>
    exact ⟨h.removeChannel communityId connId channelId, Set.ext fun conn ↦ mem_subs_removeChannel⟩

theorem foldl_apply_books (hcoherent : r.Coherent) (h : r.Tidy) (ops : List RegistryOp) :
    (ops.foldl apply r).Tidy ∧
      {conn | conn ∈ (ops.foldl apply r).subs} = ops.foldl applyOpen {conn | conn ∈ r.subs} := by
  induction ops generalizing r with
  | nil => exact ⟨h, rfl⟩
  | cons op ops ih =>
    obtain ⟨htidy, hopen⟩ := apply_books hcoherent h op
    rw [List.foldl_cons, List.foldl_cons, ← hopen]
    exact ih (apply_spec hcoherent op).1 htidy

theorem run_books (ops : List RegistryOp) :
    (run ops).Tidy ∧ {conn | conn ∈ (run ops).subs} = openAfter ops := by
  have hempty : ({} : SubscriptionRegistry).Tidy :=
    ⟨BucketIndex.tidy_empty, BucketIndex.tidy_empty, BucketIndex.tidy_empty,
      BucketIndex.tidy_empty, BucketIndex.tidy_empty⟩
  have hnone : {conn | conn ∈ ({} : SubscriptionRegistry).subs} = (∅ : Set ConnId) := by
    ext conn
    simp
  have hrun := foldl_apply_books .empty hempty ops
  rwa [hnone] at hrun

section Counts

variable {α : Type*}

theorem ncard_eq_length {s : Set α} {xs : List α} (hxs : xs.Nodup) (h : ∀ x, x ∈ s ↔ x ∈ xs) :
    s.ncard = xs.length := by
  classical
  have hset : s = ↑xs.toFinset := by
    ext x
    simp [h]
  rw [hset, Set.ncard_coe_finset, List.toFinset_card_of_nodup hxs]

def entries (r : SubscriptionRegistry) : List (SubKey × SubEntry) :=
  r.subs.entries.flatMap fun e ↦ e.2.entries.map fun sub ↦ ((e.1, sub.1), sub.2)

theorem mem_entries {x : SubKey} {entry : SubEntry} :
    (x, entry) ∈ r.entries ↔ r.lookup x = some entry := by
  obtain ⟨connId, subId⟩ := x
  simp only [entries, List.mem_flatMap, List.mem_map, lookup, Map.lookup₂, Option.bind_eq_some_iff,
    Prod.mk.injEq]
  constructor
  · rintro ⟨e, he, sub, hsub, ⟨rfl, rfl⟩, rfl⟩
    exact ⟨e.2, Map.mem_entries_iff.mp he, Map.mem_entries_iff.mp hsub⟩
  · rintro ⟨connSubs, hconn, hsub⟩
    exact ⟨⟨connId, connSubs⟩, Map.mem_entries_iff.mpr hconn, ⟨subId, entry⟩,
      Map.mem_entries_iff.mpr hsub, ⟨rfl, rfl⟩, rfl⟩

theorem nodup_keys_entries : (r.entries.map Prod.fst).Nodup := by
  rw [entries, List.map_flatMap, List.nodup_flatMap]
  constructor
  · intro e _
    have hsubs : (e.2.entries.map Sigma.fst).Nodup := e.2.nodupKeys
    simpa [Function.comp_def] using hsubs.map (Prod.mk_right_injective e.1)
  · have hconns : (r.subs.entries.map Sigma.fst).Nodup := r.subs.nodupKeys
    refine (List.pairwise_map.mp hconns).imp ?_
    intro e e' hne x hx hx'
    simp only [List.map_map, List.mem_map, Function.comp_apply] at hx hx'
    obtain ⟨sub, -, rfl⟩ := hx
    obtain ⟨sub', -, heq⟩ := hx'
    exact hne (congrArg Prod.fst heq).symm

theorem totalSubscriptions_eq : r.totalSubscriptions = {x | r.lookup x ≠ none}.ncard := by
  have hmem (x : SubKey) : x ∈ {x | r.lookup x ≠ none} ↔ x ∈ r.entries.map Prod.fst := by
    simp only [Set.mem_ofPred_eq, Option.ne_none_iff_exists', ← mem_entries, List.mem_map]
    constructor
    · rintro ⟨entry, hentry⟩
      exact ⟨(x, entry), hentry, rfl⟩
    · rintro ⟨⟨x, entry⟩, hentry, rfl⟩
      exact ⟨entry, hentry⟩
  rw [ncard_eq_length nodup_keys_entries hmem, List.length_map, totalSubscriptions, entries,
    List.length_flatMap]
  simp

theorem lookup_foldl_countCommunity (es : List SubEntry) (counts : Map CommunityId ℕ)
    (c : CommunityId) :
    ((es.foldl countCommunity counts).lookup c).getD 0 =
      (counts.lookup c).getD 0 + es.countP (·.communityId = c) := by
  induction es generalizing counts with
  | nil => simp
  | cons e es ih =>
    rw [List.foldl_cons, ih, countCommunity, Map.lookup_insert_eq, List.countP_cons]
    by_cases hc : c = e.communityId
    · subst hc
      simp
      omega
    · simp [hc, Ne.symm hc]

theorem lookup_perCommunitySubscriptions (c : CommunityId) :
    (r.perCommunitySubscriptions.lookup c).getD 0 =
      {x | ∃ entry, r.lookup x = some entry ∧ entry.communityId = c}.ncard := by
  have hflat : r.perCommunitySubscriptions = (r.entries.map Prod.snd).foldl countCommunity ∅ := by
    rw [perCommunitySubscriptions, entries, List.map_flatMap, List.foldl_flatMap]
    simp [List.foldl_map]
  have hmem (x : SubKey) : x ∈ {x | ∃ entry, r.lookup x = some entry ∧ entry.communityId = c} ↔
      x ∈ (r.entries.filter (·.2.communityId = c)).map Prod.fst := by
    simp only [Set.mem_ofPred_eq, ← mem_entries, List.mem_map, List.mem_filter, decide_eq_true_eq]
    constructor
    · rintro ⟨entry, hentry, hc⟩
      exact ⟨(x, entry), ⟨hentry, hc⟩, rfl⟩
    · rintro ⟨⟨x, entry⟩, ⟨hentry, hc⟩, rfl⟩
      exact ⟨entry, hentry, hc⟩
  have hnodup : ((r.entries.filter (·.2.communityId = c)).map Prod.fst).Nodup :=
    nodup_keys_entries.sublist (List.filter_sublist.map _)
  rw [hflat, lookup_foldl_countCommunity, ncard_eq_length hnodup hmem, List.length_map,
    List.countP_map, List.countP_eq_length_filter]
  simp [Function.comp_def]

theorem totalConnections_eq : r.totalConnections = {conn | conn ∈ r.subs}.ncard := by
  have hconns : (r.subs.entries.map Sigma.fst).Nodup := r.subs.nodupKeys
  have hmem (conn : ConnId) : conn ∈ {conn | conn ∈ r.subs} ↔ conn ∈ r.subs.entries.map Sigma.fst :=
    .rfl
  rw [ncard_eq_length hconns hmem, List.length_map, totalConnections]

end Counts

/-- A subscription of a channel is filed there unless its filters name no kind at all. -/
theorem channelSlot_mem_slotsOf {entry : SubEntry} {c : CommunityId} {ch : Uuid} :
    ((∃ kind, Slot.channelKind (c, ⟨ch, kind⟩) ∈ slotsOf entry) ∨
      Slot.channelWildcard (c, ch) ∈ slotsOf entry) ↔
        entry.communityId = c ∧ entry.channelId = some ch ∧
          extractKindsFromFilters entry.filters ≠ some [] := by
  rw [slotsOf]
  cases entry.channelId with
  | some chId =>
    cases extractKindsFromFilters entry.filters with
    | none => simp [eq_comm]
    | some kinds =>
      cases kinds with
      | nil => simp
      | cons kind kinds =>
        simp only [List.mem_map, Slot.channelKind.injEq, Prod.mk.injEq, IndexKey.mk.injEq, ne_eq,
          Option.some.injEq, List.cons_ne_nil, not_false_eq_true, and_true, reduceCtorEq, and_false,
          exists_false, or_false]
        constructor
        · rintro ⟨kind, kind', -, hc, hch, -⟩
          exact ⟨hc, hch⟩
        · rintro ⟨hc, hch⟩
          exact ⟨kind, kind, List.mem_cons_self, hc, hch, rfl⟩
  | none =>
    cases extractGlobalPKindIndexKeys entry.communityId entry.filters with
    | some keys => simp
    | none => cases extractKindsFromFilters entry.filters <;> simp

theorem mem_bucketAt_channelKind {c : CommunityId} {ch : Uuid} {x : SubKey} :
    (∃ e ∈ r.channelKindIndex.entries, (e.1.1 = c ∧ e.1.2.channelId = ch) ∧ x ∈ e.2) ↔
      ∃ kind, x ∈ r.bucketAt (.channelKind (c, ⟨ch, kind⟩)) := by
  simp only [bucketAt, BucketIndex.bucket]
  constructor
  · rintro ⟨⟨⟨c, ⟨ch, kind⟩⟩, xs⟩, he, ⟨rfl, rfl⟩, hx⟩
    exact ⟨kind, by simpa [Map.mem_entries_iff.mp he] using hx⟩
  · rintro ⟨kind, hx⟩
    cases hlookup : r.channelKindIndex.lookup (c, ⟨ch, kind⟩) with
    | none => simp [hlookup] at hx
    | some xs =>
      rw [hlookup] at hx
      exact ⟨_, Map.mem_entries_iff.mpr hlookup, ⟨rfl, rfl⟩, hx⟩

/-- The connections listed are those of a live subscription of the channel that is indexed. -/
theorem mem_channelSubscriberConnsScoped (h : r.Coherent) {c : CommunityId} {ch : Uuid}
    {conn : ConnId} :
    conn ∈ r.channelSubscriberConnsScoped c ch ↔
      ∃ subId entry, r.lookup (conn, subId) = some entry ∧ entry.communityId = c ∧
        entry.channelId = some ch ∧ extractKindsFromFilters entry.filters ≠ some [] := by
  have hlisted : conn ∈ r.channelSubscriberConnsScoped c ch ↔
      ∃ subId, (∃ kind, (conn, subId) ∈ r.bucketAt (.channelKind (c, ⟨ch, kind⟩))) ∨
        (conn, subId) ∈ r.bucketAt (.channelWildcard (c, ch)) := by
    simp only [channelSubscriberConnsScoped, List.mem_dedup, List.mem_map, List.mem_append,
      List.mem_flatMap, List.mem_filter, Bool.and_eq_true, beq_iff_eq, Prod.exists,
      exists_and_right, exists_eq_right]
    refine exists_congr fun subId ↦ or_congr ?_ .rfl
    simpa only [and_assoc] using mem_bucketAt_channelKind (x := (conn, subId))
  rw [hlisted]
  refine exists_congr fun subId ↦ ?_
  constructor
  · rintro (⟨kind, hx⟩ | hx)
    · obtain ⟨entry, hentry, hslot⟩ := (h _ _).mp hx
      exact ⟨entry, hentry, channelSlot_mem_slotsOf.mp (.inl ⟨kind, hslot⟩)⟩
    · obtain ⟨entry, hentry, hslot⟩ := (h _ _).mp hx
      exact ⟨entry, hentry, channelSlot_mem_slotsOf.mp (.inr hslot)⟩
  · rintro ⟨entry, hentry, hfiled⟩
    rcases channelSlot_mem_slotsOf.mpr hfiled with ⟨kind, hslot⟩ | hslot
    · exact .inl ⟨kind, (h _ _).mpr ⟨entry, hentry, hslot⟩⟩
    · exact .inr ((h _ _).mpr ⟨entry, hentry, hslot⟩)

end SubscriptionRegistry

/-- Everything that the registry keeps or counts beside its live subscriptions is right. -/
structure BooksExact (r : SubscriptionRegistry) (live : SubKey → Option SubEntry) : Prop where
  indexed : ∀ s x, x ∈ r.bucketAt s ↔ ∃ entry, live x = some entry ∧ s ∈ slotsOf entry
  tidy : r.Tidy
  subscriptions : r.totalSubscriptions = {x | live x ≠ none}.ncard
  communities : ∀ c, (r.perCommunitySubscriptions.lookup c).getD 0 =
    {x | ∃ entry, live x = some entry ∧ entry.communityId = c}.ncard
  connections : r.totalConnections = {conn | ∃ subId, live (conn, subId) ≠ none}.ncard
  channels : ∀ c ch, (r.channelSubscriberConnsScoped c ch).Nodup ∧
    ∀ conn, conn ∈ r.channelSubscriberConnsScoped c ch ↔ ∃ subId entry,
      live (conn, subId) = some entry ∧ entry.communityId = c ∧ entry.channelId = some ch

/-- A connection that registered keeps a subscription until it is removed as a whole. -/
def KeepsOne (ops : List RegistryOp) : Prop :=
  ∀ conn ∈ openAfter ops, ∃ subId, liveAfter ops (conn, subId) ≠ none

def WantsKind (ops : List RegistryOp) : Prop :=
  ∀ conn subId entry ch, liveAfter ops (conn, subId) = some entry → entry.channelId = some ch →
    ∃ subId' entry', liveAfter ops (conn, subId') = some entry' ∧
      entry'.communityId = entry.communityId ∧ entry'.channelId = some ch ∧
      extractKindsFromFilters entry'.filters ≠ some []

/-- After any run the indexes and the counts of subscriptions are right, and the counts of
connections just in case no connection is left without one. -/
theorem registry_books_exact_iff (ops : List RegistryOp) :
    BooksExact (SubscriptionRegistry.run ops) (liveAfter ops) ↔ KeepsOne ops ∧ WantsKind ops := by
  obtain ⟨hcoherent, hlive⟩ := SubscriptionRegistry.run_spec ops
  obtain ⟨htidy, hopen⟩ := SubscriptionRegistry.run_books ops
  have hconns := (SubscriptionRegistry.run ops).totalConnections_eq
  have hchannels (c : CommunityId) (ch : Uuid) (conn : ConnId) :
      conn ∈ (SubscriptionRegistry.run ops).channelSubscriberConnsScoped c ch ↔ _ :=
    SubscriptionRegistry.mem_channelSubscriberConnsScoped hcoherent
  rw [hopen] at hconns
  rw [← hlive]
  have hsubset : {conn | ∃ subId, (SubscriptionRegistry.run ops).lookup (conn, subId) ≠ none} ⊆
      openAfter ops := by
    rintro conn ⟨subId, hsome⟩
    rw [← hopen]
    by_contra habsent
    exact hsome (SubscriptionRegistry.lookup_eq_none_of_conn (AList.lookup_eq_none.mpr habsent))
  have hfinite : (openAfter ops).Finite := by
    rw [← hopen]
    exact ((SubscriptionRegistry.run ops).subs.entries.map Sigma.fst).finite_toSet
  constructor
  · intro h
    constructor
    · have hall := Set.eq_of_subset_of_ncard_le hsubset (hconns ▸ h.connections).le hfinite
      intro conn hconn
      rw [← hall] at hconn
      rwa [← hlive]
    · intro conn subId entry ch hentry hch
      rw [← hlive] at hentry ⊢
      have hlisted := ((h.channels entry.communityId ch).2 conn).mpr ⟨subId, entry, hentry, rfl, hch⟩
      exact (hchannels entry.communityId ch conn).mp hlisted
  · rintro ⟨hkeeps, hwants⟩
    rw [KeepsOne, ← hlive] at hkeeps
    rw [WantsKind, ← hlive] at hwants
    refine ⟨hcoherent, htidy, SubscriptionRegistry.totalSubscriptions_eq,
      SubscriptionRegistry.lookup_perCommunitySubscriptions, ?_, ?_⟩
    · rw [hconns, hsubset.antisymm hkeeps]
    · intro c ch
      refine ⟨List.nodup_dedup _, fun conn ↦ (hchannels c ch conn).trans ?_⟩
      constructor
      · rintro ⟨subId, entry, hentry, hc, hch, -⟩
        exact ⟨subId, entry, hentry, hc, hch⟩
      · rintro ⟨subId, entry, hentry, rfl, hch⟩
        exact hwants conn subId entry ch hentry hch

/-- A connection whose one subscription was closed is still counted, and one whose channel
subscription names no kind is not found. -/
theorem registry_books_exact_fails :
    ¬BooksExact (SubscriptionRegistry.run [.registerScoped 1 7 "sub" [] none,
      .removeSubscription 7 "sub"]) (liveAfter [.registerScoped 1 7 "sub" [] none,
      .removeSubscription 7 "sub"]) ∧
    ¬BooksExact (SubscriptionRegistry.run [.registerScoped 1 7 "sub"
      [{ kinds := some .empty }] (some 3)]) (liveAfter [.registerScoped 1 7 "sub"
      [{ kinds := some .empty }] (some 3)]) := by
  constructor
  · intro h
    have hnone : {conn : ConnId | ∃ subId, liveAfter [.registerScoped 1 7 "sub" [] none,
        .removeSubscription 7 "sub"] (conn, subId) ≠ none} = ∅ := by
      ext conn
      simp [liveAfter, applyLive]
    have hcount := h.connections
    rw [hnone, Set.ncard_empty] at hcount
    revert hcount
    decide
  · intro h
    have hlisted := ((h.channels 1 3).2 7).mpr ⟨"sub", ⟨[{ kinds := some .empty }], 1, some 3⟩,
      by simp [liveAfter, applyLive], rfl, rfl⟩
    revert hlisted
    decide

end Buzz.Relay
