import Buzz.Relay.Subscription

namespace Buzz.Relay

open Buzz.Lib Buzz.Nostr

section PushNew

variable {α β : Type*}

variable [DecidableEq α]

theorem mem_pushNew {keys : List α} {k x : α} : x ∈ pushNew keys k ↔ x ∈ keys ∨ x = k := by
  unfold pushNew
  split
  · next h => exact ⟨.inl, fun hx ↦ hx.elim id (fun hx ↦ hx ▸ h)⟩
  · simp

theorem nodup_pushNew {keys : List α} (h : keys.Nodup) (k : α) : (pushNew keys k).Nodup := by
  unfold pushNew
  split
  · exact h
  · next hk => exact h.append (List.nodup_singleton k) (by simpa using hk)

theorem mem_foldl_pushNew {keys ks : List α} {x : α} :
    x ∈ ks.foldl pushNew keys ↔ x ∈ keys ∨ x ∈ ks := by
  induction ks generalizing keys with
  | nil => simp
  | cons k ks ih => rw [List.foldl_cons, ih, mem_pushNew, List.mem_cons, or_assoc]

theorem mem_foldl_pushNew_map {keys : List α} {bs : List β} {g : β → α} {x : α} :
    x ∈ bs.foldl (fun keys b ↦ pushNew keys (g b)) keys ↔ x ∈ keys ∨ ∃ b ∈ bs, x = g b := by
  rw [← List.foldl_map (f := g) (g := pushNew), mem_foldl_pushNew, List.mem_map]
  simp only [eq_comm]

end PushNew

theorem mem_eventPTagValues {event : StoredEvent} {v : String} :
    v ∈ eventPTagValues event ↔ v ∈ event.event.tagContents "p" := by
  simp [eventPTagValues, mem_foldl_pushNew]

theorem mem_pushKinds_fold {filters : List Filter} {acc kinds : List Kind}
    (h : filters.foldlM pushKinds acc = some kinds) {k : Kind} :
    k ∈ kinds ↔ k ∈ acc ∨ ∃ f ∈ filters, ∃ ks, f.kinds = some ks ∧ k ∈ ks := by
  induction filters generalizing acc with
  | nil =>
    obtain rfl : acc = kinds := by simpa using h
    simp
  | cons f fs ih =>
    rw [List.foldlM_cons] at h
    obtain ⟨acc', hf, hfs⟩ := Option.bind_eq_some_iff.mp h
    obtain ⟨ks, hks, rfl⟩ := Option.map_eq_some_iff.mp hf
    rw [ih hfs, mem_foldl_pushNew]
    simp [hks, ValueSet.mem_def, or_assoc]

theorem mem_extractKindsFromFilters {filters : List Filter} {kinds : List Kind}
    (h : extractKindsFromFilters filters = some kinds) {k : Kind} :
    k ∈ kinds ↔ ∃ f ∈ filters, ∃ ks, f.kinds = some ks ∧ k ∈ ks := by
  rw [mem_pushKinds_fold h]
  simp

theorem kinds_of_extractKindsFromFilters {filters : List Filter} {kinds : List Kind}
    (h : extractKindsFromFilters filters = some kinds) {f : Filter} (hf : f ∈ filters) :
    ∃ ks, f.kinds = some ks := by
  obtain ⟨b₁, b₂, hb⟩ := foldlM_eq_some_of_mem h hf
  obtain ⟨ks, hks, -⟩ := Option.map_eq_some_iff.mp hb
  exact ⟨ks, hks⟩

theorem mem_foldl_keys {c : CommunityId} {acc : List GlobalPKindIndexKey} {ks : List Kind}
    {vs : List String} {key : GlobalPKindIndexKey} :
    key ∈ ks.foldl (fun keys kind ↦
        vs.foldl (fun keys p ↦ pushNew keys ⟨c, kind, p⟩) keys) acc ↔
      key ∈ acc ∨ ∃ k ∈ ks, ∃ v ∈ vs, key = ⟨c, k, v⟩ := by
  induction ks generalizing acc with
  | nil => simp
  | cons k ks ih =>
    rw [List.foldl_cons, ih, mem_foldl_pushNew_map]
    simp [or_assoc]

/-- One filter adds the product of its kinds and its `#p` values. -/
theorem pushGlobalPKindKeys_spec {c : CommunityId} {acc acc' : List GlobalPKindIndexKey}
    {f : Filter} (h : pushGlobalPKindKeys c acc f = some acc') :
    ∃ ks, f.kinds = some ks ∧ (∀ key ∈ acc, key ∈ acc') ∧
      (∀ key ∈ acc', key ∈ acc ∨ key.communityId = c) ∧
      ∀ k ∈ ks, ∃ vs, f.genericTags.lookup .p = some vs ∧
        ∀ v ∈ vs, (⟨c, k, v⟩ : GlobalPKindIndexKey) ∈ acc' := by
  unfold pushGlobalPKindKeys at h
  cases hks : f.kinds with
  | none => simp [hks] at h
  | some ks =>
    simp only [hks] at h
    refine ⟨ks, rfl, ?_⟩
    split at h
    · next hemp =>
      obtain rfl := Option.some.inj h
      refine ⟨fun key hk ↦ hk, fun key hk ↦ .inl hk, fun k hk ↦ ?_⟩
      rw [ValueSet.mem_def, ValueSet.isEmpty_iff.mp hemp] at hk
      exact absurd hk List.not_mem_nil
    · cases hvs : f.genericTags.lookup .p with
      | none => simp [hvs] at h
      | some vs =>
        simp only [hvs] at h
        split at h
        · cases h
        · obtain rfl := Option.some.inj h
          simp only [mem_foldl_keys]
          refine ⟨fun key hk ↦ .inl hk, ?_, fun k hk ↦ ⟨vs, rfl, fun v hv ↦
            .inr ⟨k, hk, v, hv, rfl⟩⟩⟩
          rintro key (hk | ⟨k, _, v, _, rfl⟩)
          · exact .inl hk
          · exact .inr rfl

theorem pushGlobalPKindKeys_fold {c : CommunityId} {filters : List Filter}
    {acc keys : List GlobalPKindIndexKey}
    (h : filters.foldlM (pushGlobalPKindKeys c) acc = some keys) :
    (∀ key ∈ acc, key ∈ keys) ∧ (∀ key ∈ keys, key ∈ acc ∨ key.communityId = c) ∧
    ∀ f ∈ filters, ∃ ks, f.kinds = some ks ∧ ∀ k ∈ ks, ∃ vs, f.genericTags.lookup .p = some vs ∧
      ∀ v ∈ vs, (⟨c, k, v⟩ : GlobalPKindIndexKey) ∈ keys := by
  induction filters generalizing acc with
  | nil =>
    obtain rfl : acc = keys := by simpa using h
    exact ⟨fun _ hk ↦ hk, fun _ hk ↦ .inl hk, by simp⟩
  | cons f fs ih =>
    rw [List.foldlM_cons] at h
    obtain ⟨acc', hf, hfs⟩ := Option.bind_eq_some_iff.mp h
    obtain ⟨ks, hks, hacc, hcomm, hkeys⟩ := pushGlobalPKindKeys_spec hf
    obtain ⟨hmono, hcomm', hrest⟩ := ih hfs
    refine ⟨fun key hk ↦ hmono key (hacc key hk), fun key hk ↦ ?_, ?_⟩
    · exact (hcomm' key hk).elim (hcomm key) .inr
    · rintro g (_ | ⟨_, hg⟩)
      · refine ⟨ks, hks, fun k hk ↦ ?_⟩
        obtain ⟨vs, hvs, hin⟩ := hkeys k hk
        exact ⟨vs, hvs, fun v hv ↦ hmono _ (hin v hv)⟩
      · exact hrest g hg

inductive Slot
  | channelKind (key : CommunityId × IndexKey)
  | channelWildcard (key : CommunityId × Uuid)
  | globalKind (key : CommunityId × Kind)
  | globalPKind (key : GlobalPKindIndexKey)
  | globalWildcard (key : CommunityId)

def slotsOf (entry : SubEntry) : List Slot :=
  match entry.channelId with
  | some chId =>
    match extractKindsFromFilters entry.filters with
    | none => [.channelWildcard (entry.communityId, chId)]
    | some kinds => kinds.map fun kind ↦ .channelKind (entry.communityId, ⟨chId, kind⟩)
  | none =>
    match extractGlobalPKindIndexKeys entry.communityId entry.filters with
    | some keys => keys.map .globalPKind
    | none =>
      match extractKindsFromFilters entry.filters with
      | none => [.globalWildcard entry.communityId]
      | some kinds => kinds.map fun kind ↦ .globalKind (entry.communityId, kind)

def probesOf (c : CommunityId) (event : StoredEvent) : List Slot :=
  match event.channelId with
  | some ch => [.channelKind (c, ⟨ch, event.event.kind⟩), .channelWildcard (c, ch)]
  | none => (eventPTagValues event).map (fun p ↦ .globalPKind ⟨c, event.event.kind, p⟩) ++
      [.globalKind (c, event.event.kind), .globalWildcard c]

/-- What a naive scan of the live subscriptions selects for an event. -/
structure Accepts (c : CommunityId) (event : StoredEvent) (entry : SubEntry) : Prop where
  community : entry.communityId = c
  channel : entry.channelId = event.channelId
  matched : filtersMatch entry.filters event = true

theorem slot_sound {c : CommunityId} {event : StoredEvent} {entry : SubEntry} {s : Slot}
    (hp : s ∈ probesOf c event) (hs : s ∈ slotsOf entry) :
    entry.communityId = c ∧ entry.channelId = event.channelId := by
  unfold probesOf at hp
  unfold slotsOf at hs
  cases hec : event.channelId with
  | some ch =>
    simp only [hec, List.mem_cons, List.not_mem_nil, or_false] at hp
    cases hc : entry.channelId with
    | some chId =>
      cases hk : extractKindsFromFilters entry.filters <;>
        rcases hp with rfl | rfl <;> simp_all
    | none =>
      cases hg : extractGlobalPKindIndexKeys entry.communityId entry.filters <;>
        cases hk : extractKindsFromFilters entry.filters <;>
        rcases hp with rfl | rfl <;> simp_all
  | none =>
    simp only [hec, List.mem_append, List.mem_map, List.mem_cons, List.not_mem_nil,
      or_false] at hp
    cases hc : entry.channelId with
    | some chId =>
      cases hk : extractKindsFromFilters entry.filters <;>
        rcases hp with ⟨p, _, rfl⟩ | rfl | rfl <;> simp_all
    | none =>
      refine ⟨?_, rfl⟩
      cases hg : extractGlobalPKindIndexKeys entry.communityId entry.filters with
      | some keys =>
        have hcomm : ∀ key ∈ keys, key.communityId = entry.communityId := fun key hk ↦
          ((pushGlobalPKindKeys_fold hg).2.1 key hk).elim (fun h ↦ absurd h List.not_mem_nil) id
        rcases hp with ⟨p, _, rfl⟩ | rfl | rfl
        · simp only [hc, hg, List.mem_map, Slot.globalPKind.injEq, exists_eq_right] at hs
          exact (hcomm _ hs).symm
        all_goals simp [hc, hg] at hs
      | none =>
        cases hk : extractKindsFromFilters entry.filters <;>
          rcases hp with ⟨p, _, rfl⟩ | rfl | rfl <;> simp_all

theorem slot_complete {c : CommunityId} {event : StoredEvent} {entry : SubEntry}
    (h : Accepts c event entry) : ∃ s ∈ probesOf c event, s ∈ slotsOf entry := by
  obtain ⟨f, hf, hmatch⟩ := filtersMatch_iff.mp h.matched
  have hkind {kinds : List Kind} (hk : extractKindsFromFilters entry.filters = some kinds)
      {ks : ValueSet Kind} (hks : f.kinds = some ks) : event.event.kind ∈ kinds :=
    (mem_extractKindsFromFilters hk).mpr ⟨f, hf, ks, hks, hmatch.kinds ks hks⟩
  unfold probesOf slotsOf
  rw [h.channel]
  cases hec : event.channelId with
  | some ch =>
    simp only [h.community]
    cases hk : extractKindsFromFilters entry.filters with
    | none => exact ⟨.channelWildcard (c, ch), by simp, by simp⟩
    | some kinds =>
      obtain ⟨ks, hks⟩ := kinds_of_extractKindsFromFilters hk hf
      exact ⟨.channelKind (c, ⟨ch, event.event.kind⟩), by simp,
        List.mem_map.mpr ⟨_, hkind hk hks, rfl⟩⟩
  | none =>
    simp only [h.community]
    cases hg : extractGlobalPKindIndexKeys c entry.filters with
    | some keys =>
      obtain ⟨ks, hks, hkeys⟩ := (pushGlobalPKindKeys_fold hg).2.2 f hf
      obtain ⟨vs, hvs, hin⟩ := hkeys _ (hmatch.kinds ks hks)
      rcases hmatch.tags .p vs hvs with ⟨v, hv, hcontent⟩ | ⟨hph, _⟩
      · refine ⟨.globalPKind ⟨c, event.event.kind, v⟩, ?_, List.mem_map.mpr ⟨_, hin v hv, rfl⟩⟩
        exact List.mem_append_left _ (List.mem_map.mpr ⟨v, mem_eventPTagValues.mpr hcontent, rfl⟩)
      · exact absurd hph (by decide)
    | none =>
      simp only
      cases hk : extractKindsFromFilters entry.filters with
      | none => exact ⟨.globalWildcard c, by simp, by simp⟩
      | some kinds =>
        obtain ⟨ks, hks⟩ := kinds_of_extractKindsFromFilters hk hf
        exact ⟨.globalKind (c, event.event.kind), by simp,
          List.mem_map.mpr ⟨_, hkind hk hks, rfl⟩⟩

end Buzz.Relay
