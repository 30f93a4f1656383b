import Buzz.Desktop.ReadMarkers
import Buzz.Lib.Collections

namespace Buzz.Desktop.ReadState

open Buzz.Lib Buzz.Lib.Utf16

def readStateHorizonSeconds : ℕ := 7 * 24 * 60 * 60

def localMaxPrunableContexts : ℕ := 1000

/-- Dates as texts, in milliseconds: `toISOString`, which throws far in the future, and
`Date.parse`, with none for `NaN`. -/
structure Dates where
  toISOString : ℕ → Option Units
  parse : Units → Option ℤ

def Dates.RoundTrips (D : Dates) : Prop :=
  ∀ ms text, D.toISOString ms = some text → text ≠ [] ∧ D.parse text = some (ms : ℤ)

/-- What is in the local storage, with the JSON texts as what they stand for. -/
structure StoredReadState where
  contexts : List (Units × Units)
  publishableContextIds : List Units
  contextSourceCreatedAt : Record

def isPrunableContextKey (contextId : Units) : Bool := isMsg contextId || isThread contextId

def newestFirst (entries : List Entry) : List Entry := entries.mergeSort fun a b ↦ b.2 ≤ a.2

/-- The messages and threads that are kept. -/
def prunable (contexts : Record) (nowUnixSeconds : ℕ) : List Entry :=
  let cutoff : ℤ := nowUnixSeconds - readStateHorizonSeconds
  let recent := contexts.filter fun e ↦ isPrunableContextKey e.1 && decide (cutoff ≤ e.2)
  if localMaxPrunableContexts < recent.length then
    (newestFirst recent).take localMaxPrunableContexts
  else recent

def pruneStaleContexts (contexts : Record) (nowUnixSeconds : ℕ) : Record :=
  (prunable contexts nowUnixSeconds).foldl (fun kept e ↦ setEntry e kept)
    (contexts.filter fun e ↦ !isPrunableContextKey e.1)

/-- The three texts that are written, unless a date throws. -/
def writeStoredReadState (D : Dates) (contexts : Markers) (publishableContextIds : List Units)
    (contextSourceCreatedAt : Markers) (nowUnixSeconds : ℕ) : Option StoredReadState := do
  let pruned := pruneStaleContexts contexts.entries nowUnixSeconds
  let dates ← pruned.mapM fun e ↦ (D.toISOString (e.2 * 1000)).map (e.1, ·)
  return {
    contexts := dates.foldl assign []
    publishableContextIds :=
      publishableContextIds.filter fun id ↦ (pruned.lookup id).isSome
    contextSourceCreatedAt :=
      (contextSourceCreatedAt.entries.filter fun e ↦ (pruned.lookup e.1).isSome).foldl assign [] }

def localIsoToUnixSeconds (D : Dates) (value : Units) : Option ℤ :=
  if value = [] then none else (D.parse value).map fun ms ↦ ms / 1000

def mergeLocalStorageKey (D : Dates) (contexts : Markers) (stored : List (Units × Units)) :
    Markers :=
  stored.foldl (fun contexts e ↦
    match localIsoToUnixSeconds D e.2 with
    | none => contexts
    | some unixSeconds =>
      if (contexts.marker e.1 : ℤ) < unixSeconds then contexts.set e.1 unixSeconds.toNat
      else contexts) contexts

def hydrateFromLocalStorage (D : Dates) (m : Manager) (stored : StoredReadState) : Manager :=
  let contexts := mergeLocalStorageKey D .empty stored.contexts
  { m with
    effectiveState := contexts.entries.foldl (fun state e ↦ state.set e.1 e.2) m.effectiveState
    publishableContextIds := stored.publishableContextIds.foldl addKey m.publishableContextIds
    contextSourceCreatedAt :=
      stored.contextSourceCreatedAt.foldl (fun state e ↦ state.set e.1 e.2)
        m.contextSourceCreatedAt }

section Prune

variable {contexts : Record} {now : ℕ}

theorem isPrunableContextKey_eq (key : Units) : isPrunableContextKey key = !isChannel key := by
  rw [isChannel, Bool.not_not, isPrunableContextKey]

def recent (contexts : Record) (now : ℕ) : List Entry :=
  contexts.filter fun e ↦
    isPrunableContextKey e.1 && decide ((now : ℤ) - readStateHorizonSeconds ≤ e.2)

theorem prunable_eq : prunable contexts now =
    if localMaxPrunableContexts < (recent contexts now).length then
      (newestFirst (recent contexts now)).take localMaxPrunableContexts
    else recent contexts now := rfl

theorem subperm_prunable (contexts : Record) (now : ℕ) :
    (prunable contexts now).Subperm (recent contexts now) := by
  rw [prunable_eq]
  split_ifs
  · exact (List.take_sublist _ _).subperm.trans (List.mergeSort_perm _ _).subperm
  · exact List.Subperm.refl _

theorem of_mem_prunable {e : Entry} (he : e ∈ prunable contexts now) :
    e ∈ contexts ∧ isChannel e.1 = false ∧ (now : ℤ) - readStateHorizonSeconds ≤ e.2 := by
  have hin := (subperm_prunable contexts now).subset he
  rw [recent, List.mem_filter, Bool.and_eq_true, decide_eq_true_eq, isPrunableContextKey_eq,
    Bool.not_eq_true'] at hin
  exact hin

def pruned (contexts : Record) (now : ℕ) : Record :=
  (contexts.filter fun e ↦ isChannel e.1) ++ prunable contexts now

theorem nodup_pruned (hkeys : (contexts.map Prod.fst).Nodup) (now : ℕ) :
    ((pruned contexts now).map Prod.fst).Nodup := by
  rw [pruned, List.map_append, List.nodup_append]
  refine ⟨hkeys.sublist (List.filter_sublist.map Prod.fst), ?_, ?_⟩
  · obtain ⟨l, hperm, hsub⟩ := subperm_prunable contexts now
    exact (hperm.map Prod.fst).nodup_iff.mp
      (hkeys.sublist ((hsub.trans List.filter_sublist).map Prod.fst))
  · intro key hkey key' hkey' heq
    obtain ⟨e, he, rfl⟩ := List.mem_map.mp hkey
    obtain ⟨e', he', rfl⟩ := List.mem_map.mp hkey'
    have hchannel := (List.mem_filter.mp he).2
    rw [heq, (of_mem_prunable he').2.1] at hchannel
    cases hchannel

theorem pruneStaleContexts_eq (hkeys : (contexts.map Prod.fst).Nodup) :
    pruneStaleContexts contexts now = pruned contexts now := by
  have hkept : (contexts.filter fun e ↦ !isPrunableContextKey e.1) =
      contexts.filter fun e ↦ isChannel e.1 :=
    List.filter_congr fun e _ ↦ by rw [isPrunableContextKey_eq, Bool.not_not]
  rw [pruneStaleContexts, hkept]
  exact foldl_setEntry (nodup_pruned hkeys _)

theorem pruned_subset {e : Entry} (he : e ∈ pruned contexts now) : e ∈ contexts := by
  rcases List.mem_append.mp he with he | he
  · exact (List.mem_filter.mp he).1
  · exact (of_mem_prunable he).1

/-- What is not kept is past the horizon, or as many as the cap are newer. -/
theorem of_not_mem_pruned {e : Entry} (he : e ∈ contexts) (hout : e ∉ pruned contexts now) :
    isChannel e.1 = false ∧ ((e.2 : ℤ) < now - readStateHorizonSeconds ∨
      (prunable contexts now).length = localMaxPrunableContexts ∧
        ∀ e' ∈ prunable contexts now, e.2 ≤ e'.2) := by
  rw [pruned, List.mem_append, not_or, List.mem_filter] at hout
  have hchannel : isChannel e.1 = false := by
    by_contra hnot
    exact hout.1 ⟨he, by simpa using hnot⟩
  refine ⟨hchannel, ?_⟩
  by_cases hhorizon : (e.2 : ℤ) < now - readStateHorizonSeconds
  · exact .inl hhorizon
  · right
    have hrecent : e ∈ recent contexts now := by
      rw [recent, List.mem_filter, isPrunableContextKey_eq, hchannel]
      exact ⟨he, decide_eq_true (not_lt.mp hhorizon)⟩
    have hkept := hout.2
    rw [prunable_eq] at hkept ⊢
    split_ifs at hkept ⊢ with hcap
    · refine ⟨?_, fun e' he' ↦ ?_⟩
      · rw [List.length_take, newestFirst, List.length_mergeSort]
        omega
      · have hsorted : (newestFirst (recent contexts now)).Pairwise
            fun a b ↦ decide (b.2 ≤ a.2) = true :=
          List.pairwise_mergeSort
            (fun a b c hab hbc ↦
              decide_eq_true ((of_decide_eq_true hbc).trans (of_decide_eq_true hab)))
            (fun a b ↦ by simp [Nat.le_total]) _
        have hall : e ∈ newestFirst (recent contexts now) := List.mem_mergeSort.mpr hrecent
        rw [← List.take_append_drop localMaxPrunableContexts (newestFirst _), List.mem_append]
          at hall
        rw [← List.take_append_drop localMaxPrunableContexts (newestFirst _),
          List.pairwise_append] at hsorted
        exact of_decide_eq_true (hsorted.2.2 e' he' e (hall.resolve_left hkept))
    · exact absurd hrecent hkept

end Prune

section RoundTrip

variable {D : Dates}

def Dated (D : Dates) (entries : Record) (dates : List (Units × Units)) : Prop :=
  List.Forall₂ (fun e d ↦ d.1 = e.1 ∧ D.toISOString (e.2 * 1000) = some d.2) entries dates

theorem dated_of_mapM {entries : Record} {dates : List (Units × Units)}
    (h : entries.mapM (fun e ↦ (D.toISOString (e.2 * 1000)).map (e.1, ·)) = some dates) :
    Dated D entries dates := by
  induction entries generalizing dates with
  | nil =>
    cases h
    exact .nil
  | cons e entries ih =>
    rw [List.mapM_cons] at h
    obtain ⟨d, hd, h⟩ := Option.bind_eq_some_iff.mp h
    obtain ⟨rest, hrest, h⟩ := Option.bind_eq_some_iff.mp h
    obtain ⟨text, htext, rfl⟩ := Option.map_eq_some_iff.mp hd
    cases h
    exact .cons ⟨rfl, htext⟩ (ih hrest)

theorem Dated.keys {entries : Record} {dates : List (Units × Units)} (h : Dated D entries dates) :
    dates.map Prod.fst = entries.map Prod.fst := by
  induction h with
  | nil => rfl
  | cons hd _ ih => rw [List.map_cons, List.map_cons, hd.1, ih]

theorem localIsoToUnixSeconds_eq (hD : D.RoundTrips) {ts : ℕ} {text : Units}
    (h : D.toISOString (ts * 1000) = some text) : localIsoToUnixSeconds D text = some (ts : ℤ) := by
  obtain ⟨hne, hparse⟩ := hD _ _ h
  rw [localIsoToUnixSeconds, if_neg hne, hparse, Option.map_some]
  rw [Nat.cast_mul]
  exact congrArg some (Int.mul_ediv_cancel _ (by decide))

/-- Fresh positive markers are read back as they were. -/
theorem mergeLocalStorageKey_eq (hD : D.RoundTrips) {entries : Record}
    {dates : List (Units × Units)} (h : Dated D entries dates) {m : Markers}
    (hkeys : ((m.entries ++ entries).map Prod.fst).Nodup) (hpositive : ∀ e ∈ entries, 0 < e.2) :
    (mergeLocalStorageKey D m dates).entries = m.entries ++ entries := by
  induction h generalizing m with
  | nil => exact (List.append_nil _).symm
  | @cons e d entries dates hd _ ih =>
    obtain ⟨hpos, hrest⟩ := List.forall_mem_cons.mp hpositive
    have hfresh : e.1 ∉ m.entries.map Prod.fst := by
      rw [List.map_append, List.nodup_append] at hkeys
      exact fun hin ↦ hkeys.2.2 _ hin _ List.mem_cons_self rfl
    have hdate : localIsoToUnixSeconds D d.2 = some (e.2 : ℤ) := localIsoToUnixSeconds_eq hD hd.2
    have habsent : m.marker e.1 = 0 := by
      rw [Markers.marker, Markers.get, List.lookup_eq_none_iff.mpr]
      · rfl
      · intro e' he'
        rw [bne_iff_ne]
        exact fun heq ↦ hfresh (heq ▸ List.mem_map_of_mem he')
    have hstep : mergeLocalStorageKey D m (d :: dates) =
        mergeLocalStorageKey D (m.set e.1 e.2) dates := by
      rw [mergeLocalStorageKey, List.foldl_cons, hdate, hd.1, habsent]
      dsimp only
      rw [if_pos (by exact_mod_cast hpos), Int.toNat_natCast]
      rfl
    have hset : (m.set e.1 e.2).entries = m.entries ++ [e] := setEntry_of_fresh hfresh
    rw [hstep, ih _ hrest, hset, List.append_assoc, List.singleton_append]
    rwa [hset, List.append_assoc, List.singleton_append]

theorem entries_foldl_set (entries : Record) (m : Markers) :
    (entries.foldl (fun state e ↦ state.set e.1 e.2) m).entries =
      entries.foldl (fun r e ↦ setEntry e r) m.entries := by
  induction entries generalizing m with
  | nil => rfl
  | cons e entries ih => exact ih _

theorem mem_foldl_addKey {keys set : List Units} {key : Units} :
    key ∈ keys.foldl addKey set ↔ key ∈ set ∨ key ∈ keys := by
  induction keys generalizing set with
  | nil => simp
  | cons key' keys ih =>
    rw [List.foldl_cons, ih, addKey]
    split_ifs with hin
    · rw [List.mem_cons]
      constructor
      · exact fun h ↦ h.imp_right .inr
      · rintro (h | rfl | h)
        · exact .inl h
        · exact .inl hin
        · exact .inr h
    · rw [List.mem_append, List.mem_singleton, List.mem_cons, or_assoc]

theorem Markers.get_eq_some {m : Markers} {key : Units} {ts : ℕ} :
    m.get key = some ts ↔ (key, ts) ∈ m.entries := by
  constructor
  · intro h
    obtain ⟨l₁, l₂, heq, -⟩ := List.lookup_eq_some_iff.mp h
    rw [heq]
    simp
  · exact lookup_of_mem m.nodup

/-- The markers that a new manager finds are those that were kept. -/
theorem entries_hydrate (hD : D.RoundTrips) {m fresh : Manager} {now : ℕ} {stored : StoredReadState}
    (hfresh : fresh.effectiveState = .empty) (hpositive : Positive m.effectiveState)
    (hproto : m.effectiveState.get proto = none)
    (hwrite : writeStoredReadState D m.effectiveState m.publishableContextIds
      m.contextSourceCreatedAt now = some stored) :
    (hydrateFromLocalStorage D fresh stored).effectiveState.entries =
      pruned m.effectiveState.entries now := by
  obtain ⟨dates, hdates, hstored⟩ := Option.bind_eq_some_iff.mp hwrite
  rw [pruneStaleContexts_eq m.effectiveState.nodup] at hdates
  have hdated := dated_of_mapM hdates
  have hnodup := nodup_pruned m.effectiveState.nodup now
  have hget {e : Entry} (he : e ∈ pruned m.effectiveState.entries now) :
      m.effectiveState.get e.1 = some e.2 := Markers.get_eq_some.mpr (pruned_subset he)
  have hnames : ∀ d ∈ dates, d.1 ≠ proto := by
    intro d hd heq
    have hin := List.mem_map_of_mem hd (f := Prod.fst)
    rw [hdated.keys] at hin
    obtain ⟨e, he, hfst⟩ := List.mem_map.mp hin
    have hsome := hget he
    rw [hfst, heq, hproto] at hsome
    cases hsome
  have hentries : ∀ e ∈ pruned m.effectiveState.entries now, 0 < e.2 := by
    intro e he
    by_contra hzero
    apply hpositive e.1
    rw [hget he, Nat.eq_zero_of_not_pos hzero]
  have hcontexts : stored.contexts = dates := by
    cases hstored
    refine foldl_assign ?_ hnames
    rw [List.nil_append, hdated.keys]
    exact hnodup
  have hmerged := mergeLocalStorageKey_eq hD hdated (m := .empty) hnodup hentries
  rw [hydrateFromLocalStorage, hcontexts]
  dsimp only
  rw [entries_foldl_set, hmerged, hfresh]
  exact foldl_setEntry hnodup

/-- What is written and then read by a new manager: every channel as it was, no other marker than
there was, and of the messages and threads all but those past the horizon or beyond the cap, of
which the newest are kept; and what is kept stays publishable. -/
theorem stored_markers (D : Dates) (hD : D.RoundTrips) (m fresh : Manager) (now : ℕ)
    (stored : StoredReadState) (hfresh : fresh.effectiveState = .empty)
    (hfresh' : fresh.publishableContextIds = []) (hpositive : Positive m.effectiveState)
    (hproto : m.effectiveState.get proto = none)
    (hwrite : writeStoredReadState D m.effectiveState m.publishableContextIds
      m.contextSourceCreatedAt now = some stored) :
    let m' := hydrateFromLocalStorage D fresh stored
    (∀ key, isChannel key = true → m'.effectiveState.get key = m.effectiveState.get key) ∧
      (∀ key ts, m'.effectiveState.get key = some ts → m.effectiveState.get key = some ts) ∧
      (∀ key ts, m.effectiveState.get key = some ts → m'.effectiveState.get key = none →
        isChannel key = false ∧ ((ts : ℤ) < now - readStateHorizonSeconds ∨
          ∃ kept : List Entry, kept.length = localMaxPrunableContexts ∧
            (kept.map Prod.fst).Nodup ∧ ∀ e ∈ kept, isChannel e.1 = false ∧
              m'.effectiveState.get e.1 = some e.2 ∧ ts ≤ e.2)) ∧
      ∀ id, id ∈ m'.publishableContextIds ↔
        id ∈ m.publishableContextIds ∧ (m'.effectiveState.get id).isSome := by
  intro m'
  have hentries := entries_hydrate hD hfresh hpositive hproto hwrite
  have hget {key : Units} {ts : ℕ} : m'.effectiveState.get key = some ts ↔
      (key, ts) ∈ pruned m.effectiveState.entries now := by
    rw [Markers.get_eq_some, hentries]
  have hsub {key : Units} {ts : ℕ} (h : m'.effectiveState.get key = some ts) :
      m.effectiveState.get key = some ts := Markers.get_eq_some.mpr (pruned_subset (hget.mp h))
  refine ⟨fun key hkey ↦ ?_, fun key ts ↦ hsub, fun key ts hin hout ↦ ?_, fun id ↦ ?_⟩
  · apply Option.ext
    intro ts
    constructor
    · exact hsub
    · intro hin
      refine hget.mpr (List.mem_append_left _ (List.mem_filter.mpr ⟨?_, hkey⟩))
      exact Markers.get_eq_some.mp hin
  · have hgone : (key, ts) ∉ pruned m.effectiveState.entries now := by
      rw [← hget, hout]
      exact Option.some_ne_none _ ∘ Eq.symm
    obtain ⟨hchannel, hwhy⟩ := of_not_mem_pruned (Markers.get_eq_some.mp hin) hgone
    refine ⟨hchannel, hwhy.imp_right fun ⟨hlength, hnewer⟩ ↦
      ⟨prunable m.effectiveState.entries now, hlength, ?_, fun e he ↦ ⟨?_, ?_, hnewer e he⟩⟩⟩
    · have hnodup := nodup_pruned m.effectiveState.nodup now
      rw [pruned, List.map_append] at hnodup
      exact hnodup.of_append_right
    · exact (of_mem_prunable he).2.1
    · exact hget.mpr (List.mem_append_right _ he)
  · obtain ⟨dates, -, hstored⟩ := Option.bind_eq_some_iff.mp hwrite
    have hids : stored.publishableContextIds = m.publishableContextIds.filter fun id ↦
        ((pruneStaleContexts m.effectiveState.entries now).lookup id).isSome := by
      cases hstored
      rfl
    have hlookup : m'.effectiveState.get id =
        (pruned m.effectiveState.entries now).lookup id := by
      rw [Markers.get, hentries]
    show id ∈ stored.publishableContextIds.foldl addKey fresh.publishableContextIds ↔ _
    rw [mem_foldl_addKey, hfresh', hids, pruneStaleContexts_eq m.effectiveState.nodup,
      List.mem_filter, hlookup]
    simp

/-- The first second of the epoch. -/
def sampleDates : Dates where
  toISOString ms := if ms = 1000 then some (ascii "1970-01-01T00:00:01.000Z".toList) else none
  parse text := if text = ascii "1970-01-01T00:00:01.000Z".toList then some 1000 else none

def markedManager : Manager := sampleManager.markContextRead (ascii ['a']) 1 5

theorem sample_stored :
    ∃ stored, writeStoredReadState sampleDates markedManager.effectiveState
        markedManager.publishableContextIds markedManager.contextSourceCreatedAt 5 = some stored ∧
      (hydrateFromLocalStorage sampleDates sampleManager stored).effectiveState.get (ascii ['a']) =
        some 1 := by
  have hD : sampleDates.RoundTrips := by
    intro ms text h
    obtain ⟨rfl, htext⟩ := Option.ite_none_right_eq_some.mp h
    cases htext
    exact ⟨by decide, by decide⟩
  have hpositive : Positive markedManager.effectiveState := by
    intro key
    have hget : markedManager.effectiveState.get key =
        if key = ascii ['a'] then some 1 else Markers.empty.get key := Markers.get_set _ _ _ _
    rw [hget]
    split_ifs
    · decide
    · exact Option.some_ne_none _ ∘ Eq.symm
  have hmarked : markedManager.effectiveState.get (ascii ['a']) = some 1 := by decide
  refine ⟨_, rfl, ?_⟩
  rw [← hmarked]
  exact (stored_markers sampleDates hD markedManager sampleManager 5 _ rfl rfl hpositive
    (by decide) rfl).1 (ascii ['a']) (by decide)

end RoundTrip

end Buzz.Desktop.ReadState
