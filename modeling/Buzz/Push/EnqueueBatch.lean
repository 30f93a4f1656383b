import Mathlib.Data.List.Dedup
import Buzz.Push.FencedRun

namespace Buzz.Push

open Buzz.Lib Buzz.Nostr Buzz.Db

abbrev WakeKey := EndpointHash × EventId

def Wake.key (wake : Wake) : WakeKey := (wake.endpointHash, wake.eventId)

def Outbox.held (outbox : Outbox) (key : WakeKey) : Option Uuid :=
  (Map.findRow (fun _ row ↦ row.wake.key = key) outbox).map Prod.fst

section Statements

variable (now : Timestamptz)

/-- The rows that the locking `SELECT` returns: generation and endpoint of the current leases. -/
def leaseRows (leases : Leases) (pairs : List Address) : List (Address × ℤ × EndpointHash) :=
  leases.entries.filterMap fun e ↦
    if e.1 ∈ pairs then
      (e.2.eligible now).map fun lease ↦ (e.1, e.2.version.generation, lease.endpointHash)
    else none

def resolve (leases : Map Address (ℤ × EndpointHash)) (request : WakeRequest) :
    Option EndpointHash :=
  ((leases.lookup request.address).filter fun lease ↦ lease.1 = request.leaseGeneration).map
    Prod.snd

def insertedWake (request : WakeRequest) (endpointHash : EndpointHash) : Wake :=
  ⟨request.address, request.leaseGeneration, endpointHash, request.eventId, request.wakeClass,
    request.expiresAt, now⟩

/-- `INSERT … ON CONFLICT DO NOTHING RETURNING`: a row conflicts with those before the statement and
with those the statement has inserted. -/
def insertRows : Outbox → List (Wake × Uuid) → Outbox × List (WakeKey × Uuid)
  | outbox, [] => (outbox, [])
  | outbox, (wake, id) :: rows =>
    match outbox.held wake.key with
    | some _ => insertRows outbox rows
    | none =>
      let (outbox', returned) := insertRows (AList.insert id ⟨wake, .pending, 0, now⟩ outbox) rows
      (outbox', (wake.key, id) :: returned)

def duplicateRows (outbox : Outbox) (keys : List WakeKey) : List (WakeKey × Uuid) :=
  outbox.entries.filterMap fun e ↦
    if e.2.wake.key ∈ keys then some (e.2.wake.key, e.1) else none

def orInsert (ids : Map WakeKey Uuid) (row : WakeKey × Uuid) : Map WakeKey Uuid :=
  if row.1 ∈ ids then ids else AList.insert row.1 row.2 ids

def neitherInsertNorDuplicate : String := "wake enqueue resolved neither insert nor duplicate"

def report (jobIds : Map WakeKey Uuid) (insertedKeys : List WakeKey) :
    List WakeKey → List (WakeRequest × Option EndpointHash) → Except String (List EnqueueWakeOutcome)
  | _, [] => .ok []
  | reported, (_, none) :: rest =>
    (report jobIds insertedKeys reported rest).map (.inactiveLease :: ·)
  | reported, (request, some endpointHash) :: rest =>
    let key := (endpointHash, request.eventId)
    match jobIds.lookup key with
    | none => .error neitherInsertNorDuplicate
    | some id =>
      if key ∈ insertedKeys ∧ key ∉ reported then
        (report jobIds insertedKeys (key :: reported) rest).map (.enqueued id :: ·)
      else (report jobIds insertedKeys reported rest).map (.duplicate id :: ·)

end Statements

namespace Tables

/-- `enqueue_wakes`, statement by statement; each request comes with the id that the column default
draws for its row. The error is `InvalidData`. -/
def enqueueWakesBatch (t : Tables) (now : Timestamptz) (requests : List (WakeRequest × Uuid)) :
    Except String (List EnqueueWakeOutcome × Tables) :=
  if requests.isEmpty then .ok ([], t)
  else
    let pairs := (requests.map fun r ↦ r.1.address).dedup
    let leases := (leaseRows now t.leases pairs).foldl (fun m row ↦ AList.insert row.1 row.2 m) ∅
    let resolved := requests.map fun r ↦ resolve leases r.1
    let rows := (requests.zip resolved).filterMap fun r ↦
      r.2.map fun endpointHash ↦ (insertedWake now r.1.1 endpointHash, r.1.2)
    let (outbox, returned) := insertRows now t.outbox rows
    let inserted := returned.foldl (fun m row ↦ AList.insert row.1 row.2 m) ∅
    let insertedKeys := (returned.map Prod.fst).dedup
    let jobIds :=
      if insertedKeys.length < rows.length then
        (duplicateRows outbox (rows.map fun row ↦ row.1.key)).foldl orInsert inserted
      else inserted
    (report jobIds insertedKeys [] ((requests.map Prod.fst).zip resolved)).map fun outcomes ↦
      (outcomes, { t with outbox := outbox })

def enqueueOneByOne (t : Tables) (now : Timestamptz) :
    List (WakeRequest × Uuid) → Except String (List EnqueueWakeOutcome × Tables)
  | [] => .ok ([], t)
  | request :: rest =>
    match t.enqueueWakesBatch now [request] with
    | .error e => .error e
    | .ok (outcome, t') =>
      match t'.enqueueOneByOne now rest with
      | .error e => .error e
      | .ok (outcomes, t'') => .ok (outcome ++ outcomes, t'')

end Tables

section HashMaps

variable {κ ν : Type} [DecidableEq κ]

/-- Inserting rows that agree with `f` makes a map that agrees with `f` on their keys. -/
theorem lookup_foldl_insert {f : κ → Option ν} {rows : List (κ × ν)} {m : Map κ ν}
    (h : ∀ row ∈ rows, f row.1 = some row.2) (k : κ) :
    (rows.foldl (fun m row ↦ AList.insert row.1 row.2 m) m).lookup k =
      if k ∈ rows.map Prod.fst then f k else m.lookup k := by
  induction rows generalizing m with
  | nil => simp
  | cons row rows ih =>
    have hrow := h row (by simp)
    rw [List.foldl_cons, ih fun row' hrow' ↦ h row' (by simp [hrow']), Map.lookup_insert_eq]
    by_cases hk : k = row.1
    · simp [hk, hrow]
    · simp only [List.map_cons, List.mem_cons, hk, if_false, false_or]

theorem lookup_foldl_orInsert {rows : List (WakeKey × Uuid)} {ids : Map WakeKey Uuid}
    (key : WakeKey) :
    (rows.foldl orInsert ids).lookup key = (ids.lookup key).or (rows.lookup key) := by
  induction rows generalizing ids with
  | nil => simp
  | cons row rows ih =>
    rw [List.foldl_cons, ih, List.lookup_cons, orInsert]
    by_cases hkey : key = row.1
    · subst hkey
      by_cases hmem : row.1 ∈ ids
      · obtain ⟨id, hid⟩ := Option.isSome_iff_exists.mp (AList.lookup_isSome.mpr hmem)
        simp [hmem, hid]
      · simp [hmem, AList.lookup_eq_none.mpr hmem]
    · have hrow : (key == row.1) = false := by simpa using hkey
      split
      · simp [hrow]
      · simp [hrow, hkey]

end HashMaps

section Rows

variable {now : Timestamptz} {outbox : Outbox} {key : WakeKey} {id : Uuid}

theorem lookup_duplicateRows (keys : List WakeKey) :
    (duplicateRows outbox keys).lookup key = if key ∈ keys then outbox.held key else none := by
  simp only [duplicateRows, Outbox.held, Map.findRow, Option.map_map]
  induction outbox.entries with
  | nil => simp
  | cons e entries ih =>
    by_cases hkey : e.2.wake.key = key
    · by_cases hmem : key ∈ keys
      · simp [hkey, hmem]
      · simpa [hkey, hmem] using ih
    · have hne : (key == e.2.wake.key) = false := by simpa using Ne.symm hkey
      by_cases hmem : e.2.wake.key ∈ keys
      · simpa [hkey, hmem, List.lookup_cons, hne] using ih
      · simpa [hkey, hmem] using ih

theorem held_insert {row : WakeRow} (hid : id ∉ outbox) :
    Outbox.held (AList.insert id row outbox) key =
      if key = row.wake.key then some id else outbox.held key := by
  rw [Outbox.held, Map.findRow, AList.entries_insert_of_notMem hid, List.find?_cons]
  by_cases h : row.wake.key = key
  · simp [h]
  · simp [h, Ne.symm h, Outbox.held, Map.findRow]

/-- The ids drawn for the rows of a statement are new, and no two are the same. -/
structure FreshIds (outbox : Outbox) (ids : List Uuid) : Prop where
  fresh : ∀ id ∈ ids, id ∉ outbox
  distinct : ids.Nodup

theorem FreshIds.tail {ids : List Uuid} (h : FreshIds outbox (id :: ids)) : FreshIds outbox ids :=
  ⟨fun id' hid' ↦ h.fresh id' (by simp [hid']), (List.nodup_cons.mp h.distinct).2⟩

theorem FreshIds.insert {ids : List Uuid} (h : FreshIds outbox (id :: ids)) (row : WakeRow) :
    FreshIds (AList.insert id row outbox) ids := by
  refine ⟨?_, h.tail.distinct⟩
  intro id' hid' hmem
  rcases (AList.mem_insert _).mp hmem with rfl | hold
  · exact (List.nodup_cons.mp h.distinct).1 hid'
  · exact h.tail.fresh id' hid' hold

/-- What the `INSERT` leaves: it keeps the held keys, holds those of its rows, and returns just
those it came to hold. -/
structure Inserts (outbox : Outbox) (rows : List (Wake × Uuid)) (outbox' : Outbox)
    (returned : List (WakeKey × Uuid)) : Prop where
  keeps : ∀ key id, outbox.held key = some id → outbox'.held key = some id
  holds : ∀ row ∈ rows, outbox'.held row.1.key ≠ none
  fresh : ∀ row ∈ returned, outbox.held row.1 = none ∧ outbox'.held row.1 = some row.2
  complete : ∀ key id, outbox.held key = none → outbox'.held key = some id → (key, id) ∈ returned
  length : returned.length ≤ rows.length
  all : returned.length = rows.length → returned.map Prod.fst = rows.map fun row ↦ row.1.key
  distinct : (returned.map Prod.fst).Nodup

theorem insertRows_spec {rows : List (Wake × Uuid)} (h : FreshIds outbox (rows.map Prod.snd)) :
    Inserts outbox rows (insertRows now outbox rows).1 (insertRows now outbox rows).2 := by
  induction rows generalizing outbox with
  | nil =>
    refine ⟨fun _ _ h ↦ h, by simp, by simp [insertRows], ?_, by simp [insertRows],
      by simp [insertRows], by simp [insertRows]⟩
    intro key id hnone hsome
    rw [insertRows, hnone] at hsome
    cases hsome
  | cons row rows ih =>
    obtain ⟨wake, id⟩ := row
    rw [insertRows]
    cases hheld : outbox.held wake.key with
    | some other =>
      obtain ⟨keeps, holds, hfresh, complete, length, all, distinct⟩ := ih h.tail
      refine ⟨keeps, ?_, hfresh, complete, by simp only [List.length_cons]; omega, ?_, distinct⟩
      · intro row hrow
        rcases List.mem_cons.mp hrow with rfl | hrow
        · simp [keeps wake.key other hheld]
        · exact holds row hrow
      · intro hlength
        simp only [List.length_cons] at hlength
        omega
    | none =>
      have hinsert (key : WakeKey) :
          Outbox.held (AList.insert id ⟨wake, .pending, 0, now⟩ outbox) key =
            if key = wake.key then some id else outbox.held key :=
        held_insert (h.fresh id (by simp))
      obtain ⟨keeps, holds, hfresh, complete, length, all, distinct⟩ :=
        ih (h.insert ⟨wake, .pending, 0, now⟩)
      simp only [hinsert] at keeps hfresh complete
      have hnew := keeps wake.key id (by simp)
      refine ⟨?_, ?_, ?_, ?_, by simpa using length, ?_, ?_⟩
      · intro key id' hkey
        apply keeps
        split
        · next heq => simp [heq, hheld] at hkey
        · exact hkey
      · intro row hrow
        rcases List.mem_cons.mp hrow with rfl | hrow
        · simp [hnew]
        · exact holds row hrow
      · intro row hrow
        rcases List.mem_cons.mp hrow with rfl | hrow
        · exact ⟨hheld, hnew⟩
        · obtain ⟨hnone, hsome⟩ := hfresh row hrow
          split at hnone
          · cases hnone
          · exact ⟨hnone, hsome⟩
      · intro key id' hnone hsome
        by_cases heq : key = wake.key
        · subst heq
          rw [hnew] at hsome
          cases hsome
          simp
        · exact List.mem_cons_of_mem _ (complete key id' (by simpa [heq] using hnone) hsome)
      · intro hlength
        simp only [List.length_cons, Nat.add_right_cancel_iff] at hlength
        simp [all hlength]
      · apply List.nodup_cons.mpr
        refine ⟨?_, distinct⟩
        intro hmem
        obtain ⟨row, hrow, heq⟩ := List.mem_map.mp hmem
        have hnone := (hfresh row hrow).1
        simp only at heq
        simp [heq] at hnone

end Rows

namespace Tables

variable {t : Tables} {now : Timestamptz}

def wakeEndpoint (t : Tables) (now : Timestamptz) (request : WakeRequest) : Option EndpointHash :=
  ((t.leases.lookup request.address).bind fun row ↦ (row.eligible now).filter fun _ ↦
    row.version.generation = request.leaseGeneration).map ActiveLease.endpointHash

def wakeRows (t : Tables) (now : Timestamptz) (requests : List (WakeRequest × Uuid)) :
    List (Wake × Uuid) :=
  requests.filterMap fun r ↦
    (t.wakeEndpoint now r.1).map fun endpointHash ↦ (insertedWake now r.1 endpointHash, r.2)

theorem outboxHas_eq_held (endpointHash : EndpointHash) (eventId : EventId) :
    t.outboxHas endpointHash eventId = t.outbox.held (endpointHash, eventId) := by
  have hpred : (fun (_ : Uuid) (row : WakeRow) ↦
      row.wake.endpointHash = endpointHash && row.wake.eventId = eventId) =
        fun _ row ↦ decide (row.wake.key = (endpointHash, eventId)) := by
    funext _ row
    simp [Wake.key]
  rw [outboxHas, Outbox.held, hpred]

theorem enqueueWake_eq (request : WakeRequest) (id : Uuid) :
    t.enqueueWake request id now =
      match t.wakeEndpoint now request with
      | none => (.inactiveLease, t)
      | some endpointHash =>
        match t.outbox.held (endpointHash, request.eventId) with
        | some other => (.duplicate other, t)
        | none =>
          let row : WakeRow := ⟨insertedWake now request endpointHash, .pending, 0, now⟩
          (.enqueued id, { t with outbox := AList.insert id row t.outbox }) := by
  rw [enqueueWake, wakeEndpoint]
  cases (t.leases.lookup request.address).bind fun row ↦
      (row.eligible now).filter fun _ ↦ row.version.generation = request.leaseGeneration with
  | none => simp
  | some lease =>
    cases hheld : t.outbox.held (lease.endpointHash, request.eventId) with
    | some other => simp [outboxHas_eq_held, hheld]
    | none => simp [outboxHas_eq_held, insertedWake, hheld]

/-- One request after the other, the leases being the same for all. -/
theorem enqueueWakes_cons (request : WakeRequest) (id : Uuid) (rest : List (WakeRequest × Uuid)) :
    t.enqueueWakes now ((request, id) :: rest) =
      ((t.enqueueWake request id now).1 :: ((t.enqueueWake request id now).2.enqueueWakes now rest).1,
        ((t.enqueueWake request id now).2.enqueueWakes now rest).2) := by
  rw [enqueueWakes]

theorem enqueueWakes_tables (requests : List (WakeRequest × Uuid)) :
    (t.enqueueWakes now requests).2 =
      { t with outbox := (insertRows now t.outbox (t.wakeRows now requests)).1 } := by
  induction requests generalizing t with
  | nil => simp [enqueueWakes, wakeRows, insertRows]
  | cons first rest ih =>
    obtain ⟨request, id⟩ := first
    have hrows : t.wakeRows now ((request, id) :: rest) =
        ((t.wakeEndpoint now request).map fun endpointHash ↦
          (insertedWake now request endpointHash, id)).toList ++ t.wakeRows now rest := by
      cases hendpoint : t.wakeEndpoint now request with
      | none => simp [wakeRows, hendpoint]
      | some endpointHash => simp [wakeRows, hendpoint]
    rw [enqueueWakes_cons, enqueueWake_eq, hrows]
    cases t.wakeEndpoint now request with
    | none => simpa using ih
    | some endpointHash =>
      have hkey : (insertedWake now request endpointHash).key = (endpointHash, request.eventId) := rfl
      simp only [Option.map_some, Option.toList_some, List.singleton_append, insertRows, hkey]
      cases t.outbox.held (endpointHash, request.eventId) with
      | some other => simpa using ih
      | none => simpa [wakeRows, wakeEndpoint] using ih

/-- What the `SELECT` locked resolves a request as its lease does. -/
theorem resolve_leaseRows {pairs : List Address} {request : WakeRequest}
    (h : request.address ∈ pairs) :
    resolve ((leaseRows now t.leases pairs).foldl (fun m row ↦ AList.insert row.1 row.2 m) ∅)
      request = t.wakeEndpoint now request := by
  let current (address : Address) : Option (ℤ × EndpointHash) :=
    (t.leases.lookup address).bind fun row ↦
      (row.eligible now).map fun lease ↦ (row.version.generation, lease.endpointHash)
  have hrow {address : Address} {row : LeaseRow} (hrow : t.leases.lookup address = some row)
      {lease : ActiveLease} (hlease : row.eligible now = some lease) :
      current address = some (row.version.generation, lease.endpointHash) := by
    simp [current, hrow, hlease]
  have hagree : ∀ row ∈ leaseRows now t.leases pairs, current row.1 = some row.2 := by
    intro row hmem
    obtain ⟨e, he, heq⟩ := List.mem_filterMap.mp hmem
    split at heq
    · obtain ⟨lease, hlease, rfl⟩ := Option.map_eq_some_iff.mp heq
      exact hrow (Map.mem_entries_iff.mp he) hlease
    · cases heq
  have hlookup : ((leaseRows now t.leases pairs).foldl
      (fun m row ↦ AList.insert row.1 row.2 m)
        (∅ : Map Address (ℤ × EndpointHash))).lookup request.address =
          current request.address := by
    rw [lookup_foldl_insert hagree]
    split
    · rfl
    · next hmissing =>
      rw [AList.lookup_empty]
      by_contra hsome
      have hcurrent : current request.address ≠ none := fun hnone ↦ hsome hnone.symm
      obtain ⟨v, hv⟩ := Option.ne_none_iff_exists'.mp hcurrent
      obtain ⟨row, hlookup, hv⟩ := Option.bind_eq_some_iff.mp hv
      obtain ⟨lease, hlease, -⟩ := Option.map_eq_some_iff.mp hv
      apply hmissing
      refine List.mem_map.mpr ⟨(request.address, row.version.generation, lease.endpointHash), ?_, rfl⟩
      refine List.mem_filterMap.mpr ⟨⟨request.address, row⟩, Map.mem_entries_iff.mpr hlookup, ?_⟩
      simp [h, hlease]
  rw [resolve, hlookup, wakeEndpoint]
  simp only [current]
  cases t.leases.lookup request.address with
  | none => simp
  | some row =>
    simp only [Option.bind_some]
    cases row.eligible now with
    | none => simp
    | some lease =>
      by_cases hgeneration : row.version.generation = request.leaseGeneration
      · simp [Option.filter, hgeneration]
      · simp [Option.filter, hgeneration]

theorem wakeRows_cons (request : WakeRequest) (id : Uuid) (rest : List (WakeRequest × Uuid)) :
    t.wakeRows now ((request, id) :: rest) =
      match t.wakeEndpoint now request with
      | none => t.wakeRows now rest
      | some endpointHash =>
        (insertedWake now request endpointHash, id) :: t.wakeRows now rest := by
  cases hendpoint : t.wakeEndpoint now request with
  | none => simp [wakeRows, hendpoint]
  | some endpointHash => simp [wakeRows, hendpoint]

theorem FreshIds.wakeRows {requests : List (WakeRequest × Uuid)}
    (h : FreshIds t.outbox (requests.map Prod.snd)) :
    FreshIds t.outbox ((t.wakeRows now requests).map Prod.snd) := by
  have hsublist : ((t.wakeRows now requests).map Prod.snd).Sublist (requests.map Prod.snd) := by
    clear h
    induction requests with
    | nil => simp [Tables.wakeRows]
    | cons first rest ih =>
      rw [wakeRows_cons]
      split
      · exact ih.cons _
      · exact ih.cons_cons _
  exact ⟨fun id hid ↦ h.fresh id (hsublist.subset hid), h.distinct.sublist hsublist⟩

theorem enqueueWakes_inserts {requests : List (WakeRequest × Uuid)}
    (h : FreshIds t.outbox (requests.map Prod.snd)) :
    Inserts t.outbox (t.wakeRows now requests) (t.enqueueWakes now requests).2.outbox
      (insertRows now t.outbox (t.wakeRows now requests)).2 := by
  rw [enqueueWakes_tables]
  exact insertRows_spec (FreshIds.wakeRows h)

theorem report_eq {requests : List (WakeRequest × Uuid)} {jobIds : Map WakeKey Uuid}
    {insertedKeys reported : List WakeKey}
    (hfresh : FreshIds t.outbox (requests.map Prod.snd))
    (hjobs : ∀ row ∈ t.wakeRows now requests, jobIds.lookup row.1.key =
      (t.enqueueWakes now requests).2.outbox.held row.1.key)
    (hreported : ∀ key ∈ insertedKeys, key ∈ reported ↔ t.outbox.held key ≠ none)
    (hinserted : ∀ key, t.outbox.held key = none →
      (t.enqueueWakes now requests).2.outbox.held key ≠ none → key ∈ insertedKeys) :
    report jobIds insertedKeys reported
      ((requests.map Prod.fst).zip (requests.map fun r ↦ t.wakeEndpoint now r.1)) =
        .ok (t.enqueueWakes now requests).1 := by
  induction requests generalizing t reported with
  | nil => simp [report, enqueueWakes]
  | cons first rest ih =>
    obtain ⟨request, id⟩ := first
    have heq : t.enqueueWake request id now = _ := t.enqueueWake_eq request id
    rw [enqueueWakes_cons] at hjobs hinserted ⊢
    rw [wakeRows_cons] at hjobs
    simp only [List.map_cons, List.zip_cons_cons] at hfresh ⊢
    cases hendpoint : t.wakeEndpoint now request with
    | none =>
      simp only [hendpoint] at heq hjobs
      rw [heq] at hjobs hinserted ⊢
      rw [report, ih hfresh.tail hjobs hreported hinserted]
      simp [Except.map]
    | some endpointHash =>
      let key : WakeKey := (endpointHash, request.eventId)
      have hkey : (insertedWake now request endpointHash).key = key := rfl
      simp only [hendpoint] at heq hjobs
      have hjob := hjobs _ List.mem_cons_self
      have hjobs' := fun row hrow ↦ hjobs row (List.mem_cons_of_mem _ hrow)
      rw [hkey] at hjob
      cases hheld : t.outbox.held key with
      | some other =>
        simp only [key] at hheld
        simp only [hheld] at heq
        rw [heq] at hjob hjobs' hinserted ⊢
        have hfinal : (t.enqueueWakes now rest).2.outbox.held key = some other :=
          (enqueueWakes_inserts hfresh.tail).keeps key other hheld
        rw [hfinal] at hjob
        have hnotfirst : ¬(key ∈ insertedKeys ∧ key ∉ reported) := by
          intro hfirst
          exact hfirst.2 ((hreported key hfirst.1).mpr (by simp [key, hheld]))
        simp only [report, key] at hjob hnotfirst ⊢
        rw [hjob]
        simp only [hnotfirst, if_false]
        rw [ih hfresh.tail hjobs' hreported hinserted]
        simp [Except.map]
      | none =>
        simp only [key] at hheld
        simp only [hheld] at heq
        rw [heq] at hjob hjobs' hinserted ⊢
        let row : WakeRow := ⟨insertedWake now request endpointHash, .pending, 0, now⟩
        have hfresh' := hfresh.insert row
        have hinsert (k : WakeKey) : Outbox.held (AList.insert id row t.outbox) k =
            if k = key then some id else t.outbox.held k :=
          held_insert (hfresh.fresh id (by simp))
        have hfinal : (Tables.enqueueWakes { t with outbox := AList.insert id row t.outbox } now
            rest).2.outbox.held key = some id :=
          (enqueueWakes_inserts hfresh').keeps key id (by simp [hinsert])
        have hfirst : key ∈ insertedKeys ∧ key ∉ reported := by
          have hmem := hinserted key hheld (by simp only [row] at hfinal; simp [hfinal])
          exact ⟨hmem, fun hrep ↦ (hreported key hmem).mp hrep hheld⟩
        have hreported' : ∀ k ∈ insertedKeys, k ∈ key :: reported ↔
            Outbox.held (AList.insert id row t.outbox) k ≠ none := by
          intro k hk
          rw [hinsert, List.mem_cons]
          split
          · next hkey => simp [hkey]
          · next hkey => simpa [hkey] using hreported k hk
        have hinserted' : ∀ k, Outbox.held (AList.insert id row t.outbox) k = none →
            (Tables.enqueueWakes { t with outbox := AList.insert id row t.outbox } now
              rest).2.outbox.held k ≠ none → k ∈ insertedKeys := by
          intro k hnone
          rw [hinsert] at hnone
          split at hnone
          · cases hnone
          · exact hinserted k hnone
        have hrest : report jobIds insertedKeys ((endpointHash, request.eventId) :: reported)
            ((rest.map Prod.fst).zip (rest.map fun r ↦ t.wakeEndpoint now r.1)) = .ok
              (Tables.enqueueWakes { t with outbox := AList.insert id row t.outbox } now rest).1 :=
          ih (t := { t with outbox := AList.insert id row t.outbox }) hfresh' hjobs' hreported'
            hinserted'
        simp only [row] at hfinal
        rw [hfinal] at hjob
        simp only [report, key] at hjob hfirst ⊢
        rw [hjob]
        simp only [hfirst, not_false_eq_true, and_self, if_true]
        rw [hrest]
        simp [Except.map, row]

/-- The rows the batch proposes are those of the requests whose lease is current. -/
theorem filterMap_zip_wakeRows (requests : List (WakeRequest × Uuid)) :
    (requests.zip (requests.map fun r ↦ t.wakeEndpoint now r.1)).filterMap
      (fun r ↦ r.2.map fun endpointHash ↦ (insertedWake now r.1.1 endpointHash, r.1.2)) =
        t.wakeRows now requests := by
  induction requests with
  | nil => simp [wakeRows]
  | cons first rest ih =>
    obtain ⟨request, id⟩ := first
    rw [wakeRows_cons, List.map_cons, List.zip_cons_cons, List.filterMap_cons, ih]
    cases t.wakeEndpoint now request with
    | none => simp
    | some endpointHash => simp

/-- Every requested key that could be inserted is found, by the `INSERT` or by the `SELECT`. -/
theorem lookup_jobIds {rows : List (Wake × Uuid)} {outbox outbox' : Outbox}
    {returned : List (WakeKey × Uuid)} (h : Inserts outbox rows outbox' returned)
    {row : Wake × Uuid} (hrow : row ∈ rows) :
    let inserted := returned.foldl (fun m row ↦ AList.insert row.1 row.2 m) ∅
    let jobIds : Map WakeKey Uuid :=
      if (returned.map Prod.fst).dedup.length < rows.length then
        (duplicateRows outbox' (rows.map fun row ↦ row.1.key)).foldl orInsert inserted
      else inserted
    jobIds.lookup row.1.key = outbox'.held row.1.key := by
  intro inserted jobIds
  have hkey : row.1.key ∈ rows.map fun row ↦ row.1.key := List.mem_map.mpr ⟨row, hrow, rfl⟩
  have hinserted := lookup_foldl_insert (f := outbox'.held) (m := ∅)
    (fun row hrow ↦ (h.fresh row hrow).2) row.1.key
  rw [AList.lookup_empty] at hinserted
  simp only [jobIds]
  split
  · rw [lookup_foldl_orInsert, hinserted, lookup_duplicateRows, if_pos hkey]
    split
    · simp
    · simp
  · next hlength =>
    rw [h.distinct.dedup, List.length_map] at hlength
    have hall := h.all (Nat.le_antisymm h.length (by omega))
    rw [hinserted, hall, if_pos hkey]

theorem enqueueWakesBatch_eq {requests : List (WakeRequest × Uuid)}
    (hfresh : FreshIds t.outbox (requests.map Prod.snd)) :
    t.enqueueWakesBatch now requests = .ok (t.enqueueWakes now requests) := by
  rw [enqueueWakesBatch]
  split
  · next hempty =>
    rw [List.isEmpty_iff.mp hempty, enqueueWakes]
  · have hresolved : (requests.map fun r ↦ resolve ((leaseRows now t.leases
        (requests.map fun r ↦ r.1.address).dedup).foldl (fun m row ↦ AList.insert row.1 row.2 m) ∅)
          r.1) = requests.map fun r ↦ t.wakeEndpoint now r.1 := by
      apply List.map_congr_left
      intro r hr
      exact resolve_leaseRows (List.mem_dedup.mpr (List.mem_map.mpr ⟨r, hr, rfl⟩))
    have hinserts : Inserts t.outbox (t.wakeRows now requests) _ _ := enqueueWakes_inserts hfresh
    have htables : (t.enqueueWakes now requests).2 = _ := t.enqueueWakes_tables requests
    simp only [hresolved, filterMap_zip_wakeRows]
    let inserted := ((insertRows now t.outbox (t.wakeRows now requests)).2.map Prod.fst).dedup
    have hreport : report _ inserted [] _ = _ :=
      report_eq hfresh (fun row hrow ↦ lookup_jobIds hinserts hrow) ?_ ?_
    · rw [htables] at hreport
      simp only at hreport ⊢
      rw [hreport]
      simp [Except.map, ← htables]
    · intro key hkey
      obtain ⟨row, hrow, rfl⟩ := List.mem_map.mp (List.mem_dedup.mp hkey)
      simp [(hinserts.fresh row hrow).1]
    · intro key hnone hsome
      obtain ⟨id, hid⟩ := Option.ne_none_iff_exists'.mp hsome
      exact List.mem_dedup.mpr (List.mem_map.mpr ⟨(key, id), hinserts.complete key id hnone hid, rfl⟩)

theorem FreshIds.enqueueWake {request : WakeRequest} {id : Uuid} {ids : List Uuid}
    (h : FreshIds t.outbox (id :: ids)) : FreshIds (t.enqueueWake request id now).2.outbox ids := by
  rw [enqueueWake_eq]
  split
  · exact h.tail
  split
  · exact h.tail
  · exact h.insert _

theorem enqueueOneByOne_eq {requests : List (WakeRequest × Uuid)}
    (hfresh : FreshIds t.outbox (requests.map Prod.snd)) :
    t.enqueueOneByOne now requests = .ok (t.enqueueWakes now requests) := by
  induction requests generalizing t with
  | nil => simp [enqueueOneByOne, enqueueWakes]
  | cons first rest ih =>
    obtain ⟨request, id⟩ := first
    have hone : FreshIds t.outbox ([(request, id)].map Prod.snd) :=
      ⟨fun id' hid' ↦ hfresh.fresh id' (by simp_all), by simp⟩
    have hrest : FreshIds (t.enqueueWakes now [(request, id)]).2.outbox (rest.map Prod.snd) :=
      FreshIds.enqueueWake hfresh
    rw [enqueueOneByOne, enqueueWakesBatch_eq hone]
    simp only
    rw [ih hrest, enqueueWakes_cons]
    simp [enqueueWakes]

/-- A batch leaves the tables and returns the outcomes of its requests one at a time, and these are
what each request finds in the tables that the ones before it leave. -/
theorem enqueue_wakes_one_by_one {t : Tables} {now : Timestamptz}
    {requests : List (WakeRequest × Uuid)}
    (hfresh : ∀ r ∈ requests, r.2 ∉ t.outbox) (hdistinct : (requests.map Prod.snd).Nodup) :
    ∃ outcomes t', t.enqueueWakesBatch now requests = .ok (outcomes, t') ∧
      t.enqueueOneByOne now requests = .ok (outcomes, t') ∧
        t.enqueueWakes now requests = (outcomes, t') ∧ outcomes.length = requests.length := by
  have hids : FreshIds t.outbox (requests.map Prod.snd) := by
    refine ⟨?_, hdistinct⟩
    intro id hid
    obtain ⟨r, hr, rfl⟩ := List.mem_map.mp hid
    exact hfresh r hr
  refine ⟨(t.enqueueWakes now requests).1, (t.enqueueWakes now requests).2,
    enqueueWakesBatch_eq hids, enqueueOneByOne_eq hids, rfl, ?_⟩
  clear hids hfresh hdistinct
  induction requests generalizing t with
  | nil => simp [enqueueWakes]
  | cons first rest ih => simp [enqueueWakes, ih]

/-- Two requests for one endpoint and event, and one for a superseded generation. -/
theorem enqueue_wakes_one_by_one_repeated :
    let lease : LeaseRow := ⟨⟨5, 0, 2, 10000⟩, some ⟨"ios", 9, "grant", .default, .arr []⟩, true⟩
    let t : Tables := ⟨∅, AList.insert (1, "phone") lease ∅, ∅, ∅⟩
    let request (generation : ℤ) : WakeRequest := ⟨(1, "phone"), generation, 11, .default, 3600⟩
    let requests := [(request 2, 21), (request 2, 22), (request 1, 23)]
    (∃ outcomes t', t.enqueueWakesBatch 0 requests = .ok (outcomes, t') ∧
      t.enqueueOneByOne 0 requests = .ok (outcomes, t') ∧
        t.enqueueWakes 0 requests = (outcomes, t') ∧ outcomes.length = 3) ∧
    (t.enqueueWakes 0 requests).1 = [.enqueued 21, .duplicate 21, .inactiveLease] := by
  intro lease t request requests
  refine ⟨enqueue_wakes_one_by_one ?_ (by decide), by decide +kernel⟩
  intro r _
  exact AList.notMem_empty r.2

end Tables

end Buzz.Push
