import Buzz.Desktop.ReadSlots
import Mathlib.Tactic.Tauto

namespace Buzz.Desktop.ReadState

open Buzz.Lib Buzz.Lib.Utf16

section SetEntry

variable {α : Type}

theorem keys_setEntry (e : Units × α) (r : List (Units × α)) : (setEntry e r).map Prod.fst =
    if e.1 ∈ r.map Prod.fst then r.map Prod.fst else r.map Prod.fst ++ [e.1] := by
  induction r with
  | nil => simp [setEntry]
  | cons e' r ih =>
    rw [setEntry]
    by_cases heq : e'.1 = e.1
    · rw [if_pos heq, List.map_cons, List.map_cons, heq, if_pos List.mem_cons_self]
    · rw [if_neg heq, List.map_cons, List.map_cons, ih]
      by_cases hin : e.1 ∈ r.map Prod.fst
      · rw [if_pos hin, if_pos (List.mem_cons_of_mem _ hin)]
      · rw [if_neg hin, if_neg, List.cons_append]
        rw [List.mem_cons, not_or]
        exact ⟨Ne.symm heq, hin⟩

theorem nodup_setEntry {r : List (Units × α)} (h : (r.map Prod.fst).Nodup) (e : Units × α) :
    ((setEntry e r).map Prod.fst).Nodup := by
  rw [keys_setEntry]
  split_ifs with hin
  · exact h
  · exact List.nodup_append.mpr ⟨h, List.nodup_singleton _, fun a ha b hb ↦ by
      rw [List.mem_singleton.mp hb]
      exact fun heq ↦ hin (heq ▸ ha)⟩

theorem lookup_cons_ite (e : Units × α) (r : List (Units × α)) (key : Units) :
    (e :: r).lookup key = if key = e.1 then some e.2 else r.lookup key := by
  rw [List.lookup_cons]
  by_cases hkey : key = e.1
  · rw [if_pos hkey, beq_iff_eq.mpr hkey]
  · rw [if_neg hkey, beq_eq_false_iff_ne.mpr hkey]

theorem lookup_setEntry (e : Units × α) (r : List (Units × α)) (key : Units) :
    (setEntry e r).lookup key = if key = e.1 then some e.2 else r.lookup key := by
  induction r with
  | nil => exact lookup_cons_ite e [] key
  | cons e' r ih =>
    rw [setEntry]
    by_cases heq : e'.1 = e.1
    · rw [if_pos heq, lookup_cons_ite, lookup_cons_ite, heq]
      split_ifs <;> rfl
    · rw [if_neg heq, lookup_cons_ite, lookup_cons_ite, ih]
      by_cases hkey : key = e.1
      · rw [if_pos hkey, if_pos hkey, if_neg fun h ↦ heq (h.symm.trans hkey)]
      · rw [if_neg hkey, if_neg hkey]

end SetEntry

/-- A `Map<string, number>`: its entries, in the order in which the keys came. -/
structure Markers where
  entries : List Entry
  nodup : (entries.map Prod.fst).Nodup

namespace Markers

def empty : Markers := ⟨[], List.nodup_nil⟩

def get (m : Markers) (key : Units) : Option ℕ := m.entries.lookup key

def set (m : Markers) (key : Units) (ts : ℕ) : Markers :=
  ⟨setEntry (key, ts) m.entries, nodup_setEntry m.nodup _⟩

@[simp] theorem get_empty (key : Units) : empty.get key = none := rfl

@[simp] theorem get_set (m : Markers) (key key' : Units) (ts : ℕ) :
    (m.set key ts).get key' = if key' = key then some ts else m.get key' :=
  lookup_setEntry (key, ts) m.entries key'

def marker (m : Markers) (key : Units) : ℕ := (m.get key).getD 0

end Markers

inductive Value
  | integer (n : ℤ)
  | text (s : Units)
  | record (fields : List (Units × Value))
  | other

def Value.asRecord : Value → Option (List (Units × Value))
  | .record fields => some fields
  | _ => none

def maxContexts : ℕ := 10000

structure ReadStateBlob where
  clientId : Units
  contexts : Record

def validBlob (obj : Value) : Option (Units × List (Units × Value)) := do
  let record ← obj.asRecord
  match record.lookup (ascii ['v']), record.lookup (ascii "client_id".toList),
      (record.lookup (ascii "contexts".toList)).bind Value.asRecord with
  | some (.integer 1), some (.text clientId), some contexts =>
    if clientId ≠ [] ∧ clientId.length ≤ 64 ∧ contexts.length ≤ maxContexts then
      some (clientId, contexts)
    else none
  | _, _, _ => none

/-- A marker of at most 32 bits under a key of at most 256 bytes. -/
def sanitizeEntry (field : Units × Value) : Option Entry :=
  match field.2 with
  | .integer n =>
    if encodedLength field.1 ≤ 256 ∧ 0 ≤ n ∧ n ≤ 4294967295 then some (field.1, n.toNat) else none
  | _ => none

def sanitizeContexts (contexts : List (Units × Value)) : Record :=
  (contexts.filterMap sanitizeEntry).foldl assign []

structure RelayEvent where
  pubkey : Units
  tags : List (List Units)
  content : Units
  createdAt : ℕ

def isAscii (value : Units) : Bool := value.all fun u ↦ u ≤ 0x7F

def dTagPrefix : Units := ascii "read-state:".toList

def isValidReadStateDTag (value : Units) : Bool :=
  let slotId := value.drop dTagPrefix.length
  dTagPrefix.isPrefixOf value && 0 < slotId.length && slotId.length ≤ 64 && isAscii slotId

structure ParsedReadStateEvent where
  dTag : Units
  blob : ReadStateBlob
  createdAt : ℕ

def parseReadStateEvent (decrypt : Units → Option Value) (pubkey : Units) (event : RelayEvent) :
    Option ParsedReadStateEvent :=
  if event.pubkey ≠ pubkey then none
  else
    match event.tags.filter fun tag ↦ tag[0]? = some (ascii ['d']) with
    | [_ :: value] =>
      match value[0]? with
      | some d =>
        if isValidReadStateDTag d ∧ (event.tags.filter fun tag ↦ tag[0]? = some (ascii ['t']) ∧
            tag[1]? = some (ascii "read-state".toList)).length = 1 then
          ((decrypt event.content).bind validBlob).map fun (clientId, contexts) ↦
            ⟨d, ⟨clientId, sanitizeContexts contexts⟩, event.createdAt⟩
        else none
      | none => none
    | _ => none

structure Manager where
  pubkey : Units
  clientId : Units
  effectiveState : Markers
  publishableContextIds : List Units
  maxFetchedCreatedAt : ℕ
  contextSourceCreatedAt : Markers
  pendingSyncedAdvances : List Units

def addKey (set : List Units) (key : Units) : List Units := if key ∈ set then set else set ++ [key]

def resolveEffectiveTimestamp (effectiveState : Markers) (contextId : Units)
    (parentResolver : Option (Units → Option Units)) : Option ℕ :=
  let own := effectiveState.get contextId
  match parentResolver.bind fun resolve ↦ resolve contextId with
  | none => own
  | some parentId =>
    match effectiveState.get parentId with
    | none => own
    | some parent =>
      match own with
      | none => some parent
      | some own => some (max own parent)

namespace Manager

def applyRemoteContextTimestamp (m : Manager) (e : Entry) (eventCreatedAt : ℕ) : Manager × Bool :=
  let sourceCreatedAt := m.contextSourceCreatedAt.marker e.1
  let current := m.effectiveState.marker e.1
  let next := max current e.2
  let m' := if next = current then m else { m with effectiveState := m.effectiveState.set e.1 next }
  (if sourceCreatedAt < eventCreatedAt then
      { m' with contextSourceCreatedAt := m'.contextSourceCreatedAt.set e.1 eventCreatedAt }
    else m', decide (next ≠ current))

def mergeContext (createdAt : ℕ) (m : Manager) (e : Entry) : Manager :=
  let (m, advanced) := m.applyRemoteContextTimestamp e createdAt
  if advanced then
    { m with
      pendingSyncedAdvances := addKey m.pendingSyncedAdvances e.1
      publishableContextIds := addKey m.publishableContextIds e.1 }
  else m

/-- The same in `handleIncomingEvent`, where a context becomes publishable in any case. -/
def incomingContext (createdAt : ℕ) (m : Manager) (e : Entry) : Manager :=
  let (m, advanced) := m.applyRemoteContextTimestamp e createdAt
  let m := if advanced then
      { m with pendingSyncedAdvances := addKey m.pendingSyncedAdvances e.1 }
    else m
  { m with publishableContextIds := addKey m.publishableContextIds e.1 }

def fetched (m : Manager) (createdAt : ℕ) : Manager :=
  { m with maxFetchedCreatedAt := max m.maxFetchedCreatedAt createdAt }

def mergeParsed (m : Manager) (parsed : ParsedReadStateEvent) : Manager :=
  parsed.blob.contexts.foldl (mergeContext parsed.createdAt) (m.fetched parsed.createdAt)

def incomingParsed (m : Manager) (parsed : ParsedReadStateEvent) : Manager :=
  parsed.blob.contexts.foldl (incomingContext parsed.createdAt) (m.fetched parsed.createdAt)

def advanceContext (m : Manager) (contextId : Units) (unixTimestamp : ℕ) (publishable : Bool) :
    Manager :=
  if unixTimestamp ≤ m.effectiveState.marker contextId then
    if publishable then
      { m with publishableContextIds := addKey m.publishableContextIds contextId }
    else m
  else
    { m with
      effectiveState := m.effectiveState.set contextId unixTimestamp
      publishableContextIds :=
        if publishable then addKey m.publishableContextIds contextId else m.publishableContextIds }

/-- `now` is the clock, in seconds. -/
def markContextRead (m : Manager) (contextId : Units) (unixTimestamp now : ℕ) : Manager :=
  let m := m.advanceContext contextId unixTimestamp true
  { m with contextSourceCreatedAt :=
      m.contextSourceCreatedAt.set contextId (max now (m.maxFetchedCreatedAt + 1)) }

def seedContextRead (m : Manager) (contextId : Units) (unixTimestamp : ℕ) : Manager :=
  m.advanceContext contextId unixTimestamp false

end Manager

/-- What runs between two awaits; an event stands for the call that has waited for it. -/
inductive Action
  | markContextRead (contextId : Units) (unixTimestamp now : ℕ)
  | seedContextRead (contextId : Units) (unixTimestamp : ℕ)
  | mergeEvent (event : RelayEvent)
  | handleIncomingEvent (event : RelayEvent)
  | drainSyncedAdvances

def step (decrypt : Units → Option Value) (m : Manager) : Action → Manager
  | .markContextRead contextId unixTimestamp now => m.markContextRead contextId unixTimestamp now
  | .seedContextRead contextId unixTimestamp => m.seedContextRead contextId unixTimestamp
  | .mergeEvent event => (parseReadStateEvent decrypt m.pubkey event).elim m m.mergeParsed
  | .handleIncomingEvent event =>
    (parseReadStateEvent decrypt m.pubkey event).elim m m.incomingParsed
  | .drainSyncedAdvances => { m with pendingSyncedAdvances := [] }

def updates (decrypt : Units → Option Value) (pubkey : Units) : Action → List Entry
  | .markContextRead contextId unixTimestamp _ => [(contextId, unixTimestamp)]
  | .seedContextRead contextId unixTimestamp => [(contextId, unixTimestamp)]
  | .mergeEvent event | .handleIncomingEvent event =>
    (parseReadStateEvent decrypt pubkey event).elim [] fun parsed ↦ parsed.blob.contexts
  | .drainSyncedAdvances => []

/-- The greatest of the values that a context is given, or 0. -/
def top (entries : List Entry) (key : Units) : ℕ :=
  ((entries.filter fun e ↦ e.1 = key).map Prod.snd).foldr max 0

section Join

theorem top_cons (e : Entry) (entries : List Entry) (key : Units) :
    top (e :: entries) key = if e.1 = key then max e.2 (top entries key) else top entries key := by
  rw [top, List.filter_cons]
  by_cases heq : e.1 = key
  · rw [if_pos (decide_eq_true heq), if_pos heq]
    rfl
  · rw [if_neg (by simpa using heq), if_neg heq]
    rfl

theorem top_append (entries entries' : List Entry) (key : Units) :
    top (entries ++ entries') key = max (top entries key) (top entries' key) := by
  induction entries with
  | nil => exact (Nat.zero_max _).symm
  | cons e entries ih =>
    rw [List.cons_append, top_cons, top_cons, ih]
    split_ifs
    · exact (max_assoc _ _ _).symm
    · rfl

theorem top_le_iff {entries : List Entry} {key : Units} {n : ℕ} :
    top entries key ≤ n ↔ ∀ e ∈ entries, e.1 = key → e.2 ≤ n := by
  induction entries with
  | nil => simp [top]
  | cons e entries ih =>
    rw [top_cons, List.forall_mem_cons, ← ih]
    split_ifs with heq
    · rw [max_le_iff]
      simp [heq]
    · simp [heq]

/-- Neither the order nor the repetition of the values counts. -/
theorem top_congr {entries entries' : List Entry} (h : ∀ e, e ∈ entries ↔ e ∈ entries') :
    top entries = top entries' := by
  funext key
  apply le_antisymm
  · exact top_le_iff.mpr fun e he ↦ top_le_iff.mp le_rfl e ((h e).mp he)
  · exact top_le_iff.mpr fun e he ↦ top_le_iff.mp le_rfl e ((h e).mpr he)

end Join

section Step

variable {m m' : Manager}

/-- A map has no marker of 0: an absent context and one at 0 are the same. -/
def Positive (m : Markers) : Prop := ∀ key, m.get key ≠ some 0

theorem Markers.get_eq_of_marker {m m' : Markers} (hm : Positive m) (hm' : Positive m')
    {key : Units} (h : m.marker key = m'.marker key) : m.get key = m'.get key := by
  have hpos := hm key
  have hpos' := hm' key
  rw [Markers.marker, Markers.marker] at h
  cases hget : m.get key <;> cases hget' : m'.get key <;>
    simp_all [Option.getD_some, Option.getD_none]

structure Raised (m m' : Manager) (e : Entry) : Prop where
  marker : ∀ key, m'.effectiveState.marker key =
    max (m.effectiveState.marker key) (if e.1 = key then e.2 else 0)
  positive : Positive m.effectiveState → Positive m'.effectiveState
  pubkey : m'.pubkey = m.pubkey

theorem Raised.of_set {e : Entry} (hpubkey : m'.pubkey = m.pubkey)
    (heq : m'.effectiveState = if e.2 ≤ m.effectiveState.marker e.1 then m.effectiveState
      else m.effectiveState.set e.1 e.2) : Raised m m' e := by
  refine ⟨fun key ↦ ?_, fun hpos key ↦ ?_, hpubkey⟩
  · rw [heq]
    split_ifs with hle hkey hkey
    · rw [← hkey, max_eq_left hle]
    · exact (Nat.max_zero _).symm
    · rw [Markers.marker, Markers.get_set, if_pos hkey.symm, ← hkey, Option.getD_some,
        max_eq_right (not_le.mp hle).le]
    · rw [Markers.marker, Markers.get_set, if_neg (Ne.symm hkey), Nat.max_zero, Markers.marker]
  · rw [heq]
    split_ifs with hle
    · exact hpos key
    · rw [Markers.get_set]
      split_ifs with hkey
      · have hlt := not_le.mp hle
        intro hzero
        have hval := Option.some.inj hzero
        omega
      · exact hpos key

theorem raised_apply (m : Manager) (e : Entry) (createdAt : ℕ) :
    Raised m (m.applyRemoteContextTimestamp e createdAt).1 e := by
  have hif : (max (m.effectiveState.marker e.1) e.2 = m.effectiveState.marker e.1) ↔
      e.2 ≤ m.effectiveState.marker e.1 := max_eq_left_iff
  apply Raised.of_set
  · rw [Manager.applyRemoteContextTimestamp]
    dsimp only
    split_ifs <;> rfl
  · rw [Manager.applyRemoteContextTimestamp]
    dsimp only
    by_cases hle : e.2 ≤ m.effectiveState.marker e.1
    · rw [if_pos hle, if_pos (hif.mpr hle)]
      split_ifs <;> rfl
    · rw [if_neg hle, if_neg (hif.not.mpr hle), max_eq_right (not_le.mp hle).le]
      split_ifs <;> rfl

theorem raised_mergeContext (createdAt : ℕ) (m : Manager) (e : Entry) :
    Raised m (m.mergeContext createdAt e) e := by
  have happly := raised_apply m e createdAt
  rw [Manager.mergeContext]
  dsimp only
  split_ifs
  · exact ⟨happly.marker, happly.positive, happly.pubkey⟩
  · exact happly

theorem raised_incomingContext (createdAt : ℕ) (m : Manager) (e : Entry) :
    Raised m (m.incomingContext createdAt e) e := by
  have happly := raised_apply m e createdAt
  rw [Manager.incomingContext]
  dsimp only
  split_ifs
  · exact ⟨happly.marker, happly.positive, happly.pubkey⟩
  · exact ⟨happly.marker, happly.positive, happly.pubkey⟩

theorem raised_advance (m : Manager) (e : Entry) (publishable : Bool) :
    Raised m (m.advanceContext e.1 e.2 publishable) e := by
  apply Raised.of_set
  · rw [Manager.advanceContext]
    split_ifs <;> rfl
  · rw [Manager.advanceContext]
    split_ifs <;> rfl

structure Joined (m m' : Manager) (entries : List Entry) : Prop where
  marker : ∀ key, m'.effectiveState.marker key =
    max (m.effectiveState.marker key) (top entries key)
  positive : Positive m.effectiveState → Positive m'.effectiveState
  pubkey : m'.pubkey = m.pubkey

theorem Joined.nil (h : m'.effectiveState = m.effectiveState) (hpubkey : m'.pubkey = m.pubkey) :
    Joined m m' [] :=
  ⟨fun key ↦ by rw [h]; exact (Nat.max_zero _).symm, fun hpos ↦ by rwa [h], hpubkey⟩

theorem Joined.trans {m'' : Manager} {entries entries' : List Entry} (h : Joined m m' entries)
    (h' : Joined m' m'' entries') : Joined m m'' (entries ++ entries') where
  marker key := by rw [h'.marker, h.marker, top_append, max_assoc]
  positive hpos := h'.positive (h.positive hpos)
  pubkey := h'.pubkey.trans h.pubkey

theorem Raised.joined {e : Entry} (h : Raised m m' e) : Joined m m' [e] where
  marker key := by
    rw [h.marker, top_cons]
    split_ifs
    · exact congrArg _ (Nat.max_zero _).symm
    · rfl
  positive := h.positive
  pubkey := h.pubkey

theorem joined_foldl {f : Manager → Entry → Manager} (hf : ∀ m e, Raised m (f m e) e)
    (entries : List Entry) (m : Manager) : Joined m (entries.foldl f m) entries := by
  induction entries generalizing m with
  | nil => exact .nil rfl rfl
  | cons e entries ih => exact (hf m e).joined.trans (ih (f m e))

theorem joined_step (decrypt : Units → Option Value) (m : Manager) (a : Action) :
    Joined m (step decrypt m a) (updates decrypt m.pubkey a) := by
  have hevent {f : ℕ → Manager → Entry → Manager} (hf : ∀ t m e, Raised m (f t m e) e)
      (event : RelayEvent) :
      Joined m ((parseReadStateEvent decrypt m.pubkey event).elim m fun parsed ↦
          parsed.blob.contexts.foldl (f parsed.createdAt) (m.fetched parsed.createdAt))
        ((parseReadStateEvent decrypt m.pubkey event).elim [] fun parsed ↦
          parsed.blob.contexts) := by
    cases parseReadStateEvent decrypt m.pubkey event with
    | none => exact .nil rfl rfl
    | some parsed =>
      have hfetched : Joined m (m.fetched parsed.createdAt) [] := .nil rfl rfl
      exact hfetched.trans (joined_foldl (hf parsed.createdAt) parsed.blob.contexts _)
  cases a with
  | markContextRead contextId unixTimestamp now =>
    have hadvance := raised_advance m (contextId, unixTimestamp) true
    exact Raised.joined ⟨hadvance.marker, hadvance.positive, hadvance.pubkey⟩
  | seedContextRead contextId unixTimestamp =>
    exact (raised_advance m (contextId, unixTimestamp) false).joined
  | mergeEvent event => exact hevent raised_mergeContext event
  | handleIncomingEvent event => exact hevent raised_incomingContext event
  | drainSyncedAdvances => exact .nil rfl rfl

theorem joined_run (decrypt : Units → Option Value) (actions : List Action) (m : Manager) :
    Joined m (actions.foldl (step decrypt) m)
      (actions.flatMap (updates decrypt m.pubkey)) := by
  induction actions generalizing m with
  | nil => exact .nil rfl rfl
  | cons a actions ih =>
    have hstep := joined_step decrypt m a
    have hrest := ih (step decrypt m a)
    rw [hstep.pubkey] at hrest
    exact hstep.trans hrest

theorem le_resolveEffectiveTimestamp {effectiveState : Markers} {contextId : Units} {own : ℕ}
    (h : effectiveState.get contextId = some own)
    (parentResolver : Option (Units → Option Units)) :
    ∃ ts, resolveEffectiveTimestamp effectiveState contextId parentResolver = some ts ∧
      own ≤ ts := by
  rw [resolveEffectiveTimestamp, h]
  split
  · exact ⟨own, rfl, le_rfl⟩
  · split
    · exact ⟨own, rfl, le_rfl⟩
    · exact ⟨_, rfl, le_max_left _ _⟩

/-- Whatever the order in which marks and events come in, and however often: each marker is the
greatest of its values, so that two managers that have seen the same values agree, and a context
never shows less than its own marker. -/
theorem markers_converge (decrypt : Units → Option Value) (m m' : Manager)
    (actions actions' : List Action) (hpubkey : m'.pubkey = m.pubkey)
    (hpositive : Positive m.effectiveState) (hpositive' : Positive m'.effectiveState)
    (hstart : ∀ key, m'.effectiveState.get key = m.effectiveState.get key)
    (hupdates : ∀ e, e ∈ actions'.flatMap (updates decrypt m.pubkey) ↔
      e ∈ actions.flatMap (updates decrypt m.pubkey)) :
    (∀ key, (actions.foldl (step decrypt) m).effectiveState.marker key =
      max (m.effectiveState.marker key)
        (top (actions.flatMap (updates decrypt m.pubkey)) key)) ∧
    (∀ key, (actions'.foldl (step decrypt) m').effectiveState.get key =
      (actions.foldl (step decrypt) m).effectiveState.get key) ∧
    ∀ contextId own parentResolver,
      (actions.foldl (step decrypt) m).effectiveState.get contextId = some own →
        ∃ ts, resolveEffectiveTimestamp (actions.foldl (step decrypt) m).effectiveState contextId
          parentResolver = some ts ∧ own ≤ ts := by
  have hrun := joined_run decrypt actions m
  have hrun' := joined_run decrypt actions' m'
  rw [hpubkey] at hrun'
  refine ⟨hrun.marker, fun key ↦ ?_, fun _ _ parentResolver h ↦
    le_resolveEffectiveTimestamp h parentResolver⟩
  apply Markers.get_eq_of_marker (hrun'.positive hpositive') (hrun.positive hpositive)
  rw [hrun.marker, hrun'.marker, top_congr hupdates, Markers.marker, Markers.marker, hstart]

def sampleManager : Manager where
  pubkey := ascii ['p']
  clientId := ascii ['c']
  effectiveState := .empty
  publishableContextIds := []
  maxFetchedCreatedAt := 0
  contextSourceCreatedAt := .empty
  pendingSyncedAdvances := []

def sampleEvent : RelayEvent where
  pubkey := ascii ['p']
  tags := [[ascii ['d'], ascii "read-state:x".toList],
    [ascii ['t'], ascii "read-state".toList]]
  content := []
  createdAt := 3

def sampleDecrypt (_ : Units) : Option Value :=
  some (.record [(ascii ['v'], .integer 1), (ascii "client_id".toList, .text (ascii ['d'])),
    (ascii "contexts".toList, .record [(ascii ['a'], .integer 7)])])

/-- A mark and an event, and the same with the event first and twice. -/
theorem sample_converges :
    ([.mergeEvent sampleEvent, .handleIncomingEvent sampleEvent,
      .seedContextRead (ascii ['a']) 5].foldl (step sampleDecrypt)
        sampleManager).effectiveState.get (ascii ['a']) =
    ([.markContextRead (ascii ['a']) 5 9, .handleIncomingEvent sampleEvent].foldl
      (step sampleDecrypt) sampleManager).effectiveState.get (ascii ['a']) := by
  have hempty : Positive sampleManager.effectiveState := fun _ h ↦ by cases h
  refine (markers_converge sampleDecrypt sampleManager sampleManager
    [.markContextRead (ascii ['a']) 5 9, .handleIncomingEvent sampleEvent]
    [.mergeEvent sampleEvent, .handleIncomingEvent sampleEvent, .seedContextRead (ascii ['a']) 5]
    rfl hempty hempty (fun _ ↦ rfl) fun e ↦ ?_).2.1 (ascii ['a'])
  have hupdates : [Action.markContextRead (ascii ['a']) 5 9,
      .handleIncomingEvent sampleEvent].flatMap (updates sampleDecrypt sampleManager.pubkey) =
        [(ascii ['a'], 5), (ascii ['a'], 7)] := by decide
  have hupdates' : [Action.mergeEvent sampleEvent, .handleIncomingEvent sampleEvent,
      .seedContextRead (ascii ['a']) 5].flatMap (updates sampleDecrypt sampleManager.pubkey) =
        [(ascii ['a'], 7), (ascii ['a'], 7), (ascii ['a'], 5)] := by decide
  rw [hupdates, hupdates']
  simp only [List.mem_cons, List.not_mem_nil, or_false]
  tauto

end Step

end Buzz.Desktop.ReadState
