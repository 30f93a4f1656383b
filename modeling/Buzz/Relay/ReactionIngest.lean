import Buzz.Db.Thread
import Buzz.Relay.Ingest

namespace Buzz.Relay.Ingest

open Buzz.Lib Buzz.Nostr Buzz.Core Buzz.Db

section Kinds

open Kinds

/-- Kinds that are always global, whatever `h` tag they carry. -/
def isGlobalOnlyKind (kind : ℕ) : Bool :=
  [profile, textNote, contactList, longForm, userStatus, readState, muteList, pinList,
    nip65RelayListMetadata, bookmarkList, followSet, bookmarkSet, emojiSet, emojiList, agentEngram,
    eventReminder, agentProfile, persona, team, managedAgent, gitRepoAnnouncement, gitRepoState,
    gitPatch, gitPullRequest, gitPrUpdate, gitIssue, gitStatusOpen, gitStatusMerged,
    gitStatusClosed, gitStatusDraft, nip43LeaveRequest, iaArchiveRequest, iaUnarchiveRequest,
    agentTurnMetric, pushLease].contains kind || isModerationCommandKind kind ||
    isRelayAdminKind kind

end Kinds

structure ChannelState where
  visibility : String
  archivedAt : Option Timestamptz

/-- What the path of a reaction reads before its transaction, each at a time of its own. -/
structure ReactionEnv where
  relayPubkey : PublicKey
  events : Except String EventsTable
  readable : EventRow → Bool
  channel : Uuid → Option ChannelState
  channelAgain : Uuid → Option ChannelState
  isMember : Uuid → PublicKey → Except String Bool
  validateImeta : List (List String) → Except String Unit

def getEventById (events : EventsTable) (id : EventId) : Option EventRow :=
  (events.latestById id false).bind fun latest ↦ events.lookup (latest.1, id)

inductive ReactionChannelResult
  | channel (channelId : Uuid)
  | noChannel
  | notFound
  | noTarget
  | dbError (message : String)

def deriveReactionChannel (env : ReactionEnv) (event : Event) : ReactionChannelResult :=
  match reactionTarget event with
  | none => .noTarget
  | some target =>
    match env.events with
    | .error e => .dbError e
    | .ok events =>
      match (getEventById events target).filter env.readable with
      | none => .notFound
      | some row =>
        match row.channelId with
        | some channelId => .channel channelId
        | none => .noChannel

def ReactionChannelResult.scope : ReactionChannelResult → Except IngestError (Option Uuid)
  | channel channelId => .ok (some channelId)
  | noChannel => .ok none
  | notFound => .error (.rejected "invalid: reaction target event not found")
  | noTarget => .error (.rejected "invalid: reaction must reference a target event via e tag")
  | dbError e => .error (.internal ("error: internal error looking up reaction target: " ++ e))

def checkTokenChannelAccess (auth : IngestAuth) (channelId : Uuid) : Except String Unit :=
  match auth.channelIds with
  | some allowed =>
    if allowed.contains channelId then .ok ()
    else .error "restricted: token does not have access to this channel"
  | none => .ok ()

def reactionScope (env : ReactionEnv) (auth : IngestAuth) (event : Event) :
    Except IngestError (Option Uuid) := do
  let derived ← (deriveReactionChannel env event).scope
  let channelId := if isGlobalOnlyKind (eventKindU32 event) then none else derived
  require (requiresHChannelScope (eventKindU32 event) = true → channelId ≠ none)
    (.rejected "invalid: channel-scoped events must include an h tag")
  match channelId with
  | some ch => (checkTokenChannelAccess auth ch).mapError .authFailed
  | none =>
    require (auth.channelIds = none)
      (.authFailed "restricted: channel-scoped tokens cannot publish global events")
  return channelId

def checkChannelMembership (env : ReactionEnv) (channelId : Uuid) (pubkey : PublicKey)
    (channel : Option ChannelState) : Except String Unit :=
  match env.isMember channelId pubkey with
  | .error e => .error ("error: database error: " ++ e)
  | .ok true => .ok ()
  | .ok false =>
    if (channel.or (env.channelAgain channelId)).any fun ch ↦ ch.visibility == "open" then .ok ()
    else .error "restricted: not a channel member"

def msgIdLabel (id : EventId) : String := String.ofList ((hexEncode id).toList.take 16)

def claimedCommunityFromEvent (event : Event) : Option Uuid :=
  (event.tags.find? fun t ↦ t.kind = "h").bind fun t ↦ t.content.bind parseUuid

inductive TraceAction
  | writeInsert (msgId : String) (channel : Uuid) (claimedCommunity : Option Uuid)
  | writeDuplicate (msgId : String) (channel : Uuid) (claimedCommunity : Option Uuid)
  | authCheck (channel : Uuid) (claimedCommunity : Option Uuid) (allowed : Bool)
deriving DecidableEq

def TraceAction.isWrite : TraceAction → Bool
  | writeInsert .. | writeDuplicate .. => true
  | authCheck .. => false

def membershipGate (env : ReactionEnv) (auth : IngestAuth) (event : Event) :
    Option Uuid → List TraceAction × Except IngestError Unit
  | none => ([], .ok ())
  | some ch =>
    let verdict := checkChannelMembership env ch auth.pubkey (env.channel ch)
    ([.authCheck ch (claimedCommunityFromEvent event) verdict.isOk], verdict.mapError .rejected)

def contentGates (env : ReactionEnv) (event : Event) (channelId : Option Uuid) :
    Except IngestError Unit := do
  require (((channelId.bind env.channel).all fun ch ↦ ch.archivedAt.isNone) = true)
    (.rejected "invalid: channel is archived")
  let imetaTags := (event.tags.filter fun t ↦ t.kind = "imeta").map Tag.asSlice
  if imetaTags ≠ [] then
    (env.validateImeta imetaTags).mapError fun e ↦ .rejected ("invalid: " ++ e)

/-- What the handling of an event does; there is no result when an `expect` fails. -/
structure ReactionRun where
  store : ReactionStore
  traces : List TraceAction := []
  dispatched : List StoredEvent := []
  result : Option (Except IngestError IngestResult)

def dbErrorText : DbError → String
  | .authEventRejected => "AUTH events (kind 22242) must not be stored"
  | .ephemeralEventRejected kind =>
    "ephemeral events (kind " ++ toString kind.val ++ ") must not be stored"
  | .invalidTimestamp secs => "invalid timestamp: " ++ toString secs
  | .database message => "database error: " ++ message

def reactionError : Db.IngestError → IngestError
  | .rejected message => .rejected message
  | .internal e => .internal ("error: " ++ dbErrorText e)

/-- What comes of the transaction of a reaction whose texts the columns do not take: its emoji is
bound first, then the event. -/
def refuseNul (event : Event)
    (result : Except Db.IngestError (ReactionStore × ReactionEventInsertOutcome)) :
    Except Db.IngestError (ReactionStore × ReactionEventInsertOutcome) :=
  match result with
  | .ok (_, .duplicate) =>
    if hasNul event.content = true then .error (.internal (.database invalidByte)) else result
  | .ok (_, .inserted _) =>
    if hasNul event.content = true then .error (.internal (.database invalidByte))
    else
      match refusedText event with
      | some msg => .error (.internal (.database msg))
      | none => result
  | _ => result

def reactionBranch (env : ReactionEnv) (store : ReactionStore) (event : Event)
    (channelId : Option Uuid) : ReactionRun :=
  match refuseNul event (ingestReaction env.relayPubkey store event channelId) with
  | .error e => { store, result := some (.error (reactionError e)) }
  | .ok (_, .targetMissing) =>
    { store, result := some (.error (.rejected "invalid: reaction target event not found")) }
  | .ok (_, .duplicate) => { store, result := some (.ok ⟨event.id, false, .duplicate⟩) }
  | .ok (committed, .inserted wasInserted) =>
    match channelId with
    | none => { store := committed, result := none }
    | some ch =>
      let claimed := claimedCommunityFromEvent event
      { store := committed
        traces := [if wasInserted then .writeInsert (msgIdLabel event.id) ch claimed
          else .writeDuplicate (msgIdLabel event.id) ch claimed]
        dispatched := [⟨event, some ch⟩]
        result := some (.ok ⟨event.id, true, .empty⟩) }

def ingestReactionEvent (env : ReactionEnv) (auth : IngestAuth) (store : ReactionStore)
    (event : Event) : ReactionRun :=
  match reactionScope env auth event with
  | .error e => { store, result := some (.error e) }
  | .ok channelId =>
    let gate := membershipGate env auth event channelId
    match gate.2.bind fun _ ↦ contentGates env event channelId with
    | .error e => { store, traces := gate.1, result := some (.error e) }
    | .ok () =>
      let run := reactionBranch env store event channelId
      { run with traces := gate.1 ++ run.traces }

def ReactionRun.Total (run : ReactionRun) (event : Event) : Prop :=
  ∃ result, run.result = some result ∧ ∀ r, result = .ok r → r.accepted = true →
    (∃ action, run.traces.filter TraceAction.isWrite = [action]) ∧
      ∃ ch, run.dispatched = [⟨event, some ch⟩]

structure Strands (env : ReactionEnv) (auth : IngestAuth) (store : ReactionStore) (event : Event)
    (target : EventId) (targetRow : EventRow) (targetCreatedAt : DbTime) : Prop where
  names : reactionTarget event = some target
  found : ∃ events, env.events = .ok events ∧ getEventById events target = some targetRow
  readable : env.readable targetRow = true
  channelless : targetRow.channelId = none
  globalToken : auth.channelIds = none
  imeta : ∀ tags, tags = (event.tags.filter fun t ↦ t.kind = "imeta").map Tag.asSlice →
    tags ≠ [] → env.validateImeta tags = .ok ()
  short : (reactionEmoji event).length ≤ maxReactionEmojiChars
  live : ∃ targetEvent, store.events.latestById target false = some (targetCreatedAt, targetEvent)
  inactive : ∀ cell, store.reactions.lookup ⟨targetCreatedAt, target,
    effectiveMessageAuthor event env.relayPubkey, reactionEmoji event⟩ = some cell →
    cell.removed = true
  fresh : store.reactions.sourceTaken ⟨targetCreatedAt, target,
    effectiveMessageAuthor event env.relayPubkey, reactionEmoji event⟩ event.id = false
  dated : ∃ createdAt, createdAtOf event = .ok createdAt
  texts : refusedText event = none

variable {env : ReactionEnv} {auth : IngestAuth} {store : ReactionStore} {event : Event}

theorem deriveReactionChannel_eq_noChannel :
    deriveReactionChannel env event = .noChannel ↔ ∃ target row,
      reactionTarget event = some target ∧
      (∃ events, env.events = .ok events ∧ getEventById events target = some row) ∧
      env.readable row = true ∧ row.channelId = none := by
  unfold deriveReactionChannel
  cases htarget : reactionTarget event with
  | none => simp
  | some target =>
    cases hevents : env.events with
    | error e => simp
    | ok events =>
      cases hrow : getEventById events target with
      | none => simp [hrow]
      | some row =>
        cases hreadable : env.readable row <;> cases hchannel : row.channelId <;>
          simp [Option.filter, hrow, hreadable, hchannel]

theorem scope_eq_ok_none {derived : ReactionChannelResult} :
    derived.scope = .ok none ↔ derived = .noChannel := by
  cases derived <;> simp [ReactionChannelResult.scope]

theorem reactionScope_eq_ok_none (hkind : eventKindU32 event = Kinds.reaction) :
    reactionScope env auth event = .ok none ↔
      deriveReactionChannel env event = .noChannel ∧ auth.channelIds = none := by
  have hglobal : isGlobalOnlyKind (eventKindU32 event) = false := by
    rw [hkind]
    decide
  have hscope : requiresHChannelScope (eventKindU32 event) = false := by
    rw [hkind]
    decide
  rw [← scope_eq_ok_none, reactionScope]
  cases hderived : (deriveReactionChannel env event).scope with
  | error e => simp [bind, Except.bind]
  | ok derived =>
    cases derived with
    | none =>
      by_cases hauth : auth.channelIds = none <;>
        simp [bind, Except.bind, require, hglobal, hscope, pure, Except.pure, hauth]
    | some ch =>
      cases htoken : checkTokenChannelAccess auth ch <;>
        simp [bind, Except.bind, require, hglobal, hscope, pure, Except.pure, htoken,
          mapError_error, mapError_ok]

theorem contentGates_none : contentGates env event none = .ok () ↔
    ∀ tags, tags = (event.tags.filter fun t ↦ t.kind = "imeta").map Tag.asSlice →
      tags ≠ [] → env.validateImeta tags = .ok () := by
  simp only [contentGates, forall_eq]
  generalize (event.tags.filter fun t ↦ t.kind = "imeta").map Tag.asSlice = tags
  by_cases htags : tags = []
  · simp [htags, require, bind, Except.bind, pure, Except.pure]
  · cases env.validateImeta tags <;>
      simp [htags, require, bind, Except.bind, mapError_error, mapError_ok]

theorem addReactionTx_adds_iff {reactions : ReactionsTable} {key : ReactionKey}
    {source : EventId} :
    (∃ reactions', reactions.addReactionTx key (some source) = .ok (reactions', true)) ↔
      (∀ cell, reactions.lookup key = some cell → cell.removed = true) ∧
        reactions.sourceTaken key source = false := by
  unfold ReactionsTable.addReactionTx
  cases hcell : reactions.lookup key with
  | none => cases htaken : reactions.sourceTaken key source <;> simp [ReactionsTable.putCell, htaken]
  | some cell =>
    cases hremoved : cell.removed <;> cases htaken : reactions.sourceTaken key source <;>
      simp [ReactionsTable.putCell, htaken, hremoved]

theorem insertEventTx_of_reaction (hkind : eventKindU32 event = Kinds.reaction)
    (events : EventsTable) (channelId : Option Uuid) :
    insertEventTx events event channelId =
      (createdAtOf event).map fun createdAt ↦ events.insertRow createdAt event channelId := by
  have hephemeral : isEphemeral (eventKindU32 event) = false := by
    rw [hkind]
    decide
  have hauth : eventKindU32 event ≠ kindAuth := by
    rw [hkind]
    decide
  rw [insertEventTx, if_neg hauth, hephemeral]
  cases createdAtOf event <;> rfl

theorem insertReactionEvent_inserts_iff (hkind : eventKindU32 event = Kinds.reaction)
    {channelId : Option Uuid} {target : EventId} {actor : PublicKey} {emoji : String} :
    (∃ committed wasInserted, insertReactionEvent store event channelId target actor emoji =
        .ok (committed, .inserted wasInserted)) ↔
      ∃ targetCreatedAt targetEvent,
        store.events.latestById target false = some (targetCreatedAt, targetEvent) ∧
        ((∀ cell, store.reactions.lookup ⟨targetCreatedAt, target, actor, emoji⟩ = some cell →
            cell.removed = true) ∧
          store.reactions.sourceTaken ⟨targetCreatedAt, target, actor, emoji⟩ event.id = false) ∧
        ∃ createdAt, createdAtOf event = .ok createdAt := by
  unfold insertReactionEvent
  cases hlatest : store.events.latestById target false with
  | none => simp
  | some latest =>
    obtain ⟨targetCreatedAt, targetEvent⟩ := latest
    dsimp only
    simp only [Option.some.injEq, Prod.mk.injEq, ← addReactionTx_adds_iff]
    rcases hadd : store.reactions.addReactionTx ⟨targetCreatedAt, target, actor, emoji⟩
      (some event.id) with e | ⟨reactions, added⟩
    · grind
    · cases added with
      | false => grind
      | true =>
        rw [insertEventTx_of_reaction hkind]
        cases createdAtOf event <;> simp [Except.map, hadd]

theorem ingestReaction_inserts_iff {relayPubkey : PublicKey} {channelId : Option Uuid} :
    (∃ committed wasInserted, ingestReaction relayPubkey store event channelId =
        .ok (committed, .inserted wasInserted)) ↔
      ∃ target, reactionTarget event = some target ∧
        (reactionEmoji event).length ≤ maxReactionEmojiChars ∧
        ∃ committed wasInserted, insertReactionEvent store event channelId target
          (effectiveMessageAuthor event relayPubkey) (reactionEmoji event) =
            .ok (committed, .inserted wasInserted) := by
  unfold ingestReaction
  cases htarget : reactionTarget event with
  | none => simp
  | some target =>
    dsimp only
    split_ifs with hlong
    · simp [Nat.not_le.mpr hlong]
    · rcases hinsert : insertReactionEvent store event channelId target
          (effectiveMessageAuthor event relayPubkey) (reactionEmoji event) with
        e | ⟨committed, _ | _ | wasInserted⟩ <;>
        simp [hinsert, Nat.not_lt.mp hlong]
      cases wasInserted <;> simp

theorem refuseNul_inserts_iff
    {result : Except Db.IngestError (ReactionStore × ReactionEventInsertOutcome)} :
    (∃ committed wasInserted, refuseNul event result = .ok (committed, .inserted wasInserted)) ↔
      (∃ committed wasInserted, result = .ok (committed, .inserted wasInserted)) ∧
        refusedText event = none := by
  rcases result with e | ⟨committed, _ | _ | wasInserted⟩
  · simp [refuseNul]
  · simp [refuseNul]
  · by_cases hcontent : hasNul event.content = true <;> simp [refuseNul, hcontent]
  · by_cases hcontent : hasNul event.content = true
    · have hrefused : refusedText event ≠ none := by
        rw [refusedText, if_pos hcontent]
        split_ifs <;> nofun
      simp [refuseNul, hcontent, hrefused]
    · cases hrefused : refusedText event <;> simp [refuseNul, hcontent, hrefused]

theorem reactionBranch_some_total (ch : Uuid) :
    (reactionBranch env store event (some ch)).Total event := by
  unfold reactionBranch
  rcases refuseNul event (ingestReaction env.relayPubkey store event (some ch)) with
    e | ⟨committed, _ | _ | wasInserted⟩ <;>
    simp [ReactionRun.Total]
  cases wasInserted <;> exact ⟨_, rfl⟩

theorem reactionBranch_none_total_iff : (reactionBranch env store event none).Total event ↔
    ¬∃ committed wasInserted, refuseNul event (ingestReaction env.relayPubkey store event none) =
      .ok (committed, .inserted wasInserted) := by
  unfold reactionBranch
  rcases refuseNul event (ingestReaction env.relayPubkey store event none) with
    e | ⟨committed, _ | _ | wasInserted⟩ <;>
    simp [ReactionRun.Total]

theorem ReactionRun.total_of_error {run : ReactionRun} {e : IngestError}
    (h : run.result = some (.error e)) : run.Total event :=
  ⟨.error e, h, fun _ hr ↦ nomatch hr⟩

theorem membershipGate_traces (channelId : Option Uuid) :
    (membershipGate env auth event channelId).1.filter TraceAction.isWrite = [] := by
  cases channelId <;> rfl

theorem exists_strands_iff (hkind : eventKindU32 event = Kinds.reaction) :
    (∃ target targetRow targetCreatedAt,
      Strands env auth store event target targetRow targetCreatedAt) ↔
      reactionScope env auth event = .ok none ∧ contentGates env event none = .ok () ∧
        ∃ committed wasInserted, refuseNul event (ingestReaction env.relayPubkey store event none) =
          .ok (committed, .inserted wasInserted) := by
  rw [reactionScope_eq_ok_none hkind, deriveReactionChannel_eq_noChannel, contentGates_none,
    refuseNul_inserts_iff, ingestReaction_inserts_iff]
  simp only [insertReactionEvent_inserts_iff hkind]
  constructor
  · rintro ⟨target, row, createdAt, h⟩
    obtain ⟨targetEvent, hlive⟩ := h.live
    exact ⟨⟨⟨target, row, h.names, h.found, h.readable, h.channelless⟩, h.globalToken⟩, h.imeta,
      ⟨target, h.names, h.short, createdAt, targetEvent, hlive, ⟨h.inactive, h.fresh⟩, h.dated⟩,
      h.texts⟩
  · rintro ⟨⟨⟨target, row, hnames, hfound, hreadable, hnone⟩, hauth⟩, himeta,
      ⟨target', hnames', hshort, createdAt, targetEvent, hlive, ⟨hinactive, hfresh⟩, hdated⟩,
      htexts⟩
    obtain rfl := Option.some.inj (hnames.symm.trans hnames')
    exact ⟨target, row, createdAt, hnames, hfound, hreadable, hnone, hauth, himeta, hshort,
      ⟨targetEvent, hlive⟩, hinactive, hfresh, hdated, htexts⟩

theorem total_behind_gate (channelId : Option Uuid) (run : ReactionRun) :
    ({ run with traces := (membershipGate env auth event channelId).1 ++ run.traces } :
      ReactionRun).Total event ↔ run.Total event := by
  simp [ReactionRun.Total, List.filter_append, membershipGate_traces]

/-- A kind:7 event is handled to an end iff it does not strand after its commit. -/
theorem ingestReactionEvent_total_iff (env : ReactionEnv) (auth : IngestAuth)
    (store : ReactionStore) (event : Event) (hkind : eventKindU32 event = Kinds.reaction) :
    (ingestReactionEvent env auth store event).Total event ↔
      ¬∃ target targetRow targetCreatedAt,
        Strands env auth store event target targetRow targetCreatedAt := by
  rw [exists_strands_iff hkind, ingestReactionEvent]
  rcases reactionScope env auth event with e | _ | ch
  · simpa using ReactionRun.total_of_error rfl
  · cases hcontent : contentGates env event none with
    | error e => simpa [membershipGate, Except.bind, hcontent] using ReactionRun.total_of_error rfl
    | ok _ =>
      simp only [membershipGate, Except.bind, hcontent, List.nil_append, true_and]
      exact reactionBranch_none_total_iff
  · dsimp only
    have hsome : (Except.ok (some ch) : Except IngestError (Option Uuid)) ≠ .ok none := by simp
    simp only [hsome, false_and, not_false_iff, iff_true]
    split
    · exact ReactionRun.total_of_error rfl
    · exact (total_behind_gate (some ch) _).mpr (reactionBranch_some_total ch)

section Note

def openRelay (events : EventsTable) : ReactionEnv where
  relayPubkey := 0
  events := .ok events
  readable := fun _ ↦ true
  channel := fun _ ↦ some ⟨"open", none⟩
  channelAgain := fun _ ↦ none
  isMember := fun _ _ ↦ .ok false
  validateImeta := fun _ ↦ .ok ()

def textNoteEvent : Event := ⟨1, 10, 0, 1, [], "hello", 0⟩

def noteReaction : Event := ⟨2, 11, 0, 7, [⟨"e", [hexEncode 1]⟩], "+", 0⟩

def noteStore : ReactionStore := ⟨(EventsTable.insertRow ∅ 0 textNoteEvent none).1, ∅⟩

def writer : IngestAuth := .nip42 11 [.messagesWrite] none

def calmEnv : Env :=
  ⟨0, 0, 0, fun _ ↦ .ok (), fun _ _ ↦ none, fun _ ↦ .error "", fun _ ↦ none, 0, ""⟩

theorem ingestReactionEvent_total_empty :
    (ingestReactionEvent (openRelay ∅) writer {} noteReaction).Total noteReaction := by
  refine (ingestReactionEvent_total_iff (openRelay ∅) writer {} noteReaction (by decide)).mpr ?_
  rintro ⟨target, row, createdAt, h⟩
  obtain ⟨events, hevents, hfound⟩ := h.found
  obtain rfl := Except.ok.inj hevents
  nomatch hfound

theorem not_total_of_no_result {run : ReactionRun} (h : run.result.isNone = true) :
    ¬run.Total event := by
  rintro ⟨result, hresult, -⟩
  rw [hresult] at h
  nomatch h

/-- The reaction to a note is stored, and then there is no channel to label the trace with. -/
theorem reaction_to_note_strands :
    let run := ingestReactionEvent (openRelay noteStore.events) writer noteStore noteReaction
    (precheck calmEnv noteReaction writer).isOk = true ∧
      (run.store.events.latestById noteReaction.id false).isSome = true ∧
      run.dispatched = [] ∧ ¬run.Total noteReaction := by
  refine ⟨by decide +kernel, by decide +kernel, by decide +kernel, not_total_of_no_result ?_⟩
  decide +kernel

end Note

end Buzz.Relay.Ingest
