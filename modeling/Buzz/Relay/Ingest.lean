import Buzz.Relay.Commands

namespace Buzz.Relay.Ingest

open Buzz.Lib Buzz.Nostr Buzz.Core Buzz.Db

inductive Scope
  | messagesRead
  | messagesWrite
  | channelsRead
  | channelsWrite
  | adminChannels
  | usersRead
  | usersWrite
  | adminUsers
  | jobsRead
  | jobsWrite
  | subscriptionsRead
  | subscriptionsWrite
  | filesRead
  | filesWrite
  | reposRead
  | reposWrite
  | unknown (text : String)
deriving DecidableEq, Repr

def Scope.asStr : Scope → String
  | messagesRead => "messages:read"
  | messagesWrite => "messages:write"
  | channelsRead => "channels:read"
  | channelsWrite => "channels:write"
  | adminChannels => "admin:channels"
  | usersRead => "users:read"
  | usersWrite => "users:write"
  | adminUsers => "admin:users"
  | jobsRead => "jobs:read"
  | jobsWrite => "jobs:write"
  | subscriptionsRead => "subscriptions:read"
  | subscriptionsWrite => "subscriptions:write"
  | filesRead => "files:read"
  | filesWrite => "files:write"
  | reposRead => "repos:read"
  | reposWrite => "repos:write"
  | unknown text => text

inductive IngestAuth
  | nip42 (pubkey : PublicKey) (scopes : List Scope) (channelIds : Option (List Uuid))
  | http (pubkey : PublicKey) (scopes : List Scope)
deriving DecidableEq

namespace IngestAuth

def pubkey : IngestAuth → PublicKey
  | nip42 pubkey .. | http pubkey _ => pubkey

def scopes : IngestAuth → List Scope
  | nip42 _ scopes _ | http _ scopes => scopes

def channelIds : IngestAuth → Option (List Uuid)
  | nip42 _ _ channelIds => channelIds
  | http .. => none

def isHttp : IngestAuth → Bool
  | nip42 .. => false
  | http .. => true

end IngestAuth

section Kinds

open Kinds

def usersWriteKinds : List ℕ :=
  [profile, contactList, readState, userStatus, agentEngram, eventReminder, persona, team,
    managedAgent, pushLease, muteList, pinList, nip65RelayListMetadata, bookmarkList, followSet,
    bookmarkSet, emojiSet, emojiList, agentProfile, iaArchiveRequest, iaUnarchiveRequest]

def messagesWriteKinds : List ℕ :=
  [textNote, longForm, agentTurnMetric, report, productFeedback, deletion, reaction, giftWrap,
    streamMessage, streamMessageV2, nip29DeleteEvent, streamMessageEdit, streamMessagePinned,
    streamMessageBookmarked, streamMessageScheduled, streamReminder, streamMessageDiff, forumPost,
    forumVote, forumComment, gitPatch, gitPullRequest, gitPrUpdate, gitIssue, gitStatusOpen,
    gitStatusMerged, gitStatusClosed, gitStatusDraft, dmOpen, dmAddMember, dmHide, workflowDef,
    workflowTrigger, approvalGrant, approvalDeny]

def channelsWriteKinds : List ℕ :=
  [nip29CreateGroup, canvas, huddleStarted, huddleParticipantJoined, huddleParticipantLeft,
    huddleEnded, huddleGuidelines]

def requiredScopeForKind (kind : ℕ) (event : Event) : Except String Scope :=
  if usersWriteKinds.contains kind then .ok .usersWrite
  else if messagesWriteKinds.contains kind || isModerationCommandKind kind then .ok .messagesWrite
  else if [nip29PutUser, nip29RemoveUser, nip29DeleteGroup].contains kind then .ok .adminChannels
  else if isRelayAdminKind kind then .ok .adminUsers
  else if kind = nip29EditMetadata then
    .ok (if event.tags.any fun t ↦ t.kind == "archived" then .adminChannels else .channelsWrite)
  else if channelsWriteKinds.contains kind then .ok .channelsWrite
  else if [nip29JoinRequest, nip29LeaveRequest, nip43LeaveRequest].contains kind then
    .ok .channelsRead
  else if [gitRepoAnnouncement, gitRepoState].contains kind then .ok .reposWrite
  else .error "restricted: unknown event kind"

end Kinds

def MAX_TIMESTAMP_DRIFT_SECS : Int64 := 900

def MAX_EVENT_CONTENT_BYTES : ℕ := 256 * 1024

/-- What `ingest_event_inner` checks before it routes an event by its kind. -/
def precheck (env : Env) (event : Event) (auth : IngestAuth) : Except IngestError Unit := do
  let kind := eventKindU32 event
  require (kind ≠ Kinds.auth) (.rejected "invalid: AUTH events cannot be submitted")
  require (kind ≠ Kinds.memberAddedNotification ∧ kind ≠ Kinds.memberRemovedNotification)
    (.rejected "invalid: membership notifications are relay-signed only")
  require (auth.isHttp = true → kind ≠ Kinds.giftWrap ∧ kind ≠ Kinds.presenceUpdate)
    (.rejected ("invalid: kind " ++ toString kind ++ " is only accepted via WebSocket"))
  require (Kinds.isRelayOnlyKind kind = false) (.rejected "restricted: relay-only kind")
  (env.verifyEvent event).mapError fun e ↦ .rejected ("invalid: " ++ e)
  require ((event.createdAt.toInt64 - env.nowSecs).abs ≤ MAX_TIMESTAMP_DRIFT_SECS)
    (.rejected "invalid: event timestamp too far from server time")
  require (event.content.utf8ByteSize ≤ MAX_EVENT_CONTENT_BYTES)
    (.rejected ("invalid: content exceeds maximum size of " ++ toString MAX_EVENT_CONTENT_BYTES ++
      " bytes (got " ++ toString event.content.utf8ByteSize ++ ")"))
  require (event.pubkey = auth.pubkey ∨ kind = Kinds.giftWrap)
    (.authFailed "invalid: event pubkey does not match authenticated identity")
  let required ← (requiredScopeForKind kind event).mapError .rejected
  require (Kinds.isRelayAdminKind kind = true → auth.channelIds = none) (.authFailed
    "restricted: relay admin commands require a global token, not a channel-scoped token")
  require (kind = Kinds.nip43LeaveRequest → auth.channelIds = none)
    (.authFailed "restricted: leave requests require a global token")
  require (required ∈ auth.scopes)
    (.authFailed ("restricted: insufficient scope (need " ++ required.asStr ++ ")"))

structure RestrictionState where
  banned : Bool
  mutedUntil : Option Timestamptz
deriving DecidableEq

def Store.restrictionState (s : Store) (dbNow : Timestamptz) (p : PublicKey) : RestrictionState :=
  match s.bans.lookup p with
  | some row => ⟨row.banned && row.banExpiresAt.all fun t ↦ dbNow < t,
      row.mutedUntil.filter fun t ↦ dbNow < t⟩
  | none => ⟨false, none⟩

def writeBlock (env : Env) (p : PublicKey) (s : Store) : Except IngestError Unit :=
  let r := s.restrictionState env.dbNow p
  if r.banned then .error (.authFailed "blocked: you are banned from this community")
  else
    match r.mutedUntil with
    | some t =>
      if env.now < t then
        .error (.authFailed ("restricted: you are timed out until " ++ toString (t / 1000000)))
      else .ok ()
    | none => .ok ()

/-- The handlers of the kinds that have one of their own, and the pipeline behind the write
block. -/
structure Handlers where
  productFeedback : Env → Event → Store → Except String Unit × Store
  report : Env → Event → Store → Except String Unit × Store
  moderationCommand : Env → Event → Store → Except String Unit × Store
  pipeline : Env → IngestAuth → Event → Store → Except IngestError IngestResult × Store

def sidecar (event : Event) (handled : Except String Unit × Store) :
    Except IngestError IngestResult × Store :=
  (match handled.1 with
    | .ok () => .ok ⟨event.id, true, .empty⟩
    | .error msg => .error (.rejected msg), handled.2)

def ingestEventInner (h : Handlers) (env : Env) (event : Event) (auth : IngestAuth) (s : Store) :
    Except IngestError IngestResult × Store :=
  let kind := eventKindU32 event
  attempt s (precheck env event auth) fun _ ↦
    if Kinds.isCommandKind kind then handleCommand env auth.pubkey event s
    else if kind = Kinds.productFeedback then sidecar event (h.productFeedback env event s)
    else if kind = Kinds.report then sidecar event (h.report env event s)
    else if Kinds.isModerationCommandKind kind then sidecar event (h.moderationCommand env event s)
    else if !Kinds.isModerationCommandKind kind && !Kinds.isRelayAdminKind kind then
      attempt s (writeBlock env auth.pubkey s) fun _ ↦ h.pipeline env auth event s
    else h.pipeline env auth event s

end Buzz.Relay.Ingest
