import Buzz.Db.Replace
import Buzz.Git.Publish
import Buzz.Lib.Attempt
import Buzz.Lib.Jsonb
import Mathlib.Data.Nat.Notation

namespace Buzz.Core.Kinds

def profile : ℕ := 0
def textNote : ℕ := 1
def contactList : ℕ := 3
def deletion : ℕ := 5
def reaction : ℕ := 7
def streamMessage : ℕ := 9
def giftWrap : ℕ := 1059
def gitPatch : ℕ := 1617
def gitPullRequest : ℕ := 1618
def gitPrUpdate : ℕ := 1619
def gitIssue : ℕ := 1621
def gitStatusOpen : ℕ := 1630
def gitStatusMerged : ℕ := 1631
def gitStatusClosed : ℕ := 1632
def gitStatusDraft : ℕ := 1633
def report : ℕ := 1984
def nip29PutUser : ℕ := 9000
def nip29RemoveUser : ℕ := 9001
def nip29EditMetadata : ℕ := 9002
def nip29DeleteEvent : ℕ := 9005
def nip29CreateGroup : ℕ := 9007
def nip29DeleteGroup : ℕ := 9008
def nip29JoinRequest : ℕ := 9021
def nip29LeaveRequest : ℕ := 9022
def relayAdminAddMember : ℕ := 9030
def relayAdminRemoveMember : ℕ := 9031
def relayAdminChangeRole : ℕ := 9032
def relayAdminSetWorkspaceProfile : ℕ := 9033
def iaArchiveRequest : ℕ := 9035
def iaUnarchiveRequest : ℕ := 9036
def moderationBan : ℕ := 9040
def moderationUnban : ℕ := 9041
def moderationTimeout : ℕ := 9042
def moderationUntimeout : ℕ := 9043
def moderationResolveReport : ℕ := 9044
def muteList : ℕ := 10000
def pinList : ℕ := 10001
def nip65RelayListMetadata : ℕ := 10002
def bookmarkList : ℕ := 10003
def emojiList : ℕ := 10030
def agentProfile : ℕ := 10100
def nip43MembershipList : ℕ := 13534
def presenceUpdate : ℕ := 20001
def auth : ℕ := 22242
def nip43LeaveRequest : ℕ := 28936
def followSet : ℕ := 30000
def bookmarkSet : ℕ := 30003
def longForm : ℕ := 30023
def emojiSet : ℕ := 30030
def readState : ℕ := 30078
def agentEngram : ℕ := 30174
def persona : ℕ := 30175
def team : ℕ := 30176
def managedAgent : ℕ := 30177
def eventReminder : ℕ := 30300
def userStatus : ℕ := 30315
def pushLease : ℕ := 30350
def gitRepoAnnouncement : ℕ := 30617
def gitRepoState : ℕ := 30618
def workflowDef : ℕ := 30620
def dmVisibility : ℕ := 30622
def threadSummary : ℕ := 39005
def windowBounds : ℕ := 39006
def streamMessageV2 : ℕ := 40002
def streamMessageEdit : ℕ := 40003
def streamMessagePinned : ℕ := 40004
def streamMessageBookmarked : ℕ := 40005
def streamMessageScheduled : ℕ := 40006
def streamReminder : ℕ := 40007
def streamMessageDiff : ℕ := 40008
def canvas : ℕ := 40100
def channelSummary : ℕ := 40901
def presenceSnapshot : ℕ := 40902
def dmOpen : ℕ := 41010
def dmAddMember : ℕ := 41011
def dmHide : ℕ := 41012
def productFeedback : ℕ := 42000
def memberAddedNotification : ℕ := 44100
def memberRemovedNotification : ℕ := 44101
def agentTurnMetric : ℕ := 44200
def forumPost : ℕ := 45001
def forumVote : ℕ := 45002
def forumComment : ℕ := 45003
def workflowTrigger : ℕ := 46020
def approvalGrant : ℕ := 46030
def approvalDeny : ℕ := 46031
def huddleStarted : ℕ := 48100
def huddleParticipantJoined : ℕ := 48101
def huddleParticipantLeft : ℕ := 48102
def huddleEnded : ℕ := 48103
def huddleGuidelines : ℕ := 48106

def isRelayAdminKind (kind : ℕ) : Bool :=
  [relayAdminAddMember, relayAdminRemoveMember, relayAdminChangeRole,
    relayAdminSetWorkspaceProfile].contains kind

def isModerationCommandKind (kind : ℕ) : Bool :=
  [moderationBan, moderationUnban, moderationTimeout, moderationUntimeout,
    moderationResolveReport].contains kind

def isCommandKind (kind : ℕ) : Bool :=
  [workflowDef, dmOpen, dmAddMember, dmHide, workflowTrigger, approvalGrant, approvalDeny].contains kind

def isRelayOnlyKind (kind : ℕ) : Bool :=
  [nip43MembershipList, channelSummary, presenceSnapshot, dmVisibility, threadSummary,
    windowBounds].contains kind

end Buzz.Core.Kinds

namespace Buzz.Relay.Ingest

open Buzz.Lib Buzz.Nostr Buzz.Core Buzz.Db

abbrev Timestamptz := ℤ

inductive IngestError
  | rejected (msg : String)
  | authFailed (msg : String)
  | internal (msg : String)
deriving DecidableEq, Repr

inductive ApprovalStatus
  | pending
  | granted
  | denied
  | expired
deriving DecidableEq, Repr

def ApprovalStatus.text : ApprovalStatus → String
  | pending => "pending"
  | granted => "granted"
  | denied => "denied"
  | expired => "expired"

/-- The message of an accepted event. -/
inductive Response
  | empty
  | duplicate
  | unit
  | dmOpened (channelId : Uuid) (created : Bool)
  | dmExtended (channelId : Uuid)
  | workflow (workflowId : Uuid) (webhookSecret : Option String)
  | run (runId : Uuid)
  | approval (status : ApprovalStatus) (runId : Uuid)
deriving DecidableEq

structure IngestResult where
  eventId : EventId
  accepted : Bool
  message : Response
deriving DecidableEq

inductive ChannelType
  | stream
  | forum
  | dm
  | workflow
deriving DecidableEq, Repr

/-- `participants` is what the participant hash of a DM is taken of. -/
structure ChannelRow where
  channelType : ChannelType
  createdBy : PublicKey
  participants : Option (List PublicKey)
  deleted : Bool

structure DmMemberRow where
  removed : Bool
  hidden : Bool

structure WorkflowRow where
  name : String
  owner : PublicKey
  channelId : Option Uuid
  definition : Json

structure TriggerContext where
  channelId : String
  author : String
  webhookFields : List (String × String)

structure WorkflowRun where
  workflowId : Uuid
  triggerEventId : Option EventId
  triggerContext : TriggerContext

structure ApprovalRow where
  runId : Uuid
  approverSpec : String
  status : ApprovalStatus
  approver : Option PublicKey
  note : Option String
  expiresAt : Timestamptz

structure BanRow where
  banned : Bool
  banExpiresAt : Option Timestamptz
  mutedUntil : Option Timestamptz

/-- The rows of a community that commands read and write. -/
structure Store where
  users : List PublicKey
  events : EventsTable
  channels : Map Uuid ChannelRow
  members : Map (Uuid × PublicKey) DmMemberRow
  workflows : Map Uuid WorkflowRow
  runs : Map Uuid WorkflowRun
  approvals : Map (List UInt8) ApprovalRow
  bans : Map PublicKey BanRow

/-- What `parse_yaml` gives: the name, whether a webhook triggers the workflow, and its JSON. -/
structure WorkflowSource where
  name : String
  webhook : Bool
  definition : Json

/-- The clocks, caches, parsers and random values of a request. -/
structure Env where
  nowSecs : Int64
  now : Timestamptz
  dbNow : Timestamptz
  verifyEvent : Event → Except String Unit
  cachedMember : Uuid → PublicKey → Option Bool
  parseYaml : String → Except String WorkflowSource
  parseJson : String → Option Json
  freshId : Uuid
  freshSecret : String

def decodeHexChars : List Char → Option (List UInt8)
  | [] => some []
  | [_] => none
  | a :: b :: rest => do
    let x ← Hex.digitValue a
    let y ← Hex.digitValue b
    let tail ← decodeHexChars rest
    return .ofNat (16 * x + y) :: tail

def decodeHex (s : String) : Option (List UInt8) := decodeHexChars s.toList

def decodePubkey (hexStr : String) : Except IngestError PublicKey :=
  match hexDecode hexStr with
  | some p => .ok p
  | none =>
    .error (.rejected (if (decodeHex hexStr).isSome then "invalid: pubkey must be 32 bytes: " ++ hexStr
      else "invalid: bad pubkey hex: " ++ hexStr))

def extractChannelId (event : Event) : Option Uuid := (event.tagContents "h").findSome? parseUuid

/-- What the database says of a text with a NUL, in a `TEXT` and in a `JSONB` column. -/
def invalidByte : String :=
  "error returned from database: invalid byte sequence for encoding \"UTF8\": 0x00"

def unsupportedEscape : String :=
  "error returned from database: unsupported Unicode escape sequence"

/-- Why the columns of `events` do not take an event. -/
def refusedText (event : Event) : Option String :=
  if (event.tags.flatMap Tag.asSlice).any hasNul = true then some unsupportedEscape
  else if hasNul event.content = true then some invalidByte
  else none

/-- A `VARCHAR(n)` column takes a longer text only to cut blanks off its end. -/
def varchar (n : ℕ) (text : String) : Option String :=
  if (text.toList.drop n).all (· == ' ') then some (String.ofList (text.toList.take n)) else none

def upsertWorkflowError (msg : String) : IngestError :=
  .internal ("error: db upsert_workflow: database error: " ++ msg)

namespace Store

variable (s : Store)

def ensureUser (p : PublicKey) : Store :=
  if p ∈ s.users then s else { s with users := p :: s.users }

def getChannel (id : Uuid) : Option ChannelRow := (s.channels.lookup id).filter fun c ↦ !c.deleted

def activeMember (channelId : Uuid) (p : PublicKey) : Bool :=
  (s.members.lookup (channelId, p)).any fun m ↦ !m.removed

def isMember (channelId : Uuid) (p : PublicKey) : Bool :=
  (s.getChannel channelId).isSome && s.activeMember channelId p

def isMemberCached (env : Env) (channelId : Uuid) (p : PublicKey) : Bool :=
  (env.cachedMember channelId p).getD (s.isMember channelId p)

def getMembers (channelId : Uuid) : List PublicKey :=
  if (s.getChannel channelId).isSome then
    (s.members.entries.filter fun e ↦ decide (e.1.1 = channelId) && !e.2.removed).map fun e ↦ e.1.2
  else []

def persistCommandEvent (event : Event) (channelIdOverride : Option Uuid) :
    Except IngestError (Option EventsTable) :=
  let channelId := channelIdOverride.or (extractChannelId event)
  match createdAtOf event with
  | .error _ =>
    .error (.rejected ("invalid: bad timestamp " ++ toString (asI64 event.createdAt)))
  | .ok createdAt =>
    let insert (events : EventsTable) : Except IngestError (Option EventsTable) :=
      match refusedText event with
      | some msg => .error (.internal ("error: insert event: " ++ msg))
      | none =>
        match events.insertRow createdAt event channelId with
        | (_, false) => .ok none
        | (events, true) => .ok (some events)
    match extractDTag event with
    | none => insert s.events
    | some dTag =>
      if dTagMaxLen < dTag.utf8ByteSize then
        .error (.rejected ("invalid: d tag too long (" ++ toString dTag.utf8ByteSize ++
          " bytes, max " ++
          toString dTagMaxLen ++ ")"))
      else
        let coordinate := EventRow.isParameterized event.kind event.pubkey dTag
        match s.events.liveHead coordinate with
        | none => insert s.events
        | some head =>
          if dominated (createdAt, event.id) head then .ok none
          else insert (s.events.softDeleteWhere coordinate)

def participantKey (pubkeys : List PublicKey) : List PublicKey :=
  (pubkeys.mergeSort fun a b ↦ a ≤ b).dedup

def findDm (participants : List PublicKey) : Option Uuid :=
  (s.channels.entries.find? fun e ↦ decide (e.2.participants = some participants ∧
    e.2.channelType = .dm ∧ e.2.deleted = false)).map Sigma.fst

def setHidden (channelId : Uuid) (p : PublicKey) (hidden : Bool) : Store :=
  match (s.members.lookup (channelId, p)).filter fun m ↦ !m.removed with
  | some m => { s with members := AList.insert (channelId, p) { m with hidden := hidden } s.members }
  | none => s

def createDm (participants : List PublicKey) (createdBy : PublicKey) (id : Uuid) : Store :=
  { s with
    channels := AList.insert id ⟨.dm, createdBy, some (participantKey participants), false⟩ s.channels
    members := participants.foldl (fun members p ↦
      AList.insert (id, p) ⟨false, ((members.lookup (id, p)).map DmMemberRow.hidden).getD false⟩
        members) s.members }

def openDm (pubkeys : List PublicKey) (createdBy : PublicKey) (freshId : Uuid) :
    Except IngestError (Store × Uuid × Bool) :=
  let all := if createdBy ∈ pubkeys then pubkeys else pubkeys ++ [createdBy]
  let fail (msg : String) := IngestError.internal ("error: db open_dm: invalid data: " ++ msg)
  if 9 < all.length then .error (fail "DM supports at most 9 participants")
  else
    match s.findDm (participantKey all) with
    | some id => .ok (s.setHidden id createdBy false, id, false)
    | none =>
      if all.length < 2 then .error (fail "DM requires at least 2 participants")
      else .ok (s.createDm all createdBy freshId, freshId, true)

def hideDm (channelId : Uuid) (p : PublicKey) : Except IngestError Store :=
  if s.activeMember channelId p then .ok (s.setHidden channelId p true)
  else .error (.internal ("error: db hide_dm: not found: no active membership for channel " ++
    uuidToString channelId))

def upsertWorkflow (id : Uuid) (row : WorkflowRow) : Except IngestError Store :=
  if hasNul row.name = true then .error (upsertWorkflowError invalidByte)
  else
    match varchar 255 row.name with
    | none => .error (upsertWorkflowError
        "error returned from database: value too long for type character varying(255)")
    | some name =>
      if row.definition.strings.any hasNul = true then
        .error (upsertWorkflowError unsupportedEscape)
      else .ok { s with workflows := AList.insert id { row with name := name } s.workflows }

def createWorkflowRun (id : Uuid) (run : WorkflowRun) : Except IngestError Store :=
  if run.triggerContext.webhookFields.any (fun f ↦ hasNul f.1 || hasNul f.2) = true then
    .error (.internal ("error: db create_workflow_run: database error: " ++ unsupportedEscape))
  else .ok { s with runs := AList.insert id run s.runs }

end Store

def mergeParticipants (all new : List PublicKey) : List PublicKey :=
  new.foldl (fun all p ↦ if p ∈ all then all else all ++ [p]) all

def parseChannelTag (event : Event) : Except IngestError Uuid := do
  let text ← okOr (event.tagContents "h").head? (.rejected "invalid: missing h tag (channel_id)")
  okOr (parseUuid text) (.rejected "invalid: bad channel_id format")

def persisting (s : Store) (event : Event) (channelIdOverride : Option Uuid)
    (act : Store → Except IngestError (Store × Response)) :
    Except IngestError (Store × Response) := do
  match ← s.persistCommandEvent event channelIdOverride with
  | none => return (s, .duplicate)
  | some events => act { s with events := events }

def handleDmOpen (env : Env) (self : PublicKey) (event : Event) (s : Store) :
    Except IngestError (Store × Response) := do
  let pTags := event.tagContents "p"
  require (pTags ≠ []) (.rejected "invalid: pubkeys must contain at least 1 other participant")
  require (pTags.length ≤ 8)
    (.rejected "invalid: pubkeys may contain at most 8 other participants (9 total)")
  let others ← pTags.mapM decodePubkey
  persisting s event none fun s ↦ do
    let (s, channelId, created) ← s.openDm (mergeParticipants [self] others) self env.freshId
    return (s, .dmOpened channelId created)

def parseDm (env : Env) (self : PublicKey) (s : Store) (channelId : Uuid) :
    Except IngestError Unit := do
  require (s.isMemberCached env channelId self = true) (.rejected "forbidden: not a member of this DM")
  let channel ← okOr (s.getChannel channelId) (.rejected "invalid: DM not found")
  require (channel.channelType = .dm) (.rejected "invalid: channel is not a DM")

def handleDmAddMember (env : Env) (self : PublicKey) (event : Event) (s : Store) :
    Except IngestError (Store × Response) := do
  let channelId ← parseChannelTag event
  let pTags := event.tagContents "p"
  require (pTags ≠ []) (.rejected "invalid: must specify at least 1 new participant in p tags")
  parseDm env self s channelId
  let new ← pTags.mapM decodePubkey
  let all := mergeParticipants (s.getMembers channelId) new
  require (all.length ≤ 9) (.rejected "invalid: DM supports at most 9 participants")
  persisting s event none fun s ↦ do
    let (s, channelId, _) ← s.openDm all self env.freshId
    return (s, .dmExtended channelId)

def handleDmHide (env : Env) (self : PublicKey) (event : Event) (s : Store) :
    Except IngestError (Store × Response) := do
  let channelId ← parseChannelTag event
  parseDm env self s channelId
  persisting s event none fun s ↦ do
    let s ← s.hideDm channelId self
    return (s, .unit)

def webhookKey : String := "_webhook_secret"

def extractSecret : Json → Option String
  | .obj fields => (fields.find? fun f ↦ f.1 = webhookKey).bind fun f ↦
      match f.2 with
      | .str secret => some secret
      | _ => none
  | _ => none

def injectSecret (definition : Json) (secret : String) : Json :=
  match definition with
  | .obj fields => .obj (Json.insertField fields (webhookKey, .str secret))
  | _ => definition

def withSecret (env : Env) (source : WorkflowSource) (existing : Option WorkflowRow) :
    Json × Option String :=
  if source.webhook then
    match existing.bind fun w ↦ extractSecret w.definition with
    | some secret => (injectSecret source.definition secret, none)
    | none => (injectSecret source.definition env.freshSecret, some env.freshSecret)
  else (source.definition, none)

def workflowName (event : Event) (source : WorkflowSource) : String :=
  (event.tagContents "name").head?.getD source.name

def handleWorkflowDef (env : Env) (self : PublicKey) (event : Event) (s : Store) :
    Except IngestError (Store × Response) := do
  let channelId ← parseChannelTag event
  let text ← okOr (event.tagContents "d").head? (.rejected "invalid: missing d tag (workflow_id)")
  let workflowId ← okOr (parseUuid text) (.rejected "invalid: bad workflow_id format")
  require (s.isMemberCached env channelId self = true)
    (.rejected "forbidden: not a member of this channel")
  let source ← (env.parseYaml event.content).mapError fun e ↦
    .rejected ("invalid: workflow YAML parse error: " ++ e)
  let existing := s.workflows.lookup workflowId
  require (∀ w ∈ existing, w.owner = self ∧ w.channelId = some channelId)
    (.rejected "forbidden: workflow belongs to a different owner or channel")
  let (definition, secret) := withSecret env source existing
  let name := workflowName event source
  persisting s event none fun s ↦ do
    let _ ← okOr (s.getChannel channelId) (.rejected "invalid: workflow channel not found")
    let s ← s.upsertWorkflow workflowId ⟨name, self, some channelId, definition⟩
    return (s, .workflow workflowId secret)

def triggerContext (env : Env) (self : PublicKey) (event : Event) (workflow : WorkflowRow) :
    TriggerContext where
  channelId := (workflow.channelId.map uuidToString).getD ""
  author := hexEncode self
  webhookFields :=
    if event.content = "" then []
    else
      match env.parseJson event.content with
      | some (.obj fields) => fields.map fun f ↦
          (f.1, match f.2 with
            | .str text => text
            | other => String.ofList other.render)
      | _ => []

def handleWorkflowTrigger (env : Env) (self : PublicKey) (event : Event) (s : Store) :
    Except IngestError (Store × Response) := do
  let text ← okOr ((event.tagContents "d").head?.or (event.tagContents "e").head?)
    (.rejected "invalid: missing workflow reference (d or e tag)")
  let workflowId ← okOr (parseUuid text) (.rejected "invalid: bad workflow_id format")
  let workflow ← okOr (s.workflows.lookup workflowId) (.rejected "invalid: workflow not found")
  require (workflow.owner = self) (.rejected "forbidden: not authorized to trigger this workflow")
  persisting s event workflow.channelId fun s ↦ do
    let context := triggerContext env self event workflow
    let s ← s.createWorkflowRun env.freshId ⟨workflowId, some event.id, context⟩
    return (s, .run env.freshId)

def isHexSpec (spec : String) : Bool :=
  spec.toList.length = 64 && spec.toList.all Hex.isHexDigit

def checkApproverSpec (approverSpec requesterHex : String) : Except IngestError Unit :=
  let spec := Git.trim approverSpec
  if spec = "" ∨ spec = "any" then .ok ()
  else if isHexSpec spec = true then
    require (requesterHex.toLower = spec.toLower)
      (.rejected "forbidden: not the designated approver for this request")
  else .error (.rejected ("forbidden: approver spec '" ++ spec ++ "' is not yet supported"))

def handleApproval (status : ApprovalStatus) (env : Env) (self : PublicKey) (event : Event)
    (s : Store) : Except IngestError (Store × Response) := do
  let text ← okOr ((event.tagContents "d").head?.or (event.tagContents "e").head?)
    (.rejected "invalid: missing approval reference (d or e tag)")
  let tokenHash ← okOr (decodeHex text) (.rejected "invalid: bad approval token hash hex")
  let approval ← okOr (s.approvals.lookup tokenHash) (.rejected "invalid: approval not found")
  require (approval.status = .pending)
    (.rejected ("invalid: approval already " ++ approval.status.text))
  require (env.now ≤ approval.expiresAt) (.rejected "invalid: approval token has expired")
  checkApproverSpec approval.approverSpec (hexEncode self)
  let note := if event.content = "" then none else some event.content
  let decided : ApprovalRow :=
    { approval with status := status, approver := some self, note := note }
  persisting s event none fun s ↦
    return ({ s with approvals := AList.insert tokenHash decided s.approvals },
      .approval status approval.runId)

def handleApprovalGrant : Env → PublicKey → Event → Store → Except IngestError (Store × Response) :=
  handleApproval .granted

def handleApprovalDeny : Env → PublicKey → Event → Store → Except IngestError (Store × Response) :=
  handleApproval .denied

def commandHandler (kind : ℕ) : Env → PublicKey → Event → Store →
    Except IngestError (Store × Response) :=
  if kind = Kinds.dmOpen then handleDmOpen
  else if kind = Kinds.dmAddMember then handleDmAddMember
  else if kind = Kinds.dmHide then handleDmHide
  else if kind = Kinds.workflowDef then handleWorkflowDef
  else if kind = Kinds.workflowTrigger then handleWorkflowTrigger
  else if kind = Kinds.approvalGrant then handleApprovalGrant
  else if kind = Kinds.approvalDeny then handleApprovalDeny
  else fun _ _ _ _ ↦ .error (.rejected ("unknown command kind: " ++ toString kind))

/-- A handler that fails drops its transaction; the caller's row in `users` stays. -/
def handleCommand (env : Env) (self : PublicKey) (event : Event) (s : Store) :
    Except IngestError IngestResult × Store :=
  let s := s.ensureUser self
  match commandHandler (eventKindU32 event) env self event s with
  | .ok (s, message) => (.ok ⟨event.id, true, message⟩, s)
  | .error e => (.error e, s)

end Buzz.Relay.Ingest
