import Buzz.Relay.Ingest

namespace Buzz.Relay.Ingest

open Buzz.Lib Buzz.Nostr Buzz.Core Buzz.Db

variable {env : Env} {self : PublicKey} {event : Event} {s : Store} {channelId : Uuid}
  {override : Option Uuid}

theorem decodePubkey_eq_ok {text : String} {p : PublicKey} :
    decodePubkey text = .ok p ↔ hexDecode text = some p := by
  rw [decodePubkey]
  cases hexDecode text with
  | some q => simp
  | none => simp

theorem mapM_decodePubkey_eq_ok {texts : List String} {ps : List PublicKey} :
    texts.mapM decodePubkey = .ok ps ↔ texts.mapM hexDecode = some ps := by
  induction texts generalizing ps with
  | nil =>
    exact ⟨fun h ↦ congrArg some (Except.ok.inj h), fun h ↦ congrArg Except.ok (Option.some.inj h)⟩
  | cons text texts ih =>
    rw [List.mapM_cons, List.mapM_cons, bind_eq_ok, Option.bind_eq_bind, Option.bind_eq_some_iff]
    refine exists_congr fun p ↦ and_congr decodePubkey_eq_ok ?_
    rw [bind_eq_ok, Option.bind_eq_bind, Option.bind_eq_some_iff]
    refine exists_congr fun rest ↦ and_congr ih ?_
    exact ⟨fun h ↦ congrArg some (Except.ok.inj h), fun h ↦ congrArg Except.ok (Option.some.inj h)⟩

/-- The event is no newer than the stored one of its coordinate. -/
def Store.Supersedes (s : Store) (event : Event) : Prop :=
  ∃ t d head, fromTimestamp (asI64 event.createdAt) = some t ∧ extractDTag event = some d ∧
    s.events.liveHead (EventRow.isParameterized event.kind event.pubkey d) = some head ∧
    dominated (t, event.id) head = true

/-- The time and the `d` tag of the event fit their columns, and so do its texts unless a newer
event keeps it out. -/
structure Store.Storable (s : Store) (event : Event) : Prop where
  time : (fromTimestamp (asI64 event.createdAt)).isSome = true
  dTag : ∀ d, extractDTag event = some d → d.utf8ByteSize ≤ dTagMaxLen
  texts : refusedText event = none ∨ s.Supersedes event

theorem supersedes_iff {t : ℤ} {d : String}
    (ht : fromTimestamp (asI64 event.createdAt) = some t) (hd : extractDTag event = some d) :
    s.Supersedes event ↔ ∃ head,
      s.events.liveHead (EventRow.isParameterized event.kind event.pubkey d) = some head ∧
        dominated (t, event.id) head = true := by
  constructor
  · rintro ⟨t', d', head, ht', hd', hhead⟩
    obtain rfl := Option.some.inj (ht.symm.trans ht')
    obtain rfl := Option.some.inj (hd.symm.trans hd')
    exact ⟨head, hhead⟩
  · rintro ⟨head, hhead⟩
    exact ⟨t, d, head, ht, hd, hhead⟩

theorem succeeds_insert {events : EventsTable} {createdAt : ℤ} {id : Option Uuid} :
    Succeeds (match refusedText event with
      | some msg => Except.error (IngestError.internal ("error: insert event: " ++ msg))
      | none =>
        match events.insertRow createdAt event id with
        | (_, false) => .ok none
        | (events, true) => .ok (some events)) ↔ refusedText event = none := by
  cases refusedText event with
  | some msg => exact iff_of_false (fun h ↦ nomatch h.choose_spec) nofun
  | none =>
    refine iff_of_true ?_ rfl
    dsimp only
    split <;> exact ⟨_, rfl⟩

theorem succeeds_persistCommandEvent :
    Succeeds (s.persistCommandEvent event override) ↔ s.Storable event := by
  rw [Store.persistCommandEvent, createdAtOf]
  cases ht : fromTimestamp (asI64 event.createdAt) with
  | none =>
    refine iff_of_false (fun h ↦ nomatch h.choose_spec) fun h ↦ ?_
    have htime := h.time
    rw [ht] at htime
    nomatch htime
  | some t =>
    have htime : (fromTimestamp (asI64 event.createdAt)).isSome = true := by
      rw [ht]
      rfl
    cases hd : extractDTag event with
    | none =>
      have hnot : ¬s.Supersedes event := fun ⟨_, _, _, _, h, _⟩ ↦ nomatch hd.symm.trans h
      refine succeeds_insert.trans ⟨fun h ↦ ⟨htime, fun d h' ↦ ?_, .inl h⟩, fun h ↦ ?_⟩
      · nomatch hd.symm.trans h'
      · exact h.texts.resolve_right hnot
    | some d =>
      have hsupersedes := supersedes_iff (s := s) ht hd
      dsimp only
      split_ifs with hlong
      · refine iff_of_false (fun h ↦ nomatch h.choose_spec) fun h ↦ ?_
        exact not_lt.mpr (h.dTag d hd) hlong
      · have hshort : ∀ d', extractDTag event = some d' → d'.utf8ByteSize ≤ dTagMaxLen := by
          intro d' hd'
          obtain rfl := Option.some.inj (hd.symm.trans hd')
          exact not_lt.mp hlong
        have hstorable : s.Storable event ↔ refusedText event = none ∨ s.Supersedes event :=
          ⟨fun h ↦ h.texts, fun h ↦ ⟨htime, hshort, h⟩⟩
        rw [hstorable, hsupersedes]
        cases hhead : s.events.liveHead
            (EventRow.isParameterized event.kind event.pubkey d) with
        | none => exact succeeds_insert.trans (by simp)
        | some head =>
          dsimp only
          split_ifs with hdominated
          · exact iff_of_true ⟨_, rfl⟩ (.inr ⟨head, rfl, hdominated⟩)
          · refine succeeds_insert.trans (or_iff_left ?_).symm
            rintro ⟨head', hhead', hdominated'⟩
            obtain rfl := Option.some.inj hhead'
            exact hdominated hdominated'

def Store.IsNew (s : Store) (event : Event) (override : Option Uuid) : Prop :=
  ∃ events, s.persistCommandEvent event override = .ok (some events)

theorem succeeds_persisting {act : Store → Except IngestError (Store × Response)} {P : Prop}
    (hact : ∀ events, Succeeds (act { s with events := events }) ↔ P) :
    Succeeds (persisting s event override act) ↔
      s.Storable event ∧ (s.IsNew event override → P) := by
  have hstorable : s.Storable event ↔ Succeeds (s.persistCommandEvent event override) :=
    succeeds_persistCommandEvent.symm
  rw [hstorable, persisting, succeeds_bind, Store.IsNew]
  cases s.persistCommandEvent event override with
  | error e => exact iff_of_false (fun ⟨_, h, _⟩ ↦ nomatch h) fun h ↦ nomatch h.1.choose_spec
  | ok stored =>
    cases stored with
    | none =>
      refine iff_of_true ⟨none, rfl, succeeds_pure _⟩ ⟨⟨none, rfl⟩, ?_⟩
      rintro ⟨events, h⟩
      nomatch h
    | some events =>
      constructor
      · rintro ⟨stored, h, hsucceeds⟩
        cases h
        exact ⟨⟨_, rfl⟩, fun _ ↦ (hact events).mp hsucceeds⟩
      · rintro ⟨-, hP⟩
        exact ⟨_, rfl, (hact events).mpr (hP ⟨events, rfl⟩)⟩

theorem succeeds_persisting_pure {f : Store → Store × Response} :
    Succeeds (persisting s event override fun s ↦ pure (f s)) ↔ s.Storable event :=
  (succeeds_persisting fun _ ↦ iff_true_intro (succeeds_pure _)).trans (by simp)

def Store.Opens (s : Store) (pubkeys : List PublicKey) (createdBy : PublicKey) : Prop :=
  let all := if createdBy ∈ pubkeys then pubkeys else pubkeys ++ [createdBy]
  all.length ≤ 9 ∧ ((s.findDm (Store.participantKey all)).isSome = true ∨ 2 ≤ all.length)

theorem succeeds_openDm {pubkeys : List PublicKey} {id : Uuid} :
    Succeeds (s.openDm pubkeys self id) ↔ s.Opens pubkeys self := by
  rw [Store.openDm, Store.Opens]
  dsimp only
  generalize (if self ∈ pubkeys then pubkeys else pubkeys ++ [self]) = all
  by_cases hmany : 9 < all.length
  · simp [Succeeds, hmany]
  · cases hfind : s.findDm (Store.participantKey all) with
    | some found => simp [Succeeds, hmany, not_lt.mp hmany]
    | none =>
      by_cases hfew : all.length < 2
      · simp [Succeeds, hmany, hfew]
      · simp [Succeeds, hmany, hfew, not_lt.mp hmany, not_lt.mp hfew]

theorem succeeds_hideDm :
    Succeeds (s.hideDm channelId self) ↔ s.activeMember channelId self = true := by
  rw [Store.hideDm]
  by_cases hactive : s.activeMember channelId self = true
  · exact iff_of_true ⟨_, if_pos hactive⟩ hactive
  · refine iff_of_false (fun ⟨t, ht⟩ ↦ ?_) hactive
    rw [if_neg hactive] at ht
    nomatch ht

def channelTag (event : Event) : Option Uuid := (event.tagContents "h").head?.bind parseUuid

def reference (event : Event) : Option String :=
  (event.tagContents "d").head?.or (event.tagContents "e").head?

def Store.InDm (s : Store) (env : Env) (self : PublicKey) (channelId : Uuid) : Prop :=
  s.isMemberCached env channelId self = true ∧
    ∃ channel, s.getChannel channelId = some channel ∧ channel.channelType = .dm

def DmOpenValid (self : PublicKey) (event : Event) (s : Store) : Prop :=
  let pTags := event.tagContents "p"
  pTags ≠ [] ∧ pTags.length ≤ 8 ∧ ∃ others, pTags.mapM hexDecode = some others ∧ s.Storable event ∧
    (s.IsNew event none → s.Opens (mergeParticipants [self] others) self)

def DmAddMemberValid (env : Env) (self : PublicKey) (event : Event) (s : Store) : Prop :=
  let pTags := event.tagContents "p"
  ∃ channelId, channelTag event = some channelId ∧ pTags ≠ [] ∧ s.InDm env self channelId ∧
    ∃ new, pTags.mapM hexDecode = some new ∧
      let all := mergeParticipants (s.getMembers channelId) new
      all.length ≤ 9 ∧ s.Storable event ∧ (s.IsNew event none → s.Opens all self)

def DmHideValid (env : Env) (self : PublicKey) (event : Event) (s : Store) : Prop :=
  ∃ channelId, channelTag event = some channelId ∧ s.InDm env self channelId ∧ s.Storable event ∧
    (s.IsNew event none → s.activeMember channelId self = true)

/-- The columns of a workflow take its name, of at most 255 characters, and its definition. -/
def WorkflowFits (name : String) (definition : Json) : Prop :=
  hasNul name = false ∧ (varchar 255 name).isSome = true ∧
    definition.strings.any hasNul = false

def WorkflowDefValid (env : Env) (self : PublicKey) (event : Event) (s : Store) : Prop :=
  ∃ channelId, channelTag event = some channelId ∧
    ∃ workflowId, (event.tagContents "d").head?.bind parseUuid = some workflowId ∧
      s.isMemberCached env channelId self = true ∧
      ∃ source, env.parseYaml event.content = .ok source ∧
        (∀ w, s.workflows.lookup workflowId = some w →
          w.owner = self ∧ w.channelId = some channelId) ∧
        s.Storable event ∧ (s.IsNew event none →
          (s.getChannel channelId).isSome = true ∧ WorkflowFits (workflowName event source)
            (withSecret env source (s.workflows.lookup workflowId)).1)

def WorkflowTriggerValid (env : Env) (self : PublicKey) (event : Event) (s : Store) : Prop :=
  ∃ workflowId, (reference event).bind parseUuid = some workflowId ∧
    ∃ workflow, s.workflows.lookup workflowId = some workflow ∧ workflow.owner = self ∧
      s.Storable event ∧ (s.IsNew event workflow.channelId →
        ∀ f ∈ (triggerContext env self event workflow).webhookFields,
          hasNul f.1 = false ∧ hasNul f.2 = false)

def ApprovalValid (env : Env) (self : PublicKey) (event : Event) (s : Store) : Prop :=
  ∃ tokenHash, (reference event).bind decodeHex = some tokenHash ∧
    ∃ approval, s.approvals.lookup tokenHash = some approval ∧ approval.status = .pending ∧
      env.now ≤ approval.expiresAt ∧
      checkApproverSpec approval.approverSpec (hexEncode self) = .ok () ∧ s.Storable event

def CommandValid (env : Env) (self : PublicKey) (event : Event) (s : Store) : Prop :=
  let kind := eventKindU32 event
  if kind = Kinds.dmOpen then DmOpenValid self event s
  else if kind = Kinds.dmAddMember then DmAddMemberValid env self event s
  else if kind = Kinds.dmHide then DmHideValid env self event s
  else if kind = Kinds.workflowDef then WorkflowDefValid env self event s
  else if kind = Kinds.workflowTrigger then WorkflowTriggerValid env self event s
  else if kind = Kinds.approvalGrant then ApprovalValid env self event s
  else if kind = Kinds.approvalDeny then ApprovalValid env self event s
  else False

theorem succeeds_parseChannelTag_bind {α : Type} {f : Uuid → Except IngestError α} :
    Succeeds (parseChannelTag event >>= f) ↔
      ∃ channelId, channelTag event = some channelId ∧ Succeeds (f channelId) := by
  rw [parseChannelTag, bind_assoc, channelTag]
  exact succeeds_okOr_parse_bind

theorem succeeds_parseDm_bind {α : Type} {f : Unit → Except IngestError α} :
    Succeeds (parseDm env self s channelId >>= f) ↔
      s.InDm env self channelId ∧ Succeeds (f ()) := by
  rw [parseDm, bind_assoc, succeeds_require_bind, bind_assoc, succeeds_okOr_bind, Store.InDm]
  constructor
  · rintro ⟨hmember, channel, hchannel, hdm⟩
    obtain ⟨hdm, hf⟩ := succeeds_require_bind.mp hdm
    exact ⟨⟨hmember, channel, hchannel, hdm⟩, hf⟩
  · rintro ⟨⟨hmember, channel, hchannel, hdm⟩, hf⟩
    exact ⟨hmember, channel, hchannel, succeeds_require_bind.mpr ⟨hdm, hf⟩⟩

theorem succeeds_openDm_bind {pubkeys : List PublicKey} {id : Uuid}
    {f : Store × Uuid × Bool → Store × Response} {events : EventsTable} :
    Succeeds (do pure (f (← Store.openDm { s with events := events } pubkeys self id))) ↔
      s.Opens pubkeys self :=
  succeeds_bind_pure.trans succeeds_openDm

theorem succeeds_handleDmOpen :
    Succeeds (handleDmOpen env self event s) ↔ DmOpenValid self event s := by
  rw [handleDmOpen, DmOpenValid]
  dsimp only
  rw [succeeds_require_bind, succeeds_require_bind, succeeds_bind]
  refine and_congr_right fun _ ↦ and_congr_right fun _ ↦ exists_congr fun others ↦
    and_congr mapM_decodePubkey_eq_ok ?_
  exact succeeds_persisting fun events ↦ succeeds_openDm_bind

theorem succeeds_handleDmAddMember :
    Succeeds (handleDmAddMember env self event s) ↔ DmAddMemberValid env self event s := by
  rw [handleDmAddMember, DmAddMemberValid, succeeds_parseChannelTag_bind]
  refine exists_congr fun channelId ↦ and_congr_right fun _ ↦ ?_
  dsimp only
  rw [succeeds_require_bind, succeeds_parseDm_bind, succeeds_bind]
  refine and_congr_right fun _ ↦ and_congr_right fun _ ↦ exists_congr fun new ↦
    and_congr mapM_decodePubkey_eq_ok ?_
  rw [succeeds_require_bind]
  refine and_congr_right fun _ ↦ succeeds_persisting fun events ↦ succeeds_openDm_bind

theorem succeeds_handleDmHide :
    Succeeds (handleDmHide env self event s) ↔ DmHideValid env self event s := by
  rw [handleDmHide, DmHideValid, succeeds_parseChannelTag_bind]
  refine exists_congr fun channelId ↦ and_congr_right fun _ ↦ ?_
  rw [succeeds_parseDm_bind]
  refine and_congr_right fun _ ↦ succeeds_persisting fun events ↦ ?_
  exact succeeds_bind_pure.trans succeeds_hideDm

theorem succeeds_upsertWorkflow {id : Uuid} {row : WorkflowRow} :
    Succeeds (s.upsertWorkflow id row) ↔ WorkflowFits row.name row.definition := by
  rw [Store.upsertWorkflow, WorkflowFits]
  by_cases hname : hasNul row.name = true
  · rw [if_pos hname]
    exact iff_of_false (fun h ↦ nomatch h.choose_spec) fun h ↦ by simp [hname] at h
  · rw [if_neg hname, and_iff_right (Bool.eq_false_iff.mpr hname)]
    cases varchar 255 row.name with
    | none => exact iff_of_false (fun h ↦ nomatch h.choose_spec) fun h ↦ nomatch h.1
    | some name =>
      dsimp only
      split_ifs with hdefinition
      · exact iff_of_false (fun h ↦ nomatch h.choose_spec) fun h ↦ by simp [hdefinition] at h
      · exact iff_of_true ⟨_, rfl⟩ ⟨rfl, Bool.eq_false_iff.mpr hdefinition⟩

theorem succeeds_createWorkflowRun {id : Uuid} {run : WorkflowRun} :
    Succeeds (s.createWorkflowRun id run) ↔ ∀ f ∈ run.triggerContext.webhookFields,
      hasNul f.1 = false ∧ hasNul f.2 = false := by
  rw [Store.createWorkflowRun]
  split_ifs with hnul
  · refine iff_of_false (fun h ↦ nomatch h.choose_spec) fun h ↦ ?_
    obtain ⟨f, hf, hany⟩ := List.any_eq_true.mp hnul
    simp [h f hf] at hany
  · refine iff_of_true ⟨_, rfl⟩ fun f hf ↦ ?_
    rw [← Bool.or_eq_false_iff]
    exact Bool.eq_false_iff.mpr fun h ↦ hnul (List.any_eq_true.mpr ⟨f, hf, h⟩)

theorem succeeds_handleWorkflowDef :
    Succeeds (handleWorkflowDef env self event s) ↔ WorkflowDefValid env self event s := by
  rw [handleWorkflowDef, WorkflowDefValid, succeeds_parseChannelTag_bind]
  refine exists_congr fun channelId ↦ and_congr_right fun _ ↦ ?_
  rw [succeeds_okOr_parse_bind]
  refine exists_congr fun workflowId ↦ and_congr_right fun _ ↦ ?_
  rw [succeeds_require_bind, succeeds_mapError_bind]
  refine and_congr_right fun _ ↦ exists_congr fun source ↦ and_congr_right fun _ ↦ ?_
  rw [succeeds_require_bind]
  refine and_congr_right fun _ ↦ succeeds_persisting fun events ↦ ?_
  rw [succeeds_okOr_bind, Option.isSome_iff_exists, exists_and_right]
  exact and_congr_right fun _ ↦ succeeds_bind_pure.trans succeeds_upsertWorkflow

theorem succeeds_handleWorkflowTrigger :
    Succeeds (handleWorkflowTrigger env self event s) ↔ WorkflowTriggerValid env self event s := by
  rw [handleWorkflowTrigger, WorkflowTriggerValid, ← reference, succeeds_okOr_parse_bind]
  refine exists_congr fun workflowId ↦ and_congr_right fun _ ↦ ?_
  rw [succeeds_okOr_bind]
  refine exists_congr fun workflow ↦ and_congr_right fun _ ↦ ?_
  rw [succeeds_require_bind]
  refine and_congr_right fun _ ↦ succeeds_persisting fun events ↦ ?_
  exact succeeds_bind_pure.trans succeeds_createWorkflowRun

theorem succeeds_handleApproval {status : ApprovalStatus} :
    Succeeds (handleApproval status env self event s) ↔ ApprovalValid env self event s := by
  rw [handleApproval, ApprovalValid, ← reference, succeeds_okOr_parse_bind]
  refine exists_congr fun tokenHash ↦ and_congr_right fun _ ↦ ?_
  rw [succeeds_okOr_bind]
  refine exists_congr fun approval ↦ and_congr_right fun _ ↦ ?_
  rw [succeeds_require_bind, succeeds_require_bind, succeeds_bind]
  refine and_congr_right fun _ ↦ and_congr_right fun _ ↦ ?_
  constructor
  · rintro ⟨⟨⟩, hspec, hpersist⟩
    exact ⟨hspec, succeeds_persisting_pure.mp hpersist⟩
  · rintro ⟨hspec, hstorable⟩
    exact ⟨(), hspec, succeeds_persisting_pure.mpr hstorable⟩

theorem succeeds_commandHandler :
    Succeeds (commandHandler (eventKindU32 event) env self event s) ↔
      CommandValid env self event s := by
  rw [commandHandler, CommandValid]
  split_ifs with hopen hadd hhide hdef htrigger hgrant hdeny
  · exact succeeds_handleDmOpen
  · exact succeeds_handleDmAddMember
  · exact succeeds_handleDmHide
  · exact succeeds_handleWorkflowDef
  · exact succeeds_handleWorkflowTrigger
  · exact succeeds_handleApproval
  · exact succeeds_handleApproval
  · exact iff_of_false (fun h ↦ nomatch h.choose_spec) id

/-- The event is refused and nothing changes. -/
def Blocked (r : Except IngestError IngestResult × Store) (s : Store) : Prop :=
  ∃ err, r = (.error err, s)

theorem ensureUser_eq_self : s.ensureUser self = s ↔ self ∈ s.users := by
  rw [Store.ensureUser]
  split_ifs with hself
  · exact iff_of_true rfl hself
  · refine iff_of_false (fun h ↦ ?_) hself
    exact absurd (congrArg List.length (congrArg Store.users h)) (Nat.succ_ne_self _)

theorem blocked_handleCommand :
    Blocked (handleCommand env self event s) s ↔
      self ∈ s.users ∧ ¬CommandValid env self event s := by
  rw [Blocked, handleCommand]
  by_cases hself : self ∈ s.users
  · rw [ensureUser_eq_self.mpr hself, ← succeeds_commandHandler, not_succeeds_iff]
    cases commandHandler (eventKindU32 event) env self event s with
    | error err => exact iff_of_true ⟨err, rfl⟩ ⟨hself, err, rfl⟩
    | ok result =>
      exact iff_of_false (fun h ↦ nomatch h.choose_spec) fun h ↦ nomatch h.2.choose_spec
  · refine iff_of_false (fun ⟨err, h⟩ ↦ ?_) fun h ↦ hself h.1
    cases hresult : commandHandler (eventKindU32 event) env self event (s.ensureUser self) with
    | error err' =>
      rw [hresult] at h
      exact hself (ensureUser_eq_self.mp (congrArg Prod.snd h))
    | ok result =>
      rw [hresult] at h
      nomatch h

def Store.Restricts (s : Store) (env : Env) (p : PublicKey) : Prop :=
  let r := s.restrictionState env.dbNow p
  r.banned = true ∨ ∃ t, r.mutedUntil = some t ∧ env.now < t

/-- The kinds that restricted authors may still send. -/
def Exempt (kind : ℕ) : Prop :=
  kind = Kinds.report ∨ kind = Kinds.productFeedback ∨ Kinds.isModerationCommandKind kind = true ∨
    Kinds.isRelayAdminKind kind = true

theorem writeBlock_of_restricts (h : s.Restricts env self) :
    ∃ err, writeBlock env self s = .error err := by
  rw [writeBlock]
  split_ifs with hbanned
  · exact ⟨_, rfl⟩
  · obtain hbanned' | ⟨t, hmuted, hfuture⟩ := h
    · exact absurd hbanned' hbanned
    · rw [hmuted]
      exact ⟨_, if_pos hfuture⟩

theorem blocked_of_error {x : Except IngestError Unit} {err : IngestError}
    {k : Unit → Except IngestError IngestResult × Store} (h : x = .error err) :
    Blocked (attempt s x k) s := by
  rw [h]
  exact ⟨err, rfl⟩

/-- A command is refused only by the checks before the write block and by those of its handler. -/
theorem ingestEventInner_blocks (h : Handlers) (env : Env) (event : Event) (auth : IngestAuth)
    (s : Store) (hrestricts : s.Restricts env auth.pubkey)
    (hexempt : ¬Exempt (eventKindU32 event)) :
    Blocked (ingestEventInner h env event auth s) s ↔
      (∃ err, precheck env event auth = .error err) ∨
        Kinds.isCommandKind (eventKindU32 event) = false ∨
        auth.pubkey ∈ s.users ∧ ¬CommandValid env auth.pubkey event s := by
  obtain ⟨err, hblock⟩ := writeBlock_of_restricts hrestricts
  simp only [Exempt, not_or] at hexempt
  obtain ⟨hreport, hfeedback, hmoderation, hadmin⟩ := hexempt
  rw [ingestEventInner]
  cases hpre : precheck env event auth with
  | error err => exact iff_of_true ⟨err, rfl⟩ (.inl ⟨err, rfl⟩)
  | ok _ =>
    have hpre_ok : ¬∃ err, (Except.ok () : Except IngestError Unit) = .error err := fun h ↦
      nomatch h.choose_spec
    rw [or_iff_right hpre_ok, attempt_of_eq_ok rfl]
    cases hcommand : Kinds.isCommandKind (eventKindU32 event) with
    | true =>
      rw [if_pos rfl, blocked_handleCommand]
      exact (or_iff_right Bool.noConfusion).symm
    | false =>
      rw [if_neg Bool.noConfusion, if_neg hfeedback, if_neg hreport, if_neg hmoderation, if_pos]
      · exact iff_of_true (blocked_of_error hblock) (.inl rfl)
      · simp [hmoderation, hadmin]

def carol : PublicKey := 3

def dmWithDave : Uuid := 1

def carolBanned : Store where
  users := [carol]
  events := ∅
  channels := AList.insert dmWithDave ⟨.dm, carol, some [carol, 4], false⟩ ∅
  members := AList.insert (dmWithDave, carol) ⟨false, false⟩ ∅
  workflows := ∅
  runs := ∅
  approvals := ∅
  bans := AList.insert carol ⟨true, none, none⟩ ∅

def atEpoch : Env where
  nowSecs := 0
  now := 0
  dbNow := 0
  verifyEvent _ := .ok ()
  cachedMember _ _ := none
  parseYaml _ := .error "no workflow"
  parseJson _ := none
  freshId := 7
  freshSecret := "secret"

def acceptAll : Handlers where
  productFeedback _ _ s := (.ok (), s)
  report _ _ s := (.ok (), s)
  moderationCommand _ _ s := (.ok (), s)
  pipeline _ _ event s := (.ok ⟨event.id, true, .empty⟩, s)

def asCarol : IngestAuth := .nip42 carol [.messagesWrite] none

def carolsNote : Event := ⟨11, carol, 0, 1, [], "hello", 0⟩

def carolsHide : Event :=
  ⟨12, carol, 0, 41012, [⟨"h", ["00000000-0000-0000-0000-000000000001"]⟩], "", 0⟩

theorem carolsNote_blocked :
    carolBanned.Restricts atEpoch asCarol.pubkey ∧ ¬Exempt (eventKindU32 carolsNote) ∧
      Blocked (ingestEventInner acceptAll atEpoch carolsNote asCarol carolBanned) carolBanned := by
  have hrestricts : carolBanned.Restricts atEpoch asCarol.pubkey := .inl (by decide +kernel)
  have hexempt : ¬Exempt (eventKindU32 carolsNote) := by
    simp only [Exempt]
    decide +kernel
  exact ⟨hrestricts, hexempt,
    (ingestEventInner_blocks acceptAll atEpoch carolsNote asCarol carolBanned hrestricts
      hexempt).mpr (.inr (.inl (by decide +kernel)))⟩

/-- Carol is banned and still hides her DM. -/
theorem carolsHide_accepted :
    carolBanned.Restricts atEpoch asCarol.pubkey ∧ ¬Exempt (eventKindU32 carolsHide) ∧
      (carolBanned.members.lookup (dmWithDave, carol)).map DmMemberRow.hidden = some false ∧
      let r := ingestEventInner acceptAll atEpoch carolsHide asCarol carolBanned
      r.1 = .ok ⟨12, true, .unit⟩ ∧
        (r.2.members.lookup (dmWithDave, carol)).map DmMemberRow.hidden = some true := by
  refine ⟨.inl (by decide +kernel), ?_, by decide +kernel, by decide +kernel, by decide +kernel⟩
  simp only [Exempt]
  decide +kernel

end Buzz.Relay.Ingest
