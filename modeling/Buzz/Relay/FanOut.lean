import Buzz.Core.ReadGate
import Buzz.Relay.Frames
import Buzz.Relay.SubscriptionRun

namespace Buzz.Relay

open Buzz.Lib Buzz.Nostr Buzz.Core

structure ThreadedChannelVisibility where
  communityId : CommunityId
  channelId : Uuid
  visibility : String

inductive EventTopic
  | channel (id : Uuid)
  | global

structure ChannelEvent where
  communityId : CommunityId
  topic : EventTopic
  event : Event

/-- What delivery reads of the relay: subscriptions, connections, the cached channel and
membership lookups, and the outcome of the `i`th send of a loop. -/
structure AppState where
  subRegistry : SubscriptionRegistry
  communityForConn : ConnId → Option CommunityId
  pubkeyForConn : ConnId → Option PublicKey
  channelVisibilityCached : CommunityId → Uuid → Except String String
  isMemberCached : CommunityId → Uuid → PublicKey → Except String Bool
  accepts : ℕ → Bool
  localEventIds : List (CommunityId × EventId)

namespace AppState

def authorOnlyFanout (state : AppState) (event : Event) (recipients : List SubKey) :
    List SubKey :=
  if authorOnlyKinds.contains (eventKindU32 event) then
    recipients.filter fun x ↦ (state.pubkeyForConn x.1).any (· == event.pubkey)
  else recipients

def personaFanout (state : AppState) (event : Event) (recipients : List SubKey) : List SubKey :=
  if isPersonaSharedKind (eventKindU32 event) then
    recipients.filter fun x ↦ (state.pubkeyForConn x.1).any fun pk ↦
      pk == event.pubkey || !isUnsharedPersonaEvent event pk
  else recipients

def fanoutVisibility (state : AppState) (communityId : CommunityId) (channelId : Uuid)
    (threaded : Option ThreadedChannelVisibility) : Except String String :=
  match threaded with
  | some t =>
    if t.communityId = communityId ∧ t.channelId = channelId then .ok t.visibility
    else state.channelVisibilityCached communityId channelId
  | none => state.channelVisibilityCached communityId channelId

def memberFanout (state : AppState) (communityId : CommunityId) (channelId : Uuid)
    (recipients : List SubKey) : List SubKey :=
  recipients.filter fun x ↦ (state.pubkeyForConn x.1).any fun pk ↦
    match state.isMemberCached communityId channelId pk with
    | .ok isMember => isMember
    | .error _ => false

def filterFanoutByAccess (state : AppState) (communityId : CommunityId) (stored : StoredEvent)
    (recipients : List SubKey) (threaded : Option ThreadedChannelVisibility) : List SubKey :=
  let recipients := recipients.filter fun x ↦ state.communityForConn x.1 == some communityId
  let recipients := state.authorOnlyFanout stored.event recipients
  let recipients := state.personaFanout stored.event recipients
  match stored.channelId with
  | none => recipients
  | some channelId =>
    match state.fanoutVisibility communityId channelId threaded with
    | .ok v => if v ≠ "private" then recipients else state.memberFanout communityId channelId recipients
    | .error _ => []

def sendToRecipients (state : AppState) (event : Event) (recipients : List SubKey) :
    Option (List Sent × ℕ) :=
  sendFanoutFrames state.accepts recipients
    (fanoutFrameCache (recipients.map (·.2)) (eventJson event))

def fanOutEventToLocalSubscribers (state : AppState) (communityId : CommunityId)
    (stored : StoredEvent) : Option (List Sent × ℕ) :=
  let recipients := state.subRegistry.fanOutScoped communityId stored
  let recipients := state.filterFanoutByAccess communityId stored recipients none
  if recipients.isEmpty then some ([], 0) else state.sendToRecipients stored.event recipients

def fanOutPubsubEvent (state : AppState) (channelEvent : ChannelEvent) :
    AppState × Option (List Sent × ℕ) :=
  let channelId := match channelEvent.topic with
    | .channel id => some id
    | .global => none
  let stored : StoredEvent := ⟨channelEvent.event, channelId⟩
  let echoKey := (channelEvent.communityId, channelEvent.event.id)
  if echoKey ∈ state.localEventIds then
    ({ state with localEventIds := state.localEventIds.filter (· ≠ echoKey) }, some ([], 0))
  else
    let recipients := state.subRegistry.fanOutScoped channelEvent.communityId stored
    let recipients := state.filterFanoutByAccess channelEvent.communityId stored recipients none
    (state, if recipients.isEmpty then some ([], 0)
      else state.sendToRecipients stored.event recipients)

def privateEventOwner (event : Event) (kindU32 : ℕ) : Option String :=
  if isOwnerOnlyKind kindU32 then (event.tagContents "p").head? else none

def ownerFanout (state : AppState) (owner : Option String) (recipients : List SubKey) :
    List SubKey :=
  recipients.filter fun x ↦
    match owner with
    | some ownerHex => (state.pubkeyForConn x.1).any fun pk ↦ hexEncode pk == ownerHex
    | none => true

def dispatchPersistentEventInner (state : AppState) (communityId : CommunityId)
    (stored : StoredEvent) (kindU32 : ℕ) (published : Bool)
    (threaded : Option ThreadedChannelVisibility) : AppState × Option (List Sent × ℕ) :=
  let echoKey := (communityId, stored.event.id)
  let localEventIds := if published then echoKey :: state.localEventIds
    else state.localEventIds.filter (· ≠ echoKey)
  let recipients := state.subRegistry.fanOutScoped communityId stored
  let recipients := state.filterFanoutByAccess communityId stored recipients threaded
  let recipients := state.ownerFanout (privateEventOwner stored.event kindU32) recipients
  ({ state with localEventIds }, state.sendToRecipients stored.event recipients)

end AppState

/-- The three ways in which an event reaches the subscribers of this node. -/
inductive DeliveryPath
  | localSubscribers
  | pubsub
  | persistent (published : Bool) (threaded : Option ThreadedChannelVisibility)

def topicOf : Option Uuid → EventTopic
  | some id => .channel id
  | none => .global

def deliver (path : DeliveryPath) (state : AppState) (communityId : CommunityId)
    (stored : StoredEvent) : Option (List Sent × ℕ) :=
  match path with
  | .localSubscribers => state.fanOutEventToLocalSubscribers communityId stored
  | .pubsub =>
    (state.fanOutPubsubEvent ⟨communityId, topicOf stored.channelId, stored.event⟩).2
  | .persistent published threaded =>
    (state.dispatchPersistentEventInner communityId stored (eventKindU32 stored.event) published
      threaded).2

/-- What a connection may see: what its reader may, or without one what every reader may. -/
def VisibleToConn (event : Event) : Option PublicKey → Prop
  | some reader => eventVisibleToReader event reader = true
  | none => ∀ reader, eventVisibleToReader event reader = true

def recipientsOf (path : DeliveryPath) (state : AppState) (communityId : CommunityId)
    (stored : StoredEvent) : List SubKey :=
  let recipients := state.subRegistry.fanOutScoped communityId stored
  match path with
  | .localSubscribers => state.filterFanoutByAccess communityId stored recipients none
  | .pubsub =>
    if (communityId, stored.event.id) ∈ state.localEventIds then []
    else state.filterFanoutByAccess communityId stored recipients none
  | .persistent _ threaded =>
    state.ownerFanout (AppState.privateEventOwner stored.event (eventKindU32 stored.event))
      (state.filterFanoutByAccess communityId stored recipients threaded)

section Delivery

variable {state : AppState} {communityId : CommunityId} {stored : StoredEvent}

theorem sendToRecipients_eq (event : Event) (recipients : List SubKey) :
    ∃ dropped, state.sendToRecipients event recipients =
      some (fanoutSent state.accepts recipients event, dropped) :=
  ⟨_, sendFanoutFrames_eq _ _ _⟩

theorem deliver_eq (path : DeliveryPath) (state : AppState) (communityId : CommunityId)
    (stored : StoredEvent) : ∃ dropped, deliver path state communityId stored =
    some (fanoutSent state.accepts (recipientsOf path state communityId stored) stored.event,
      dropped) := by
  have hsend (recipients : List SubKey) : ∃ dropped, (if recipients.isEmpty then some ([], 0)
      else state.sendToRecipients stored.event recipients) =
        some (fanoutSent state.accepts recipients stored.event, dropped) := by
    split
    · next h =>
      rw [List.isEmpty_iff.mp h]
      exact ⟨0, rfl⟩
    · exact sendToRecipients_eq _ _
  have hstored : (⟨stored.event, match topicOf stored.channelId with
      | .channel id => some id
      | .global => none⟩ : StoredEvent) = stored := by
    rcases stored with ⟨event, _ | id⟩ <;> rfl
  cases path with
  | localSubscribers => exact hsend _
  | pubsub =>
    simp only [deliver, recipientsOf, AppState.fanOutPubsubEvent, hstored]
    split
    · exact ⟨0, rfl⟩
    · exact hsend _
  | persistent published threaded => exact sendToRecipients_eq _ _

theorem mem_fanoutSent {accepts : ℕ → Bool} {recipients : List SubKey} {event : Event} {s : Sent}
    (h : s ∈ fanoutSent accepts recipients event) : s.recipient ∈ recipients := by
  obtain ⟨x, hx, rfl⟩ := List.mem_map.mp h
  exact List.fst_mem_of_mem_zipIdx (List.mem_filter.mp hx).1

theorem exists_mem_fanoutSent {recipients : List SubKey} (event : Event) {x : SubKey}
    (h : x ∈ recipients) : ∃ s ∈ fanoutSent (fun _ ↦ true) recipients event, s.recipient = x := by
  obtain ⟨i, hi, rfl⟩ := List.getElem_of_mem h
  have hpair : (recipients[i], i) ∈ recipients.zipIdx := by
    rw [List.mem_zipIdx_iff_getElem?]
    exact List.getElem?_eq_getElem hi
  exact ⟨_, List.mem_map.mpr ⟨(recipients[i], i), List.mem_filter.mpr ⟨hpair, rfl⟩, rfl⟩, rfl⟩

structure PassesAccess (state : AppState) (event : Event) (connId : ConnId) : Prop where
  authorOnly : eventKindU32 event ∈ authorOnlyKinds →
    state.pubkeyForConn connId = some event.pubkey
  persona : eventKindU32 event = kindPersona → ∃ pk, state.pubkeyForConn connId = some pk ∧
    (event.pubkey = pk ∨ personaEventIsShared event = true)

theorem mem_authorOnlyFanout {event : Event} {recipients : List SubKey} {x : SubKey} :
    x ∈ state.authorOnlyFanout event recipients ↔ x ∈ recipients ∧
      (eventKindU32 event ∈ authorOnlyKinds → state.pubkeyForConn x.1 = some event.pubkey) := by
  unfold AppState.authorOnlyFanout
  by_cases h : eventKindU32 event ∈ authorOnlyKinds
  · simp [h, Option.any_eq_true]
  · simp [h]

theorem mem_personaFanout {event : Event} {recipients : List SubKey} {x : SubKey} :
    x ∈ state.personaFanout event recipients ↔ x ∈ recipients ∧
      (eventKindU32 event = kindPersona → ∃ pk, state.pubkeyForConn x.1 = some pk ∧
        (event.pubkey = pk ∨ personaEventIsShared event = true)) := by
  unfold AppState.personaFanout isPersonaSharedKind
  by_cases h : eventKindU32 event = kindPersona
  · have hgate (pk : PublicKey) : (pk == event.pubkey || !isUnsharedPersonaEvent event pk) = true ↔
        (event.pubkey = pk ∨ personaEventIsShared event = true) := by
      by_cases hp : event.pubkey = pk
      · simp [hp]
      · simp [hp, Ne.symm hp, isUnsharedPersonaEvent, isPersonaSharedKind, h]
    simp only [h, beq_self_eq_true, if_true, List.mem_filter, Option.any_eq_true, hgate,
      true_implies]
  · simp [h]

theorem passesAccess_of_mem {recipients : List SubKey}
    {threaded : Option ThreadedChannelVisibility} {x : SubKey}
    (h : x ∈ state.filterFanoutByAccess communityId stored recipients threaded) :
    PassesAccess state stored.event x.1 := by
  have hpersona : x ∈ state.personaFanout stored.event (state.authorOnlyFanout stored.event
      (recipients.filter fun x ↦ state.communityForConn x.1 == some communityId)) := by
    unfold AppState.filterFanoutByAccess at h
    cases hc : stored.channelId with
    | none => simpa only [hc] using h
    | some channelId =>
      simp only [hc] at h
      cases hv : state.fanoutVisibility communityId channelId threaded with
      | error e => simp [hv] at h
      | ok v =>
        simp only [hv] at h
        split at h
        · exact h
        · exact (List.mem_filter.mp h).1
  obtain ⟨hauthor, hpers⟩ := mem_personaFanout.mp hpersona
  exact ⟨(mem_authorOnlyFanout.mp hauthor).2, hpers⟩

def OwnerRuleApplies : DeliveryPath → Event → Prop
  | .persistent _ _, event => event.tagContents "p" ≠ []
  | _, _ => False

theorem passesAccess_of_mem_recipientsOf {path : DeliveryPath} {x : SubKey}
    (h : x ∈ recipientsOf path state communityId stored) :
    PassesAccess state stored.event x.1 := by
  cases path with
  | localSubscribers => exact passesAccess_of_mem h
  | pubsub =>
    simp only [recipientsOf] at h
    split at h
    · cases h
    · exact passesAccess_of_mem h
  | persistent published threaded => exact passesAccess_of_mem (List.mem_filter.mp h).1

theorem owner_of_mem_recipientsOf {path : DeliveryPath} {x : SubKey}
    (happlies : OwnerRuleApplies path stored.event)
    (hkind : isOwnerOnlyKind (eventKindU32 stored.event) = true)
    (h : x ∈ recipientsOf path state communityId stored) :
    ∃ pk, state.pubkeyForConn x.1 = some pk ∧ hexEncode pk ∈ stored.event.tagContents "p" := by
  cases path with
  | localSubscribers => exact happlies.elim
  | pubsub => exact happlies.elim
  | persistent published threaded =>
    obtain ⟨owner, rest, howner⟩ := List.exists_cons_of_ne_nil happlies
    have hx := (List.mem_filter.mp h).2
    simp only [AppState.privateEventOwner, hkind, if_true, howner, List.head?_cons,
      Option.any_eq_true, beq_iff_eq] at hx
    obtain ⟨pk, hpk, hhex⟩ := hx
    refine ⟨pk, hpk, ?_⟩
    rw [howner, hhex]
    exact List.mem_cons_self

theorem visibleToConn_of_passesAccess {event : Event} {connId : ConnId}
    (h : PassesAccess state event connId)
    (howner : isOwnerOnlyKind (eventKindU32 event) = true →
      (∃ pk, state.pubkeyForConn connId = some pk ∧ hexEncode pk ∈ event.tagContents "p") ∨
        ∀ pk, hexEncode pk ∈ event.tagContents "p") :
    VisibleToConn event (state.pubkeyForConn connId) := by
  cases hpk : state.pubkeyForConn connId with
  | some pk =>
    refine eventVisibleToReader_iff.mpr ⟨?_, ?_, ?_⟩
    · intro hk
      have ha := h.authorOnly hk
      rw [hpk] at ha
      exact (Option.some.inj ha).symm
    · intro hk
      obtain ⟨pk', hpk', hok⟩ := h.persona hk
      rw [hpk] at hpk'
      exact Option.some.inj hpk' ▸ hok
    · intro hk
      rcases howner hk with ⟨pk', hpk', hmem⟩ | hall
      · rw [hpk] at hpk'
        exact Option.some.inj hpk' ▸ hmem
      · exact hall pk
  | none =>
    intro reader
    refine eventVisibleToReader_iff.mpr ⟨?_, ?_, ?_⟩
    · intro hk
      have ha := h.authorOnly hk
      rw [hpk] at ha
      cases ha
    · intro hk
      obtain ⟨pk', hpk', _⟩ := h.persona hk
      rw [hpk] at hpk'
      cases hpk'
    · intro hk
      rcases howner hk with ⟨pk', hpk', _⟩ | hall
      · rw [hpk] at hpk'
        cases hpk'
      · exact hall reader

def idLookup (id : EventId) : Filter := { ids := some (.singleton id) }

/-- A relay with one reader, whose one subscription asks for an event by its id. -/
def openState (communityId : CommunityId) (stored : StoredEvent) (reader : PublicKey) :
    AppState where
  subRegistry :=
    .run [.registerScoped communityId 0 "s" [idLookup stored.event.id] stored.channelId]
  communityForConn := fun _ ↦ some communityId
  pubkeyForConn := fun _ ↦ some reader
  channelVisibilityCached := fun _ _ ↦ .ok "open"
  isMemberCached := fun _ _ _ ↦ .ok true
  accepts := fun _ ↦ true
  localEventIds := []

theorem mem_fanOutScoped_openState (communityId : CommunityId) (stored : StoredEvent)
    (reader : PublicKey) :
    ((0, "s") : SubKey) ∈ (openState communityId stored reader).subRegistry.fanOutScoped
      communityId stored := by
  obtain ⟨hcoh, hlook⟩ := SubscriptionRegistry.run_spec
    [.registerScoped communityId 0 "s" [idLookup stored.event.id] stored.channelId]
  have hmatch : filtersMatch [idLookup stored.event.id] stored = true := by
    simp only [filtersMatch, filterMatchOne, idLookup, List.any_cons, List.any_nil, Bool.or_false]
    have hself : (ValueSet.singleton stored.event.id).elems.any (fun id ↦
        (hexEncode id).toList.isPrefixOf (hexEncode stored.event.id).toList) = true :=
      List.any_eq_true.mpr
        ⟨_, List.mem_singleton_self _, List.isPrefixOf_iff_prefix.mpr List.prefix_rfl⟩
    simp [hself]
  refine hcoh.mem_fanOutScoped.mpr
    ⟨⟨[idLookup stored.event.id], communityId, stored.channelId⟩, ?_, rfl, rfl, hmatch⟩
  rw [hlook]
  simp [liveAfter, applyLive]

theorem ownerOnlyKind_not_gated {event : Event}
    (hkind : isOwnerOnlyKind (eventKindU32 event) = true) :
    eventKindU32 event ∉ authorOnlyKinds ∧ eventKindU32 event ≠ kindPersona := by
  simp only [isOwnerOnlyKind, Bool.or_eq_true, beq_iff_eq] at hkind
  rcases hkind with hk | hk
  · rw [hk]
    decide
  · rw [hk]
    decide

theorem mem_filterFanoutByAccess_openState (communityId : CommunityId) (reader : PublicKey)
    (threaded : Option ThreadedChannelVisibility)
    (hkind : isOwnerOnlyKind (eventKindU32 stored.event) = true) {recipients : List SubKey}
    {x : SubKey} (h : x ∈ recipients) :
    x ∈ (openState communityId stored reader).filterFanoutByAccess communityId stored
      recipients threaded := by
  obtain ⟨hauthor, hpersona⟩ := ownerOnlyKind_not_gated hkind
  have hin : x ∈ (openState communityId stored reader).personaFanout stored.event
      ((openState communityId stored reader).authorOnlyFanout stored.event
        (recipients.filter fun x ↦
          (openState communityId stored reader).communityForConn x.1 ==
            some communityId)) := by
    refine mem_personaFanout.mpr ⟨mem_authorOnlyFanout.mpr ⟨?_, fun hk ↦ absurd hk hauthor⟩,
      fun hk ↦ absurd hk hpersona⟩
    exact List.mem_filter.mpr ⟨h, by simp [openState]⟩
  unfold AppState.filterFanoutByAccess
  cases hc : stored.channelId with
  | none => simpa only [hc] using hin
  | some channelId =>
    have hok : ∃ v, (openState communityId stored reader).fanoutVisibility communityId
        channelId threaded = .ok v := by
      unfold AppState.fanoutVisibility
      cases threaded with
      | none => exact ⟨_, rfl⟩
      | some t =>
        simp only
        split
        · exact ⟨_, rfl⟩
        · exact ⟨_, rfl⟩
    obtain ⟨v, hv⟩ := hok
    simp only [hv]
    split
    · exact hin
    · exact List.mem_filter.mpr ⟨hin, rfl⟩

theorem mem_recipientsOf_openState (path : DeliveryPath) (communityId : CommunityId)
    (reader : PublicKey)
    (hkind : isOwnerOnlyKind (eventKindU32 stored.event) = true)
    (happlies : ¬ OwnerRuleApplies path stored.event) :
    (0, "s") ∈ recipientsOf path (openState communityId stored reader) communityId
      stored := by
  have hscan := mem_fanOutScoped_openState communityId stored reader
  have hmem (threaded : Option ThreadedChannelVisibility) :=
    mem_filterFanoutByAccess_openState communityId reader threaded hkind hscan
  cases path with
  | localSubscribers => exact hmem none
  | pubsub => exact hmem none
  | persistent published threaded =>
    have hempty : stored.event.tagContents "p" = [] := not_not.mp happlies
    refine List.mem_filter.mpr ⟨hmem threaded, ?_⟩
    simp [AppState.privateEventOwner, hkind, hempty]

end Delivery

/-- A path delivers an event only to connections that may see it, in every reachable state of
the registry, exactly if the event is not owner-only, or the path applies the owner rule and the
event names an owner, or the event names every reader. -/
theorem delivery_visible_iff (path : DeliveryPath) (communityId : CommunityId)
    (stored : StoredEvent) :
    (∀ (state : AppState) (ops : List RegistryOp), state.subRegistry = .run ops →
      ∀ sent dropped, deliver path state communityId stored = some (sent, dropped) →
        ∀ s ∈ sent, VisibleToConn stored.event (state.pubkeyForConn s.recipient.1)) ↔
      (isOwnerOnlyKind (eventKindU32 stored.event) = true →
        OwnerRuleApplies path stored.event ∨
          ∀ reader, hexEncode reader ∈ stored.event.tagContents "p") := by
  constructor
  · intro h hkind
    by_contra hnot
    obtain ⟨happlies, hreader⟩ := not_or.mp hnot
    obtain ⟨reader, hreader⟩ := not_forall.mp hreader
    have hmem := mem_recipientsOf_openState path communityId reader hkind happlies
    obtain ⟨dropped, hdeliver⟩ :=
      deliver_eq path (openState communityId stored reader) communityId stored
    obtain ⟨s, hs, hrecipient⟩ := exists_mem_fanoutSent stored.event hmem
    have hvisible := h _ _ rfl _ _ hdeliver s hs
    exact hreader ((eventVisibleToReader_iff.mp hvisible).owner hkind)
  · intro h state ops _ sent dropped hdeliver s hs
    obtain ⟨dropped', heq⟩ := deliver_eq path state communityId stored
    rw [heq] at hdeliver
    cases hdeliver
    have hmem := mem_fanoutSent hs
    refine visibleToConn_of_passesAccess (passesAccess_of_mem_recipientsOf hmem) ?_
    intro hkind
    rcases h hkind with happlies | hall
    · exact .inl (owner_of_mem_recipientsOf happlies hkind hmem)
    · exact .inr hall

/-- A turn metric of agent 1 for its owner 2. -/
def turnMetric : StoredEvent := ⟨⟨1, 1, 0, 44200, [⟨"p", [hexEncode 2]⟩], "", 0⟩, none⟩

/-- It arrives from another node and is sent to reader 3, who asks for its id. -/
theorem pubsub_sends_turn_metric_to_other_reader :
    ∃ sent dropped, deliver .pubsub (openState 0 turnMetric 3) 0 turnMetric = some (sent, dropped) ∧
      ∃ s ∈ sent, (openState 0 turnMetric 3).pubkeyForConn s.recipient.1 = some 3 ∧
        eventVisibleToReader turnMetric.event 3 = false := by
  obtain ⟨dropped, hdeliver⟩ := deliver_eq .pubsub (openState 0 turnMetric 3) 0 turnMetric
  have hmem : (0, "s") ∈ recipientsOf .pubsub (openState 0 turnMetric 3) 0 turnMetric :=
    mem_recipientsOf_openState .pubsub 0 3 (by decide) id
  obtain ⟨s, hs, _⟩ := exists_mem_fanoutSent _ hmem
  exact ⟨_, dropped, hdeliver, s, hs, rfl, by decide⟩

end Buzz.Relay
