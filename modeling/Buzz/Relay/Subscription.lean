import Buzz.Lib.BucketIndex
import Buzz.Nostr.Filter

namespace Buzz.Relay

open Buzz.Lib Buzz.Nostr

/-- Stored subscription entry: filters with the server-resolved community and channel scope. -/
structure SubEntry where
  filters : List Filter
  communityId : CommunityId
  channelId : Option Uuid

structure IndexKey where
  channelId : Uuid
  kind : Kind
deriving DecidableEq

structure GlobalPKindIndexKey where
  communityId : CommunityId
  kind : Kind
  p : String
deriving DecidableEq

structure RemovedSubscription where
  communityId : CommunityId
  channelId : Option Uuid
deriving DecidableEq

abbrev SubKey := ConnId × SubId

structure SubscriptionRegistry where
  subs : Map ConnId (Map SubId SubEntry) := ∅
  channelKindIndex : BucketIndex (CommunityId × IndexKey) SubKey := ∅
  channelWildcardIndex : BucketIndex (CommunityId × Uuid) SubKey := ∅
  globalKindIndex : BucketIndex (CommunityId × Kind) SubKey := ∅
  globalPKindIndex : BucketIndex GlobalPKindIndexKey SubKey := ∅
  globalWildcardIndex : BucketIndex CommunityId SubKey := ∅

def pushNew {α : Type*} [DecidableEq α] (keys : List α) (key : α) : List α :=
  if key ∈ keys then keys else keys ++ [key]

/-- The keys one filter contributes; `none` as soon as it has no kinds, or has some but no
non-empty `#p` set. -/
def pushGlobalPKindKeys (communityId : CommunityId) (keys : List GlobalPKindIndexKey)
    (filter : Filter) : Option (List GlobalPKindIndexKey) :=
  match filter.kinds with
  | none => none
  | some kinds =>
    if kinds.isEmpty then some keys
    else
      match filter.genericTags.lookup .p with
      | none => none
      | some pValues =>
        if pValues.isEmpty then none
        else some (kinds.elems.foldl (fun keys kind ↦
          pValues.elems.foldl (fun keys p ↦ pushNew keys ⟨communityId, kind, p⟩) keys) keys)

def extractGlobalPKindIndexKeys (communityId : CommunityId) (filters : List Filter) :
    Option (List GlobalPKindIndexKey) :=
  filters.foldlM (pushGlobalPKindKeys communityId) []

def pushKinds (kinds : List Kind) (f : Filter) : Option (List Kind) :=
  f.kinds.map fun filterKinds ↦ filterKinds.elems.foldl pushNew kinds

def extractKindsFromFilters (filters : List Filter) : Option (List Kind) :=
  filters.foldlM pushKinds []

def eventPTagValues (event : StoredEvent) : List String :=
  (event.event.tagContents "p").foldl pushNew []

namespace SubscriptionRegistry

def lookup (r : SubscriptionRegistry) (x : SubKey) : Option SubEntry :=
  Map.lookup₂ r.subs x

def addToIndex (r : SubscriptionRegistry) (connId : ConnId) (subId : SubId) (entry : SubEntry) :
    SubscriptionRegistry :=
  let x := (connId, subId)
  match entry.channelId with
  | some chId =>
    match extractKindsFromFilters entry.filters with
    | none => { r with
        channelWildcardIndex := r.channelWildcardIndex.push (entry.communityId, chId) x }
    | some kinds => { r with
        channelKindIndex := r.channelKindIndex.pushAll
          (kinds.map fun kind ↦ (entry.communityId, ⟨chId, kind⟩)) x }
  | none =>
    match extractGlobalPKindIndexKeys entry.communityId entry.filters with
    | some keys => { r with globalPKindIndex := r.globalPKindIndex.pushAll keys x }
    | none =>
      match extractKindsFromFilters entry.filters with
      | none => { r with globalWildcardIndex := r.globalWildcardIndex.push entry.communityId x }
      | some kinds => { r with
          globalKindIndex := r.globalKindIndex.pushAll
            (kinds.map fun kind ↦ (entry.communityId, kind)) x }

def removeFromIndex (r : SubscriptionRegistry) (connId : ConnId) (subId : SubId)
    (entry : SubEntry) : SubscriptionRegistry :=
  let x := (connId, subId)
  match entry.channelId with
  | some chId =>
    match extractKindsFromFilters entry.filters with
    | none => { r with
        channelWildcardIndex := r.channelWildcardIndex.purge (entry.communityId, chId) x }
    | some kinds => { r with
        channelKindIndex := r.channelKindIndex.purgeAll
          (kinds.map fun kind ↦ (entry.communityId, ⟨chId, kind⟩)) x }
  | none =>
    match extractGlobalPKindIndexKeys entry.communityId entry.filters with
    | some keys => { r with globalPKindIndex := r.globalPKindIndex.purgeAll keys x }
    | none =>
      match extractKindsFromFilters entry.filters with
      | none => { r with globalWildcardIndex := r.globalWildcardIndex.purge entry.communityId x }
      | some kinds => { r with
          globalKindIndex := r.globalKindIndex.purgeAll
            (kinds.map fun kind ↦ (entry.communityId, kind)) x }

def removeSubscription (r : SubscriptionRegistry) (connId : ConnId) (subId : SubId) :
    SubscriptionRegistry × Option RemovedSubscription :=
  match r.subs.lookup connId with
  | none => (r, none)
  | some connSubs =>
    match connSubs.lookup subId with
    | none => (r, none)
    | some entry =>
      ({ r with subs := AList.insert connId (connSubs.erase subId) r.subs }.removeFromIndex
        connId subId entry, some ⟨entry.communityId, entry.channelId⟩)

def registerScoped (r : SubscriptionRegistry) (communityId : CommunityId) (connId : ConnId)
    (subId : SubId) (filters : List Filter) (channelId : Option Uuid) :
    SubscriptionRegistry × Option RemovedSubscription :=
  let (r, removed) := r.removeSubscription connId subId
  let entry : SubEntry := ⟨filters, communityId, channelId⟩
  let connSubs := (r.subs.lookup connId).getD ∅
  ({ r with subs := AList.insert connId (AList.insert subId entry connSubs) r.subs }.addToIndex
    connId subId entry, removed)

def removeConnection (r : SubscriptionRegistry) (connId : ConnId) :
    SubscriptionRegistry × List RemovedSubscription :=
  match r.subs.lookup connId with
  | none => (r, [])
  | some connSubs =>
    (connSubs.entries.foldl (fun r entry ↦ r.removeFromIndex connId entry.1 entry.2)
        { r with subs := r.subs.erase connId },
      connSubs.entries.map fun entry ↦ ⟨entry.2.communityId, entry.2.channelId⟩)

def channelSubIds (r : SubscriptionRegistry) (communityId : CommunityId) (connId : ConnId)
    (channelId : Uuid) : List SubId :=
  match r.subs.lookup connId with
  | none => []
  | some connSubs => (connSubs.entries.filter fun entry ↦
      entry.2.communityId == communityId && entry.2.channelId == some channelId).map (·.1)

def removeCollected (connId : ConnId)
    (acc : SubscriptionRegistry × List (SubId × RemovedSubscription)) (subId : SubId) :
    SubscriptionRegistry × List (SubId × RemovedSubscription) :=
  match acc.1.removeSubscription connId subId with
  | (r, some removed) => (r, acc.2 ++ [(subId, removed)])
  | (r, none) => (r, acc.2)

def removeChannelSubscriptionsScoped (r : SubscriptionRegistry) (communityId : CommunityId)
    (connId : ConnId) (channelId : Uuid) :
    SubscriptionRegistry × List (SubId × RemovedSubscription) :=
  (r.channelSubIds communityId connId channelId).foldl (removeCollected connId) (r, [])

/-- The index entries that `fan_out_scoped` visits, in its order. -/
def candidates (r : SubscriptionRegistry) (communityId : CommunityId) (event : StoredEvent) :
    List SubKey :=
  match event.channelId with
  | some channelId =>
    r.channelKindIndex.bucket (communityId, ⟨channelId, event.event.kind⟩) ++
      r.channelWildcardIndex.bucket (communityId, channelId)
  | none =>
    ((eventPTagValues event).flatMap fun p ↦
      r.globalPKindIndex.bucket ⟨communityId, event.event.kind, p⟩) ++
      r.globalKindIndex.bucket (communityId, event.event.kind) ++
      r.globalWildcardIndex.bucket communityId

/-- `push_match`; `results` doubles as the set of pairs already seen. -/
def pushMatch (r : SubscriptionRegistry) (event : StoredEvent) (results : List SubKey)
    (x : SubKey) : List SubKey :=
  match r.lookup x with
  | none => results
  | some entry => if filtersMatch entry.filters event then pushNew results x else results

def fanOutScoped (r : SubscriptionRegistry) (communityId : CommunityId) (event : StoredEvent) :
    List SubKey :=
  (r.candidates communityId event).foldl (r.pushMatch event) []

end SubscriptionRegistry

inductive RegistryOp
  | registerScoped (communityId : CommunityId) (connId : ConnId) (subId : SubId)
      (filters : List Filter) (channelId : Option Uuid)
  | removeSubscription (connId : ConnId) (subId : SubId)
  | removeConnection (connId : ConnId)
  | removeChannelSubscriptionsScoped (communityId : CommunityId) (connId : ConnId)
      (channelId : Uuid)

namespace SubscriptionRegistry

def apply (r : SubscriptionRegistry) : RegistryOp → SubscriptionRegistry
  | .registerScoped communityId connId subId filters channelId =>
    (r.registerScoped communityId connId subId filters channelId).1
  | .removeSubscription connId subId => (r.removeSubscription connId subId).1
  | .removeConnection connId => (r.removeConnection connId).1
  | .removeChannelSubscriptionsScoped communityId connId channelId =>
    (r.removeChannelSubscriptionsScoped communityId connId channelId).1

def run (ops : List RegistryOp) : SubscriptionRegistry := ops.foldl apply {}

end SubscriptionRegistry

end Buzz.Relay
