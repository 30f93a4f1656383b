import Buzz.Lib.Locks
import Buzz.Lib.Runs
import Buzz.Relay.SubscriptionRun
import Mathlib.Data.List.Sort

namespace Buzz.Relay

open Buzz.Lib Buzz.Lib.Locks Buzz.Nostr

inductive LockId
  | subs (shard : ℕ)
  | channelKind (shard : ℕ)
  | channelWildcard (shard : ℕ)
  | globalKind (shard : ℕ)
  | globalPKind (shard : ℕ)
  | globalWildcard (shard : ℕ)
deriving DecidableEq

structure Shards where
  subs : ConnId → ℕ
  channelKind : CommunityId × IndexKey → ℕ
  channelWildcard : CommunityId × Uuid → ℕ
  globalKind : CommunityId × Kind → ℕ
  globalPKind : GlobalPKindIndexKey → ℕ
  globalWildcard : CommunityId → ℕ

def Shards.index (shards : Shards) : Slot → LockId
  | .channelKind key => .channelKind (shards.channelKind key)
  | .channelWildcard key => .channelWildcard (shards.channelWildcard key)
  | .globalKind key => .globalKind (shards.globalKind key)
  | .globalPKind key => .globalPKind (shards.globalPKind key)
  | .globalWildcard key => .globalWildcard (shards.globalWildcard key)

namespace SubscriptionRegistry

def entriesAt (r : SubscriptionRegistry) : Slot → Option (List SubKey)
  | .channelKind key => r.channelKindIndex.lookup key
  | .channelWildcard key => r.channelWildcardIndex.lookup key
  | .globalKind key => r.globalKindIndex.lookup key
  | .globalPKind key => r.globalPKindIndex.lookup key
  | .globalWildcard key => r.globalWildcardIndex.lookup key

def setBucket {κ : Type*} [DecidableEq κ] (index : BucketIndex κ SubKey) (key : κ) :
    Option (List SubKey) → BucketIndex κ SubKey
  | none => index.erase key
  | some bucket => AList.insert key bucket index

def setEntriesAt (r : SubscriptionRegistry) (slot : Slot) (bucket : Option (List SubKey)) :
    SubscriptionRegistry :=
  match slot with
  | .channelKind key => { r with channelKindIndex := setBucket r.channelKindIndex key bucket }
  | .channelWildcard key =>
    { r with channelWildcardIndex := setBucket r.channelWildcardIndex key bucket }
  | .globalKind key => { r with globalKindIndex := setBucket r.globalKindIndex key bucket }
  | .globalPKind key => { r with globalPKindIndex := setBucket r.globalPKindIndex key bucket }
  | .globalWildcard key =>
    { r with globalWildcardIndex := setBucket r.globalWildcardIndex key bucket }

end SubscriptionRegistry

/-- The accesses to the maps; `rank` stands for the iteration order of a connection's
subscriptions. -/
inductive Access
  | candidates (slot : Slot)
  | pushMatch (x : SubKey)
  | takeSubscription (connId : ConnId) (subId : SubId)
  | takeConnection (connId : ConnId) (rank : SubId → ℕ)
  | collect (communityId : CommunityId) (connId : ConnId) (channelId : Uuid) (rank : SubId → ℕ)
  | insertSubscription (connId : ConnId) (subId : SubId) (entry : SubEntry)
  | pushEntry (slot : Slot) (x : SubKey)
  | retainOthers (slot : Slot) (x : SubKey)
  | removeKey (slot : Slot)

section Machine

variable (shards : Shards)

def Access.lock : Access → LockId
  | .candidates slot => shards.index slot
  | .pushMatch x => .subs (shards.subs x.1)
  | .takeSubscription connId _ => .subs (shards.subs connId)
  | .takeConnection connId _ => .subs (shards.subs connId)
  | .collect _ connId _ _ => .subs (shards.subs connId)
  | .insertSubscription connId _ _ => .subs (shards.subs connId)
  | .pushEntry slot _ => shards.index slot
  | .retainOthers slot _ => shards.index slot
  | .removeKey slot => shards.index slot

/-- `get` is shared; `get_mut`, `entry` and `remove` are exclusive. -/
def Access.exclusive : Access → Bool
  | .candidates _ => false
  | .pushMatch _ => false
  | .collect .. => false
  | .takeSubscription .. => true
  | .takeConnection .. => true
  | .insertSubscription .. => true
  | .pushEntry .. => true
  | .retainOthers .. => true
  | .removeKey _ => true

def removal (x : SubKey) (slots : List Slot) : List (Instr Access LockId) :=
  slots.map fun slot ↦ .lock (.retainOthers slot x)

def byRank {α : Type*} (rank : α → ℕ) (xs : List α) : List α :=
  xs.insertionSort fun a b ↦ rank a ≤ rank b

/-- What an access does while it has its lock, and what follows it in its call: when the guard of
the lock is dropped, and which accesses come before. -/
def Access.run (access : Access) (r : SubscriptionRegistry) :
    SubscriptionRegistry × List (Instr Access LockId) :=
  match access with
  | .candidates slot =>
    (r, (r.bucketAt slot).map (fun x ↦ .lock (.pushMatch x)) ++
      [.unlock (shards.index slot)])
  | .pushMatch x => (r, [.unlock (.subs (shards.subs x.1))])
  | .takeSubscription connId subId =>
    match r.subs.lookup connId with
    | none => (r, [.unlock (.subs (shards.subs connId))])
    | some connSubs =>
      match connSubs.lookup subId with
      | none => (r, [.unlock (.subs (shards.subs connId))])
      | some entry =>
        ({ r with subs := AList.insert connId (connSubs.erase subId) r.subs },
          removal (connId, subId) (slotsOf entry) ++ [.unlock (.subs (shards.subs connId))])
  | .takeConnection connId rank =>
    match r.subs.lookup connId with
    | none => (r, [.unlock (.subs (shards.subs connId))])
    | some connSubs =>
      ({ r with subs := r.subs.erase connId },
        .unlock (.subs (shards.subs connId)) ::
          (byRank (fun e ↦ rank e.1) connSubs.entries).flatMap fun e ↦
            removal (connId, e.1) (slotsOf e.2))
  | .collect communityId connId channelId rank =>
    (r, .unlock (.subs (shards.subs connId)) ::
      (byRank rank (r.channelSubIds communityId connId channelId)).map fun subId ↦
        .lock (.takeSubscription connId subId))
  | .insertSubscription connId subId entry =>
    ({ r with
        subs := AList.insert connId (AList.insert subId entry ((r.subs.lookup connId).getD ∅))
          r.subs },
      [.unlock (.subs (shards.subs connId))])
  | .pushEntry slot x =>
    (r.setEntriesAt slot (some (r.bucketAt slot ++ [x])), [.unlock (shards.index slot)])
  | .retainOthers slot x =>
    match r.entriesAt slot with
    | none => (r, [.unlock (shards.index slot)])
    | some entries =>
      let kept := entries.filter fun y ↦ !(y == x)
      (r.setEntriesAt slot (some kept),
        if kept.isEmpty then [.unlock (shards.index slot), .lock (.removeKey slot)]
        else [.unlock (shards.index slot)])
  | .removeKey slot => (r.setEntriesAt slot none, [.unlock (shards.index slot)])

def registryMachine : Machine SubscriptionRegistry Access LockId :=
  ⟨Access.lock shards, Access.exclusive, Access.run shards⟩

end Machine

inductive RegistryCall
  | registerScoped (communityId : CommunityId) (connId : ConnId) (subId : SubId)
      (filters : List Filter) (channelId : Option Uuid)
  | removeSubscription (connId : ConnId) (subId : SubId)
  | removeConnection (connId : ConnId) (rank : SubId → ℕ)
  | removeChannelSubscriptionsScoped (communityId : CommunityId) (connId : ConnId)
      (channelId : Uuid) (rank : SubId → ℕ)
  | fanOutScoped (communityId : CommunityId) (event : StoredEvent)

def RegistryCall.accesses : RegistryCall → List Access
  | .registerScoped communityId connId subId filters channelId =>
    let entry : SubEntry := ⟨filters, communityId, channelId⟩
    [.takeSubscription connId subId, .insertSubscription connId subId entry] ++
      (slotsOf entry).map fun slot ↦ .pushEntry slot (connId, subId)
  | .removeSubscription connId subId => [.takeSubscription connId subId]
  | .removeConnection connId rank => [.takeConnection connId rank]
  | .removeChannelSubscriptionsScoped communityId connId channelId rank =>
    [.collect communityId connId channelId rank]
  | .fanOutScoped communityId event => (probesOf communityId event).map .candidates

inductive RegistryStep
  | start (call : RegistryCall)
  | advance (i : ℕ)

abbrev RegistrySystem := System SubscriptionRegistry Access LockId

def stepRegistry (shards : Shards) (s : RegistrySystem) : RegistryStep → RegistrySystem
  | .start call => s.start (call.accesses.map .lock)
  | .advance i => s.advance (registryMachine shards) i

def runRegistry (shards : Shards) (steps : List RegistryStep) : RegistrySystem :=
  steps.foldl (stepRegistry shards) ⟨{}, []⟩

end Buzz.Relay
