import Buzz.Lib.Collections
import Buzz.Lib.Runs
import Buzz.Relay.DirectoryRun

namespace Buzz.Audio.OwnerPod

open Buzz.Lib Buzz.Nostr Buzz.Relay.Tunnel

abbrev Token := ℕ

/-- Whether a call reaches Redis, and its reply the caller. -/
inductive Net
  | answered
  | unsent
  | unanswered
deriving DecidableEq, Repr

inductive JoinError
  | mesh (error : MeshError)
  | directory (error : DirectoryError)
  | network
  | transport (text : String)
deriving DecidableEq, Repr

structure Ownership where
  ownerRuntimeId : RuntimeId
  generation : UInt64
deriving DecidableEq, Repr

inductive JoinOutcome
  | localOwner (generation : UInt64)
  | remoteOwner (ownerRuntimeId : RuntimeId) (generation : UInt64)
deriving DecidableEq, Repr

structure ResolvedJoin where
  outcome : JoinOutcome
  acquired : Option SessionLease
deriving DecidableEq, Repr

structure HuddleOwnerEntry where
  lost : Token
  draining : Token
  cancel : Token
  generation : UInt64
deriving DecidableEq, Repr

structure HuddleOwnerSignals where
  lost : Token
  draining : Token
deriving DecidableEq, Repr

inductive Task
  | waiting
  | leaving (callerCancelled : Bool)
  | ended
deriving DecidableEq, Repr

structure Renewer where
  lease : SessionLease
  cancel : Token
  lost : Token
  task : Task
deriving DecidableEq, Repr

/-- How far a join is: up to `returned` in `resolve_join_owner_ready`, then in `attach_signals`,
which `kept` the lease if its entry was installed for good. -/
inductive Phase
  | lookup (attempt : ℕ)
  | acquiring (attempt : ℕ)
  | validating (ownership : Ownership)
  | checking (attempt : ℕ) (generation : UInt64)
  | returned (result : Except JoinError ResolvedJoin)
  | attaching (lease : SessionLease)
  | searching (lease : SessionLease)
  | inserting (lease : SessionLease) (entry : HuddleOwnerEntry)
  | rechecking (lease : SessionLease) (entry : HuddleOwnerEntry)
  | retracting (lease : SessionLease) (entry : HuddleOwnerEntry)
  | attached (lease : SessionLease) (signals : HuddleOwnerSignals) (kept : Bool)
deriving DecidableEq

structure Join where
  communityId : CommunityId
  sessionId : SessionId
  phase : Phase
deriving DecidableEq

/-- A pod and the shared Redis. `epochs` are the entries made so far and `released` the leases
that `release` was called with. -/
structure Pod where
  redis : Redis
  entries : Map SessionId HuddleOwnerEntry
  draining : Bool
  firedLost : List Token
  firedDraining : List Token
  firedCancel : List Token
  nextToken : Token
  renewers : List Renewer
  joins : List Join
  epochs : List (SessionId × HuddleOwnerEntry)
  released : List SessionLease

def Pod.start (now : ℕ) : Pod where
  redis := Redis.empty now
  entries := ∅
  draining := false
  firedLost := []
  firedDraining := []
  firedCancel := []
  nextToken := 0
  renewers := []
  joins := []
  epochs := []
  released := []

inductive Action
  | env (op : Relay.Tunnel.Op)
  | join (communityId : CommunityId) (sessionId : SessionId)
  | run (i : ℕ) (net : Net)
  | renew (i : ℕ) (net : Net)
  | cancelled (i : ℕ)
  | releaseLease (i : ℕ) (net : Net)
  | release (sessionId : SessionId) (generation : UInt64)
  | drain (sessionId : SessionId) (generation : UInt64)
  | drainAll

def call {α : Type} (net : Net) (r : Redis) (result : Redis × Except DirectoryError α) :
    Redis × Except JoinError α :=
  match net with
  | .answered => (result.1, result.2.mapError .directory)
  | .unsent => (r, .error .network)
  | .unanswered => (result.1, .error .network)

def OWNER_READY_MAX_ATTEMPTS : ℕ := 25

def ownerNotReady (sessionId : SessionId) : JoinError :=
  .transport ("huddle owner not ready for session " ++ uuidToString sessionId ++ " after " ++
    toString OWNER_READY_MAX_ATTEMPTS ++ " attempts")

/-- Where `resolve_join` goes with the ownership it found. -/
def route (localRuntimeId : RuntimeId) (attempt : ℕ) (lease : SessionLease) : Phase :=
  if lease.ownerRuntimeId = localRuntimeId then .checking attempt lease.generation
  else .validating ⟨lease.ownerRuntimeId, lease.generation⟩

namespace Pod

variable (s : Pod)

def throwAway (lease : SessionLease) : Pod :=
  { s with
    renewers := s.renewers ++ [⟨lease, s.nextToken, s.nextToken, .waiting⟩]
    firedCancel := s.nextToken :: s.firedCancel
    nextToken := s.nextToken + 1 }

def newEntry (lease : SessionLease) : HuddleOwnerEntry :=
  ⟨s.nextToken, s.nextToken, s.nextToken, lease.generation⟩

def spawn (sessionId : SessionId) (lease : SessionLease) : Pod :=
  { s with
    renewers := s.renewers ++ [⟨lease, s.nextToken, s.nextToken, .waiting⟩]
    epochs := s.epochs ++ [(sessionId, s.newEntry lease)]
    nextToken := s.nextToken + 1 }

def ofGeneration (sessionId : SessionId) (generation : UInt64) : Option HuddleOwnerEntry :=
  (s.entries.lookup sessionId).filter fun e ↦ e.generation = generation

def release (sessionId : SessionId) (generation : UInt64) : Pod :=
  match s.ofGeneration sessionId generation with
  | some e =>
    { s with
      entries := s.entries.erase sessionId
      firedCancel := e.cancel :: s.firedCancel }
  | none => s

def drain (sessionId : SessionId) (generation : UInt64) : Pod :=
  match s.ofGeneration sessionId generation with
  | some e =>
    { s with
      entries := s.entries.erase sessionId
      firedDraining := e.draining :: s.firedDraining
      firedCancel := e.cancel :: s.firedCancel }
  | none => s

def fireAll (e : HuddleOwnerEntry) : Pod :=
  { s with
    firedDraining := e.draining :: s.firedDraining
    firedCancel := e.cancel :: s.firedCancel }

def refuse (lease : SessionLease) : Pod :=
  { s.throwAway lease with
    firedDraining := s.nextToken :: s.firedDraining
    nextToken := s.nextToken + 2 }

end Pod

section Steps

variable (leaseTtl : ℕ) (localRuntimeId : RuntimeId)

def joinStep (s : Pod) (net : Net) (communityId : CommunityId) (sessionId : SessionId) :
    Phase → Option (Pod × Phase)
  | .lookup attempt =>
    let (r, result) := call net s.redis
      (s.redis, Buzz.Relay.Tunnel.lookup s.redis communityId sessionId)
    some ({ s with redis := r }, match result with
      | .error e => .returned (.error e)
      | .ok none => .acquiring attempt
      | .ok (some lease) => route localRuntimeId attempt lease)
  | .acquiring attempt =>
    let (r, result) := call net s.redis
      (acquire leaseTtl s.redis communityId sessionId localRuntimeId .huddleControl)
    some ({ s with redis := r }, match result with
      | .error e => .returned (.error e)
      | .ok (.acquired lease) => .returned (.ok ⟨.localOwner lease.generation, some lease⟩)
      | .ok (.exists lease) => route localRuntimeId attempt lease)
  | .validating o =>
    some (s, .returned (match net with
      | .answered =>
        match validateFencedHeader s.redis communityId
            ⟨sessionId, o.generation, o.ownerRuntimeId⟩ with
        | .error e => .error (.mesh e)
        | .ok () => .ok ⟨.remoteOwner o.ownerRuntimeId o.generation, none⟩
      | _ => .error .network))
  | .checking attempt generation =>
    some (s, if (s.entries.lookup sessionId).isSome then
        .returned (.ok ⟨.localOwner generation, none⟩)
      else if attempt + 1 < OWNER_READY_MAX_ATTEMPTS then .lookup (attempt + 1)
      else .returned (.error (ownerNotReady sessionId)))
  | .returned (.ok ⟨_, some lease⟩) => some (s, .attaching lease)
  | .returned _ => none
  | .attaching lease =>
    if s.draining then
      some (s.refuse lease, .attached lease ⟨s.nextToken + 1, s.nextToken⟩ false)
    else some (s, .searching lease)
  | .searching lease =>
    match s.entries.lookup sessionId with
    | some existing =>
      some (s.throwAway lease, .attached lease ⟨existing.lost, existing.draining⟩ false)
    | none => some (s.spawn sessionId lease, .inserting lease (s.newEntry lease))
  | .inserting lease entry =>
    some ({ s with entries := s.entries.insert sessionId entry }, .rechecking lease entry)
  | .rechecking lease entry =>
    some (s, if s.draining then .retracting lease entry
      else .attached lease ⟨entry.lost, entry.draining⟩ true)
  | .retracting lease entry =>
    some ((s.drain sessionId entry.generation).fireAll entry,
      .attached lease ⟨entry.lost, entry.draining⟩ false)
  | .attached .. => none

def setTask (s : Pod) (i : ℕ) (r : Renewer) (task : Task) : Pod :=
  { s with renewers := s.renewers.set i { r with task } }

/-- A tick of the renewal interval. -/
def renewStep (s : Pod) (i : ℕ) (net : Net) (r : Renewer) : Option Pod :=
  match r.task with
  | .waiting =>
    let (redis, result) := call net s.redis (renew leaseTtl s.redis r.lease)
    let s := { s with redis }
    some (match result with
      | .ok (.renewed _) => s
      | _ => { setTask s i r (.leaving false) with firedLost := r.lost :: s.firedLost })
  | _ => none

def releaseStep (s : Pod) (i : ℕ) (net : Net) (r : Renewer) : Option Pod :=
  match r.task with
  | .leaving callerCancelled =>
    let (redis, result) := call net s.redis (Buzz.Relay.Tunnel.release s.redis r.lease)
    let ended := { setTask s i r .ended with redis, released := s.released ++ [r.lease] }
    let lost := { ended with firedLost := r.lost :: s.firedLost }
    some (match result with
      | .ok (.released _) => ended
      | .ok (.notOwner ..) => lost
      | .error _ => if callerCancelled then ended else lost)
  | _ => none

def step (s : Pod) : Action → Option Pod
  | .env op => some { s with redis := op.apply s.redis }
  | .join c sessionId => some { s with joins := s.joins ++ [⟨c, sessionId, .lookup 0⟩] }
  | .run i net => do
    let j ← s.joins[i]?
    let (s, phase) ← joinStep leaseTtl localRuntimeId s net j.communityId j.sessionId j.phase
    return { s with joins := s.joins.set i { j with phase } }
  | .renew i net => do renewStep leaseTtl s i net (← s.renewers[i]?)
  | .cancelled i => do
    let r ← s.renewers[i]?
    if r.task = .waiting ∧ r.cancel ∈ s.firedCancel then some (setTask s i r (.leaving true))
    else none
  | .releaseLease i net => do releaseStep s i net (← s.renewers[i]?)
  | .release sessionId generation => some (s.release sessionId generation)
  | .drain sessionId generation => some (s.drain sessionId generation)
  | .drainAll => some { s with draining := true }

def run (s : Pod) (actions : List Action) : Option Pod :=
  actions.foldlM (step leaseTtl localRuntimeId) s

end Steps

end Buzz.Audio.OwnerPod
