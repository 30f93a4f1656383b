import Buzz.Lib.Collections
import Buzz.Nostr.Event
import Mathlib.Data.Finset.Basic

namespace Buzz.Pubsub

open Buzz.Lib Buzz.Nostr

def BUZZ_PREFIX : String := "buzz"

inductive EventTopic
  | channel (channelId : Uuid)
  | global
deriving DecidableEq, Repr

structure EventTopicKey where
  communityId : CommunityId
  topic : EventTopic
deriving DecidableEq, Repr

def EventTopicKey.redisChannel (t : EventTopicKey) : String :=
  match t.topic with
  | .channel channelId =>
    BUZZ_PREFIX ++ ":" ++ uuidToString t.communityId ++ ":channel:" ++ uuidToString channelId
  | .global => BUZZ_PREFIX ++ ":" ++ uuidToString t.communityId ++ ":global"

theorem EventTopicKey.redisChannel_injective : Function.Injective redisChannel := by
  intro t t' h
  have hlist := congrArg String.toList h
  obtain ⟨community, topic⟩ := t
  obtain ⟨community', topic'⟩ := t'
  have hlen (u : Uuid) := length_uuidToString u
  cases topic with
  | channel channelId =>
    cases topic' with
    | channel channelId' =>
      simp only [redisChannel, String.toList_append] at hlist
      obtain ⟨hlist, hchannel⟩ := List.append_inj' hlist (by rw [hlen, hlen])
      obtain ⟨hlist, -⟩ := List.append_inj' hlist rfl
      obtain ⟨-, hcommunity⟩ := List.append_inj' hlist (by rw [hlen, hlen])
      rw [uuidToString_injective (String.toList_inj.mp hcommunity),
        uuidToString_injective (String.toList_inj.mp hchannel)]
    | global =>
      have hlength := congrArg List.length hlist
      simp [redisChannel, hlen, BUZZ_PREFIX] at hlength
  | global =>
    cases topic' with
    | channel channelId' =>
      have hlength := congrArg List.length hlist
      simp [redisChannel, hlen, BUZZ_PREFIX] at hlength
    | global =>
      simp only [redisChannel, String.toList_append] at hlist
      obtain ⟨hlist, -⟩ := List.append_inj' hlist rfl
      obtain ⟨-, hcommunity⟩ := List.append_inj' hlist (by rw [hlen, hlen])
      rw [uuidToString_injective (String.toList_inj.mp hcommunity)]

inductive SubscriptionCommand
  | subscribe (topic : EventTopicKey)
  | unsubscribeIfIdle (topic : EventTopicKey)
deriving DecidableEq, Repr

/-- How far the subscriber task is with a command; `unsubscribe` has read the count as zero. -/
inductive Work
  | subscribe (topic : EventTopicKey)
  | check (topic : EventTopicKey)
  | unsubscribe (topic : EventTopicKey)
deriving DecidableEq, Repr

def SubscriptionCommand.work : SubscriptionCommand → Work
  | subscribe topic => .subscribe topic
  | unsubscribeIfIdle topic => .check topic

/-- One Redis connection. `todo` is what is left of the snapshot it starts from, `activeTopics`
is what the task believes, and `subscribed` is what Redis delivers on the connection. -/
structure Session where
  todo : List EventTopicKey
  work : Option Work
  activeTopics : Finset String
  subscribed : Finset String
deriving DecidableEq

/-- `sending` are the retains that have counted and not yet sent their command, `debouncing` the
unsubscribes that have not been sent. -/
structure PubSub where
  desiredTopics : Map EventTopicKey ℕ
  sending : List EventTopicKey
  debouncing : List EventTopicKey
  queue : List SubscriptionCommand
  session : Option Session

def QUEUE_CAPACITY : ℕ := 4096

inductive Op
  | retainTopic (topic : EventTopicKey)
  | sendSubscribe (topic : EventTopicKey)
  | releaseTopic (topic : EventTopicKey)
  | sendUnsubscribe (topic : EventTopicKey)
  | connect
  | subscribeInitial
  | receive
  | subscribe
  | readRefcount
  | unsubscribe
  | disconnect
deriving DecidableEq, Repr

namespace PubSub

def start : PubSub where
  desiredTopics := ∅
  sending := []
  debouncing := []
  queue := []
  session := none

def desiredRefcount (w : PubSub) (t : EventTopicKey) : ℕ := (w.desiredTopics.lookup t).getD 0

def retainTopic (w : PubSub) (t : EventTopicKey) : PubSub :=
  { w with
    desiredTopics := AList.insert t (w.desiredRefcount t + 1) w.desiredTopics
    sending := if w.desiredRefcount t = 0 then t :: w.sending else w.sending }

def releaseTopic (w : PubSub) (t : EventTopicKey) : PubSub :=
  match w.desiredTopics.lookup t with
  | none => w
  | some count =>
    if count - 1 = 0 then
      { w with
        desiredTopics := w.desiredTopics.erase t
        debouncing := t :: w.debouncing }
    else { w with desiredTopics := AList.insert t (count - 1) w.desiredTopics }

def initialTopics (w : PubSub) : List EventTopicKey :=
  (w.desiredTopics.entries.filter fun e ↦ 0 < e.2).map Sigma.fst

/-- The connection can be lost at any moment, and a command being handled with it. -/
def step (w : PubSub) : Op → Option PubSub
  | .retainTopic t => some (w.retainTopic t)
  | .sendSubscribe t =>
    if t ∈ w.sending ∧ w.queue.length < QUEUE_CAPACITY then
      some { w with sending := w.sending.erase t, queue := w.queue ++ [.subscribe t] }
    else none
  | .releaseTopic t => some (w.releaseTopic t)
  | .sendUnsubscribe t =>
    if t ∈ w.debouncing ∧ w.queue.length < QUEUE_CAPACITY then
      some { w with
        debouncing := w.debouncing.erase t
        queue := w.queue ++ [.unsubscribeIfIdle t] }
    else none
  | .connect =>
    if w.session = none then some { w with session := some ⟨w.initialTopics, none, ∅, ∅⟩ } else none
  | .subscribeInitial =>
    match w.session with
    | some ⟨t :: todo, work, activeTopics, subscribed⟩ =>
      let s := ⟨todo, work, insert t.redisChannel activeTopics, insert t.redisChannel subscribed⟩
      some { w with session := some s }
    | _ => none
  | .receive =>
    match w.session, w.queue with
    | some ⟨[], none, activeTopics, subscribed⟩, command :: queue =>
      some { w with queue := queue, session := some ⟨[], some command.work, activeTopics, subscribed⟩ }
    | _, _ => none
  | .subscribe =>
    match w.session with
    | some ⟨todo, some (.subscribe t), activeTopics, subscribed⟩ =>
      let s : Session :=
        if t.redisChannel ∈ activeTopics then ⟨todo, none, activeTopics, subscribed⟩
        else ⟨todo, none, insert t.redisChannel activeTopics, insert t.redisChannel subscribed⟩
      some { w with session := some s }
    | _ => none
  | .readRefcount =>
    match w.session with
    | some ⟨todo, some (.check t), activeTopics, subscribed⟩ =>
      let work := if w.desiredRefcount t = 0 then some (.unsubscribe t) else none
      some { w with session := some ⟨todo, work, activeTopics, subscribed⟩ }
    | _ => none
  | .unsubscribe =>
    match w.session with
    | some ⟨todo, some (.unsubscribe t), activeTopics, subscribed⟩ =>
      let s : Session :=
        if t.redisChannel ∈ activeTopics then
          ⟨todo, none, activeTopics.erase t.redisChannel, subscribed.erase t.redisChannel⟩
        else ⟨todo, none, activeTopics, subscribed⟩
      some { w with session := some s }
    | _ => none
  | .disconnect => some { w with session := none }

def run (w : PubSub) (ops : List Op) : Option PubSub := ops.foldlM step w

def Announced (w : PubSub) (t : EventTopicKey) : Prop :=
  t ∈ w.sending ∨ .subscribe t ∈ w.queue

instance (w : PubSub) (t : EventTopicKey) : Decidable (w.Announced t) :=
  inferInstanceAs (Decidable (_ ∨ _))

/-- The connection has been made and every command handled. -/
def Drained (w : PubSub) (s : Session) : Prop :=
  w.session = some s ∧ s.todo = [] ∧ s.work = none ∧ w.queue = []

end PubSub

def outstanding (t : EventTopicKey) (ops : List Op) : ℕ :=
  ops.foldl (fun n op ↦
    if op = .retainTopic t then n + 1 else if op = .releaseTopic t then n - 1 else n) 0

end Buzz.Pubsub
