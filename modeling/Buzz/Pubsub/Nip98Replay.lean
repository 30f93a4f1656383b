import Buzz.Lib.Redis
import Buzz.Lib.Runs
import Buzz.Relay.Freshness

namespace Buzz.Pubsub.Nip98Replay

open Buzz.Lib Buzz.Lib.Hex Buzz.Nostr Buzz.Relay

def DEFAULT_REPLAY_TTL_SECS : ℕ := 120

def MAX_REPLAY_TTL_SECS : ℕ := 3600

def OPERATOR_REPLAY_SCOPE : String := "operator-management"

/-- What an event may be spent in once: a community, or the operator endpoints of the deployment. -/
inductive Scope
  | community (id : CommunityId)
  | operator
deriving DecidableEq

def Scope.text : Scope → String
  | community id => uuidToString id
  | operator => OPERATOR_REPLAY_SCOPE

def nip98ReplayKeyForScope (scope : String) (eventId : EventId) : String :=
  "buzz:" ++ scope ++ ":nip98:" ++ hexEncode eventId

/-- How a command to the server may go wrong. -/
inductive Fault
  | none
  | noConnection
  | replyLost
deriving DecidableEq, Repr

def tryMarkInScope (r : Redis) (scope : Scope) (eventId : EventId) (ttlSecs : ℕ) (fault : Fault) :
    Redis × Except String Bool :=
  let ttl := max DEFAULT_REPLAY_TTL_SECS (min ttlSecs MAX_REPLAY_TTL_SECS)
  let (r', fresh) := r.setNxEx (nip98ReplayKeyForScope scope.text eventId) "1" ttl
  match fault with
  | .none => (r', .ok fresh)
  | .noConnection => (r, .error "Redis pool")
  | .replyLost => (r', .error "Redis SET NX EX")

/-- A request without an event, which is let through where the server takes a bare public key, comes
with the event id zero. -/
def Scope.skips (scope : Scope) (eventId : EventId) : Bool :=
  match scope with
  | community _ => eventId = 0
  | operator => false

def checkReplay (r : Redis) (scope : Scope) (eventId : EventId) (fault : Fault) :
    Redis × Except String Unit :=
  if scope.skips eventId then (r, .ok ())
  else
    match tryMarkInScope r scope eventId DEFAULT_REPLAY_TTL_SECS fault with
    | (r', .ok true) => (r', .ok ())
    | (r', .ok false) => (r', .error "NIP-98: replay detected")
    | (r', .error _) => (r', .error "NIP-98: replay check unavailable")

/-- A request whose event has passed `verify_nip98_event`, with what the pod's clock read then and
what the server's did. -/
structure Request where
  scope : Scope
  eventId : EventId
  reading : Clock
  verifiedAt : ℕ

/-- A request that the replay check let through, and when. -/
structure Admission extends Request where
  time : ℕ

structure World where
  redis : Redis
  pending : List Request
  log : List Admission

/-- What any pod, the server's clock and the other users of the server may do next. -/
inductive Op
  | verify (scope : Scope) (eventId : EventId) (reading : Clock)
  | mark (i : ℕ) (fault : Fault)
  | tick (ms : ℕ)
  | evict (key : String)
  | other (key : String) (entry : Option Redis.Entry)
      (foreign : ∀ (scope : Scope) eventId, nip98ReplayKeyForScope scope.text eventId ≠ key)

namespace World

variable (createdAt : EventId → UInt64)

def verify (w : World) (scope : Scope) (eventId : EventId) (reading : Clock) : World :=
  match nip98Gate (createdAt eventId) reading with
  | .ok () => { w with pending := w.pending ++ [⟨scope, eventId, reading, w.redis.now⟩] }
  | .error _ => w

def mark (w : World) (q : Request) (fault : Fault) : World :=
  match checkReplay w.redis q.scope q.eventId fault with
  | (redis, .ok ()) => { w with redis := redis, log := w.log ++ [⟨q, w.redis.now⟩] }
  | (redis, .error _) => { w with redis := redis }

def step (w : World) : Op → World
  | .verify scope eventId reading => w.verify createdAt scope eventId reading
  | .mark i fault =>
    match w.pending[i]? with
    | some q => { w.mark q fault with pending := w.pending.eraseIdx i }
    | none => w
  | .tick ms => { w with redis := { w.redis with now := w.redis.now + ms } }
  | .evict key => { w with redis := w.redis.evict key }
  | .other key entry _ => { w with redis := w.redis.setEntry key entry }

def start (now : ℕ) : World := ⟨Redis.empty now, [], []⟩

def run (now : ℕ) (ops : List Op) : World := ops.foldl (step createdAt) (start now)

end World

namespace Admission

def Same (a b : Admission) : Prop :=
  a.scope = b.scope ∧ a.eventId = b.eventId ∧ a.scope.skips a.eventId = false

/-- The pod's clock was at most `skew` off, and the request at most `delay` on its way to the
server. -/
structure Timely (skew delay : ℕ) (a : Admission) : Prop where
  ahead : 1000 * a.reading.secs ≤ a.verifiedAt + skew
  behind : a.verifiedAt ≤ 1000 * a.reading.secs + 999 + skew
  delay : a.time ≤ a.verifiedAt + delay

end Admission

section Invariant

variable (createdAt : EventId → UInt64) (w : World)

structure Request.Valid (now : ℕ) (q : Request) : Prop where
  fresh : |((createdAt q.eventId).toNat : ℤ) - q.reading.secs| ≤ 60
  verifiedAt_le : q.verifiedAt ≤ now

def World.Marked (a : Admission) : Prop :=
  a.time + 120000 < w.redis.now ∨ ∃ value deadline,
    w.redis.entries (nip98ReplayKeyForScope a.scope.text a.eventId) =
      some ⟨value, some deadline⟩ ∧ a.time + 120000 ≤ deadline

structure World.Inv : Prop where
  pending : ∀ q ∈ w.pending, q.Valid createdAt w.redis.now
  valid : ∀ a ∈ w.log, a.toRequest.Valid createdAt a.time
  past : ∀ a ∈ w.log, a.time ≤ w.redis.now
  marked : ∀ a ∈ w.log, a.scope.skips a.eventId = false → w.Marked a
  apart : w.log.Pairwise fun a b ↦ a.Same b → a.time + 120000 < b.time

end Invariant

section Step

variable {createdAt : EventId → UInt64} {w : World}

/-- Time passes and expired keys go, but no mark is touched. -/
theorem World.Inv.quiet (h : w.Inv createdAt) {r : Redis} (hnow : w.redis.now ≤ r.now)
    (hentries : ∀ (scope : Scope) eventId,
      r.entries (nip98ReplayKeyForScope scope.text eventId) =
        w.redis.entries (nip98ReplayKeyForScope scope.text eventId) ∨
      ∃ e, w.redis.entries (nip98ReplayKeyForScope scope.text eventId) = some e ∧
        e.expired r.now = true) :
    World.Inv createdAt { w with redis := r } where
  pending q hq := ⟨(h.pending q hq).fresh, (h.pending q hq).verifiedAt_le.trans hnow⟩
  valid := h.valid
  past a ha := (h.past a ha).trans hnow
  marked a ha hskips := by
    rcases h.marked a ha hskips with hpast | ⟨value, deadline, hentry, hle⟩
    · exact .inl (hpast.trans_le hnow)
    · rcases hentries a.scope a.eventId with hsame | ⟨e, he, hexpired⟩
      · exact .inr ⟨value, deadline, hsame.trans hentry, hle⟩
      · rw [hentry] at he
        rw [← Option.some.inj he] at hexpired
        simp only [Redis.Entry.expired, decide_eq_true_eq] at hexpired
        exact .inl (hle.trans_lt hexpired)
  apart := h.apart

theorem World.Inv.verify (h : w.Inv createdAt) (scope : Scope) (eventId : EventId)
    (reading : Clock) : (w.verify createdAt scope eventId reading).Inv createdAt := by
  rw [World.verify]
  cases hgate : nip98Gate (createdAt eventId) reading with
  | error e => exact h
  | ok u =>
    rw [nip98Gate, require_eq_ok, FreshnessGate.absDiff_le 60 (by decide)] at hgate
    exact { h with pending := forall_mem_concat h.pending ⟨hgate, le_rfl⟩ }

/-- A check changes nothing and fails, or finds no live mark and sets one. -/
theorem checkReplay_spec {scope : Scope} {eventId : EventId} (fault : Fault)
    (hskips : scope.skips eventId = false) :
    ((checkReplay w.redis scope eventId fault).1 = w.redis ∧
        (checkReplay w.redis scope eventId fault).2 ≠ .ok ()) ∨
      (w.redis.live (nip98ReplayKeyForScope scope.text eventId) = none ∧
        (checkReplay w.redis scope eventId fault).1 =
          w.redis.setEntry (nip98ReplayKeyForScope scope.text eventId)
            (some ⟨"1", some (w.redis.now + 120000)⟩)) := by
  have hclamp : max DEFAULT_REPLAY_TTL_SECS (min DEFAULT_REPLAY_TTL_SECS MAX_REPLAY_TTL_SECS) =
      120 := by decide
  have hpure : scope.skips eventId ≠ true := by rw [hskips]; exact Bool.false_ne_true
  rw [checkReplay, if_neg hpure, tryMarkInScope, hclamp, Redis.setNxEx]
  cases hlive : w.redis.live (nip98ReplayKeyForScope scope.text eventId) with
  | some e => cases fault <;> exact .inl ⟨rfl, fun h ↦ by cases h⟩
  | none =>
    cases fault with
    | noConnection => exact .inl ⟨rfl, fun h ↦ by cases h⟩
    | none => exact .inr ⟨rfl, rfl⟩
    | replyLost => exact .inr ⟨rfl, rfl⟩

/-- A mark that is set leaves the other ones where they are, and none of its own key was live. -/
theorem World.Inv.set (h : w.Inv createdAt) {scope : Scope} {eventId : EventId}
    (hlive : w.redis.live (nip98ReplayKeyForScope scope.text eventId) = none) :
    World.Inv createdAt { w with
      redis := w.redis.setEntry (nip98ReplayKeyForScope scope.text eventId)
        (some ⟨"1", some (w.redis.now + 120000)⟩) } where
  pending := h.pending
  valid := h.valid
  past := h.past
  marked a ha hskips := by
    rcases h.marked a ha hskips with hpast | ⟨value, deadline, hentry, hle⟩
    · exact .inl hpast
    · by_cases hkey : nip98ReplayKeyForScope a.scope.text a.eventId =
          nip98ReplayKeyForScope scope.text eventId
      · rw [hkey] at hentry
        have hexpired := Redis.live_eq_none_iff.mp hlive _ hentry
        simp only [Redis.Entry.expired, decide_eq_true_eq] at hexpired
        exact .inl (hle.trans_lt hexpired)
      · exact .inr ⟨value, deadline, (Redis.entries_setEntry_ne hkey).trans hentry, hle⟩
  apart := h.apart

theorem World.Inv.admit (h : w.Inv createdAt) {q : Request} (hq : q.Valid createdAt w.redis.now)
    (hmarked : q.scope.skips q.eventId = false → ∃ value,
      w.redis.entries (nip98ReplayKeyForScope q.scope.text q.eventId) =
        some ⟨value, some (w.redis.now + 120000)⟩)
    (hapart : ∀ a ∈ w.log, a.Same ⟨q, w.redis.now⟩ → a.time + 120000 < w.redis.now) :
    World.Inv createdAt { w with log := w.log ++ [⟨q, w.redis.now⟩] } where
  pending := h.pending
  valid := forall_mem_concat h.valid hq
  past := forall_mem_concat h.past le_rfl
  marked := by
    refine forall_mem_concat h.marked fun hskips ↦ ?_
    obtain ⟨value, hentry⟩ := hmarked hskips
    exact .inr ⟨value, _, hentry, le_rfl⟩
  apart := by
    rw [List.pairwise_append]
    refine ⟨h.apart, List.pairwise_singleton _ _, fun a ha b hb hsame ↦ ?_⟩
    rw [List.mem_singleton.mp hb] at hsame ⊢
    exact hapart a ha hsame

theorem now_mark (q : Request) (fault : Fault) : (w.mark q fault).redis.now = w.redis.now := by
  have hcheck : (checkReplay w.redis q.scope q.eventId fault).1.now = w.redis.now := by
    cases hskips : q.scope.skips q.eventId with
    | true => simp only [checkReplay, hskips, if_true]
    | false =>
      rcases checkReplay_spec (w := w) fault hskips with ⟨hsame, -⟩ | ⟨-, hset⟩
      · rw [hsame]
      · rw [hset, Redis.now_setEntry]
  rw [World.mark]
  generalize checkReplay w.redis q.scope q.eventId fault = reply at hcheck ⊢
  obtain ⟨redis, _ | _⟩ := reply <;> exact hcheck

theorem World.Inv.mark (h : w.Inv createdAt) {q : Request} (hq : q.Valid createdAt w.redis.now)
    (fault : Fault) : (w.mark q fault).Inv createdAt := by
  rw [World.mark]
  cases hskips : q.scope.skips q.eventId with
  | true =>
    simp only [checkReplay, hskips, if_true]
    refine h.admit hq (fun hno ↦ ?_) fun a _ hsame ↦ ?_
    · rw [hskips] at hno
      cases hno
    · obtain ⟨hscope, hid, hno⟩ := hsame
      rw [hscope, hid, hskips] at hno
      cases hno
  | false =>
    rcases checkReplay_spec (w := w) fault hskips with ⟨hsame, hfails⟩ | ⟨hlive, hset⟩
    · generalize checkReplay w.redis q.scope q.eventId fault = reply at hsame hfails ⊢
      obtain ⟨redis, _ | _⟩ := reply
      · dsimp only at hsame ⊢
        rwa [hsame]
      · exact absurd rfl hfails
    · have hinv := h.set hlive
      generalize checkReplay w.redis q.scope q.eventId fault = reply at hset ⊢
      obtain ⟨redis, _ | _⟩ := reply
      · dsimp only at hset ⊢
        rwa [hset]
      · dsimp only at hset ⊢
        rw [hset]
        refine hinv.admit hq (fun _ ↦ ⟨"1", Redis.entries_setEntry_self⟩) fun a ha hsame ↦ ?_
        obtain ⟨hscope, hid, hno⟩ := hsame
        rcases h.marked a ha hno with hpast | ⟨value, deadline, hentry, hle⟩
        · exact hpast
        · rw [hscope, hid] at hentry
          have hexpired := Redis.live_eq_none_iff.mp hlive _ hentry
          simp only [Redis.Entry.expired, decide_eq_true_eq] at hexpired
          exact hle.trans_lt hexpired

theorem step_inv (h : w.Inv createdAt) (op : Op) : (w.step createdAt op).Inv createdAt := by
  cases op with
  | verify scope eventId reading => exact h.verify scope eventId reading
  | mark i fault =>
    rw [World.step]
    cases hi : w.pending[i]? with
    | none => exact h
    | some q =>
      have hq := h.pending q (List.mem_of_getElem? hi)
      have hmark := h.mark hq fault
      have hnow : (w.mark q fault).redis.now = w.redis.now := now_mark q fault
      refine { hmark with pending := fun q' hq' ↦ ?_ }
      show q'.Valid createdAt (w.mark q fault).redis.now
      rw [hnow]
      exact h.pending q' (List.mem_of_mem_eraseIdx hq')
  | tick ms => exact h.quiet (Nat.le_add_right _ _) fun _ _ ↦ .inl rfl
  | evict key =>
    have hnow : (w.redis.evict key).now = w.redis.now := Redis.now_evict
    refine h.quiet hnow.ge fun scope eventId ↦ ?_
    rw [hnow]
    exact (Redis.entries_evict w.redis key _).imp_right And.right
  | other key entry foreign =>
    exact h.quiet le_rfl fun scope eventId ↦
      .inl (Redis.entries_setEntry_ne (foreign scope eventId))

theorem reachable_inv (createdAt : EventId → UInt64) (now : ℕ) (ops : List Op) :
    (World.run createdAt now ops).Inv createdAt := by
  refine List.foldlRecOn ops _ ?_ fun _ h op _ ↦ step_inv h op
  exact ⟨fun q hq ↦ (List.not_mem_nil hq).elim, fun a ha ↦ (List.not_mem_nil ha).elim,
    fun a ha ↦ (List.not_mem_nil ha).elim, fun a ha ↦ (List.not_mem_nil ha).elim, .nil⟩

end Step

/-- What the seen-set comes to, with any number of pods and whatever commands fail: admissions of an
event in a scope are more than two minutes apart. So when clocks and requests are in time, a second
one needs an event that is dated a minute ahead of its first, and a third one never comes. -/
structure SpentOnce (createdAt : EventId → UInt64) (log : List Admission) : Prop where
  apart : log.Pairwise fun a b ↦ a.Same b → a.time + 120000 < b.time
  postdated : ∀ skew delay, log.Pairwise fun a b ↦ a.Same b → b.Timely skew delay →
    a.time + 59000 < 1000 * (createdAt a.eventId).toNat + skew + delay
  twice : ∀ skew delay, 2 * skew + delay ≤ 119000 → ∀ a b c : Admission, [a, b, c].Sublist log →
    a.Same b → b.Same c → a.Timely skew delay → ¬c.Timely skew delay

theorem run_spentOnce (createdAt : EventId → UInt64) (now : ℕ) (ops : List Op) :
    SpentOnce createdAt (World.run createdAt now ops).log := by
  have h := reachable_inv createdAt now ops
  have hfresh (a : Admission) (ha : a ∈ (World.run createdAt now ops).log) :
      |((createdAt a.eventId).toNat : ℤ) - a.reading.secs| ≤ 60 ∧ a.verifiedAt ≤ a.time :=
    ⟨(h.valid a ha).fresh, (h.valid a ha).verifiedAt_le⟩
  constructor
  case apart => exact h.apart
  case postdated =>
    intro skew delay
    refine h.apart.imp_of_mem fun {a b} _ hb happart hsame htimely ↦ ?_
    have hlt := happart hsame
    obtain ⟨hb, -⟩ := hfresh b hb
    obtain ⟨-, hbehind, hdelay⟩ := htimely
    rw [← hsame.2.1, abs_le] at hb
    omega
  case twice =>
    intro skew delay hsum a b c hsub hab hbc ha hc
    have happart := h.apart.sublist hsub
    simp only [List.pairwise_cons, List.mem_cons, List.not_mem_nil, or_false] at happart
    have hlt := happart.1 b (.inl rfl) hab
    have hlt' := happart.2.1 c rfl hbc
    obtain ⟨hfresh_a, hverified⟩ := hfresh a (hsub.subset (by simp))
    obtain ⟨hfresh_c, -⟩ := hfresh c (hsub.subset (by simp))
    obtain ⟨hahead, -, -⟩ := ha
    obtain ⟨-, hbehind, hdelay⟩ := hc
    rw [← hbc.2.1, ← hab.2.1, abs_le] at hfresh_c
    rw [abs_le] at hfresh_a
    omega

end Buzz.Pubsub.Nip98Replay
