import Buzz.Lib.Redis
import Buzz.Nostr.Event

namespace Buzz.Pubsub.RateLimiter

open Buzz.Lib Buzz.Lib.Hex Buzz.Nostr

inductive LimitType
  | messages
  | apiCalls
  | wsEvents
  | ipConnections
deriving DecidableEq, Repr

def LimitType.keySuffix : LimitType → String
  | messages => "msg"
  | apiCalls => "api"
  | wsEvents => "ws"
  | ipConnections => "conn"

/-- The thresholds that admission reads. -/
structure RateLimitConfig where
  humanMessagesPerMin : UInt64 := 60
  humanApiCallsPerMin : UInt64 := 300
  humanWsEventsPerSec : UInt64 := 10
  agentStandardMessagesPerMin : UInt64 := 120

@[ext]
structure Counter where
  community : CommunityId
  pubkey : PublicKey
  limitType : LimitType
deriving DecidableEq

def Counter.rateLimitKey (c : Counter) : String :=
  "buzz:" ++ uuidToString c.community ++ ":ratelimit:" ++ hexEncode c.pubkey ++ ":" ++
    c.limitType.keySuffix

structure RateLimitResult where
  allowed : Bool
  current : ℕ
  limit : UInt64
  resetInSecs : ℕ
deriving DecidableEq, Repr

def RateLimitResult.ofCount (count : ℕ) (limit : UInt64) (resetInSecs : ℕ) : RateLimitResult :=
  if count ≤ limit.toNat then ⟨true, count, limit, resetInSecs⟩
  else ⟨false, count, limit, resetInSecs⟩

def rateLimitScript (r : Redis) (key : String) (windowSecs : ℕ) :
    Redis × Except String (ℕ × ℤ) :=
  match r.incr key with
  | .error text => (r, .error text)
  | .ok (count, r') =>
    let r'' := if count = 1 then r'.expire key windowSecs else r'
    (r'', .ok (count.toNat, r''.ttl key))

inductive AdmissionError
  | exceeded (resetInSecs : ℕ)
  | unavailable
deriving DecidableEq, Repr

def checkPrincipal : Except String RateLimitResult → Except AdmissionError Unit
  | .ok result => if result.allowed then .ok () else .error (.exceeded result.resetInSecs)
  | .error _ => .error .unavailable

def WS_BURST_WINDOW_SECS : ℕ := 5

def saturatingMul (a b : UInt64) : UInt64 :=
  if a.toNat * b.toNat < 2 ^ 64 then a * b else .ofNat (2 ^ 64 - 1)

def wsAdmissionBudget (perSecondLimit : UInt64) : ℕ × UInt64 :=
  (WS_BURST_WINDOW_SECS, saturatingMul perSecondLimit (.ofNat WS_BURST_WINDOW_SECS))

/-- The frames that admission tells apart. -/
inductive Frame
  | event
  | req
  | count
  | other
deriving DecidableEq, Repr

/-- What asks for admission: a frame of a connection, which is not yet authenticated or that of an
agent or not, or a call over HTTP. -/
inductive Request
  | ws (frame : Frame) (agent : Option Bool)
  | http
deriving DecidableEq, Repr

structure Budget where
  limitType : LimitType
  windowSecs : ℕ
  limit : UInt64
deriving DecidableEq, Repr

section Budgets

variable (cfg : RateLimitConfig)

def enforceWsAdmission (frame : Frame) (agent : Option Bool) : List Budget :=
  if frame = .other then []
  else
    match agent with
    | none => []
    | some isAgent =>
      let (wsWindowSecs, wsLimit) := wsAdmissionBudget cfg.humanWsEventsPerSec
      ⟨.wsEvents, wsWindowSecs, wsLimit⟩ ::
        if frame = .event then
          [⟨.messages, 60,
            if isAgent then cfg.agentStandardMessagesPerMin else cfg.humanMessagesPerMin⟩]
        else []

def enforceHttpAdmission : List Budget := [⟨.apiCalls, 60, cfg.humanApiCallsPerMin⟩]

def Request.budgets : Request → List Budget
  | ws frame agent => enforceWsAdmission cfg frame agent
  | http => enforceHttpAdmission cfg

end Budgets

structure Check where
  counter : Counter
  limit : UInt64
  time : ℕ
  count : ℕ
  ends : ℕ
  result : Except AdmissionError Unit

/-- A check that found its key without a deadline, before the command that gives it one. -/
structure Repair where
  counter : Counter
  budget : Budget
  count : ℕ

structure World where
  redis : Redis
  repairs : List Repair
  log : List Check

/-- What any pod, the server's clock and the other users of the server may do next. -/
inductive Op
  | check (community : CommunityId) (pubkey : PublicKey) (request : Request) (i : ℕ) (lost : Bool)
  | repair (i : ℕ) (lost : Bool)
  | tick (ms : ℕ)
  | evict (key : String)
  | other (key : String) (entry : Option Redis.Entry)
      (foreign : ∀ c : Counter, c.rateLimitKey ≠ key)

namespace World

def windowEnd (r : Redis) (c : Counter) : ℕ :=
  ((r.entries c.rateLimitKey).bind Redis.Entry.expireAt).getD 0

def judge (r : Redis) (counter : Counter) (budget : Budget) (count resetInSecs : ℕ) (lost : Bool) :
    Check where
  counter := counter
  limit := budget.limit
  time := r.now
  count := count
  ends := windowEnd r counter
  result := checkPrincipal <|
    if lost then .error "Redis rate limit script"
    else .ok (.ofCount count budget.limit resetInSecs)

/-- `run_rate_limit` up to the repair of a key without a deadline. -/
def check (w : World) (counter : Counter) (budget : Budget) (lost : Bool) : World :=
  match rateLimitScript w.redis counter.rateLimitKey budget.windowSecs with
  | (redis, .error _) => { w with redis := redis }
  | (redis, .ok (count, ttl)) =>
    if ttl < 0 ∧ !lost then
      { w with redis := redis, repairs := w.repairs ++ [⟨counter, budget, count⟩] }
    else
      { w with
        redis := redis
        log := w.log ++ [judge redis counter budget count ttl.toNat lost] }

def repair (w : World) (p : Repair) (lost : Bool) : World :=
  let redis := w.redis.expire p.counter.rateLimitKey p.budget.windowSecs
  { w with
    redis := redis
    log := w.log ++ [judge redis p.counter p.budget p.count p.budget.windowSecs lost] }

def start (now : ℕ) : World := ⟨Redis.empty now, [], []⟩

variable (cfg : RateLimitConfig)

def step (w : World) : Op → World
  | .check community pubkey request i lost =>
    match (request.budgets cfg)[i]? with
    | some budget => w.check ⟨community, pubkey, budget.limitType⟩ budget lost
    | none => w
  | .repair i lost =>
    match w.repairs[i]? with
    | some p => { w.repair p lost with repairs := w.repairs.eraseIdx i }
    | none => w
  | .tick ms => { w with redis := { w.redis with now := w.redis.now + ms } }
  | .evict key => { w with redis := w.redis.evict key }
  | .other key entry _ => { w with redis := w.redis.setEntry key entry }

def run (now : ℕ) (ops : List Op) : World := ops.foldl (step cfg) (start now)

end World

section Keys

theorem keySuffix_injective : Function.Injective LimitType.keySuffix := by
  intro a b h
  cases a <;> cases b <;> first | rfl | exact absurd h (by decide)

theorem rateLimitKey_injective : Function.Injective Counter.rateLimitKey := by
  intro a b h
  have hlist := congrArg String.toList h
  simp only [Counter.rateLimitKey, String.toList_append, List.append_assoc] at hlist
  have hrest := List.append_cancel_left hlist
  have hlength : (uuidToString a.community).toList.length =
      (uuidToString b.community).toList.length := by
    rw [length_uuidToString, length_uuidToString]
  obtain ⟨hcommunity, hrest⟩ := List.append_inj hrest hlength
  have hrest := List.append_cancel_left hrest
  have hlength : (hexEncode a.pubkey).toList.length = (hexEncode b.pubkey).toList.length := by
    simp only [hexEncode, String.toList_ofList, length_hexDigits]
  obtain ⟨hpubkey, hrest⟩ := List.append_inj hrest hlength
  have hsuffix := List.append_cancel_left hrest
  exact Counter.ext (uuidToString_injective (String.toList_injective hcommunity))
    (hexEncode_injective (String.toList_injective hpubkey))
    (keySuffix_injective (String.toList_injective hsuffix))

end Keys

section Script

variable {r : Redis} {key : String} {windowSecs : ℕ}

theorem rateLimitScript_fresh (h : r.live key = none) (hpos : 0 < windowSecs) :
    rateLimitScript r key windowSecs =
      (r.setEntry key (some ⟨toString 1, some (r.now + 1000 * windowSecs)⟩),
        .ok (1, ((1000 * windowSecs + 500) / 1000 : ℕ))) := by
  have hopened : (r.setEntry key (some ⟨"1", none⟩)).live key = some ⟨"1", none⟩ :=
    Redis.live_of_persistent Redis.entries_setEntry_self
  have hexpire : (r.setEntry key (some ⟨"1", none⟩)).expire key windowSecs =
      r.setEntry key (some ⟨"1", some (r.now + 1000 * windowSecs)⟩) := by
    simp only [Redis.expire, if_neg hpos.ne', Redis.pexpire, hopened, Redis.setEntry_setEntry,
      Redis.now_setEntry]
  have hlive : (r.setEntry key (some ⟨"1", some (r.now + 1000 * windowSecs)⟩)).live key =
      some ⟨"1", some (r.now + 1000 * windowSecs)⟩ := by
    rw [Redis.live_eq_some_iff]
    exact ⟨Redis.entries_setEntry_self, by simp [Redis.Entry.expired]⟩
  simp only [rateLimitScript, Redis.incr, h, if_true, hexpire, Redis.ttl, hlive, Redis.now_setEntry,
    Nat.add_sub_cancel_left]
  rfl

theorem rateLimitScript_live {n deadline : ℕ} (hpos : 1 ≤ n) (hlt : n < 2 ^ 63)
    (h : r.live key = some ⟨toString n, some deadline⟩) :
    rateLimitScript r key windowSecs =
      if n = 2 ^ 63 - 1 then (r, .error Redis.incrOverflow)
      else (r.setEntry key (some ⟨toString (n + 1), some deadline⟩),
        .ok (n + 1, ((deadline - r.now + 500) / 1000 : ℕ))) := by
  have hparse : Redis.parseInteger (toString n) = some (n : ℤ) := by
    rw [Redis.parseInteger_toString, if_pos hlt]
  have hunexpired := (Redis.live_eq_some_iff.mp h).2
  by_cases hmax : n = 2 ^ 63 - 1
  · have hmax' : (n : ℤ) = 2 ^ 63 - 1 := by omega
    simp only [rateLimitScript, Redis.incr, h, hparse, if_pos hmax, if_pos hmax']
  · have hmax' : ¬(n : ℤ) = 2 ^ 63 - 1 := by omega
    have hone : ¬(n : ℤ) + 1 = 1 := by omega
    have hstring : toString ((n : ℤ) + 1) = toString (n + 1) := rfl
    have hlive : (r.setEntry key (some ⟨toString (n + 1), some deadline⟩)).live key =
        some ⟨toString (n + 1), some deadline⟩ := by
      rw [Redis.live_eq_some_iff]
      exact ⟨Redis.entries_setEntry_self, hunexpired⟩
    simp only [rateLimitScript, Redis.incr, h, hparse, if_neg hmax, if_neg hmax', if_neg hone,
      hstring, Redis.ttl, hlive, Redis.now_setEntry]
    rfl

end Script

end Buzz.Pubsub.RateLimiter
