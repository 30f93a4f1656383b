import Buzz.Agent.History
import Buzz.Git.Publish
import Buzz.Lib.Runs

namespace Buzz.Agent

open Buzz.Lib Buzz.Git

inductive AgentError
  | invalidParams (s : String)
  | llm (s : String)
  | llmAuth (s : String)
  | llmModelNotFound (s : String)
  | mcp (s : String)
  | cancelled
deriving DecidableEq, Repr

def AgentError.display : AgentError → String
  | invalidParams s => "invalid params: " ++ s
  | llm s => "llm: " ++ s
  | llmAuth s => "llm auth: " ++ s
  | llmModelNotFound s => "llm model not found: " ++ s
  | mcp s => "mcp: " ++ s
  | cancelled => "cancelled"

inductive ProviderStop
  | endTurn
  | toolUse
  | maxTokens
  | refusal
  | other
deriving DecidableEq, Repr

inductive StopReason
  | endTurn
  | cancelled
  | maxTokens
  | maxTurnRequests
  | refusal
deriving DecidableEq, Repr

def mapStop : ProviderStop → StopReason
  | .endTurn | .toolUse | .other => .endTurn
  | .maxTokens => .maxTokens
  | .refusal => .refusal

structure LlmResponse where
  text : String
  toolCalls : List ToolCall
  stop : ProviderStop
  inputTokens : Option ℕ
  outputTokens : Option ℕ

inductive ContentBlock
  | text (text : String)
  | resourceLink (uri : String)
  | unsupported
deriving DecidableEq, Repr

def promptToText (prompt : List ContentBlock) : Except AgentError String := do
  let parts ← prompt.mapM fun
    | .text text => .ok text
    | .resourceLink uri => .ok ("[resource: " ++ uri ++ "]")
    | .unsupported => .error (.invalidParams
        "prompt: unsupported content block (only text and resource_link are advertised)")
  return "\n".intercalate parts

def MAX_PROMPT_BYTES : ℕ := 1024 * 1024

def MAX_TOOL_CALLS_PER_TURN : ℕ := 64

/-- The tools of `mcp` are given with the name that their server knows them by. -/
structure Config where
  maxRounds : ℕ
  stopMaxRejections : ℕ
  maxHandoffs : ℕ
  maxHistoryBytes : ℕ
  maxContextTokens : ℕ
  maxOutputTokens : ℕ
  toolTimeoutSecs : ℕ
  tools : List (String × String)

namespace Config

variable (cfg : Config)

def has (qname : String) : Bool := (cfg.tools.lookup qname).isSome

def isHook (qname : String) : Bool :=
  (cfg.tools.lookup qname).any fun bare ↦ bare.toList.head? = some '_'

def tokenThreshold : ℕ :=
  min (cfg.maxContextTokens / 10 * 9) (cfg.maxContextTokens - cfg.maxOutputTokens)

def byteFallbackThreshold : ℕ := min cfg.tokenThreshold (cfg.maxHistoryBytes / 10 * 9)

end Config

def saturatingAdd (a b : ℕ) : ℕ := min (a + b) (2 ^ 64 - 1)

def LOAD_SKILL_TOOL : String := "load_skill"

/-- How the task of a call ends: without calling, with what the call gave, or at its time limit. -/
inductive ToolEnd
  | uncalled
  | returned (result : Except AgentError (List ToolResultContent × Bool))
  | timedOut

inductive InvokeOutcome
  | done (result : ToolResult)
  | failed (msg : String)

def invokeToolInner (cfg : Config) (cancel : Bool) (call : ToolCall) : ToolEnd → InvokeOutcome
  | .uncalled => .failed "cancelled"
  | .returned (.ok (content, isError)) => .done ⟨call.providerId, content, isError⟩
  | .returned (.error .cancelled) => .failed "cancelled"
  | .returned (.error e) => .failed e.display
  | .timedOut =>
    if cancel then .failed "cancelled"
    else .failed ("tool: timeout after " ++ toString cfg.toolTimeoutSecs ++
      "s. The command took too long. Try a faster approach.")

def outcomeToResult (call : ToolCall) : InvokeOutcome → ToolResult
  | .done r => r
  | .failed m => syntheticToolResult call m

/-- Where the turn loop stands; `compacting` and `stopping` wait for hooks. -/
inductive Phase
  | idle
  | top
  | summarizing
  | compacting (summary : String) (currentPrompt : Option String)
  | requesting
  | stopping
  | preflight (calls : List ToolCall) (results : List (Option ToolResult)) (runnable : List ℕ)
      (idx : ℕ)
  | executing (calls : List ToolCall) (results : List (Option ToolResult)) (runnable : List ℕ)
      (running : List ℕ) (cancelled : Bool)

def Phase.isIdle : Phase → Bool
  | .idle => true
  | _ => false

def Phase.isTop : Phase → Bool
  | .top => true
  | _ => false

def Phase.isRequesting : Phase → Bool
  | .requesting => true
  | _ => false

inductive Event
  | request (history : List HistoryItem)
  | returned (history : List HistoryItem) (result : Except AgentError StopReason)

def Event.history : Event → List HistoryItem
  | request history => history
  | returned history _ => history

/-- A session of the agent. `nonce` counts the hook outputs of the process, and `log` has the
requests to the provider and the ends of turns, with the history each saw. -/
structure Session where
  history : List HistoryItem
  originalTask : Option String
  handoffCount : ℕ
  lastRequestInputTokens : Option ℕ
  lastRequestHistoryBytes : Option ℕ
  turnInputTokens : Option ℕ
  turnOutputTokens : Option ℕ
  cancel : Bool
  steers : List (List ContentBlock)
  round : ℕ
  stopRejections : ℕ
  phase : Phase
  nonce : UInt64
  log : List Event

def Session.new : Session where
  history := []
  originalTask := none
  handoffCount := 0
  lastRequestInputTokens := none
  lastRequestHistoryBytes := none
  turnInputTokens := none
  turnOutputTokens := none
  cancel := false
  steers := []
  round := 0
  stopRejections := 0
  phase := .idle
  nonce := 0
  log := []

inductive Action
  | prompt (blocks : List ContentBlock)
  | steer (blocks : List ContentBlock)
  | cancel
  | hookElsewhere
  | round
  | interrupt
  | summarized (result : Except AgentError String)
  | compacted (outputs : List (String × String))
  | responded (result : Except AgentError LlmResponse)
  | stopHooks (outputs : List (String × String))
  | preflight (skill : List ToolResultContent × Bool)
  | toolEnded (i : ℕ) (ending : ToolEnd)
  | toolPanicked (i : ℕ)
  | cancelSeen
  | joined
  | drainTimedOut

def hookOutputsText (outputs : List (String × String)) : String :=
  "\n\n".intercalate (outputs.map fun o ↦ "[" ++ o.1 ++ "]\n" ++ o.2)

def handoffText (summary : String) (postCompact : List (String × String)) : String :=
  "[Context Handoff]\n" ++ summary ++
    if postCompact.isEmpty then ""
    else "\n\n[Post-compact hook output — untrusted]\n" ++ hookOutputsText postCompact

def userText : HistoryItem → Option String
  | .user s => some s
  | _ => none

def steerTurn (blocks : List ContentBlock) : Option HistoryItem :=
  match promptToText blocks with
  | .ok text => if trim text = "" then none else some (.user text)
  | .error _ => none

def fillCancelled (calls : List ToolCall) (results : List (Option ToolResult)) (idxs : List ℕ) :
    List (Option ToolResult) :=
  idxs.foldl (fun results i ↦
    match results[i]?, calls[i]? with
    | some none, some call => results.set i (some (syntheticToolResult call "cancelled"))
    | _, _ => results) results

namespace Session

variable (s : Session)

def finish (result : Except AgentError StopReason) : Session :=
  { s with phase := .idle, steers := [], log := s.log ++ [.returned s.history result] }

def contextPressure : ℕ := (s.history.map HistoryItem.contextPressureBytes).sum

def shouldHandoff (cfg : Config) : Bool :=
  match s.lastRequestInputTokens with
  | some measured =>
    let grown := s.contextPressure - s.lastRequestHistoryBytes.getD 0
    decide (cfg.tokenThreshold ≤ saturatingAdd measured grown)
  | none => decide (cfg.byteFallbackThreshold < s.contextPressure)

def request : Session :=
  { s with round := min (s.round + 1) (2 ^ 32 - 1), phase := .requesting,
           log := s.log ++ [.request s.history] }

def handoffSkipped (cfg : Config) : Session :=
  { s with history := truncateHistory s.history cfg.maxHistoryBytes }.request

def handlePrompt (blocks : List ContentBlock) : Session :=
  let s := { s with cancel := false, steers := [] }
  match promptToText blocks with
  | .error e => s.finish (.error e)
  | .ok text =>
    if MAX_PROMPT_BYTES < text.utf8ByteSize then
      s.finish (.error (.invalidParams
        ("prompt: exceeds " ++ toString MAX_PROMPT_BYTES ++ " bytes")))
    else
      { s with
        originalTask := s.originalTask.or (some text)
        history := s.history ++ [.user text]
        turnInputTokens := none
        turnOutputTokens := none
        round := 0
        stopRejections := 0
        phase := .top }

def drainSteers : Session :=
  { s with history := s.history ++ s.steers.filterMap steerTurn, steers := [] }

def loopTop (cfg : Config) : Session :=
  if 0 < cfg.maxRounds ∧ cfg.maxRounds ≤ s.round then s.finish (.ok .maxTurnRequests)
  else if s.cancel then s.finish (.ok .cancelled)
  else
    let s := s.drainSteers
    if s.shouldHandoff cfg = true ∧ s.handoffCount < cfg.maxHandoffs then
      { s with phase := .summarizing, log := s.log ++ [.request s.history] }
    else s.handoffSkipped cfg

def handleSummary (cfg : Config) : Except AgentError String → Session
  | .ok summary =>
    if trim summary = "" then s.handoffSkipped cfg
    else
      { s with
        history := []
        phase := .compacting summary (s.history.reverse.findSome? userText) }
  | .error _ => s.handoffSkipped cfg

def handleCompacted (summary : String) (currentPrompt : Option String)
    (postCompact : List (String × String)) : Session :=
  { s with
    history := .user (handoffText summary postCompact) ::
      (currentPrompt.map HistoryItem.user).toList
    handoffCount := s.handoffCount + 1
    lastRequestInputTokens := none
    lastRequestHistoryBytes := none }.request

def recordUsage (response : LlmResponse) : Session :=
  let s := match response.inputTokens with
    | some tokens =>
      { s with
        lastRequestInputTokens := some tokens
        lastRequestHistoryBytes := some s.contextPressure
        turnInputTokens := some (saturatingAdd (s.turnInputTokens.getD 0) tokens) }
    | none => s
  match response.outputTokens with
  | some out =>
    { s with turnOutputTokens := some (saturatingAdd (s.turnOutputTokens.getD 0) out) }
  | none => s

def handleResponse (cfg : Config) (response : LlmResponse) : Session :=
  let s := s.recordUsage response
  if response.toolCalls.isEmpty then
    if response.stop = .toolUse then
      s.finish (.error (.llm "provider: stop=tool_use but zero tool_calls"))
    else
      let s := { s with history := s.history ++ [HistoryItem.assistant response.text []] }
      let stop := mapStop response.stop
      if stop = .endTurn ∧ s.stopRejections < cfg.stopMaxRejections then
        { s with phase := .stopping }
      else s.finish (.ok stop)
  else
    let calls := response.toolCalls.take MAX_TOOL_CALLS_PER_TURN
    { s with
      history := s.history ++ [HistoryItem.assistant response.text calls]
      phase := .preflight calls (List.replicate calls.length none) [] 0 }

def handleObjections (objections : List (String × String)) : Session :=
  if objections.isEmpty then s.finish (.ok .endTurn)
  else
    let (history, nonce) := pushHookOutputsAsToolResults s.history "_Stop" objections s.nonce
    { s with
      history := history
      nonce := nonce
      stopRejections := min (s.stopRejections + 1) (2 ^ 32 - 1)
      phase := .top }

/-- The end of `execute_calls`. -/
def settle (calls : List ToolCall) (results : List (Option ToolResult)) : Session :=
  let s := { s with history := appendResults s.history calls results }
  if s.cancel then s.finish (.ok .cancelled) else { s with phase := .top }

def preflightStep (cfg : Config) (skill : List ToolResultContent × Bool) (calls : List ToolCall)
    (results : List (Option ToolResult)) (runnable : List ℕ) (idx : ℕ) : Session :=
  match calls[idx]? with
  | none => { s with phase := .executing calls results runnable runnable s.cancel }
  | some call =>
    if s.cancel then s.settle calls (fillCancelled calls results (List.range calls.length))
    else if call.name = LOAD_SKILL_TOOL then
      let results := results.set idx (some ⟨call.providerId, skill.1, skill.2⟩)
      { s with phase := .preflight calls results runnable (idx + 1) }
    else if !cfg.has call.name || cfg.isHook call.name then
      let unknown := syntheticToolResult call ("unknown tool: " ++ call.name)
      let results := results.set idx (some unknown)
      { s with phase := .preflight calls results runnable (idx + 1) }
    else { s with phase := .preflight calls results (runnable ++ [idx]) (idx + 1) }

end Session

def joinResult (calls : List ToolCall) (results : List (Option ToolResult)) (cancelled : Bool)
    (i : ℕ) (outcome : ToolCall → InvokeOutcome) : List (Option ToolResult) :=
  match calls[i]? with
  | some call =>
    if cancelled && (results[i]?.join).isSome then results
    else results.set i (some (outcomeToResult call (outcome call)))
  | none => results

def step (cfg : Config) (s : Session) (a : Action) : Option Session :=
  match s.phase, a with
  | .idle, .prompt blocks => some (s.handlePrompt blocks)
  | .idle, .steer _ => none
  | _, .steer blocks => some { s with steers := s.steers ++ [blocks] }
  | _, .cancel => some { s with cancel := true }
  | _, .hookElsewhere => some { s with nonce := s.nonce + 1 }
  | .top, .round => some (s.loopTop cfg)
  | .summarizing, .summarized result => some (s.handleSummary cfg result)
  | .summarizing, .interrupt => if s.cancel then some (s.finish (.ok .cancelled)) else none
  | .compacting summary currentPrompt, .compacted outputs =>
    some (s.handleCompacted summary currentPrompt outputs)
  | .requesting, .responded (.ok response) => some (s.handleResponse cfg response)
  | .requesting, .responded (.error e) => some (s.finish (.error e))
  | .requesting, .interrupt => if s.cancel then some (s.finish (.ok .cancelled)) else none
  | .stopping, .stopHooks outputs => some (s.handleObjections outputs)
  | .preflight calls results runnable idx, .preflight skill =>
    some (s.preflightStep cfg skill calls results runnable idx)
  | .executing calls results runnable running cancelled, .toolEnded i ending =>
    if i ∈ running then
      let results := joinResult calls results cancelled i fun call ↦
        invokeToolInner cfg s.cancel call ending
      some { s with phase := .executing calls results runnable (running.erase i) cancelled }
    else none
  | .executing calls results runnable running cancelled, .toolPanicked i =>
    if i ∈ running then
      some { s with phase := .executing calls results runnable (running.erase i) cancelled }
    else none
  | .executing calls results runnable running false, .cancelSeen =>
    if s.cancel then some { s with phase := .executing calls results runnable running true }
    else none
  | .executing calls results runnable [] _, .joined =>
    some (s.settle calls (fillCancelled calls results runnable))
  | .executing calls results runnable _ true, .drainTimedOut =>
    some (s.settle calls (fillCancelled calls results runnable))
  | _, _ => none

def run (cfg : Config) (s : Session) (actions : List Action) : Option Session :=
  actions.foldlM (step cfg) s

end Buzz.Agent
