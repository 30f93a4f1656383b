import Buzz.Agent.Turn
import Mathlib.Algebra.Order.BigOperators.Group.List

namespace Buzz.Agent

open Buzz.Lib HistoryItem

/-- What the provider counts: at most a token for a byte of text, and at most the equivalent for an
image. The system prompt and the tool definitions go with every request. -/
structure Provider where
  text : String → ℕ
  image : String → String → ℕ
  systemPrompt : String
  toolDefinitions : String
  text_le : ∀ s, text s ≤ s.utf8ByteSize
  image_le : ∀ data mimeType, image data mimeType ≤ IMAGE_CONTEXT_TOKEN_EQUIV

namespace Provider

variable (P : Provider)

def contentTokens : ToolResultContent → ℕ
  | .text s => P.text s
  | .image data mimeType => P.image data mimeType

def itemTokens : HistoryItem → ℕ
  | .user s => P.text s
  | .assistant s toolCalls => P.text s + (toolCalls.map fun c ↦
      P.text c.providerId + P.text c.name + P.text (String.ofList c.arguments.render)).sum
  | .toolResult r => P.text r.providerId + (r.content.map P.contentTokens).sum

def historyTokens (history : List HistoryItem) : ℕ := (history.map P.itemTokens).sum

def inputTokens (history : List HistoryItem) : ℕ :=
  P.text P.systemPrompt + P.text P.toolDefinitions + P.historyTokens history

def fixedBytes : ℕ := P.systemPrompt.utf8ByteSize + P.toolDefinitions.utf8ByteSize

theorem itemTokens_le (item : HistoryItem) : P.itemTokens item ≤ item.contextPressureBytes := by
  rw [contextPressureBytes]
  cases item with
  | user s => exact P.text_le s
  | assistant s toolCalls =>
    apply Nat.add_le_add (P.text_le s)
    apply List.sum_le_sum
    intro c _
    have hid := P.text_le c.providerId
    have hname := P.text_le c.name
    have hargs := P.text_le (String.ofList c.arguments.render)
    omega
  | toolResult r =>
    apply Nat.add_le_add (P.text_le r.providerId)
    apply List.sum_le_sum
    intro content _
    cases content with
    | text s => exact P.text_le s
    | image data mimeType => exact (P.image_le data mimeType).trans (Nat.le_add_right _ _)

end Provider

def pressure (history : List HistoryItem) : ℕ := (history.map contextPressureBytes).sum

@[simp] theorem pressure_append (history history' : List HistoryItem) :
    pressure (history ++ history') = pressure history + pressure history' := by
  rw [pressure, List.map_append, List.sum_append, pressure, pressure]

namespace Provider

variable (P : Provider)

@[simp] theorem historyTokens_append (history history' : List HistoryItem) :
    P.historyTokens (history ++ history') = P.historyTokens history + P.historyTokens history' := by
  rw [historyTokens, List.map_append, List.sum_append, historyTokens, historyTokens]

theorem historyTokens_le (history : List HistoryItem) :
    P.historyTokens history ≤ pressure history :=
  List.sum_le_sum fun item _ ↦ P.itemTokens_le item

theorem inputTokens_append_le (history new : List HistoryItem) :
    P.inputTokens (history ++ new) ≤ P.inputTokens history + pressure new := by
  have hnew := P.historyTokens_le new
  rw [inputTokens, inputTokens, historyTokens_append]
  omega

theorem inputTokens_le (history : List HistoryItem) :
    P.inputTokens history ≤ P.fixedBytes + pressure history := by
  have hsystem := P.text_le P.systemPrompt
  have htools := P.text_le P.toolDefinitions
  have hhistory := P.historyTokens_le history
  rw [inputTokens, fixedBytes]
  omega

theorem inputTokens_suffix_le {history history' : List HistoryItem} (h : history' <:+ history) :
    P.inputTokens history' ≤ P.inputTokens history := by
  obtain ⟨front, rfl⟩ := h
  rw [inputTokens, inputTokens, historyTokens_append]
  omega

end Provider

theorem truncateLoop_suffix (maxBytes total : ℕ) (history : List HistoryItem) :
    truncateLoop maxBytes total history <:+ history := by
  fun_induction truncateLoop maxBytes total history with
  | case1 => exact List.suffix_refl _
  | case2 => exact List.suffix_refl _
  | case3 => exact List.suffix_refl _
  | case4 total item rest hlarge turn next more hrest ih =>
    refine ih.trans ?_
    rw [← hrest]
    exact (List.dropWhile_suffix _).trans (List.suffix_cons item rest)

theorem truncateHistory_suffix (history : List HistoryItem) (maxBytes : ℕ) :
    truncateHistory history maxBytes <:+ history := by
  rw [truncateHistory]
  split_ifs
  · exact List.suffix_refl _
  · exact truncateLoop_suffix _ _ _

def appendedItems (s s' : Session) : Action → List HistoryItem
  | .round => if s'.phase.isIdle then [] else s.steers.filterMap steerTurn
  | .summarized _ | .compacted _ => []
  | _ => s'.history.drop s.history.length

def measures : Action → Bool
  | .responded (.ok response) => response.inputTokens.isSome
  | _ => false

/-- A session with the items appended since the last request of known usage. -/
def gateStep (cfg : Config) (t : Session × List HistoryItem) (a : Action) :
    Option (Session × List HistoryItem) :=
  (step cfg t.1 a).map fun s' ↦
    (s', (if measures a then [] else t.2) ++ appendedItems t.1 s' a)

def gateRun (cfg : Config) (actions : List Action) : Option (Session × List HistoryItem) :=
  actions.foldlM (gateStep cfg) (.new, [])

def ExactUsage (P : Provider) (s : Session) (a : Action) : Prop :=
  ∀ response tokens, a = .responded (.ok response) → response.inputTokens = some tokens →
    tokens = P.inputTokens s.history

/-- The next request, when the gate lets it pass, is below the threshold and leaves room for the
answer. -/
def GateSound (cfg : Config) (P : Provider) (s : Session) (a : Action) : Prop :=
  s.phase = .top → a = .round → s.drainSteers.shouldHandoff cfg = false →
    ∀ s', step cfg s a = some s' → s'.phase = .requesting →
      P.inputTokens s'.history < cfg.tokenThreshold ∧
      P.inputTokens s'.history + cfg.maxOutputTokens ≤ cfg.maxContextTokens

/-- What makes the gate's estimate a bound at a round: with no usage known, that the history alone
is over the fallback threshold, or fits together with the fixed parts of the request; else that no
truncation has dropped anything the usage was measured with, or that all that was appended since
fits on top of it. -/
def EstimateBounds (cfg : Config) (P : Provider) (t : Session × List HistoryItem) (a : Action) :
    Prop :=
  t.1.phase = .top → a = .round →
    match t.1.lastRequestInputTokens with
    | none => cfg.byteFallbackThreshold < t.1.drainSteers.contextPressure ∨
        P.fixedBytes + pressure (truncateHistory t.1.drainSteers.history cfg.maxHistoryBytes) <
          cfg.tokenThreshold
    | some measured =>
      pressure t.1.history = t.1.lastRequestHistoryBytes.getD 0 + pressure t.2 ∨
        measured + pressure (t.2 ++ t.1.steers.filterMap steerTurn) < cfg.tokenThreshold

/-- The next request costs at most what was measured and what was appended since. -/
def Counted (P : Provider) (t : Session × List HistoryItem) : Prop :=
  ∀ measured, t.1.lastRequestInputTokens = some measured →
    P.inputTokens t.1.history ≤ measured + pressure t.2

/-- A step that leaves the usage alone adds items at the end of the history. -/
def Appends (s s' : Session) : Prop :=
  s'.lastRequestInputTokens = s.lastRequestInputTokens ∧ ∃ new, s'.history = s.history ++ new

theorem appends_of_eq {s s' : Session} (hlast : s'.lastRequestInputTokens = s.lastRequestInputTokens)
    (hhistory : s'.history = s.history) : Appends s s' :=
  ⟨hlast, [], by rw [hhistory, List.append_nil]⟩

theorem settle_appends (s : Session) (calls : List ToolCall) (results : List (Option ToolResult)) :
    Appends s (s.settle calls results) := by
  rw [Session.settle]
  dsimp only
  split_ifs
  · exact ⟨rfl, _, rfl⟩
  · exact ⟨rfl, _, rfl⟩

theorem pushHookOutputs_appends (history : List HistoryItem) (hook : String)
    (outputs : List (String × String)) (nonce : UInt64) :
    ∃ new, (pushHookOutputsAsToolResults history hook outputs nonce).1 = history ++ new := by
  induction outputs generalizing history nonce with
  | nil => exact ⟨[], (List.append_nil history).symm⟩
  | cons output outputs ih =>
    obtain ⟨new, hnew⟩ := ih (history ++ hookPair hook output.1 output.2 nonce) (nonce + 1)
    exact ⟨hookPair hook output.1 output.2 nonce ++ new, hnew.trans (List.append_assoc _ _ _)⟩

theorem handlePrompt_appends (s : Session) (blocks : List ContentBlock) :
    Appends s (s.handlePrompt blocks) := by
  rw [Session.handlePrompt]
  dsimp only
  cases promptToText blocks with
  | error e => exact appends_of_eq rfl rfl
  | ok text =>
    dsimp only
    split_ifs
    · exact appends_of_eq rfl rfl
    · exact ⟨rfl, _, rfl⟩

theorem handleObjections_appends (s : Session) (outputs : List (String × String)) :
    Appends s (s.handleObjections outputs) := by
  rw [Session.handleObjections]
  split_ifs
  · exact appends_of_eq rfl rfl
  · obtain ⟨new, hnew⟩ := pushHookOutputs_appends s.history "_Stop" outputs s.nonce
    exact ⟨rfl, new, hnew⟩

theorem preflightStep_appends (cfg : Config) (s : Session) (skill : List ToolResultContent × Bool)
    (calls : List ToolCall) (results : List (Option ToolResult)) (runnable : List ℕ) (idx : ℕ) :
    Appends s (s.preflightStep cfg skill calls results runnable idx) := by
  rw [Session.preflightStep]
  split
  · exact appends_of_eq rfl rfl
  · dsimp only
    split_ifs
    · exact settle_appends s calls _
    · exact appends_of_eq rfl rfl
    · exact appends_of_eq rfl rfl
    · exact appends_of_eq rfl rfl

theorem handleResponse_appends (cfg : Config) (s : Session) (response : LlmResponse) :
    (s.handleResponse cfg response).lastRequestInputTokens =
        response.inputTokens.or s.lastRequestInputTokens ∧
      ∃ new, (s.handleResponse cfg response).history = s.history ++ new := by
  have husage : (s.recordUsage response).lastRequestInputTokens =
        response.inputTokens.or s.lastRequestInputTokens ∧
      (s.recordUsage response).history = s.history := by
    rw [Session.recordUsage]
    cases response.inputTokens with
    | none => cases response.outputTokens <;> exact ⟨rfl, rfl⟩
    | some tokens => cases response.outputTokens <;> exact ⟨rfl, rfl⟩
  rw [Session.handleResponse]
  dsimp only
  split_ifs
  · exact ⟨husage.1, [], by rw [Session.finish, List.append_nil]; exact husage.2⟩
  · exact ⟨husage.1, _, by rw [husage.2]⟩
  · exact ⟨husage.1, _, by rw [Session.finish, husage.2]⟩
  · exact ⟨husage.1, _, by rw [husage.2]⟩

theorem Appends.counted {P : Provider} {s s' : Session} {appended : List HistoryItem}
    (happends : Appends s s') (h : Counted P (s, appended)) :
    Counted P (s', appended ++ s'.history.drop s.history.length) := by
  obtain ⟨hlast, new, hnew⟩ := happends
  intro measured hmeasured
  have hbefore := h measured (hlast.symm.trans hmeasured)
  have hafter := P.inputTokens_append_le s.history new
  rw [hnew, List.drop_left, pressure_append]
  dsimp only at hbefore
  omega

/-- Cutting the history leaves the bound. -/
theorem Counted.cut {P : Provider} {s s' : Session} {appended new : List HistoryItem}
    (h : Counted P (s, appended)) (hlast : s'.lastRequestInputTokens = s.lastRequestInputTokens)
    (hcut : s'.history <:+ s.history ++ new) : Counted P (s', appended ++ new) := by
  intro measured hmeasured
  have hbefore := h measured (hlast.symm.trans hmeasured)
  have hafter := (P.inputTokens_suffix_le hcut).trans (P.inputTokens_append_le s.history new)
  rw [pressure_append]
  dsimp only at hbefore ⊢
  omega

theorem loopTop_counted {cfg : Config} {P : Provider} {s : Session} {appended : List HistoryItem}
    (h : Counted P (s, appended)) :
    Counted P (s.loopTop cfg, appended ++ appendedItems s (s.loopTop cfg) .round) := by
  have hended (result : Except AgentError StopReason) :
      Counted P (s.finish result, appended ++ appendedItems s (s.finish result) .round) :=
    h.cut rfl (by
      rw [show appendedItems s (s.finish result) .round = [] from rfl, List.append_nil]
      exact List.suffix_refl _)
  rw [Session.loopTop]
  split_ifs
  · exact hended _
  · exact hended _
  · dsimp only
    split_ifs
    · exact h.cut rfl (List.suffix_refl _)
    · exact h.cut rfl (truncateHistory_suffix _ _)

theorem handleSummary_counted {cfg : Config} {P : Provider} {s : Session}
    {appended : List HistoryItem} (h : Counted P (s, appended))
    (result : Except AgentError String) :
    Counted P (s.handleSummary cfg result, appended ++ []) := by
  have hskipped : Counted P (s.handoffSkipped cfg, appended ++ []) :=
    h.cut rfl (by rw [List.append_nil]; exact truncateHistory_suffix _ _)
  cases result with
  | error e => exact hskipped
  | ok summary =>
    rw [Session.handleSummary]
    split_ifs
    · exact hskipped
    · exact h.cut rfl (List.nil_suffix)

theorem handleResponse_counted {cfg : Config} {P : Provider} {s : Session}
    {appended : List HistoryItem} {response : LlmResponse} (h : Counted P (s, appended))
    (hexact : ExactUsage P s (.responded (.ok response))) :
    Counted P (s.handleResponse cfg response,
      (if measures (.responded (.ok response)) then [] else appended) ++
        (s.handleResponse cfg response).history.drop s.history.length) := by
  obtain ⟨hlast, hnew⟩ := handleResponse_appends cfg s response
  rw [measures]
  cases htokens : response.inputTokens with
  | none =>
    rw [htokens, Option.none_or] at hlast
    exact Appends.counted ⟨hlast, hnew⟩ h
  | some tokens =>
    rw [htokens, Option.some_or] at hlast
    obtain ⟨new, hnew⟩ := hnew
    intro measured hmeasured
    rw [hlast] at hmeasured
    cases hmeasured
    rw [hexact response tokens rfl htokens, hnew, List.drop_left]
    exact P.inputTokens_append_le s.history new

theorem counted_step {cfg : Config} {P : Provider} {s s' : Session} {appended : List HistoryItem}
    {a : Action} (h : Counted P (s, appended)) (hexact : ExactUsage P s a)
    (hstep : step cfg s a = some s') :
    Counted P (s', (if measures a then [] else appended) ++ appendedItems s s' a) := by
  unfold step at hstep
  split at hstep
  case h_1 blocks hphase =>
    cases hstep
    exact (handlePrompt_appends s blocks).counted h
  case h_2 => cases hstep
  case h_3 | h_4 | h_5 =>
    cases hstep
    exact (appends_of_eq rfl rfl).counted h
  case h_6 hphase =>
    cases hstep
    exact loopTop_counted h
  case h_7 result hphase =>
    cases hstep
    exact handleSummary_counted h result
  case h_8 hphase | h_12 hphase =>
    split_ifs at hstep
    cases hstep
    exact (appends_of_eq rfl rfl).counted h
  case h_9 summary currentPrompt outputs hphase =>
    cases hstep
    intro measured hmeasured
    cases hmeasured
  case h_10 response hphase =>
    cases hstep
    exact handleResponse_counted h hexact
  case h_11 e hphase =>
    cases hstep
    exact (appends_of_eq rfl rfl).counted h
  case h_13 outputs hphase =>
    cases hstep
    exact (handleObjections_appends s outputs).counted h
  case h_14 calls results runnable idx skill hphase =>
    cases hstep
    exact (preflightStep_appends cfg s skill calls results runnable idx).counted h
  case h_15 hphase | h_16 hphase | h_17 hphase =>
    split_ifs at hstep
    cases hstep
    exact (appends_of_eq rfl rfl).counted h
  case h_18 calls results runnable cancelled hphase | h_19 calls results runnable _ hphase =>
    cases hstep
    exact (settle_appends s calls _).counted h
  case h_20 => cases hstep

theorem counted_gateStep {cfg : Config} {P : Provider} (t : Session × List HistoryItem) (a : Action)
    (t' : Session × List HistoryItem) (h : Counted P t) (hexact : ExactUsage P t.1 a)
    (hstep : gateStep cfg t a = some t') : Counted P t' := by
  obtain ⟨s', hs', rfl⟩ := Option.map_eq_some_iff.mp hstep
  exact counted_step h hexact hs'

theorem contextPressure_drainSteers (s : Session) : s.drainSteers.contextPressure =
    pressure s.history + pressure (s.steers.filterMap steerTurn) := pressure_append _ _

/-- A gate that is passed with no usage known bounds the history. -/
theorem le_of_not_overFallback {cfg : Config} {s : Session}
    (hlast : s.lastRequestInputTokens = none) (hgate : s.drainSteers.shouldHandoff cfg = false) :
    s.drainSteers.contextPressure ≤ cfg.byteFallbackThreshold := by
  have hdrained : s.drainSteers.lastRequestInputTokens = none := hlast
  rw [Session.shouldHandoff, hdrained] at hgate
  exact not_lt.mp (of_decide_eq_false hgate)

/-- A gate that is passed bounds the measured tokens with all that was appended since. -/
theorem grown_lt {cfg : Config} (hwindow : cfg.maxContextTokens < 2 ^ 64) {s : Session}
    {measured : ℕ} (hmeasured : s.lastRequestInputTokens = some measured)
    (hgate : s.drainSteers.shouldHandoff cfg = false) :
    measured + (pressure s.history + pressure (s.steers.filterMap steerTurn) -
      s.lastRequestHistoryBytes.getD 0) < cfg.tokenThreshold := by
  have hlast : s.drainSteers.lastRequestInputTokens = some measured := hmeasured
  rw [Session.shouldHandoff, hlast, contextPressure_drainSteers] at hgate
  have hlt := Nat.not_le.mp (of_decide_eq_false hgate)
  have hbytes : s.drainSteers.lastRequestHistoryBytes = s.lastRequestHistoryBytes := rfl
  have hthreshold : cfg.tokenThreshold ≤ cfg.maxContextTokens :=
    (Nat.min_le_right _ _).trans (Nat.sub_le _ _)
  rw [hbytes, saturatingAdd] at hlt
  omega

theorem lt_tokenThreshold {cfg : Config} {n : ℕ} (h : n < cfg.tokenThreshold) :
    n < cfg.tokenThreshold ∧ n + cfg.maxOutputTokens ≤ cfg.maxContextTokens := by
  have hroom : cfg.tokenThreshold ≤ cfg.maxContextTokens - cfg.maxOutputTokens :=
    Nat.min_le_right _ _
  omega

/-- What the round builds when the gate lets it pass. -/
theorem history_of_passed {cfg : Config} {s s' : Session} (hphase : s.phase = .top)
    (hgate : s.drainSteers.shouldHandoff cfg = false) (hstep : step cfg s .round = some s')
    (hrequest : s'.phase = .requesting) :
    s'.history = truncateHistory s.drainSteers.history cfg.maxHistoryBytes := by
  unfold step at hstep
  rw [hphase] at hstep
  cases hstep
  rw [Session.loopTop] at hrequest ⊢
  split_ifs at hrequest ⊢ with hlimit hcancel
  · cases hrequest
  · cases hrequest
  · dsimp only
    rw [if_neg fun hhandoff ↦ Bool.false_ne_true (hgate.symm.trans hhandoff.1)]
    rfl

theorem gateSound_of_counted {cfg : Config} {P : Provider} (hwindow : cfg.maxContextTokens < 2 ^ 64)
    {t : Session × List HistoryItem} {a : Action} (h : Counted P t)
    (hbounds : EstimateBounds cfg P t a) : GateSound cfg P t.1 a := by
  intro hphase ha hgate s' hstep hrequest
  have hnext := hbounds hphase ha
  subst ha
  apply lt_tokenThreshold
  rw [history_of_passed hphase hgate hstep hrequest]
  cases hlast : t.1.lastRequestInputTokens with
  | none =>
    rw [hlast] at hnext
    rcases hnext with hover | hfits
    · exact absurd (le_of_not_overFallback hlast hgate) (not_le.mpr hover)
    · exact (P.inputTokens_le _).trans_lt hfits
  | some measured =>
    rw [hlast] at hnext
    have hcounted := h measured hlast
    have hnew := P.inputTokens_append_le t.1.history (t.1.steers.filterMap steerTurn)
    refine (P.inputTokens_suffix_le (truncateHistory_suffix _ _)).trans_lt (hnew.trans_lt ?_)
    rcases hnext with hexact | hfits
    · have hgrown := grown_lt hwindow hlast hgate
      omega
    · rw [pressure_append] at hfits
      omega

/-- In a run with exact usage, a round whose estimate is a bound has a sound gate. -/
theorem gate_sound (cfg : Config) (P : Provider) (hwindow : cfg.maxContextTokens < 2 ^ 64)
    (actions : List Action)
    (hexact : ∀ pre a, pre ++ [a] <+: actions → ∀ t, gateRun cfg pre = some t → ExactUsage P t.1 a)
    (hbounds : ∀ pre a, pre ++ [a] <+: actions → ∀ t, gateRun cfg pre = some t →
      EstimateBounds cfg P t a) :
    ∀ pre a, pre ++ [a] <+: actions → ∀ t, gateRun cfg pre = some t → GateSound cfg P t.1 a := by
  intro pre a hpre t ht
  have hbefore : pre <+: actions := (List.prefix_append pre [a]).trans hpre
  have hinit : Counted P (.new, []) := by
    intro measured hmeasured
    cases hmeasured
  have hcounted : Counted P t := foldlM_invariant_of_allowed hinit counted_gateStep
    (fun pre' a' hpre' ↦ hexact pre' a' (hpre'.trans hbefore)) ht
  exact gateSound_of_counted hwindow hcounted (hbounds pre a hpre t ht)

def bytewise (systemPrompt : String) : Provider where
  text := String.utf8ByteSize
  image _ _ := 0
  systemPrompt := systemPrompt
  toolDefinitions := "[]"
  text_le _ := le_rfl
  image_le _ _ := Nat.zero_le _

def smallConfig : Config where
  maxRounds := 0
  stopMaxRejections := 0
  maxHandoffs := 10
  maxHistoryBytes := 16 * 1024 * 1024
  maxContextTokens := 100
  maxOutputTokens := 10
  toolTimeoutSecs := 60
  tools := []

def measuredTurns (tokens : ℕ) : List Action :=
  [.prompt [.text "hi"], .round, .responded (.ok ⟨"hello", [], .endTurn, some tokens, none⟩),
    .prompt [.text "go on"], .round]

theorem measuredTurns_sound :
    ∃ t, gateRun smallConfig ((measuredTurns 8).take 4) = some t ∧
      GateSound smallConfig (bytewise "act!") t.1 .round := by
  refine ⟨_, rfl, gate_sound smallConfig (bytewise "act!") (by decide) (measuredTurns 8) ?_ ?_
    ((measuredTurns 8).take 4) .round (List.prefix_refl _) _ rfl⟩
  · apply forall_step_of_lt
    intro n hn t ht
    have hn' : n < 5 := hn
    interval_cases n
    · cases ht
      intro response tokens ha
      cases ha
    · cases ht
      intro response tokens ha
      cases ha
    · cases ht
      intro response tokens ha htokens
      cases ha
      cases htokens
      decide
    · cases ht
      intro response tokens ha
      cases ha
    · cases ht
      intro response tokens ha
      cases ha
  · apply forall_step_of_lt
    intro n hn t ht
    have hn' : n < 5 := hn
    interval_cases n
    · cases ht
      intro hphase
      cases hphase
    · cases ht
      intro _ _
      right
      show (bytewise "act!").fixedBytes + pressure [.user "hi"] < smallConfig.tokenThreshold
      decide
    · cases ht
      intro hphase
      cases hphase
    · cases ht
      intro hphase
      cases hphase
    · cases ht
      intro _ _
      left
      decide

/-- Before any usage is known the gate leaves out the system prompt. -/
theorem gate_misses_systemPrompt :
    ¬∀ actions : List Action, ∀ pre a, pre ++ [a] <+: actions → ∀ t,
      gateRun smallConfig pre = some t →
        GateSound smallConfig (bytewise
          "You are buzz-agent. Use the provided tools to act. Tool calls are your only output.")
          t.1 a := by
  intro hsound
  obtain ⟨hlt, -⟩ := hsound [.prompt [.text "continue"], .round] [.prompt [.text "continue"]]
    .round (List.prefix_refl _) _ rfl rfl rfl rfl _ rfl rfl
  exact absurd hlt (by decide)

end Buzz.Agent
