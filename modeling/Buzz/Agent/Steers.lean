import Buzz.Agent.Turn
import Mathlib.Algebra.Order.BigOperators.Group.List

namespace Buzz.Agent

open Buzz.Lib Buzz.Git HistoryItem

section Truncation

variable {maxBytes total : ℕ} {history old : List HistoryItem} {messages : List String}

def users (messages : List String) : List HistoryItem := messages.map .user

theorem mem_users {m : String} : HistoryItem.user m ∈ users messages ↔ m ∈ messages := by
  simp [users]

theorem dropWhile_users (messages : List String) :
    (users messages).dropWhile (fun i ↦ !i.isUser) = users messages := by
  cases messages with
  | nil => rfl
  | cons m messages => rfl

theorem dropWhile_append_users (old : List HistoryItem) (messages : List String) :
    ∃ old', (old ++ users messages).dropWhile (fun i ↦ !i.isUser) = old' ++ users messages := by
  rw [List.dropWhile_append]
  split
  · exact ⟨[], dropWhile_users messages⟩
  · exact ⟨_, rfl⟩

/-- Messages at the end that fit the limit are not dropped. -/
theorem truncateLoop_keeps (hfits : ((users messages).map estimatedBytes).sum ≤ maxBytes)
    (hhistory : history = old ++ users messages)
    (htotal : total = (history.map estimatedBytes).sum) :
    ∃ old', truncateLoop maxBytes total history = old' ++ users messages := by
  fun_induction truncateLoop maxBytes total history generalizing old with
  | case1 => exact ⟨old, hhistory⟩
  | case2 => exact ⟨old, hhistory⟩
  | case3 => exact ⟨old, hhistory⟩
  | case4 total item rest hlarge turn next more hrest =>
    rename_i ih
    cases old with
    | nil =>
      rw [List.nil_append] at hhistory
      rw [htotal, hhistory] at hlarge
      exact absurd hfits hlarge
    | cons first old =>
      obtain ⟨-, hold⟩ := List.cons.inj hhistory
      obtain ⟨old', hold'⟩ := dropWhile_append_users old messages
      rw [hold] at hrest
      refine ih (hrest.symm.trans hold') ?_
      have hsplit : item :: rest = turn ++ next :: more := by
        rw [← hrest, ← hold, List.cons_append, List.takeWhile_append_dropWhile]
      rw [htotal, hsplit, List.map_append, List.sum_append, Nat.add_sub_cancel_left]

theorem truncateLoop_getLast? (maxBytes total : ℕ) (history : List HistoryItem) :
    (truncateLoop maxBytes total history).getLast? = history.getLast? := by
  fun_induction truncateLoop maxBytes total history with
  | case1 => rfl
  | case2 => rfl
  | case3 => rfl
  | case4 total item rest hlarge turn next more hrest ih =>
    rw [ih]
    obtain ⟨front, hfront⟩ := List.dropWhile_suffix (l := rest) fun i ↦ !i.isUser
    rw [hrest] at hfront
    rw [← hfront, ← List.cons_append, List.getLast?_append_of_ne_nil _ (List.cons_ne_nil _ _)]

def AllSame (messages : List String) : Prop := ∀ m ∈ messages, ∀ m' ∈ messages, m = m'

def MessagesFit (maxBytes : ℕ) (messages : List String) : Prop :=
  AllSame messages ∨
    (messages.map String.utf8ByteSize).sum ≤ maxBytes

theorem sum_estimatedBytes_users (messages : List String) :
    ((users messages).map estimatedBytes).sum = (messages.map String.utf8ByteSize).sum := by
  rw [users, List.map_map]
  rfl

theorem mem_truncateHistory (hfits : MessagesFit maxBytes messages) {m : String}
    (hm : m ∈ messages) :
    HistoryItem.user m ∈ truncateHistory (old ++ users messages) maxBytes := by
  rw [truncateHistory]
  split_ifs
  · exact List.mem_append_right _ (mem_users.mpr hm)
  · rcases hfits with hsame | hle
    · have hne : messages ≠ [] := List.ne_nil_of_mem hm
      have hlast : (truncateLoop maxBytes (((old ++ users messages).map estimatedBytes).sum)
          (old ++ users messages)).getLast? = some (.user (messages.getLast hne)) := by
        rw [truncateLoop_getLast?, List.getLast?_append_of_ne_nil _ (by simpa [users] using hne),
          users, List.getLast?_map, List.getLast?_eq_some_getLast hne]
        rfl
      rw [hsame m hm _ (List.getLast_mem hne)]
      exact List.mem_of_getLast? hlast
    · rw [← sum_estimatedBytes_users] at hle
      obtain ⟨old', hkept⟩ := truncateLoop_keeps hle rfl rfl
      rw [hkept]
      exact List.mem_append_right _ (mem_users.mpr hm)

end Truncation

def steerMessage (blocks : List ContentBlock) : Option String := (steerTurn blocks).bind userText

/-- What became of the messages of a turn: those accepted, those of them still in the queue, those
folded into the history since the last completion request, and the histories of the requests. -/
structure TurnLedger where
  accepted : List String := []
  queued : List String := []
  folded : List String := []
  requests : List (List HistoryItem) := []
  ended : Option (Except AgentError StopReason) := none

def endResult (s : Session) : Option (Except AgentError StopReason) :=
  match s.log.getLast? with
  | some (.returned _ result) => some result
  | _ => none

namespace TurnLedger

variable (l : TurnLedger) (s s' : Session)

def start (blocks : List ContentBlock) : TurnLedger :=
  if s'.phase.isIdle then { ended := endResult s' }
  else
    let messages := (promptToText blocks).toOption.toList
    { accepted := messages, folded := messages }

def accept (message : Option String) : TurnLedger :=
  { l with accepted := l.accepted ++ message.toList, queued := l.queued ++ message.toList }

def drain : TurnLedger :=
  if s.phase.isTop && !s'.phase.isTop && !s'.phase.isIdle then
    { l with folded := l.folded ++ l.queued, queued := [] }
  else l

def send : TurnLedger :=
  if !s.phase.isRequesting && s'.phase.isRequesting then
    { l with requests := l.requests ++ [s'.history], folded := [] }
  else l

def close : TurnLedger := if s'.phase.isIdle then { l with ended := endResult s' } else l

def move : TurnLedger := ((l.drain s s').send s s').close s'

/-- The books after a step of the session. -/
def observe (a : Action) : TurnLedger :=
  if s.phase.isIdle then
    match a with
    | .prompt blocks => start s' blocks
    | _ => l
  else
    match a with
    | .steer blocks => l.accept (steerMessage blocks)
    | _ => l.move s s'

end TurnLedger

def trackedStep (cfg : Config) (t : Session × TurnLedger) (a : Action) :
    Option (Session × TurnLedger) :=
  (step cfg t.1 a).map fun s' ↦ (s', t.2.observe t.1 s' a)

def trackedRun (cfg : Config) (actions : List Action) : Option (Session × TurnLedger) :=
  actions.foldlM (trackedStep cfg) (.new, {})

def EndedEarly : Except AgentError StopReason → Prop
  | .error _ => True
  | .ok stop => stop = .cancelled ∨ stop = .maxTurnRequests

theorem endedEarly_error (e : AgentError) : EndedEarly (.error e) := trivial

theorem endedEarly_cancelled : EndedEarly (.ok .cancelled) := .inl rfl

theorem endedEarly_maxTurnRequests : EndedEarly (.ok .maxTurnRequests) := .inr rfl

/-- Every message accepted was in the history of a completion request of the turn, or none has been
made since it was folded in, in a turn that goes on or ended early. -/
def NothingLost (l : TurnLedger) : Prop :=
  ∀ m ∈ l.accepted, (∃ history ∈ l.requests, HistoryItem.user m ∈ history) ∨
    ((m ∈ l.queued ∨ m ∈ l.folded) ∧ ∀ result ∈ l.ended, EndedEarly result)

def endsTurn (cfg : Config) (s : Session) (response : LlmResponse) : Prop :=
  response.toolCalls = [] ∧ response.stop ≠ .toolUse ∧
    ¬(mapStop response.stop = .endTurn ∧ s.stopRejections < cfg.stopMaxRejections)

def endsAtTop (cfg : Config) (s : Session) : Prop :=
  (0 < cfg.maxRounds ∧ cfg.maxRounds ≤ s.round) ∨ s.cancel = true

/-- No step drops a message: a truncation where the new messages fit, a handoff with one of them at
most, and no message in the queue when the turn comes to its end. -/
def StepKeeps (cfg : Config) (t : Session × TurnLedger) (a : Action) : Prop :=
  match t.1.phase, a with
  | .top, .round =>
    endsAtTop cfg t.1 ∨
      t.1.drainSteers.shouldHandoff cfg = true ∧ t.1.handoffCount < cfg.maxHandoffs ∨
        MessagesFit cfg.maxHistoryBytes (t.2.folded ++ t.2.queued)
  | .summarizing, .summarized (.ok summary) =>
    if trim summary = "" then MessagesFit cfg.maxHistoryBytes t.2.folded else AllSame t.2.folded
  | .summarizing, .summarized (.error _) => MessagesFit cfg.maxHistoryBytes t.2.folded
  | .requesting, .responded (.ok response) => endsTurn cfg t.1 response → t.2.queued = []
  | .stopping, .stopHooks [] => t.2.queued = []
  | _, _ => True

/-- Where the messages folded in are while the turn is on its way to the next request. -/
def FoldedIn (s : Session) (folded : List String) : Prop :=
  match s.phase with
  | .idle => True
  | .top | .summarizing => ∃ old, s.history = old ++ users folded
  | .compacting _ currentPrompt => ∀ m ∈ folded, currentPrompt = some m
  | _ => folded = []

/-- What the steps keep: the books match the session. -/
structure LedgerOk (s : Session) (l : TurnLedger) : Prop where
  kept : ∀ m ∈ l.accepted, (∃ history ∈ l.requests, HistoryItem.user m ∈ history) ∨
    m ∈ l.queued ∨ m ∈ l.folded
  ended : ∀ result ∈ l.ended, EndedEarly result ∨ l.queued = [] ∧ l.folded = []
  running : s.phase.isIdle = false →
    l.ended = none ∧ s.steers.filterMap steerTurn = users l.queued
  foldedIn : FoldedIn s l.folded

namespace LedgerOk

variable {cfg : Config} {s s' : Session} {l : TurnLedger}

theorem nothingLost (h : LedgerOk s l) : NothingLost l := by
  intro m hm
  rcases h.kept m hm with hsent | hheld
  · exact .inl hsent
  · right
    refine ⟨hheld, fun result hresult ↦ ?_⟩
    rcases h.ended result hresult with hearly | ⟨hqueued, hfolded⟩
    · exact hearly
    · rw [hqueued, hfolded] at hheld
      simp at hheld

theorem new : LedgerOk .new {} :=
  ⟨by simp, by simp, by simp [Session.new, Phase.isIdle], trivial⟩

theorem steerTurn_eq (blocks : List ContentBlock) :
    (steerTurn blocks).toList = users (steerMessage blocks).toList := by
  rw [steerMessage, steerTurn]
  split
  · split_ifs
    · rfl
    · rfl
  · rfl

theorem accept (h : LedgerOk s l) (hphase : s.phase.isIdle = false) (blocks : List ContentBlock) :
    LedgerOk { s with steers := s.steers ++ [blocks] } (l.accept (steerMessage blocks)) where
  kept m hm := by
    rcases List.mem_append.mp hm with hm | hm
    · rcases h.kept m hm with hsent | hqueued | hfolded
      · exact .inl hsent
      · exact .inr (.inl (List.mem_append_left _ hqueued))
      · exact .inr (.inr hfolded)
    · exact .inr (.inl (List.mem_append_right _ hm))
  ended result hresult := by
    rw [TurnLedger.accept, (h.running hphase).1] at hresult
    cases hresult
  running _ := by
    refine ⟨(h.running hphase).1, ?_⟩
    have hsteer := steerTurn_eq blocks
    rw [List.filterMap_append, (h.running hphase).2]
    simp only [TurnLedger.accept, users, List.map_append] at hsteer ⊢
    rw [← hsteer]
    cases hturn : steerTurn blocks with
    | none => simp [hturn]
    | some item => simp [hturn]
  foldedIn := h.foldedIn

/-- A step that leaves phase, history and queue alone. -/
theorem same (h : LedgerOk s l) (hphase : s'.phase = s.phase) (hsteers : s'.steers = s.steers)
    (hhistory : s'.history = s.history) : LedgerOk s' l where
  kept := h.kept
  ended := h.ended
  running := by
    rw [hphase, hsteers]
    exact h.running
  foldedIn := by
    have hfolded := h.foldedIn
    rw [FoldedIn] at hfolded ⊢
    rw [hphase, hhistory]
    exact hfolded

theorem finish (h : LedgerOk s l) {result : Except AgentError StopReason}
    (hearly : EndedEarly result ∨ l.queued = [] ∧ l.folded = []) (s' : Session) :
    LedgerOk (s'.finish result) { l with ended := some result } where
  kept := h.kept
  ended _ hresult := by
    rw [← Option.some.inj hresult]
    exact hearly
  running hrunning := by cases hrunning
  foldedIn := trivial

theorem send (h : LedgerOk s l) (s' : Session) (hphase : s'.phase = .requesting)
    (hended : l.ended = none)
    (hsteers : s'.steers.filterMap steerTurn = users l.queued)
    (hmem : ∀ m ∈ l.folded, HistoryItem.user m ∈ s'.history) :
    LedgerOk s' { l with requests := l.requests ++ [s'.history], folded := [] } where
  kept m hm := by
    rcases h.kept m hm with ⟨history, hhistory, hin⟩ | hqueued | hfolded
    · exact .inl ⟨history, List.mem_append_left _ hhistory, hin⟩
    · exact .inr (.inl hqueued)
    · exact .inl ⟨s'.history, List.mem_append_right _ List.mem_cons_self, hmem m hfolded⟩
  ended result hresult := by
    rw [hended] at hresult
    cases hresult
  running _ := ⟨hended, hsteers⟩
  foldedIn := by
    rw [FoldedIn, hphase]

end LedgerOk

namespace TurnLedger

variable {l : TurnLedger} {s s' : Session}

theorem move_finish (s' : Session) (result : Except AgentError StopReason) :
    l.move s (s'.finish result) = { l with ended := some result } := by
  simp [move, drain, TurnLedger.send, close, Session.finish, endResult, Phase.isIdle,
    Phase.isRequesting]

theorem move_quiet (htop : s.phase.isTop = false) (hrequest : s'.phase.isRequesting = false)
    (hidle : s'.phase.isIdle = false) : l.move s s' = l := by
  simp [move, drain, TurnLedger.send, close, htop, hrequest, hidle]

theorem move_same (hphase : s'.phase = s.phase) (hidle : s.phase.isIdle = false) :
    l.move s s' = l := by
  simp [move, drain, TurnLedger.send, close, hphase, hidle]

theorem move_send (htop : s.phase.isTop = false) (hrequest : s.phase.isRequesting = false)
    (hs' : s'.phase = .requesting) :
    l.move s s' = { l with requests := l.requests ++ [s'.history], folded := [] } := by
  have hrequest' : s'.phase.isRequesting = true := by rw [hs']; rfl
  have hidle : s'.phase.isIdle = false := by rw [hs']; rfl
  simp [move, drain, TurnLedger.send, close, htop, hrequest, hrequest', hidle]

theorem move_drain (hphase : s.phase = .top) (hs' : s'.phase = .summarizing) :
    l.move s s' = { l with folded := l.folded ++ l.queued, queued := [] } := by
  simp [move, drain, TurnLedger.send, close, hphase, hs', Phase.isRequesting, Phase.isIdle,
    Phase.isTop]

theorem move_drain_send (hphase : s.phase = .top) (hs' : s'.phase = .requesting) :
    l.move s s' =
      { l with queued := [], requests := l.requests ++ [s'.history], folded := [] } := by
  simp [move, drain, TurnLedger.send, close, hphase, hs', Phase.isRequesting, Phase.isIdle,
    Phase.isTop]

theorem observe_steer (h : s.phase.isIdle = false) (blocks : List ContentBlock) :
    l.observe s s' (.steer blocks) = l.accept (steerMessage blocks) := by
  rw [observe, h]
  rfl

theorem observe_other (h : s.phase.isIdle = false) {a : Action}
    (ha : ∀ blocks, a ≠ .steer blocks) :
    l.observe s s' a = l.move s s' := by
  unfold observe
  rw [if_neg (by rw [h]; decide)]
  split
  · next blocks => exact (ha blocks rfl).elim
  · rfl

theorem observe_idle (h : s.phase.isIdle = true) {a : Action} (ha : ∀ blocks, a ≠ .prompt blocks) :
    l.observe s s' a = l := by
  unfold observe
  rw [if_pos h]
  split
  · next blocks => exact (ha blocks rfl).elim
  · rfl

end TurnLedger

namespace LedgerOk

variable {cfg : Config} {s s' : Session} {l : TurnLedger}

theorem foldedIn_nil (s : Session) : FoldedIn s [] := by
  rw [FoldedIn]
  cases s.phase with
  | idle => trivial
  | top => exact ⟨s.history, (List.append_nil _).symm⟩
  | summarizing => exact ⟨s.history, (List.append_nil _).symm⟩
  | compacting summary currentPrompt => simp
  | requesting => rfl
  | stopping => rfl
  | preflight calls results runnable idx => rfl
  | executing calls results runnable running cancelled => rfl

/-- A step that leaves the queue alone when there is nothing new in the history. -/
theorem onward (h : LedgerOk s l) (hidle : s.phase.isIdle = false) (hfolded : l.folded = [])
    (hsteers : s'.steers = s.steers) : LedgerOk s' l where
  kept := h.kept
  ended := h.ended
  running _ := by
    rw [hsteers]
    exact h.running hidle
  foldedIn := by
    rw [hfolded]
    exact foldedIn_nil s'

theorem handlePrompt (s : Session) (blocks : List ContentBlock) :
    LedgerOk (s.handlePrompt blocks) (TurnLedger.start (s.handlePrompt blocks) blocks) := by
  have hfailed (s' : Session) (result : Except AgentError StopReason) :
      LedgerOk (s'.finish result) { ended := endResult (s'.finish result) } :=
    ⟨by simp, fun _ _ ↦ .inr ⟨rfl, rfl⟩, fun hrunning ↦ Bool.noConfusion hrunning, trivial⟩
  rw [Session.handlePrompt, TurnLedger.start]
  cases htext : promptToText blocks with
  | error e => exact hfailed _ _
  | ok text =>
    dsimp only
    split
    · exact hfailed _ _
    · exact ⟨fun m hm ↦ .inr (.inr hm), fun result hresult ↦
        (Option.not_mem_none result hresult).elim, fun _ ↦ ⟨rfl, rfl⟩, s.history, rfl⟩

theorem settle (h : LedgerOk s l) (hidle : s.phase.isIdle = false) (htop : s.phase.isTop = false)
    (hfolded : l.folded = []) (calls : List ToolCall) (results : List (Option ToolResult)) :
    LedgerOk (s.settle calls results) (l.move s (s.settle calls results)) := by
  rw [Session.settle]
  dsimp only
  split_ifs
  · rw [TurnLedger.move_finish]
    exact h.finish (.inl endedEarly_cancelled) _
  · rw [TurnLedger.move_quiet htop rfl rfl]
    exact h.onward hidle hfolded rfl

/-- The queue is folded into the history at a round boundary. -/
theorem drained (h : LedgerOk s l) (s' : Session) (hphase : s.phase = .top)
    (hs' : s'.phase = .summarizing) (hhistory : s'.history = s.drainSteers.history)
    (hsteers : s'.steers = []) :
    LedgerOk s' { l with folded := l.folded ++ l.queued, queued := [] } where
  kept m hm := by
    rcases h.kept m hm with hsent | hqueued | hfolded
    · exact .inl hsent
    · exact .inr (.inr (List.mem_append_right _ hqueued))
    · exact .inr (.inr (List.mem_append_left _ hfolded))
  ended result hresult := by
    rw [(h.running (by rw [hphase]; rfl)).1] at hresult
    cases hresult
  running _ := ⟨(h.running (by rw [hphase]; rfl)).1, by rw [hsteers]; rfl⟩
  foldedIn := by
    have hfolded := h.foldedIn
    rw [FoldedIn, hphase] at hfolded
    obtain ⟨old, hold⟩ := hfolded
    rw [FoldedIn, hs']
    refine ⟨old, ?_⟩
    rw [hhistory, Session.drainSteers]
    dsimp only
    rw [hold, (h.running (by rw [hphase]; rfl)).2, users, users, users, List.map_append,
      List.append_assoc]

theorem mem_handoffSkipped (h : LedgerOk s l) (hphase : s.phase = .summarizing)
    (hfits : MessagesFit cfg.maxHistoryBytes l.folded) :
    ∀ m ∈ l.folded, HistoryItem.user m ∈ (s.handoffSkipped cfg).history := by
  intro m hm
  have hfolded := h.foldedIn
  rw [FoldedIn, hphase] at hfolded
  obtain ⟨old, hold⟩ := hfolded
  rw [Session.handoffSkipped, Session.request]
  dsimp only
  rw [hold]
  exact mem_truncateHistory hfits hm

theorem loopTop (h : LedgerOk s l) (hphase : s.phase = .top)
    (hkeeps : StepKeeps cfg (s, l) .round) :
    LedgerOk (s.loopTop cfg) (l.move s (s.loopTop cfg)) := by
  simp only [StepKeeps, hphase] at hkeeps
  rw [Session.loopTop]
  split_ifs with hlimit hcancel
  · rw [TurnLedger.move_finish]
    exact h.finish (.inl endedEarly_maxTurnRequests) _
  · rw [TurnLedger.move_finish]
    exact h.finish (.inl endedEarly_cancelled) _
  · dsimp only
    have hdrained := h.drained { s.drainSteers with phase := .summarizing } hphase rfl rfl rfl
    split_ifs with hhandoff
    · rw [TurnLedger.move_drain hphase rfl]
      exact hdrained.same rfl rfl rfl
    · rw [TurnLedger.move_drain_send hphase rfl]
      rcases hkeeps with hends | hhandoff' | hfits
      · exact absurd hends (not_or.mpr ⟨hlimit, hcancel⟩)
      · exact absurd hhandoff' hhandoff
      · have hmem := hdrained.mem_handoffSkipped rfl hfits
        exact hdrained.send (s.drainSteers.handoffSkipped cfg) rfl
          (h.running (by rw [hphase]; rfl)).1 rfl hmem

theorem handleSummary (h : LedgerOk s l) (hphase : s.phase = .summarizing)
    {result : Except AgentError String} (hkeeps : StepKeeps cfg (s, l) (.summarized result)) :
    LedgerOk (s.handleSummary cfg result) (l.move s (s.handleSummary cfg result)) := by
  have hidle : s.phase.isIdle = false := by rw [hphase]; rfl
  have htop : s.phase.isTop = false := by rw [hphase]; rfl
  have hskipped (hfits : MessagesFit cfg.maxHistoryBytes l.folded) :
      LedgerOk (s.handoffSkipped cfg) (l.move s (s.handoffSkipped cfg)) := by
    rw [TurnLedger.move_send htop (by rw [hphase]; rfl) rfl]
    exact h.send _ rfl (h.running hidle).1 (h.running hidle).2 (h.mem_handoffSkipped hphase hfits)
  cases result with
  | error e =>
    simp only [StepKeeps, hphase] at hkeeps
    exact hskipped hkeeps
  | ok summary =>
    simp only [StepKeeps, hphase] at hkeeps
    rw [Session.handleSummary]
    split_ifs with hblank
    · rw [if_pos hblank] at hkeeps
      exact hskipped hkeeps
    · rw [if_neg hblank] at hkeeps
      rw [TurnLedger.move_quiet htop rfl rfl]
      refine ⟨h.kept, h.ended, fun _ ↦ h.running hidle, ?_⟩
      have hfolded := h.foldedIn
      rw [FoldedIn, hphase] at hfolded
      obtain ⟨old, hold⟩ := hfolded
      intro m hm
      have hne : l.folded ≠ [] := List.ne_nil_of_mem hm
      obtain ⟨front, last, hlast⟩ := List.eq_nil_or_concat' l.folded |>.resolve_left hne
      rw [hkeeps m hm last (by rw [hlast]; simp), hold, hlast, users, List.map_append,
        ← List.append_assoc, List.reverse_append]
      rfl

theorem handleCompacted (h : LedgerOk s l) {summary : String} {currentPrompt : Option String}
    (hphase : s.phase = .compacting summary currentPrompt) (outputs : List (String × String)) :
    LedgerOk (s.handleCompacted summary currentPrompt outputs)
      (l.move s (s.handleCompacted summary currentPrompt outputs)) := by
  have hidle : s.phase.isIdle = false := by rw [hphase]; rfl
  have hfolded := h.foldedIn
  rw [FoldedIn, hphase] at hfolded
  rw [TurnLedger.move_send (by rw [hphase]; rfl) (by rw [hphase]; rfl) rfl]
  refine h.send (s.handleCompacted summary currentPrompt outputs) rfl (h.running hidle).1
    (h.running hidle).2 fun m hm ↦ ?_
  rw [hfolded m hm]
  exact List.mem_cons_of_mem _ List.mem_cons_self

theorem recordUsage_kept (s : Session) (response : LlmResponse) :
    (s.recordUsage response).steers = s.steers ∧
      (s.recordUsage response).stopRejections = s.stopRejections := by
  rw [Session.recordUsage]
  cases response.inputTokens with
  | none => cases response.outputTokens <;> exact ⟨rfl, rfl⟩
  | some tokens => cases response.outputTokens <;> exact ⟨rfl, rfl⟩

theorem handleResponse (h : LedgerOk s l) (hphase : s.phase = .requesting)
    {response : LlmResponse} (hkeeps : StepKeeps cfg (s, l) (.responded (.ok response))) :
    LedgerOk (s.handleResponse cfg response) (l.move s (s.handleResponse cfg response)) := by
  have hidle : s.phase.isIdle = false := by rw [hphase]; rfl
  have htop : s.phase.isTop = false := by rw [hphase]; rfl
  have hfolded : l.folded = [] := by
    have hfoldedIn := h.foldedIn
    rwa [FoldedIn, hphase] at hfoldedIn
  simp only [StepKeeps, hphase] at hkeeps
  obtain ⟨hsteers, hrejections⟩ := recordUsage_kept s response
  rw [Session.handleResponse]
  dsimp only
  split_ifs with hcalls huse hstop
  · rw [TurnLedger.move_finish]
    exact h.finish (.inl (endedEarly_error _)) _
  · rw [TurnLedger.move_quiet htop rfl rfl]
    exact h.onward hidle hfolded hsteers
  · rw [TurnLedger.move_finish]
    rw [hrejections] at hstop
    exact h.finish (.inr ⟨hkeeps ⟨List.isEmpty_iff.mp hcalls, huse, hstop⟩, hfolded⟩) _
  · rw [TurnLedger.move_quiet htop rfl rfl]
    exact h.onward hidle hfolded hsteers

theorem handleObjections (h : LedgerOk s l) (hphase : s.phase = .stopping)
    {outputs : List (String × String)} (hkeeps : StepKeeps cfg (s, l) (.stopHooks outputs)) :
    LedgerOk (s.handleObjections outputs) (l.move s (s.handleObjections outputs)) := by
  have hidle : s.phase.isIdle = false := by rw [hphase]; rfl
  have htop : s.phase.isTop = false := by rw [hphase]; rfl
  have hfolded : l.folded = [] := by
    have hfoldedIn := h.foldedIn
    rwa [FoldedIn, hphase] at hfoldedIn
  cases outputs with
  | nil =>
    simp only [StepKeeps, hphase] at hkeeps
    rw [show s.handleObjections [] = s.finish (.ok .endTurn) from rfl, TurnLedger.move_finish]
    exact h.finish (.inr ⟨hkeeps, hfolded⟩) _
  | cons output outputs =>
    rw [TurnLedger.move_quiet htop rfl rfl]
    exact h.onward hidle hfolded rfl

theorem preflightStep (h : LedgerOk s l) {calls : List ToolCall}
    {results : List (Option ToolResult)} {runnable : List ℕ} {idx : ℕ}
    (hphase : s.phase = .preflight calls results runnable idx)
    (skill : List ToolResultContent × Bool) :
    LedgerOk (s.preflightStep cfg skill calls results runnable idx)
      (l.move s (s.preflightStep cfg skill calls results runnable idx)) := by
  have hidle : s.phase.isIdle = false := by rw [hphase]; rfl
  have htop : s.phase.isTop = false := by rw [hphase]; rfl
  have hfolded : l.folded = [] := by
    have hfoldedIn := h.foldedIn
    rwa [FoldedIn, hphase] at hfoldedIn
  rw [Session.preflightStep]
  split
  · rw [TurnLedger.move_quiet htop rfl rfl]
    exact h.onward hidle hfolded rfl
  · dsimp only
    split_ifs
    · exact h.settle hidle htop hfolded calls _
    · rw [TurnLedger.move_quiet htop rfl rfl]
      exact h.onward hidle hfolded rfl
    · rw [TurnLedger.move_quiet htop rfl rfl]
      exact h.onward hidle hfolded rfl
    · rw [TurnLedger.move_quiet htop rfl rfl]
      exact h.onward hidle hfolded rfl

theorem folded_of_executing (h : LedgerOk s l) {calls : List ToolCall}
    {results : List (Option ToolResult)} {runnable running : List ℕ} {cancelled : Bool}
    (hphase : s.phase = .executing calls results runnable running cancelled) : l.folded = [] := by
  have hfoldedIn := h.foldedIn
  rwa [FoldedIn, hphase] at hfoldedIn

end LedgerOk

theorem ledgerOk_step {cfg : Config} {s s' : Session} {l : TurnLedger} {a : Action}
    (h : LedgerOk s l) (hkeeps : StepKeeps cfg (s, l) a) (hstep : step cfg s a = some s') :
    LedgerOk s' (l.observe s s' a) := by
  have hmove (hidle : s.phase.isIdle = false) (ha : ∀ blocks, a ≠ .steer blocks) :
      l.observe s s' a = l.move s s' := TurnLedger.observe_other hidle ha
  have helsewhere (ha : ∀ blocks, a ≠ .steer blocks) (hprompt : ∀ blocks, a ≠ .prompt blocks)
      (hphase : s'.phase = s.phase) (hsteers : s'.steers = s.steers)
      (hhistory : s'.history = s.history) : LedgerOk s' (l.observe s s' a) := by
    cases hidle : s.phase.isIdle with
    | true =>
      rw [TurnLedger.observe_idle hidle hprompt]
      exact h.same hphase hsteers hhistory
    | false =>
      rw [hmove hidle ha, TurnLedger.move_same hphase hidle]
      exact h.same hphase hsteers hhistory
  unfold step at hstep
  split at hstep
  case h_1 blocks hphase =>
    cases hstep
    rw [TurnLedger.observe, hphase]
    exact .handlePrompt s blocks
  case h_2 => cases hstep
  case h_3 blocks hphase =>
    cases hstep
    have hidle : s.phase.isIdle = false := by
      cases hp : s.phase with
      | idle => exact (hphase hp).elim
      | _ => rfl
    rw [TurnLedger.observe_steer hidle]
    exact h.accept hidle blocks
  case h_4 | h_5 =>
    cases hstep
    exact helsewhere (by simp) (by simp) rfl rfl rfl
  case h_6 hphase =>
    cases hstep
    rw [hmove (by rw [hphase]; rfl) (by simp)]
    exact h.loopTop hphase hkeeps
  case h_7 result hphase =>
    cases hstep
    rw [hmove (by rw [hphase]; rfl) (by simp)]
    exact h.handleSummary hphase hkeeps
  case h_8 hphase | h_12 hphase =>
    split_ifs at hstep
    cases hstep
    rw [hmove (by rw [hphase]; rfl) (by simp), TurnLedger.move_finish]
    exact h.finish (.inl endedEarly_cancelled) _
  case h_9 summary currentPrompt outputs hphase =>
    cases hstep
    rw [hmove (by rw [hphase]; rfl) (by simp)]
    exact h.handleCompacted hphase outputs
  case h_10 response hphase =>
    cases hstep
    rw [hmove (by rw [hphase]; rfl) (by simp)]
    exact h.handleResponse hphase hkeeps
  case h_11 e hphase =>
    cases hstep
    rw [hmove (by rw [hphase]; rfl) (by simp), TurnLedger.move_finish]
    exact h.finish (.inl (endedEarly_error e)) _
  case h_13 outputs hphase =>
    cases hstep
    rw [hmove (by rw [hphase]; rfl) (by simp)]
    exact h.handleObjections hphase hkeeps
  case h_14 calls results runnable idx skill hphase =>
    cases hstep
    rw [hmove (by rw [hphase]; rfl) (by simp)]
    exact h.preflightStep hphase skill
  case h_15 hphase =>
    split_ifs at hstep
    cases hstep
    rw [hmove (by rw [hphase]; rfl) (by simp), TurnLedger.move_quiet (by rw [hphase]; rfl) rfl rfl]
    exact h.onward (by rw [hphase]; rfl) (h.folded_of_executing hphase) rfl
  case h_16 hphase | h_17 hphase =>
    split_ifs at hstep
    cases hstep
    rw [hmove (by rw [hphase]; rfl) (by simp), TurnLedger.move_quiet (by rw [hphase]; rfl) rfl rfl]
    exact h.onward (by rw [hphase]; rfl) (h.folded_of_executing hphase) rfl
  case h_18 calls results runnable cancelled hphase | h_19 calls results runnable _ hphase =>
    cases hstep
    rw [hmove (by rw [hphase]; rfl) (by simp)]
    exact h.settle (by rw [hphase]; rfl) (by rw [hphase]; rfl) (h.folded_of_executing hphase)
      calls _
  case h_20 => cases hstep

def TrackedOk (t : Session × TurnLedger) : Prop := LedgerOk t.1 t.2

theorem trackedOk_step {cfg : Config} (t : Session × TurnLedger) (a : Action)
    (t' : Session × TurnLedger) (h : TrackedOk t) (hkeeps : StepKeeps cfg t a)
    (hstep : trackedStep cfg t a = some t') : TrackedOk t' := by
  obtain ⟨s', hs', rfl⟩ := Option.map_eq_some_iff.mp hstep
  exact ledgerOk_step h hkeeps hs'

theorem run_of_trackedRun {cfg : Config} {actions : List Action} {s : Session} {l : TurnLedger}
    (hrun : trackedRun cfg actions = some (s, l)) : run cfg .new actions = some s := by
  induction actions using List.reverseRecOn generalizing s l with
  | nil =>
    cases hrun
    rfl
  | append_singleton actions a ih =>
    obtain ⟨t, ht, hlast⟩ := foldlM_concat_eq_some.mp hrun
    obtain ⟨s', hs', heq⟩ := Option.map_eq_some_iff.mp hlast
    cases heq
    exact foldlM_concat_eq_some.mpr ⟨t.1, ih ht, hs'⟩

/-- In a run whose steps keep the messages, no message accepted is lost. -/
theorem messages_reach_provider (cfg : Config) (actions : List Action) (s : Session)
    (l : TurnLedger) (hrun : trackedRun cfg actions = some (s, l))
    (hkeeps : ∀ pre a, pre ++ [a] <+: actions → ∀ t, trackedRun cfg pre = some t →
      StepKeeps cfg t a) : NothingLost l := by
  have hinit : TrackedOk (.new, {}) := LedgerOk.new
  have hok : TrackedOk (s, l) := foldlM_invariant_of_allowed hinit trackedOk_step hkeeps hrun
  exact hok.nothingLost

def defaultConfig : Config where
  maxRounds := 0
  stopMaxRejections := 3
  maxHandoffs := 10
  maxHistoryBytes := 16 * 1024 * 1024
  maxContextTokens := 200000
  maxOutputTokens := 32768
  toolTimeoutSecs := 60
  tools := []

def steeredTurn : List Action := [.prompt [.text "hi"], .steer [.text "be brief"], .round]

theorem steeredTurn_keeps : ∀ pre a, pre ++ [a] <+: steeredTurn → ∀ t,
    trackedRun defaultConfig pre = some t → StepKeeps defaultConfig t a := by
  apply forall_step_of_lt
  intro n hn t ht
  have hn' : n < 3 := hn
  interval_cases n
  · cases ht
    trivial
  · cases ht
    trivial
  · cases ht
    exact .inr (.inr (.inr (by decide)))

theorem steeredTurn_reaches : ∃ s l, trackedRun defaultConfig steeredTurn = some (s, l) ∧
    l.accepted = ["hi", "be brief"] ∧ NothingLost l := by
  have hledger : (trackedRun defaultConfig steeredTurn).map (fun t ↦ t.2.accepted) =
      some ["hi", "be brief"] := by decide
  obtain ⟨t, ht, haccepted⟩ := Option.map_eq_some_iff.mp hledger
  exact ⟨t.1, t.2, ht, haccepted,
    messages_reach_provider defaultConfig steeredTurn t.1 t.2 ht steeredTurn_keeps⟩

def handoffTurn : List Action :=
  [.prompt [.text "hi"], .round, .responded (.ok ⟨"hello", [], .endTurn, some 170000, none⟩),
    .stopHooks [], .prompt [.text "fix the build"], .steer [.text "and add a test"], .round,
    .summarized (.ok "so far"), .compacted []]

theorem handoff_loses_prompt :
    ∃ s l, trackedRun defaultConfig handoffTurn = some (s, l) ∧ ¬NothingLost l := by
  have hledger : (trackedRun defaultConfig handoffTurn).map (fun t ↦
      (t.2.accepted, t.2.queued ++ t.2.folded, t.2.requests.map (List.filterMap userText))) =
      some (["fix the build", "and add a test"], [],
        [["[Context Handoff]\nso far", "and add a test"]]) := by decide
  obtain ⟨t, ht, hbooks⟩ := Option.map_eq_some_iff.mp hledger
  obtain ⟨haccepted, hheld, hrequests⟩ : t.2.accepted = ["fix the build", "and add a test"] ∧
      t.2.queued ++ t.2.folded = [] ∧ t.2.requests.map (List.filterMap userText) =
        [["[Context Handoff]\nso far", "and add a test"]] := by
    simpa using hbooks
  refine ⟨t.1, t.2, ht, fun hlost ↦ ?_⟩
  rcases hlost "fix the build" (by rw [haccepted]; simp) with ⟨history, hhistory, hin⟩ | ⟨hin, -⟩
  · have htexts : "fix the build" ∈ history.filterMap userText :=
      List.mem_filterMap.mpr ⟨_, hin, rfl⟩
    have hmem := List.mem_map_of_mem (f := List.filterMap userText) hhistory
    rw [hrequests] at hmem
    rw [List.mem_singleton.mp hmem] at htexts
    exact absurd htexts (by decide)
  · rw [← List.mem_append, hheld] at hin
    cases hin

end Buzz.Agent
