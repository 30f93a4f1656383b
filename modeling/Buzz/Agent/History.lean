import Buzz.Lib.Json

namespace Buzz.Agent

open Buzz.Lib

inductive ToolResultContent
  | text (s : String)
  | image (data mimeType : String)
deriving DecidableEq, Repr

def IMAGE_CONTEXT_TOKEN_EQUIV : ℕ := 16 * 1024

def ToolResultContent.estimatedBytes : ToolResultContent → ℕ
  | text s => s.utf8ByteSize
  | image data mimeType => data.utf8ByteSize + mimeType.utf8ByteSize

def ToolResultContent.contextPressureBytes : ToolResultContent → ℕ
  | text s => s.utf8ByteSize
  | image _ mimeType => IMAGE_CONTEXT_TOKEN_EQUIV + mimeType.utf8ByteSize

structure ToolCall where
  providerId : String
  name : String
  arguments : Json

structure ToolResult where
  providerId : String
  content : List ToolResultContent
  isError : Bool
deriving DecidableEq, Repr

inductive HistoryItem
  | user (text : String)
  | assistant (text : String) (toolCalls : List ToolCall)
  | toolResult (result : ToolResult)

namespace HistoryItem

def sizeWith (contentSize : ToolResultContent → ℕ) : HistoryItem → ℕ
  | user text => text.utf8ByteSize
  | assistant text toolCalls => text.utf8ByteSize + (toolCalls.map fun c ↦
      c.providerId.utf8ByteSize + c.name.utf8ByteSize +
        (String.ofList c.arguments.render).utf8ByteSize).sum
  | toolResult r => r.providerId.utf8ByteSize + (r.content.map contentSize).sum

def estimatedBytes : HistoryItem → ℕ := sizeWith ToolResultContent.estimatedBytes

def contextPressureBytes : HistoryItem → ℕ := sizeWith ToolResultContent.contextPressureBytes

def isUser : HistoryItem → Bool
  | user _ => true
  | _ => false

end HistoryItem

open HistoryItem

def truncateLoop (maxBytes total : ℕ) (history : List HistoryItem) : List HistoryItem :=
  match history with
  | [] => []
  | item :: rest =>
    if total ≤ maxBytes then item :: rest
    else
      let turn := item :: rest.takeWhile fun i ↦ !i.isUser
      match _hrest : rest.dropWhile fun i ↦ !i.isUser with
      | [] => item :: rest
      | next :: more =>
        truncateLoop maxBytes (total - (turn.map estimatedBytes).sum) (next :: more)
termination_by history.length
decreasing_by
  have hle := (List.dropWhile_suffix (l := rest) fun i ↦ !i.isUser).length_le
  rw [_hrest] at hle
  simp only [List.length_cons] at hle ⊢
  omega

def truncateHistory (history : List HistoryItem) (maxBytes : ℕ) : List HistoryItem :=
  let total := (history.map estimatedBytes).sum
  if total ≤ maxBytes then history else truncateLoop maxBytes total history

def formatHookOutputBody (hook server text : String) : String :=
  let fields := [("hook", Json.str hook), ("server", .str server), ("text", .str text)]
  String.ofList (Json.obj fields).render

def syntheticHookId (hook server : String) (ordinal : UInt64) : String :=
  "buzz_hook_" ++ hook ++ "_" ++ server ++ "_" ++ toString ordinal.toNat

def hookPair (hook server text : String) (ordinal : UInt64) : List HistoryItem :=
  let providerId := syntheticHookId hook server ordinal
  [.assistant "" [⟨providerId, server ++ "__" ++ hook, .obj []⟩],
    .toolResult ⟨providerId, [.text (formatHookOutputBody hook server text)], false⟩]

def pushHookOutputsAsToolResults (history : List HistoryItem) (hook : String) :
    List (String × String) → UInt64 → List HistoryItem × UInt64
  | [], nonce => (history, nonce)
  | (server, text) :: outputs, nonce =>
    pushHookOutputsAsToolResults (history ++ hookPair hook server text nonce) hook outputs
      (nonce + 1)

def syntheticToolResult (call : ToolCall) (msg : String) : ToolResult :=
  ⟨call.providerId, [.text msg], true⟩

def ERROR_REFLECTION_SUFFIX : String :=
  "\n\n[Reflect] Before retrying, identify the cause and change your approach."

def settledResult (call : ToolCall) (result : Option ToolResult) : ToolResult :=
  let result := result.getD ⟨call.providerId, [.text "internal error: missing result"], true⟩
  if result.isError then
    { result with content := result.content ++ [.text ERROR_REFLECTION_SUFFIX] }
  else result

def appendResults (history : List HistoryItem) (calls : List ToolCall)
    (results : List (Option ToolResult)) : List HistoryItem :=
  history ++ (List.zipWith settledResult calls results).map .toolResult

/-- A conversation a provider accepts: the results of the calls of a turn come right behind it, in
the order of the calls, and nowhere else. -/
inductive Paired : List HistoryItem → Prop
  | nil : Paired []
  | user (text : String) {history : List HistoryItem} :
      Paired history → Paired (.user text :: history)
  | turn (text : String) (calls : List ToolCall) (results : List ToolResult)
      {history : List HistoryItem} :
      results.map ToolResult.providerId = calls.map ToolCall.providerId → Paired history →
      Paired (.assistant text calls :: (results.map .toolResult ++ history))

namespace Paired

variable {history history' : List HistoryItem}

theorem append (h : Paired history) (h' : Paired history') : Paired (history ++ history') := by
  induction h with
  | nil => exact h'
  | user text _ ih => exact .user text ih
  | turn text calls results hids _ ih =>
    rw [List.cons_append, List.append_assoc]
    exact .turn text calls results hids ih

theorem concat_user (h : Paired history) (text : String) : Paired (history ++ [.user text]) :=
  h.append (.user text .nil)

theorem concat_turn (h : Paired history) (text : String) {calls : List ToolCall}
    {results : List ToolResult}
    (hids : results.map ToolResult.providerId = calls.map ToolCall.providerId) :
    Paired (history ++ .assistant text calls :: results.map .toolResult) := by
  have hturn := Paired.turn text calls results hids .nil
  rw [List.append_nil] at hturn
  exact h.append hturn

theorem concat_answer (h : Paired history) (text : String) :
    Paired (history ++ [.assistant text []]) :=
  h.append (.turn text [] [] rfl .nil)

theorem dropWhile_results (results : List ToolResult) :
    (results.map HistoryItem.toolResult ++ history).dropWhile (fun i ↦ !i.isUser) =
      history.dropWhile fun i ↦ !i.isUser := by
  apply List.dropWhile_append_of_pos
  intro item hitem
  obtain ⟨r, -, rfl⟩ := List.mem_map.mp hitem
  rfl

theorem dropWhile_user (h : Paired history) : Paired (history.dropWhile fun i ↦ !i.isUser) := by
  induction h with
  | nil => exact .nil
  | user text h _ => exact .user text h
  | turn text calls results hids h ih =>
    rw [List.dropWhile_cons_of_pos rfl, dropWhile_results]
    exact ih

theorem dropWhile_tail {item : HistoryItem} (h : Paired (item :: history)) :
    Paired (history.dropWhile fun i ↦ !i.isUser) := by
  cases h with
  | user text h => exact h.dropWhile_user
  | turn text calls results hids h =>
    rw [dropWhile_results]
    exact h.dropWhile_user

theorem truncateLoop {maxBytes total : ℕ} (h : Paired history) :
    Paired (Agent.truncateLoop maxBytes total history) := by
  fun_induction Agent.truncateLoop maxBytes total history with
  | case1 => exact .nil
  | case2 => exact h
  | case3 => exact h
  | case4 total item rest hlarge turn next more hrest ih =>
    have hnext := h.dropWhile_tail
    rw [hrest] at hnext
    exact ih hnext

theorem truncateHistory {maxBytes : ℕ} (h : Paired history) :
    Paired (Agent.truncateHistory history maxBytes) := by
  rw [Agent.truncateHistory]
  split_ifs
  · exact h
  · exact h.truncateLoop

theorem hookPair (hook server text : String) (ordinal : UInt64) :
    Paired (Agent.hookPair hook server text ordinal) :=
  .turn "" [⟨syntheticHookId hook server ordinal, server ++ "__" ++ hook, .obj []⟩]
    [⟨syntheticHookId hook server ordinal, [.text (formatHookOutputBody hook server text)], false⟩]
    rfl .nil

theorem pushHookOutputs {hook : String} {outputs : List (String × String)} {nonce : UInt64}
    (h : Paired history) :
    Paired (pushHookOutputsAsToolResults history hook outputs nonce).1 := by
  induction outputs generalizing history nonce with
  | nil => exact h
  | cons output outputs ih => exact ih (h.append (hookPair hook output.1 output.2 nonce))

end Paired

structure Fits (calls : List ToolCall) (results : List (Option ToolResult)) : Prop where
  length_eq : results.length = calls.length
  ids : ∀ (i : ℕ) (call : ToolCall) (r : ToolResult), calls[i]? = some call →
    results[i]? = some (some r) → r.providerId = call.providerId

namespace Fits

variable {calls : List ToolCall} {results : List (Option ToolResult)}

theorem replicate (calls : List ToolCall) : Fits calls (List.replicate calls.length none) := by
  refine ⟨List.length_replicate, fun i call r _ hr ↦ ?_⟩
  nomatch (List.mem_replicate.mp (List.mem_of_getElem? hr)).2

theorem set (h : Fits calls results) {i : ℕ} {call : ToolCall} (hcall : calls[i]? = some call)
    {r : ToolResult} (hr : r.providerId = call.providerId) :
    Fits calls (results.set i (some r)) := by
  refine ⟨List.length_set.trans h.length_eq, fun k call' r' hcall' hr' ↦ ?_⟩
  by_cases hk : i = k
  · subst hk
    obtain rfl := Option.some.inj (hcall.symm.trans hcall')
    have hlt : i < results.length := by
      rw [h.length_eq]
      exact (List.getElem?_eq_some_iff.mp hcall).choose
    rw [List.getElem?_set_self hlt] at hr'
    rw [← Option.some.inj (Option.some.inj hr')]
    exact hr
  · rw [List.getElem?_set_ne hk] at hr'
    exact h.ids k call' r' hcall' hr'

end Fits

theorem settledResult_providerId {call : ToolCall} {result : Option ToolResult}
    (h : ∀ r, result = some r → r.providerId = call.providerId) :
    (settledResult call result).providerId = call.providerId := by
  cases result with
  | none => rfl
  | some r =>
    rw [settledResult, Option.getD_some]
    split_ifs
    · exact h r rfl
    · exact h r rfl

theorem Paired.appendResults {history : List HistoryItem} {text : String} {calls : List ToolCall}
    {results : List (Option ToolResult)} (h : Paired history) (hfits : Fits calls results) :
    Paired (Agent.appendResults (history ++ [.assistant text calls]) calls results) := by
  rw [Agent.appendResults, List.append_assoc, List.singleton_append]
  apply h.concat_turn
  refine List.ext_getElem? fun i ↦ ?_
  rw [List.getElem?_map, List.getElem?_map, List.getElem?_zipWith]
  cases hcall : calls[i]? with
  | none => rfl
  | some call =>
    have hlt : i < results.length := by
      rw [hfits.length_eq]
      exact (List.getElem?_eq_some_iff.mp hcall).choose
    rw [List.getElem?_eq_getElem hlt]
    refine congrArg some (settledResult_providerId fun r hr ↦ ?_)
    exact hfits.ids i call r hcall (by rw [List.getElem?_eq_getElem hlt, hr])

end Buzz.Agent
