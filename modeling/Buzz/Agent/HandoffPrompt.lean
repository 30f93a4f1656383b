import Buzz.Agent.ToolResult
import Buzz.Agent.Turn

namespace Buzz.Agent

open Buzz.Lib

def HANDOFF_MAX_OUTPUT_TOKENS : ℕ := 8192

def HANDOFF_ORIGINAL_TASK_MAX_BYTES : ℕ := 16 * 1024

def HANDOFF_MAX_TOOL_NAMES : ℕ := 20

def joined (parts : List String) : List Char := parts.flatMap String.toList

theorem len_joined (parts : List String) :
    Utf8.len (joined parts) = (parts.map String.utf8ByteSize).sum := by
  induction parts with
  | nil => rfl
  | cons part parts ih =>
    rw [joined, List.flatMap_cons, Utf8.len_append, Utf8.len_toList, ← joined, ih, List.map_cons,
      List.sum_cons]

def HANDOFF_SYSTEM_PROMPT : List Char :=
  joined ["You are generating a context handoff summary for the next ",
    "turn of an autonomous agent. Be concise but thorough. Cover: ",
    "what the original task was, what ", "you accomplished, key decisions made, what remains, ",
    "and one concrete next step. Output plain ", "text only — no tool calls, no JSON. ",
    "Stay under 8192 tokens."]

def clampBytes (s : List Char) (maxBytes : ℕ) : List Char :=
  if Utf8.len s ≤ maxBytes then s
  else if maxBytes < 4 then Utf8.sliceTo s (Utf8.floorCharBoundary s (min maxBytes (Utf8.len s)))
  else Utf8.sliceTo s (Utf8.floorCharBoundary s (maxBytes - 3)) ++ ['…']

def ToolResultContent.asTextLossy : ToolResultContent → List Char
  | text s => s.toList
  | image data mimeType => "[image: ".toList ++ mimeType.toList ++ ", ".toList ++
      (toString data.utf8ByteSize).toList ++ " base64 bytes]".toList

def ToolResult.text (r : ToolResult) : List Char :=
  ['\n'].intercalate (r.content.map ToolResultContent.asTextLossy)

def historySnippet : HistoryItem → List Char
  | .user s => "[user] ".toList ++ s.toList ++ ['\n']
  | .assistant text toolCalls => "[assistant] ".toList ++ text.toList ++
      (toolCalls.flatMap fun c ↦ " tool:".toList ++ c.name.toList) ++ ['\n']
  | .toolResult r =>
    (if r.isError then "[tool_err] ".toList else "[tool] ".toList) ++ r.text ++ ['\n']

def handoffPromptBudgetBytes (maxContextTokens maxOutputTokens fixedPromptBytes : ℕ) : ℕ :=
  maxContextTokens - maxOutputTokens - fixedPromptBytes

/-- The loop of `build_handoff_prompt`, with its snippets oldest first. -/
structure Snippets where
  snippets : List (List Char) := []
  bytes : ℕ := 0
  dropped : ℕ := 0
deriving DecidableEq

def addSnippet (promptBudget : ℕ) (snippet : List Char) (st : Snippets) : Snippets :=
  if promptBudget < st.bytes + Utf8.len snippet then
    if st.snippets = [] then ⟨[clampBytes snippet promptBudget], promptBudget, st.dropped + 1⟩
    else { st with dropped := st.dropped + 1 }
  else { st with snippets := snippet :: st.snippets, bytes := st.bytes + Utf8.len snippet }

def omissionLine (dropped : ℕ) : List Char :=
  if 0 < dropped then "(… ".toList ++ (toString dropped).toList ++ " older items omitted)\n".toList
  else []

section Prompt

variable (cfg : Config) (s : Session)

/-- Hooks are hidden from the model; every server counts as healthy here. -/
def mcpTools : List (String × String) := cfg.tools.filter fun t ↦ t.2.toList.head? ≠ some '_'

def toolNames : List Char :=
  let total := (mcpTools cfg).length
  if total = 0 then "(none)\n".toList
  else
    let shown := min total HANDOFF_MAX_TOOL_NAMES
    ", ".toList.intercalate (((mcpTools cfg).take shown).map fun t ↦ t.1.toList) ++
      (if shown < total then ", … (+".toList ++ (toString (total - shown)).toList ++ " more)".toList
      else []) ++ ['\n']

def promptHead : List Char :=
  "[Internal handoff #".toList ++ (toString (s.handoffCount + 1)).toList ++
    " — context reset]\n\n# Original Task\n".toList ++
    clampBytes (s.originalTask.getD "(unknown)").toList HANDOFF_ORIGINAL_TASK_MAX_BYTES ++
    ("\n\n# Available Tools\n".toList ++ toolNames cfg)

def promptTail : List Char :=
  joined ["\n# Instructions\n", "Produce a context handoff summary covering: ",
    "(1) original task, ", "(2) what was accomplished, (3) key decisions, ",
    "(4) what remains, ", "(5) one concrete next step. ", "Be concise but thorough. Plain text.\n"]

def historyHeader : List Char := "\n# Session History (oldest first)\n".toList

def promptBudget : ℕ :=
  handoffPromptBudgetBytes cfg.maxContextTokens HANDOFF_MAX_OUTPUT_TOKENS
    (Utf8.len (promptHead cfg s) + Utf8.len historyHeader + Utf8.len promptTail)

def promptSnippets : Snippets :=
  (s.history.map historySnippet).foldr (addSnippet (promptBudget cfg s)) {}

def buildHandoffPrompt : List Char :=
  promptHead cfg s ++ historyHeader ++ omissionLine (promptSnippets cfg s).dropped ++
    (promptSnippets cfg s).snippets.flatten ++ promptTail

end Prompt

section Loop

variable {B : ℕ} {texts : List (List Char)}

def textsLen (texts : List (List Char)) : ℕ := (texts.map Utf8.len).sum

@[simp] theorem textsLen_nil : textsLen [] = 0 := rfl

@[simp] theorem textsLen_cons (t : List Char) (texts : List (List Char)) :
    textsLen (t :: texts) = Utf8.len t + textsLen texts := rfl

theorem len_flatten (texts : List (List Char)) : Utf8.len texts.flatten = textsLen texts := by
  induction texts with
  | nil => rfl
  | cons t texts ih => rw [List.flatten_cons, Utf8.len_append, ih, textsLen_cons]

def newestRun (B : ℕ) : List (List Char) → List (List Char)
  | [] => []
  | t :: texts => if textsLen (t :: texts) ≤ B then t :: texts else newestRun B texts

theorem textsLen_newestRun_le (B : ℕ) (texts : List (List Char)) :
    textsLen (newestRun B texts) ≤ B := by
  induction texts with
  | nil => exact Nat.zero_le B
  | cons t texts ih =>
    rw [newestRun]
    split
    · assumption
    · exact ih

theorem newestRun_cases (B : ℕ) (texts : List (List Char)) :
    newestRun B texts = texts ∨ ∃ older b, texts = older ++ b :: newestRun B texts ∧
      B < Utf8.len b + textsLen (newestRun B texts) := by
  induction texts with
  | nil => exact .inl rfl
  | cons t texts ih =>
    rw [newestRun]
    split
    · exact .inl rfl
    · next hlt =>
      right
      rcases ih with hall | ⟨older, b, htexts, hb⟩
      · refine ⟨[], t, by rw [hall, List.nil_append], ?_⟩
        rw [hall]
        exact Nat.not_le.mp hlt
      · exact ⟨t :: older, b, by rw [List.cons_append, ← htexts], hb⟩

theorem foldr_addSnippet_of_fits (h : textsLen texts ≤ B) :
    texts.foldr (addSnippet B) {} = ⟨texts, textsLen texts, 0⟩ := by
  induction texts with
  | nil => rfl
  | cons t texts ih =>
    rw [textsLen_cons] at h ⊢
    rw [List.foldr_cons, ih (by omega), addSnippet, if_neg (by dsimp only; omega), Nat.add_comm]

/-- Once there are snippets, the loop goes on to add whatever older text still fits. -/
theorem foldr_addSnippet (B : ℕ) {st : Snippets} (hst : st.snippets ≠ [])
    (older : List (List Char)) :
    ∃ extra, (older.foldr (addSnippet B) st).snippets = extra ++ st.snippets ∧
      st.bytes ≤ (older.foldr (addSnippet B) st).bytes ∧
      (older.foldr (addSnippet B) st).dropped + extra.length = st.dropped + older.length ∧
      (∀ e ∈ extra, e ∈ older ∧ st.bytes + Utf8.len e ≤ B) ∧
      (extra = [] → (older.foldr (addSnippet B) st).bytes = st.bytes) ∧
      (extra = [] ↔ ∀ t ∈ older, B < st.bytes + Utf8.len t) := by
  induction older with
  | nil => exact ⟨[], by simp⟩
  | cons t older ih =>
    obtain ⟨extra, hsnippets, hbytes, hcount, hextra, hsame, hnil⟩ := ih
    rw [List.foldr_cons, addSnippet]
    split
    · next hover =>
      rw [if_neg (by simp [hsnippets, hst])]
      refine ⟨extra, hsnippets, hbytes, ?_, ?_, hsame, ?_⟩
      · rw [List.length_cons]
        dsimp only
        omega
      · exact fun e he ↦ ⟨List.mem_cons_of_mem t (hextra e he).1, (hextra e he).2⟩
      · rw [List.forall_mem_cons, ← hnil]
        constructor
        · intro h
          rw [hsame h] at hover
          exact ⟨hover, h⟩
        · exact And.right
    · next hfits =>
      refine ⟨t :: extra, by simp [hsnippets], ?_, ?_, ?_,
        fun h ↦ (List.cons_ne_nil _ _ h).elim, ?_⟩
      · dsimp only
        omega
      · rw [List.length_cons, List.length_cons]
        dsimp only
        omega
      · intro e he
        obtain rfl | he := List.mem_cons.mp he
        · exact ⟨List.mem_cons_self, by omega⟩
        · exact ⟨List.mem_cons_of_mem t (hextra e he).1, (hextra e he).2⟩
      · constructor
        · exact fun h ↦ (List.cons_ne_nil _ _ h).elim
        · intro h
          have hover := h t List.mem_cons_self
          omega

/-- The snippets are those of the newest texts, of which the oldest may be clamped, and the number
that is reported is that of the texts left out. -/
def KeepsNewest (texts : List (List Char)) (st : Snippets) : Prop :=
  ∃ older kept, texts = older ++ kept ∧ st.dropped = older.length ∧
    (st.snippets = kept ∨
      ∃ t rest m, kept = t :: rest ∧ st.snippets = clampBytes t m :: rest)

def IsSnippet (t : List Char) : Prop := 4 ≤ Utf8.len t ∧ t.getLast? = some '\n'

/-- A text cut short does not look like a snippet. -/
theorem clampBytes_eq_of_isSnippet {t : List Char} {m : ℕ} (h : IsSnippet (clampBytes t m)) :
    clampBytes t m = t := by
  obtain ⟨hlen, hlast⟩ := h
  rw [clampBytes] at hlen hlast ⊢
  split at hlen
  · next hle => rw [if_pos hle]
  · next hlt =>
    rw [if_neg hlt] at hlast
    split at hlen
    · rw [Utf8.len_sliceTo (Utf8.isCharBoundary_floor _ _)] at hlen
      have hfloor := Utf8.floor_le t (min m (Utf8.len t))
      omega
    · next hfour =>
      rw [if_neg hfour, List.getLast?_concat] at hlast
      exact absurd (Option.some.inj hlast) (by decide)

/-- A selection of as many texts that leaves out `b` is not the newest run beyond it. -/
theorem mem_of_keepsNewest {run extra mid rest : List (List Char)} {b t : List Char} {m : ℕ}
    (hextra : ∀ e ∈ extra, IsSnippet e) (hne : extra ≠ []) (hkept : mid ++ b :: run = t :: rest)
    (hclamped : extra ++ run = clampBytes t m :: rest) : b ∈ extra := by
  cases extra with
  | nil => exact (hne rfl).elim
  | cons e extra =>
    rw [List.cons_append] at hclamped
    obtain ⟨he, hrest⟩ := List.cons.inj hclamped
    cases mid with
    | nil =>
      obtain ⟨rfl, -⟩ := List.cons.inj hkept
      have hsnippet := hextra e List.mem_cons_self
      rw [he] at hsnippet
      rw [he, clampBytes_eq_of_isSnippet hsnippet]
      exact List.mem_cons_self
    | cons u mid =>
      rw [List.cons_append] at hkept
      obtain ⟨rfl, htail⟩ := List.cons.inj hkept
      rw [← hrest, ← List.singleton_append, ← List.append_assoc] at htail
      rw [← List.append_cancel_right htail]
      simp

def olderTexts (B : ℕ) (texts : List (List Char)) : List (List Char) :=
  texts.take (texts.length - (newestRun B texts).length)

theorem olderTexts_append {older run : List (List Char)} (htexts : texts = older ++ run)
    (hrun : newestRun B texts = run) : olderTexts B texts = older := by
  rw [olderTexts, hrun, htexts]
  apply List.take_left'
  rw [List.length_append, Nat.add_sub_cancel]

def NothingElseFits (B : ℕ) (texts : List (List Char)) : Prop :=
  (newestRun B texts = [] → texts = []) ∧
    ∀ t ∈ olderTexts B texts, B < textsLen (newestRun B texts) + Utf8.len t

theorem foldr_eq_of_nothingElseFits (h : NothingElseFits B texts) :
    (texts.foldr (addSnippet B) {}).snippets = newestRun B texts ∧
      (texts.foldr (addSnippet B) {}).dropped = (olderTexts B texts).length := by
  obtain ⟨hnewest, holder⟩ := h
  have hfits := textsLen_newestRun_le B texts
  rcases newestRun_cases B texts with hall | ⟨older, b, hsplit, hb⟩
  · rw [olderTexts_append (List.nil_append texts).symm hall, hall]
    rw [hall] at hfits
    rw [foldr_addSnippet_of_fits hfits]
    exact ⟨rfl, rfl⟩
  · have holderEq : olderTexts B texts = older ++ [b] :=
      olderTexts_append (by rw [hsplit]; simp [← hsplit]) rfl
    rw [holderEq] at holder ⊢
    generalize newestRun B texts = run at *
    subst hsplit
    have hrun : run ≠ [] := fun hempty ↦ absurd (hnewest hempty) (by simp)
    rw [List.foldr_append, List.foldr_cons, foldr_addSnippet_of_fits hfits, addSnippet,
      if_pos (by dsimp only; omega), if_neg hrun]
    simp only [Nat.zero_add]
    obtain ⟨extra, hsnippets, -, hcount, -, -, hnil⟩ := foldr_addSnippet B
      (show (Snippets.mk run (textsLen run) 1).snippets ≠ [] from hrun) older
    have hempty := hnil.mpr fun t ht ↦ holder t (List.mem_append_left _ ht)
    rw [hempty] at hsnippets hcount
    refine ⟨hsnippets, ?_⟩
    rw [List.length_append, List.length_singleton]
    simp only [List.length_nil] at hcount
    omega

theorem nothingElseFits_of_keepsNewest (htexts : ∀ t ∈ texts, IsSnippet t)
    (h : KeepsNewest texts (texts.foldr (addSnippet B) {})) : NothingElseFits B texts := by
  obtain ⟨older', kept, hparts, hdropped, hkept⟩ := h
  have hfits := textsLen_newestRun_le B texts
  rcases newestRun_cases B texts with hall | ⟨older, b, hsplit, hb⟩
  · refine ⟨fun hnone ↦ hall.symm.trans hnone, ?_⟩
    rw [olderTexts_append (List.nil_append texts).symm hall]
    exact List.forall_mem_nil _
  · have holderEq : olderTexts B texts = older ++ [b] :=
      olderTexts_append (by rw [hsplit]; simp [← hsplit]) rfl
    rw [NothingElseFits, holderEq]
    generalize newestRun B texts = run at *
    subst hsplit
    have holder : ∀ t ∈ older, IsSnippet t := fun t ht ↦ htexts t (List.mem_append_left _ ht)
    have hlength := congrArg List.length hparts
    rw [List.length_append, List.length_append, List.length_cons] at hlength
    rw [List.foldr_append, List.foldr_cons, foldr_addSnippet_of_fits hfits, addSnippet,
      if_pos (by dsimp only; omega)] at hdropped hkept
    by_cases hrun : run = []
    · -- The newest text was clamped: it counts among the dropped as well.
      rw [if_pos hrun] at hdropped hkept
      simp only [Nat.zero_add] at hdropped hkept
      obtain ⟨extra, hsnippets, -, hcount, -, -, hnil⟩ := foldr_addSnippet B
        (show (Snippets.mk [clampBytes b B] B 1).snippets ≠ [] from List.cons_ne_nil _ _) older
      dsimp only at hcount hnil
      have hextra := hnil.mpr fun t ht ↦ by
        have hlen := (holder t ht).1
        omega
      rw [hextra] at hsnippets
      simp only [hextra, hrun, List.length_nil] at hcount hlength
      have hempty : kept = [] := List.eq_nil_of_length_eq_zero (by omega)
      rw [hempty, hsnippets] at hkept
      rcases hkept with hkept | ⟨t, rest, m, hkept, -⟩
      · cases hkept
      · cases hkept
    · rw [if_neg hrun] at hdropped hkept
      simp only [Nat.zero_add] at hdropped hkept
      obtain ⟨extra, hsnippets, -, hcount, hextra, -, hnil⟩ := foldr_addSnippet B
        (show (Snippets.mk run (textsLen run) 1).snippets ≠ [] from hrun) older
      dsimp only at hsnippets hcount hextra hnil
      suffices hempty : extra = [] by
        refine ⟨fun hnone ↦ (hrun hnone).elim, fun t ht ↦ ?_⟩
        rcases List.mem_append.mp ht with ht | ht
        · exact hnil.mp hempty t ht
        · rw [List.mem_singleton.mp ht]
          omega
      by_contra hne
      have hpos := List.length_pos_iff.mpr hne
      have hkeptEq : kept = older.drop older'.length ++ b :: run := by
        rw [← List.drop_append_of_le_length (by omega), hparts, List.drop_left]
      have hmem : b ∈ extra := by
        rw [hsnippets] at hkept
        rcases hkept with hkept | ⟨t, rest, m, hcons, hclamped⟩
        · rw [hkeptEq, ← List.singleton_append, ← List.append_assoc] at hkept
          rw [List.append_cancel_right hkept]
          simp
        · exact mem_of_keepsNewest (fun e he ↦ holder e (hextra e he).1) hne
            (hkeptEq.symm.trans hcons) hclamped
      have hle := (hextra b hmem).2
      omega

theorem keepsNewest_iff (htexts : ∀ t ∈ texts, IsSnippet t) :
    KeepsNewest texts (texts.foldr (addSnippet B) {}) ↔ NothingElseFits B texts := by
  constructor
  · exact nothingElseFits_of_keepsNewest htexts
  · intro h
    obtain ⟨hsnippets, hdropped⟩ := foldr_eq_of_nothingElseFits h
    refine ⟨olderTexts B texts, newestRun B texts, ?_, hdropped, .inl hsnippets⟩
    rcases newestRun_cases B texts with hall | ⟨older, b, hsplit, -⟩
    · rw [olderTexts_append (List.nil_append texts).symm hall, hall, List.nil_append]
    · have hsplit' : texts = (older ++ [b]) ++ newestRun B texts := by
        rw [List.append_assoc, List.singleton_append, ← hsplit]
      rw [olderTexts_append hsplit' rfl, ← hsplit']

end Loop

theorem len_le_append (text text' : List Char) : Utf8.len text ≤ Utf8.len (text ++ text') := by
  rw [Utf8.len_append]
  exact Nat.le_add_right _ _

theorem isSnippet_historySnippet (item : HistoryItem) : IsSnippet (historySnippet item) := by
  have hnewline : Utf8.len ['\n'] = 1 := rfl
  have hlast (front body : List Char) (h : 3 ≤ Utf8.len front) :
      IsSnippet (front ++ body ++ ['\n']) := by
    refine ⟨?_, List.getLast?_concat⟩
    rw [Utf8.len_append, Utf8.len_append, hnewline]
    omega
  cases item with
  | user s => exact hlast _ _ (show 3 ≤ 7 by decide)
  | assistant text toolCalls =>
    apply hlast
    exact (show 3 ≤ 12 by decide).trans (len_le_append "[assistant] ".toList text.toList)
  | toolResult r =>
    apply hlast
    split
    · exact show 3 ≤ 11 by decide
    · exact show 3 ≤ 7 by decide

section Main

variable (cfg : Config) (s : Session)

def fixedBytes : ℕ :=
  Utf8.len HANDOFF_SYSTEM_PROMPT +
    (Utf8.len (promptHead cfg s) + Utf8.len historyHeader + Utf8.len promptTail)

def SummaryRequestOk : Prop :=
  Utf8.len HANDOFF_SYSTEM_PROMPT + Utf8.len (buildHandoffPrompt cfg s) +
      HANDOFF_MAX_OUTPUT_TOKENS ≤ cfg.maxContextTokens ∧
    KeepsNewest (s.history.map historySnippet) (promptSnippets cfg s)

def NewestRunFits : Prop :=
  NothingElseFits (promptBudget cfg s) (s.history.map historySnippet) ∧
    Utf8.len HANDOFF_SYSTEM_PROMPT +
      Utf8.len (omissionLine
        (olderTexts (promptBudget cfg s) (s.history.map historySnippet)).length) +
      textsLen (newestRun (promptBudget cfg s) (s.history.map historySnippet)) ≤ promptBudget cfg s

theorem len_buildHandoffPrompt : Utf8.len (buildHandoffPrompt cfg s) =
    Utf8.len (promptHead cfg s) + Utf8.len historyHeader +
      Utf8.len (omissionLine (promptSnippets cfg s).dropped) +
      textsLen (promptSnippets cfg s).snippets + Utf8.len promptTail := by
  rw [← len_flatten]
  exact len_append₅ _ _ _ _ _

/-- The request for a summary fits and keeps the newest history just when the newest run does. -/
theorem summaryRequestOk_iff
    (hfixed : fixedBytes cfg s + HANDOFF_MAX_OUTPUT_TOKENS ≤ cfg.maxContextTokens) :
    SummaryRequestOk cfg s ↔ NewestRunFits cfg s := by
  have hkeeps : KeepsNewest (s.history.map historySnippet) (promptSnippets cfg s) ↔
      NothingElseFits (promptBudget cfg s) (s.history.map historySnippet) := by
    apply keepsNewest_iff
    intro t ht
    obtain ⟨item, -, rfl⟩ := List.mem_map.mp ht
    exact isSnippet_historySnippet item
  rw [SummaryRequestOk, NewestRunFits, hkeeps, and_comm, and_congr_right_iff]
  intro hnothing
  obtain ⟨hsnippets, hdropped⟩ := foldr_eq_of_nothingElseFits hnothing
  rw [len_buildHandoffPrompt, promptSnippets, hsnippets, hdropped]
  rw [fixedBytes] at hfixed
  have hbudget : promptBudget cfg s = cfg.maxContextTokens - HANDOFF_MAX_OUTPUT_TOKENS -
    (Utf8.len (promptHead cfg s) + Utf8.len historyHeader + Utf8.len promptTail) := rfl
  omega

end Main

section SmallWindow

/-- A window that is filled but for the summary by the fixed parts of the request and one item. -/
def smallWindow : Config where
  maxRounds := 0
  stopMaxRejections := 3
  maxHandoffs := 10
  maxHistoryBytes := 16 * 1024 * 1024
  maxContextTokens := 9500
  maxOutputTokens := 1024
  toolTimeoutSecs := 60
  tools := []

def filledSession (n : ℕ) : Session :=
  { Session.new with history := [.user (String.ofList (List.replicate n 'a'))] }

theorem len_systemPrompt : Utf8.len HANDOFF_SYSTEM_PROMPT = 306 := len_joined _

theorem len_promptTail : Utf8.len promptTail = 208 := len_joined _

theorem len_historyHeader : Utf8.len historyHeader = 34 := rfl

theorem len_promptHead (n : ℕ) : Utf8.len (promptHead smallWindow (filledSession n)) = 93 := by
  have htask : clampBytes "(unknown)".toList HANDOFF_ORIGINAL_TASK_MAX_BYTES =
      "(unknown)".toList := if_pos (by decide)
  have htools : Utf8.len ("\n\n# Available Tools\n".toList ++ toolNames smallWindow) = 27 := rfl
  have hopen : Utf8.len "[Internal handoff #".toList = 19 := rfl
  have hnumber : Utf8.len (toString 1).toList = 1 := rfl
  have htitle : Utf8.len " — context reset]\n\n# Original Task\n".toList = 37 := rfl
  have hunknown : Utf8.len "(unknown)".toList = 9 := rfl
  have hhead : Utf8.len (promptHead smallWindow (filledSession n)) =
      Utf8.len "[Internal handoff #".toList + Utf8.len (toString 1).toList +
        Utf8.len " — context reset]\n\n# Original Task\n".toList +
        Utf8.len (clampBytes "(unknown)".toList HANDOFF_ORIGINAL_TASK_MAX_BYTES) +
        Utf8.len ("\n\n# Available Tools\n".toList ++ toolNames smallWindow) :=
    len_append₅ _ _ _ _ _
  rw [htask] at hhead
  omega

theorem textsLen_filled (n : ℕ) :
    textsLen ((filledSession n).history.map historySnippet) = n + 8 := by
  have hopen : Utf8.len "[user] ".toList = 7 := rfl
  have hitem : Utf8.len (String.ofList (List.replicate n 'a')).toList = n := by
    rw [String.toList_ofList, Utf8.len_replicate]
    exact Nat.mul_one n
  have hsum : textsLen ((filledSession n).history.map historySnippet) =
      Utf8.len [] + Utf8.len "[user] ".toList +
        Utf8.len (String.ofList (List.replicate n 'a')).toList + Utf8.len ['\n'] + Utf8.len [] :=
    (Nat.add_zero _).trans ((congrArg Utf8.len (List.append_nil _).symm).trans
      (len_append₅ [] _ _ _ []))
  have hnewline : Utf8.len ['\n'] = 1 := rfl
  have hnil : Utf8.len [] = 0 := rfl
  omega

theorem promptBudget_small (n : ℕ) : promptBudget smallWindow (filledSession n) = 973 := by
  rw [promptBudget, len_promptHead, len_historyHeader, len_promptTail]
  rfl

theorem fixedBytes_small (n : ℕ) :
    fixedBytes smallWindow (filledSession n) + HANDOFF_MAX_OUTPUT_TOKENS ≤
      smallWindow.maxContextTokens := by
  rw [fixedBytes, len_systemPrompt, len_promptHead, len_historyHeader, len_promptTail]
  decide

theorem shortSession_ok : fixedBytes smallWindow (filledSession 100) + HANDOFF_MAX_OUTPUT_TOKENS ≤
      smallWindow.maxContextTokens ∧
    (SummaryRequestOk smallWindow (filledSession 100) ↔
      NewestRunFits smallWindow (filledSession 100)) :=
  ⟨fixedBytes_small 100,
    summaryRequestOk_iff smallWindow (filledSession 100) (fixedBytes_small 100)⟩

theorem len_prompt_small {n : ℕ} (h : n + 8 ≤ 973) :
    Utf8.len (buildHandoffPrompt smallWindow (filledSession n)) = n + 343 := by
  have hsnippets : promptSnippets smallWindow (filledSession n) =
      ⟨(filledSession n).history.map historySnippet, n + 8, 0⟩ := by
    rw [promptSnippets, promptBudget_small, ← textsLen_filled n]
    apply foldr_addSnippet_of_fits
    rw [textsLen_filled]
    exact h
  have hlen := len_buildHandoffPrompt smallWindow (filledSession n)
  have hsum := textsLen_filled n
  have homission : Utf8.len (omissionLine 0) = 0 := rfl
  rw [hsnippets, len_promptHead, len_historyHeader, len_promptTail, homission, hsum] at hlen
  omega

/-- The item fits what the budget leaves of the window, and the system prompt does not any more. -/
theorem filled_window_overflows :
    fixedBytes smallWindow (filledSession 900) + HANDOFF_MAX_OUTPUT_TOKENS ≤
      smallWindow.maxContextTokens ∧
    smallWindow.maxContextTokens < Utf8.len HANDOFF_SYSTEM_PROMPT +
      Utf8.len (buildHandoffPrompt smallWindow (filledSession 900)) +
      HANDOFF_MAX_OUTPUT_TOKENS := by
  refine ⟨fixedBytes_small 900, ?_⟩
  rw [len_systemPrompt, len_prompt_small (by decide)]
  decide

end SmallWindow

end Buzz.Agent
