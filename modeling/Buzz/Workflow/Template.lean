import Buzz.Lib.Attempt
import Buzz.Lib.Collections
import Buzz.Lib.Decimal
import Buzz.Lib.Json
import Buzz.Lib.Texts

namespace Buzz.Workflow

open Buzz.Lib Buzz.Lib.Decimal

inductive WorkflowError
  | templateError (msg : String)
  | conditionError (msg : String)
  | invalidDefinition (msg : String)
deriving DecidableEq, Repr

/-- The data of the event that starts a run. -/
structure TriggerContext where
  text : String
  author : String
  channelId : String
  timestamp : String
  emoji : String
  messageId : String
  webhookFields : Map String String

def TriggerContext.getField (ctx : TriggerContext) (name : String) : Option String :=
  if name = "text" then some ctx.text
  else if name = "author" then some ctx.author
  else if name = "channel_id" then some ctx.channelId
  else if name = "timestamp" then some ctx.timestamp
  else if name = "emoji" then some ctx.emoji
  else if name = "message_id" then some ctx.messageId
  else ctx.webhookFields.lookup name

abbrev StepOutputs := Map String Json

def jsonToString : Json → String
  | .str s => s
  | .bool b => if b then "true" else "false"
  | .num lexeme => lexeme
  | .null => ""
  | v => String.ofList v.render

def jsonGetStr (v : Json) (key : String) : Option String :=
  match v with
  | .obj fields => (fields.lookup key).map jsonToString
  | _ => none

/-- What a template is resolved against; `npub` is the bech32 form of a hex pubkey. -/
structure Scope where
  U : Unicode
  npub : String → Option String
  trigger : TriggerContext
  outputs : StepOutputs

namespace Scope

variable (S : Scope)

def resolveVariable (path : List Char) : Option String :=
  match List.isPrefixOf? "trigger.".toList path with
  | some field => S.trigger.getField (String.ofList field)
  | none => do
    let rest ← List.isPrefixOf? "steps.".toList path
    let (stepId, rest) ← splitOnce '.' rest
    let (middle, field) ← splitOnce '.' rest
    if middle ≠ "output".toList then none
    else
      let output ← S.outputs.lookup (String.ofList stepId)
      jsonGetStr output (String.ofList field)

def truncateArg (filter : List Char) : Option (List Char) :=
  (List.isPrefixOf? "truncate(".toList filter).bind fun s ↦
    if s.getLast? = some ')' then some s.dropLast else none

def applyFilter (value : String) (filter : List Char) : Except WorkflowError String :=
  let filter := S.U.trim filter
  match truncateArg filter with
  | some inner =>
    match parseU64 (String.ofList (S.U.trim inner)) with
    | some n => .ok (String.ofList (value.toList.take n.toNat))
    | none => .error (.templateError ("truncate() requires a number, got: " ++ String.ofList inner))
  | none =>
    if filter = "npub".toList ∨ filter = "truncate_pubkey".toList then
      .ok ((S.npub value).getD value)
    else .error (.templateError ("unknown filter: " ++ String.ofList filter))

def parseExpr (expr : List Char) : List Char × Option (List Char) :=
  match splitOnce '|' expr with
  | none => (S.U.trim expr, none)
  | some (path, filter) => (S.U.trim path, some (S.U.trim filter))

def valueOf (expr : List Char) : Option (Except WorkflowError String) :=
  let (path, filter) := S.parseExpr (S.U.trim expr)
  (S.resolveVariable path).map fun v ↦
    match filter with
    | some f => S.applyFilter v f
    | none => .ok v

def openBraces : List Char := ['{', '{']

def closeBraces : List Char := ['}', '}']

def resolvePlaceholder (expr : List Char) : Except WorkflowError (List Char) :=
  match S.valueOf expr with
  | some value => value.map String.toList
  | none => .ok (openBraces ++ (S.U.trim expr ++ closeBraces))

def resolveLoop (result remaining : List Char) : Except WorkflowError (List Char) :=
  match _hopen : splitOnceStr openBraces remaining with
  | none => .ok (result ++ remaining)
  | some (before, rest) =>
    match _hclose : splitOnceStr closeBraces rest with
    | none => .ok (result ++ (before ++ (openBraces ++ rest)))
    | some (expr, rest') =>
      match S.resolvePlaceholder expr with
      | .error e => .error e
      | .ok value => resolveLoop (result ++ (before ++ value)) rest'
termination_by remaining.length
decreasing_by
  have hbefore := ((splitOnceStr_eq_some (by decide)).mp _hopen).1
  have hrest := ((splitOnceStr_eq_some (by decide)).mp _hclose).1
  rw [hbefore, hrest]
  simp only [openBraces, List.length_append, List.length_cons]
  omega

def resolveTemplate (template : String) : Except WorkflowError String :=
  if splitOnceStr openBraces template.toList = none then .ok template
  else (S.resolveLoop [] template.toList).map String.ofList

end Scope

inductive ActionDef
  | sendMessage (text : String) (channel : Option String)
  | sendDm (recipient text : String)
  | setChannelTopic (topic : String)
  | addReaction (emoji : String)
  | callWebhook (url : String) (method : Option String) (headers : Option (List (String × String)))
      (body : Option String)
  | requestApproval (approver message : String) (timeout : Option String)
  | delay (duration : String)
deriving DecidableEq, Repr

structure Placeholder where
  before : List Char
  expr : List Char

inductive Scans : List Char → List Placeholder → List Char → Prop
  | stop {text : List Char}
      (hnone : ∀ b expr a, text ≠ b ++ (Scope.openBraces ++ (expr ++ (Scope.closeBraces ++ a)))) :
      Scans text [] text
  | next {text before rest expr rest' tail : List Char} {ps : List Placeholder}
      (hopen : FirstBetween Scope.openBraces text before rest)
      (hclose : FirstBetween Scope.closeBraces rest expr rest') (h : Scans rest' ps tail) :
      Scans text (⟨before, expr⟩ :: ps) tail

/-- The text with something put in the place of each placeholder. -/
def fill (f : List Char → Except WorkflowError (List Char)) :
    List Placeholder → List Char → Except WorkflowError (List Char)
  | [], tail => .ok tail
  | p :: ps, tail => do
    let value ← f p.expr
    let rest ← fill f ps tail
    return p.before ++ (value ++ rest)

namespace Scope

variable (S : Scope)

/-- A known path gives way to its value, and the rest of a placeholder stays as it is. -/
def replacement (expr : List Char) : Except WorkflowError (List Char) :=
  match S.valueOf expr with
  | some value => value.map String.toList
  | none => .ok (openBraces ++ (expr ++ closeBraces))

/-- The template has its placeholders replaced, once, and nothing but an invalid filter of a known
path makes it fail. -/
structure SubstitutesOnce (template : String) : Prop where
  result : ∃ ps tail, Scans template.toList ps tail ∧
    S.resolveTemplate template = (fill S.replacement ps tail).map String.ofList
  fails : ∀ err, S.resolveTemplate template = .error err →
    ∃ ps tail, Scans template.toList ps tail ∧ ∃ p ∈ ps, S.valueOf p.expr = some (.error err)

/-- No placeholder with an unknown path has white space inside its braces at either end, or the
template fails for the filter of another. -/
def UnknownUnpadded (template : String) : Prop :=
  ∀ ps tail, Scans template.toList ps tail →
    (∃ p ∈ ps, ∃ err, S.valueOf p.expr = some (.error err)) ∨
      ∀ p ∈ ps, S.valueOf p.expr = none → S.U.trim p.expr = p.expr

end Scope

section Scans

variable {text before rest expr rest' tail tail' : List Char} {ps ps' : List Placeholder}

theorem splitOpen_eq_some : splitOnceStr Scope.openBraces text = some (before, rest) ↔
    FirstBetween Scope.openBraces text before rest :=
  splitOnceStr_eq_some (by decide)

theorem splitClose_eq_some : splitOnceStr Scope.closeBraces text = some (before, rest) ↔
    FirstBetween Scope.closeBraces text before rest :=
  splitOnceStr_eq_some (by decide)

theorem Scans.of_unopened (h : splitOnceStr Scope.openBraces text = none) : Scans text [] text :=
  .stop fun b _ _ ↦ (splitOnceStr_eq_none (by decide)).mp h b _

theorem Scans.of_unclosed (hopen : FirstBetween Scope.openBraces text before rest)
    (h : splitOnceStr Scope.closeBraces rest = none) : Scans text [] text := by
  refine .stop fun b expr a heq ↦ ?_
  obtain ⟨x, hx⟩ := hopen.suffix heq
  refine (splitOnceStr_eq_none (by decide)).mp h (x ++ expr) a ?_
  rw [← hx, List.append_assoc]

theorem not_first_of_stop
    (hnone : ∀ b expr a, text ≠ b ++ (Scope.openBraces ++ (expr ++ (Scope.closeBraces ++ a))))
    (hopen : FirstBetween Scope.openBraces text before rest) :
    ¬FirstBetween Scope.closeBraces rest expr rest' := fun hclose ↦
  hnone before expr rest' (by rw [hopen.1, hclose.1])

theorem length_lt_of_first (hopen : FirstBetween Scope.openBraces text before rest)
    (hclose : FirstBetween Scope.closeBraces rest expr rest') : rest'.length < text.length := by
  rw [hopen.1, hclose.1]
  simp only [Scope.openBraces, List.length_append, List.length_cons]
  omega

theorem exists_scans (text : List Char) : ∃ ps tail, Scans text ps tail := by
  induction hlen : text.length using Nat.strong_induction_on generalizing text with
  | _ n ih =>
    cases hopen : splitOnceStr Scope.openBraces text with
    | none => exact ⟨[], text, .of_unopened hopen⟩
    | some split =>
      have hfirst := splitOpen_eq_some.mp hopen
      cases hclose : splitOnceStr Scope.closeBraces split.2 with
      | none => exact ⟨[], text, .of_unclosed hfirst hclose⟩
      | some split' =>
        have hnext := splitClose_eq_some.mp hclose
        obtain ⟨ps, tail, h⟩ := ih _ (hlen ▸ length_lt_of_first hfirst hnext) split'.2 rfl
        exact ⟨_, tail, .next hfirst hnext h⟩

theorem Scans.unique (h : Scans text ps tail) (h' : Scans text ps' tail') :
    ps = ps' ∧ tail = tail' := by
  induction h generalizing ps' tail' with
  | stop hnone =>
    cases h' with
    | stop => exact ⟨rfl, rfl⟩
    | next hopen hclose => exact absurd hclose (not_first_of_stop hnone hopen)
  | next hopen hclose _ ih =>
    cases h' with
    | stop hnone => exact absurd hclose (not_first_of_stop hnone hopen)
    | next hopen' hclose' h' =>
      have heq := (splitOpen_eq_some.mpr hopen).symm.trans (splitOpen_eq_some.mpr hopen')
      cases heq
      have heq := (splitClose_eq_some.mpr hclose).symm.trans (splitClose_eq_some.mpr hclose')
      cases heq
      obtain ⟨rfl, rfl⟩ := ih h'
      exact ⟨rfl, rfl⟩

end Scans

section Fill

variable {f g : List Char → Except WorkflowError (List Char)} {tail : List Char}
  {ps : List Placeholder} {err : WorkflowError}

theorem mem_of_fill_error (h : fill f ps tail = .error err) : ∃ p ∈ ps, f p.expr = .error err := by
  induction ps with
  | nil => cases h
  | cons p ps ih =>
    cases hp : f p.expr with
    | error e =>
      simp only [fill, hp, bind, Except.bind] at h
      cases h
      exact ⟨p, List.mem_cons_self, hp⟩
    | ok value =>
      cases hps : fill f ps tail with
      | error e =>
        simp only [fill, hp, hps, bind, Except.bind] at h
        obtain ⟨q, hq, herr⟩ := ih (hps.trans h)
        exact ⟨q, List.mem_cons_of_mem _ hq, herr⟩
      | ok rest =>
        simp only [fill, hp, hps, bind, Except.bind] at h
        cases h

end Fill

namespace Scope

variable {S : Scope} {text tail expr result : List Char} {ps : List Placeholder}

theorem resolveLoop_eq (h : Scans text ps tail) (result : List Char) :
    S.resolveLoop result text = (fill S.resolvePlaceholder ps tail).map (result ++ ·) := by
  induction h generalizing result with
  | @stop text hnone =>
    rw [resolveLoop]
    split
    · rfl
    · next before rest hopen =>
      have hfirst := splitOpen_eq_some.mp hopen
      split
      · rw [← hfirst.1]
        rfl
      · next hclose =>
        exact absurd (splitClose_eq_some.mp hclose) (not_first_of_stop hnone hfirst)
  | @next text before rest expr rest' tail ps hopen hclose h ih =>
    rw [resolveLoop]
    split
    · next hnone =>
      rw [splitOpen_eq_some.mpr hopen] at hnone
      cases hnone
    · next hsome =>
      rw [splitOpen_eq_some.mpr hopen] at hsome
      cases hsome
      split
      · next hnone =>
        rw [splitClose_eq_some.mpr hclose] at hnone
        cases hnone
      · next hsome =>
        rw [splitClose_eq_some.mpr hclose] at hsome
        cases hsome
        rw [fill]
        cases hvalue : S.resolvePlaceholder expr with
        | error e => rfl
        | ok value =>
          simp only [ih]
          cases fill S.resolvePlaceholder ps tail with
          | error e => rfl
          | ok filled =>
            change Except.ok _ = Except.ok _
            simp only [List.append_assoc]

theorem resolvePlaceholder_of_some {value : Except WorkflowError String}
    (h : S.valueOf expr = some value) : S.resolvePlaceholder expr = value.map String.toList := by
  rw [resolvePlaceholder, h]

theorem replacement_of_some {value : Except WorkflowError String}
    (h : S.valueOf expr = some value) : S.replacement expr = value.map String.toList := by
  rw [replacement, h]

theorem resolvePlaceholder_of_none (h : S.valueOf expr = none) :
    S.resolvePlaceholder expr = .ok (openBraces ++ (S.U.trim expr ++ closeBraces)) := by
  rw [resolvePlaceholder, h]

theorem replacement_of_none (h : S.valueOf expr = none) :
    S.replacement expr = .ok (openBraces ++ (expr ++ closeBraces)) := by
  rw [replacement, h]

/-- Both fail for the first invalid filter, or what the code puts out is the shorter by the white
space inside the braces of unknown paths. -/
theorem fill_cases (ps : List Placeholder) (tail : List Char) :
    ((∃ p ∈ ps, ∃ err, S.valueOf p.expr = some (.error err)) ∧
      ∃ err, fill S.resolvePlaceholder ps tail = .error err ∧
        fill S.replacement ps tail = .error err) ∨
    ((∀ p ∈ ps, ∀ err, S.valueOf p.expr ≠ some (.error err)) ∧
      ∃ short long, fill S.resolvePlaceholder ps tail = .ok short ∧
        fill S.replacement ps tail = .ok long ∧ short.length ≤ long.length ∧
        (short = long ↔ ∀ p ∈ ps, S.valueOf p.expr = none → S.U.trim p.expr = p.expr)) := by
  induction ps with
  | nil => exact .inr ⟨by simp, tail, tail, rfl, rfl, Nat.le_refl _, by simp⟩
  | cons p ps ih =>
    cases hvalue : S.valueOf p.expr with
    | some value =>
      cases value with
      | error err =>
        refine .inl ⟨⟨p, List.mem_cons_self, err, hvalue⟩, err, ?_, ?_⟩
        · rw [fill, resolvePlaceholder_of_some hvalue]
          rfl
        · rw [fill, replacement_of_some hvalue]
          rfl
      | ok v =>
        rw [fill, fill, resolvePlaceholder_of_some hvalue, replacement_of_some hvalue]
        obtain ⟨⟨q, hq, herr⟩, err, hres, hrep⟩ | ⟨hvalid, short, long, hres, hrep, hle, heq⟩ := ih
        · rw [hres, hrep]
          exact .inl ⟨⟨q, List.mem_cons_of_mem _ hq, herr⟩, err, rfl, rfl⟩
        · rw [hres, hrep]
          refine .inr ⟨?_, _, _, rfl, rfl, ?_, ?_⟩
          · simpa [hvalue] using hvalid
          · simpa using hle
          · simpa [hvalue] using heq
    | none =>
      rw [fill, fill, resolvePlaceholder_of_none hvalue, replacement_of_none hvalue]
      obtain ⟨⟨q, hq, herr⟩, err, hres, hrep⟩ | ⟨hvalid, short, long, hres, hrep, hle, heq⟩ := ih
      · rw [hres, hrep]
        exact .inl ⟨⟨q, List.mem_cons_of_mem _ hq, herr⟩, err, rfl, rfl⟩
      · rw [hres, hrep]
        have htrim := (S.U.trim_sublist p.expr).length_le
        refine .inr ⟨?_, _, _, rfl, rfl, ?_, ?_⟩
        · simpa [hvalue] using hvalid
        · simp only [List.length_append]
          omega
        · rw [List.forall_mem_cons, ← heq]
          constructor
          · intro h
            have hlength := congrArg List.length h
            simp only [List.length_append] at hlength
            have hsame := (S.U.trim_sublist p.expr).eq_of_length (by omega)
            rw [hsame] at h
            exact ⟨fun _ ↦ hsame, by simpa using h⟩
          · rintro ⟨hsame, rfl⟩
            rw [hsame hvalue]

theorem resolveTemplate_eq {template : String} (h : Scans template.toList ps tail) :
    S.resolveTemplate template = (fill S.resolvePlaceholder ps tail).map String.ofList := by
  rw [resolveTemplate]
  split
  · next hnone =>
    obtain ⟨rfl, rfl⟩ := (Scans.of_unopened hnone).unique h
    rw [fill, Except.map, String.ofList_toList]
  · rw [resolveLoop_eq h]
    cases fill S.resolvePlaceholder ps tail <;> rfl

theorem valueOf_of_error {err : WorkflowError} (h : S.resolvePlaceholder expr = .error err) :
    S.valueOf expr = some (.error err) := by
  cases hvalue : S.valueOf expr with
  | none =>
    rw [resolvePlaceholder_of_none hvalue] at h
    cases h
  | some value =>
    rw [resolvePlaceholder_of_some hvalue] at h
    cases value with
    | error e =>
      cases h
      rfl
    | ok v => cases h

theorem exists_invalid {template : String} {err : WorkflowError}
    (hscans : Scans template.toList ps tail) (h : S.resolveTemplate template = .error err) :
    ∃ p ∈ ps, S.valueOf p.expr = some (.error err) := by
  rw [resolveTemplate_eq hscans] at h
  cases hfill : fill S.resolvePlaceholder ps tail with
  | error e =>
    rw [hfill] at h
    cases h
    obtain ⟨p, hp, hexpr⟩ := mem_of_fill_error hfill
    exact ⟨p, hp, valueOf_of_error hexpr⟩
  | ok filled =>
    rw [hfill] at h
    cases h

/-- Resolving a template is its substitution, but for the white space around unknown paths. -/
theorem substitutesOnce_iff (S : Scope) (template : String) :
    S.SubstitutesOnce template ↔ S.UnknownUnpadded template := by
  constructor
  · rintro ⟨⟨ps, tail, hscans, heq⟩, -⟩ ps' tail' hscans'
    obtain ⟨rfl, rfl⟩ := hscans.unique hscans'
    rw [resolveTemplate_eq hscans] at heq
    obtain ⟨hinvalid, -⟩ | ⟨-, short, long, hres, hrep, -, hsame⟩ := S.fill_cases ps tail
    · exact .inl hinvalid
    · rw [hres, hrep] at heq
      exact .inr (hsame.mp (String.ofList_injective (Except.ok.inj heq)))
  · intro hunpadded
    obtain ⟨ps, tail, hscans⟩ := exists_scans template.toList
    refine ⟨⟨ps, tail, hscans, ?_⟩, fun err herr ↦ ⟨ps, tail, hscans, exists_invalid hscans herr⟩⟩
    rw [resolveTemplate_eq hscans]
    obtain ⟨-, err, hres, hrep⟩ | ⟨hvalid, short, long, hres, hrep, -, hsame⟩ :=
      S.fill_cases ps tail
    · rw [hres, hrep]
    · obtain ⟨p, hp, err, herr⟩ | hall := hunpadded ps tail hscans
      · exact absurd herr (hvalid p hp err)
      · rw [hres, hrep, hsame.mpr hall]

def sampleScope : Scope where
  U := .ascii
  npub _ := none
  trigger := ⟨"P1 incident", "", "", "", "", "", ∅⟩
  outputs := ∅

/-- An unknown placeholder loses the white space inside its braces. -/
theorem unknown_placeholder_trimmed :
    ¬sampleScope.SubstitutesOnce "\x7b\x7b unknown.var \x7d\x7d" := by
  rintro ⟨⟨ps, tail, hscans, heq⟩, -⟩
  have hopen : splitOnceStr openBraces "\x7b\x7b unknown.var \x7d\x7d".toList =
      some ([], " unknown.var \x7d\x7d".toList) := by decide
  have hclose : splitOnceStr closeBraces " unknown.var \x7d\x7d".toList =
      some (" unknown.var ".toList, []) := by decide
  have hscans' := Scans.next (splitOpen_eq_some.mp hopen) (splitClose_eq_some.mp hclose)
    (.of_unopened rfl)
  obtain ⟨rfl, rfl⟩ := hscans.unique hscans'
  have hnone : sampleScope.valueOf " unknown.var ".toList = none :=
    Option.isNone_iff_eq_none.mp (by decide)
  rw [resolveTemplate_eq hscans, fill, fill, resolvePlaceholder_of_none hnone, fill, fill,
    replacement_of_none hnone] at heq
  have hlists := String.ofList_injective (Except.ok.inj heq)
  exact absurd hlists (by decide)

end Scope

end Buzz.Workflow
