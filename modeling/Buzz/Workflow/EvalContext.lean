import Buzz.Workflow.Template

namespace Buzz.Workflow

open Buzz.Lib Buzz.Lib.Decimal

inductive TriggerDef
  | messagePosted (filter : Option String)
  | reactionAdded (emoji : Option String)
  | diffPosted (filter : Option String)
  | schedule (cron interval : Option String)
  | webhook
deriving DecidableEq, Repr

structure Step where
  id : String
  name : Option String := none
  ifExpr : Option String := none
  timeoutSecs : Option UInt64 := none
  action : ActionDef
deriving DecidableEq, Repr

structure WorkflowDef where
  name : String
  description : Option String := none
  trigger : TriggerDef
  steps : List Step
  enabled : Bool := true
deriving DecidableEq, Repr

section Schema

variable (U : Unicode) (cronError : String → Option String)

def stripSuffix (c : Char) (text : List Char) : Option (List Char) :=
  if text.getLast? = some c then some text.dropLast else none

def parseCount (duration n : List Char) (unit : ℕ) : Except WorkflowError ℕ := do
  let count ← okOr (parseU64 (String.ofList (U.trim n)))
    (.invalidDefinition ("invalid duration: " ++ String.ofList duration))
  if count.toNat * unit < 2 ^ 64 then return count.toNat * unit
  else .error (.invalidDefinition ("duration overflow: " ++ String.ofList duration))

def parseDurationSecs (duration : String) : Except WorkflowError ℕ :=
  let duration := U.trim duration.toList
  match stripSuffix 'h' duration, stripSuffix 'm' duration, stripSuffix 's' duration with
  | some n, _, _ => parseCount U duration n 3600
  | none, some n, _ => parseCount U duration n 60
  | none, none, some n => parseCount U duration n 1
  | none, none, none =>
    match parseU64 (String.ofList duration) with
    | some n => .ok n.toNat
    | none => .error (.invalidDefinition ("invalid duration: " ++ String.ofList duration))

def validStepId (id : String) : Bool :=
  id ≠ "" && id.utf8ByteSize ≤ 64 && id.toList.all fun c ↦ c.isAlphanum || c = '_'

def validateSteps : List String → List Step → Except WorkflowError Unit
  | _, [] => .ok ()
  | seenIds, step :: steps => do
    require (U.trim step.id.toList ≠ []) (.invalidDefinition "step id must not be empty")
    require (validStepId step.id) (.invalidDefinition ("step id '" ++ step.id ++
      "' is invalid: must contain only alphanumeric characters and underscores"))
    require (step.id ∉ seenIds) (.invalidDefinition ("duplicate step id: " ++ step.id))
    validateSteps (step.id :: seenIds) steps

def validateSchedule (cron interval : Option String) : Except WorkflowError Unit := do
  require (cron.isSome ∨ interval.isSome)
    (.invalidDefinition "schedule trigger requires either 'cron' or 'interval'")
  require (¬(cron.isSome ∧ interval.isSome)) (.invalidDefinition
    "schedule trigger cannot specify both 'cron' and 'interval'; use one or the other")
  match cron.bind fun expr ↦ (cronError expr).map (expr, ·) with
  | some (expr, e) => .error (.invalidDefinition
      ("invalid cron expression '" ++ expr ++ "': " ++ e))
  | none =>
    match interval with
    | none => .ok ()
    | some dur =>
      match parseDurationSecs U dur with
      | .error _ => .error (.invalidDefinition ("invalid interval '" ++ dur ++
          "': expected a duration like '30m', '1h', or '60s'"))
      | .ok secs => require (60 ≤ secs) (.invalidDefinition
          "interval must be at least 60s (cron loop ticks every 60 seconds)")

def WorkflowDef.validate (workflow : WorkflowDef) : Except WorkflowError Unit := do
  require (U.trim workflow.name.toList ≠ [])
    (.invalidDefinition "name is required and must not be empty")
  require (workflow.steps ≠ []) (.invalidDefinition "at least one step is required")
  validateSteps U [] workflow.steps
  match workflow.trigger with
  | .schedule cron interval => validateSchedule U cronError cron interval
  | _ => .ok ()

end Schema

inductive ValueType
  | string
  | float
  | int
  | boolean
  | empty
deriving DecidableEq, Repr

/-- A value of the expression language. A float is told by the text of the number it is read from.
-/
inductive EvalValue
  | string (s : String)
  | float (lexeme : String)
  | int (n : ℤ)
  | boolean (b : Bool)
  | empty
deriving DecidableEq, Repr

def EvalValue.type : EvalValue → ValueType
  | string _ => .string
  | float _ => .float
  | int _ => .int
  | boolean _ => .boolean
  | empty => .empty

inductive EvalFunction
  | strContains
  | strStartsWith
  | strEndsWith
  | strLen
deriving DecidableEq, Repr

/-- `HashMapContext` and the evaluation of boolean expressions. -/
structure Evalexpr where
  Context : Type
  new : Context
  setFunction : Context → String → EvalFunction → Except String Context
  setValue : Context → String → EvalValue → Except String Context
  getValue : Context → String → Option EvalValue
  getFunction : Context → String → Option EvalFunction
  evalBoolean : String → Context → Except String Bool

/-- What is documented of a `HashMapContext`: values and functions are stored independently, and a
value can be replaced by one of its own type only. -/
structure Evalexpr.TypeSafe (E : Evalexpr) : Prop where
  getValue_new : ∀ name, E.getValue E.new name = none
  setFunction_ok : ∀ c name f, ∃ c', E.setFunction c name f = .ok c' ∧
    ∀ n, E.getValue c' n = E.getValue c n
  setValue_ok : ∀ c name value, (∀ old ∈ E.getValue c name, old.type = value.type) →
    ∃ c', E.setValue c name value = .ok c' ∧
      (∀ n, E.getValue c' n = if name = n then some value else E.getValue c n) ∧
      ∀ n, E.getFunction c' n = E.getFunction c n
  setValue_error : ∀ c name value, ∀ old ∈ E.getValue c name, old.type ≠ value.type →
    ∃ e, E.setValue c name value = .error e
  eval_congr : ∀ c c' expr, (∀ n, E.getValue c n = E.getValue c' n) →
    (∀ n, E.getFunction c n = E.getFunction c' n) → E.evalBoolean expr c = E.evalBoolean expr c'

/-- `Number::as_i64`. A negative zero is a float. -/
def asI64 (lexeme : String) : Option ℤ :=
  match lexeme.toList with
  | '-' :: digits => (parseDigits digits).bind fun n ↦
      if 0 < n ∧ n ≤ 2 ^ 63 then some (-n) else none
  | digits => (parseDigits digits).bind fun n ↦ if n < 2 ^ 63 then some n else none

def jsonValueToEval : Json → EvalValue
  | .str s => .string s
  | .bool b => .boolean b
  | .num lexeme =>
    match asI64 lexeme with
    | some n => .int n
    | none => .float lexeme
  | .null => .empty
  | v => .string (String.ofList v.render)

def TriggerContext.standardFields (trigger : TriggerContext) : List (String × String) :=
  [("text", trigger.text), ("author", trigger.author), ("channel_id", trigger.channelId),
    ("timestamp", trigger.timestamp), ("emoji", trigger.emoji), ("message_id", trigger.messageId)]

def triggerVar (field : String) : String := "trigger_" ++ field

def stepVar (stepId field : String) : String := "steps_" ++ stepId ++ "_output_" ++ field

namespace Evalexpr

variable (E : Evalexpr)

def setFunctions : Except String E.Context := do
  let c ← E.setFunction E.new "str_contains" .strContains
  let c ← E.setFunction c "str_starts_with" .strStartsWith
  let c ← E.setFunction c "str_ends_with" .strEndsWith
  E.setFunction c "str_len" .strLen

def setAll (c : E.Context) (vars : List (String × EvalValue)) : Except String E.Context :=
  vars.foldlM (fun c v ↦ E.setValue c v.1 v.2) c

def reserved (key : String) : Bool := "trigger_".isPrefixOf key || "steps_".isPrefixOf key

def webhookVars (webhook : List (String × String)) : List (String × EvalValue) :=
  (webhook.filter fun field ↦ !reserved field.1).map fun field ↦
    (triggerVar field.1, .string field.2)

def standardVars (trigger : TriggerContext) : List (String × EvalValue) :=
  trigger.standardFields.map fun field ↦ (triggerVar field.1, .string field.2)

def outputVars (stepId : String) : Json → List (String × EvalValue)
  | .obj fields => fields.map fun field ↦ (stepVar stepId field.1, jsonValueToEval field.2)
  | _ => []

def outputsVars (outputs : List (String × Json)) : List (String × EvalValue) :=
  outputs.flatMap fun output ↦ outputVars output.1 output.2

def buildEvalContext (trigger : TriggerContext) (webhook : List (String × String))
    (outputs : List (String × Json)) : Except WorkflowError E.Context :=
  (do
    let c ← E.setFunctions
    let c ← E.setAll c (webhookVars webhook)
    let c ← E.setAll c (standardVars trigger)
    E.setAll c (outputsVars outputs)).mapError .conditionError

def maxExprLen : ℕ := 4096

def evaluateCondition (trigger : TriggerContext) (webhook : List (String × String))
    (outputs : List (String × Json)) (expr : String) : Except WorkflowError Bool := do
  let c ← E.buildEvalContext trigger webhook outputs
  require (expr.utf8ByteSize ≤ maxExprLen) (.conditionError ("condition expression exceeds " ++
    toString maxExprLen ++ " byte limit"))
  (E.evalBoolean expr c).mapError fun e ↦ .conditionError ("'" ++ expr ++ "': " ++ e)

theorem setAll_append (c : E.Context) (vars vars' : List (String × EvalValue)) :
    E.setAll c (vars ++ vars') = E.setAll c vars >>= fun c' ↦ E.setAll c' vars' :=
  List.foldlM_append

/-- Assignments that never change the type of a variable. -/
def SameTyped (vars : List (String × EvalValue)) : Prop :=
  ∀ v ∈ vars, ∀ w ∈ vars, v.1 = w.1 → v.2.type = w.2.type

theorem lookup_singleton (v : String × EvalValue) (n : String) :
    [v].lookup n = if v.1 = n then some v.2 else none := by
  rcases v with ⟨name, value⟩
  by_cases hname : name = n
  · subst hname
    simp
  · rw [List.lookup_cons, beq_false_of_ne (Ne.symm hname)]
    exact (if_neg hname).symm

variable {E}

/-- Each variable has its last value, or the one it had before. -/
theorem setAll_eq_ok (hE : E.TypeSafe) {vars : List (String × EvalValue)} {c : E.Context}
    (hsame : SameTyped vars) (hold : ∀ v ∈ vars, ∀ old ∈ E.getValue c v.1, old.type = v.2.type) :
    ∃ c', E.setAll c vars = .ok c' ∧
      (∀ n, E.getValue c' n = (vars.reverse.lookup n).or (E.getValue c n)) ∧
      ∀ n, E.getFunction c' n = E.getFunction c n := by
  induction vars generalizing c with
  | nil => exact ⟨c, rfl, fun _ ↦ rfl, fun _ ↦ rfl⟩
  | cons v vars ih =>
    obtain ⟨c₁, hset, hvalue, hfunction⟩ :=
      hE.setValue_ok c v.1 v.2 (hold v List.mem_cons_self)
    have hsame' : SameTyped vars := fun w hw w' hw' ↦
      hsame w (List.mem_cons_of_mem _ hw) w' (List.mem_cons_of_mem _ hw')
    have hold' : ∀ w ∈ vars, ∀ old ∈ E.getValue c₁ w.1, old.type = w.2.type := by
      intro w hw old hmem
      rw [hvalue] at hmem
      split at hmem
      · next hname =>
        obtain rfl := Option.mem_some_iff.mp hmem
        exact hsame v List.mem_cons_self w (List.mem_cons_of_mem _ hw) hname
      · exact hold w (List.mem_cons_of_mem _ hw) old hmem
    obtain ⟨c', hall, hvalue', hfunction'⟩ := ih hsame' hold'
    refine ⟨c', ?_, fun n ↦ ?_, fun n ↦ (hfunction' n).trans (hfunction n)⟩
    · rw [setAll, List.foldlM_cons, hset]
      exact hall
    · rw [hvalue', hvalue, List.reverse_cons, List.lookup_append, Option.or_assoc,
        lookup_singleton]
      split <;> rfl

end Evalexpr

/-- Everything that is set, in the order in which it is. -/
def contextVars (trigger : TriggerContext) (webhook : List (String × String))
    (outputs : List (String × Json)) : List (String × EvalValue) :=
  Evalexpr.webhookVars webhook ++ (Evalexpr.standardVars trigger ++ Evalexpr.outputsVars outputs)

theorem Evalexpr.setFunctions_eq_ok {E : Evalexpr} (hE : E.TypeSafe) :
    ∃ c, E.setFunctions = .ok c ∧ ∀ n, E.getValue c n = none := by
  obtain ⟨c₁, h₁, hv₁⟩ := hE.setFunction_ok E.new "str_contains" .strContains
  obtain ⟨c₂, h₂, hv₂⟩ := hE.setFunction_ok c₁ "str_starts_with" .strStartsWith
  obtain ⟨c₃, h₃, hv₃⟩ := hE.setFunction_ok c₂ "str_ends_with" .strEndsWith
  obtain ⟨c₄, h₄, hv₄⟩ := hE.setFunction_ok c₃ "str_len" .strLen
  refine ⟨c₄, ?_, fun n ↦ by rw [hv₄, hv₃, hv₂, hv₁, hE.getValue_new]⟩
  simp only [setFunctions, bind_eq_ok]
  exact ⟨c₁, h₁, c₂, h₂, c₃, h₃, h₄⟩

theorem Evalexpr.buildEvalContext_eq (E : Evalexpr) (trigger : TriggerContext)
    (webhook : List (String × String)) (outputs : List (String × Json)) :
    E.buildEvalContext trigger webhook outputs =
      (E.setFunctions >>= fun c ↦ E.setAll c (contextVars trigger webhook outputs)).mapError
        .conditionError := by
  simp only [buildEvalContext, contextVars, setAll_append]

def Evalexpr.Holds (E : Evalexpr) (c : E.Context) (vars : List (String × EvalValue)) : Prop :=
  ∀ n, E.getValue c n = vars.reverse.lookup n

theorem Evalexpr.buildEvalContext_eq_ok {E : Evalexpr} (hE : E.TypeSafe) {trigger : TriggerContext}
    (webhook : List (String × String)) {outputs : List (String × Json)}
    (hsame : SameTyped (contextVars trigger webhook outputs)) :
    ∃ c c₀, E.buildEvalContext trigger webhook outputs = .ok c ∧ E.setFunctions = .ok c₀ ∧
      E.Holds c (contextVars trigger webhook outputs) ∧
      ∀ n, E.getFunction c n = E.getFunction c₀ n := by
  obtain ⟨c₀, hfunctions, hempty⟩ := setFunctions_eq_ok hE
  obtain ⟨c, hall, hvalue, hfunction⟩ := setAll_eq_ok hE hsame (c := c₀) fun v _ old hmem ↦ by
    simp [hempty] at hmem
  refine ⟨c, c₀, ?_, hfunctions, fun n ↦ by rw [hvalue, hempty, Option.or_none], hfunction⟩
  rw [buildEvalContext_eq, mapError_eq_ok, bind_eq_ok]
  exact ⟨c₀, hfunctions, hall⟩

theorem separator_overlap {d f g : List Char} (hd : d ≠ [])
    (h : "_output_".toList ++ f = d ++ ("_output_".toList ++ g)) :
    (d = "_output".toList ∧ f = "output_".toList ++ g) ∨
      ∃ m, d = "_output_".toList ++ m ∧ f = m ++ ("_output_".toList ++ g) := by
  simp only [String.reduceToList, List.cons_append, List.nil_append] at h ⊢
  rcases d with _ | ⟨c₁, _ | ⟨c₂, _ | ⟨c₃, _ | ⟨c₄, _ | ⟨c₅, _ | ⟨c₆, _ | ⟨c₇, _ | ⟨c₈, m⟩⟩⟩⟩⟩⟩⟩⟩
  case cons.cons.cons.cons.cons.cons.cons.nil =>
    simp only [List.cons_append, List.nil_append, List.cons.injEq, true_and] at h
    obtain ⟨rfl, rfl, rfl, rfl, rfl, rfl, rfl, rfl⟩ := h
    exact .inl ⟨rfl, rfl⟩
  case cons.cons.cons.cons.cons.cons.cons.cons =>
    simp only [List.cons_append, List.cons.injEq] at h
    obtain ⟨rfl, rfl, rfl, rfl, rfl, rfl, rfl, rfl, rfl⟩ := h
    exact .inr ⟨m, rfl, rfl⟩
  all_goals simp_all

/-- Two fields share a variable: the id of one step continues that of the other with the separator,
or with as much of it as does not overlap the next. -/
def Clash (id field id' field' : String) : Prop :=
  (id' = id ++ "_output" ∧ field = "output_" ++ field') ∨
    ∃ m, id' = id ++ "_output_" ++ m ∧ field = m ++ "_output_" ++ field'

theorem clash_of_append {id id' field field' : String} {d : List Char} (hd : d ≠ [])
    (hid : id'.toList = id.toList ++ d)
    (h : "_output_".toList ++ field.toList = d ++ ("_output_".toList ++ field'.toList)) :
    Clash id field id' field' := by
  rcases separator_overlap hd h with ⟨rfl, hfield⟩ | ⟨m, rfl, hfield⟩
  · exact .inl ⟨String.toList_inj.mp (by rw [hid, String.toList_append]),
      String.toList_inj.mp (by rw [hfield, String.toList_append])⟩
  · refine .inr ⟨String.ofList m, String.toList_inj.mp ?_, String.toList_inj.mp ?_⟩
    · simp [hid]
    · simp [hfield]

theorem Clash.stepVar_eq {id field id' field' : String} (h : Clash id field id' field') :
    stepVar id field = stepVar id' field' := by
  apply String.toList_inj.mp
  rcases h with ⟨rfl, rfl⟩ | ⟨m, rfl, rfl⟩
  · simp [stepVar]
  · simp [stepVar]

theorem Clash.ne {id field id' field' : String} (h : Clash id field id' field') : id ≠ id' := by
  intro heq
  have hlen := congrArg (fun s ↦ s.toList.length) heq
  rcases h with ⟨rfl, -⟩ | ⟨m, rfl, -⟩
  · simp at hlen
  · simp at hlen

theorem clash_of_stepVar_eq {id field id' field' : String}
    (h : stepVar id field = stepVar id' field') :
    (id = id' ∧ field = field') ∨ Clash id field id' field' ∨ Clash id' field' id field := by
  have hlist := congrArg String.toList h
  simp only [stepVar, String.toList_append, List.append_assoc, List.append_cancel_left_eq] at hlist
  rcases List.append_eq_append_iff.mp hlist with ⟨d, hid, hrest⟩ | ⟨d, hid, hrest⟩
  · rcases eq_or_ne d [] with rfl | hd
    · rw [List.append_nil] at hid
      exact .inl ⟨(String.toList_inj.mp hid).symm,
        String.toList_inj.mp (List.append_cancel_left hrest)⟩
    · exact .inr (.inl (clash_of_append hd hid hrest))
  · rcases eq_or_ne d [] with rfl | hd
    · rw [List.append_nil] at hid
      exact .inl ⟨String.toList_inj.mp hid,
        (String.toList_inj.mp (List.append_cancel_left hrest)).symm⟩
    · exact .inr (.inr (clash_of_append hd hid hrest))

theorem stepVar_injective (id : String) : Function.Injective (stepVar id) := by
  intro field field' h
  have hlist := congrArg String.toList h
  simp only [stepVar, String.toList_append, List.append_assoc, List.append_cancel_left_eq] at hlist
  exact String.toList_inj.mp hlist

theorem triggerVar_injective : Function.Injective triggerVar := by
  intro field field' h
  have hlist := congrArg String.toList h
  simp only [triggerVar, String.toList_append, List.append_cancel_left_eq] at hlist
  exact String.toList_inj.mp hlist

theorem triggerVar_ne_stepVar (key id field : String) : triggerVar key ≠ stepVar id field := by
  intro h
  have hlist := congrArg String.toList h
  simp [triggerVar, stepVar] at hlist

def IsOrder {ν : Type*} (m : Map String ν) (order : List (String × ν)) : Prop :=
  order.Perm (m.entries.map fun e ↦ (e.1, e.2))

theorem IsOrder.nodup {ν : Type*} {m : Map String ν} {order : List (String × ν)}
    (h : IsOrder m order) : (order.map Prod.fst).Nodup := by
  refine (h.map Prod.fst).nodup_iff.mpr ?_
  rw [List.map_map]
  exact m.nodupKeys

theorem IsOrder.mem_iff {ν : Type*} {m : Map String ν} {order : List (String × ν)}
    (h : IsOrder m order) {k : String} {v : ν} : (k, v) ∈ order ↔ m.lookup k = some v := by
  rw [List.Perm.mem_iff h, ← Map.mem_entries_iff]
  constructor
  · intro hmem
    obtain ⟨e, he, heq⟩ := List.mem_map.mp hmem
    obtain ⟨rfl, rfl⟩ := Prod.mk.inj heq
    exact he
  · exact fun hmem ↦ List.mem_map.mpr ⟨_, hmem, rfl⟩

structure ConditionInput (U : Unicode) (cronError : String → Option String) where
  workflow : WorkflowDef
  valid : workflow.validate U cronError = .ok ()
  trigger : TriggerContext
  outputs : StepOutputs
  output_of_step : ∀ id ∈ outputs, id ∈ workflow.steps.map Step.id
  fields_nodup : ∀ {id fields}, outputs.lookup id = some (.obj fields) →
    (fields.map Prod.fst).Nodup

namespace ConditionInput

variable {U : Unicode} {cronError : String → Option String} (I : ConditionInput U cronError)

def HasField (id field : String) (value : Json) : Prop :=
  ∃ fields, I.outputs.lookup id = some (.obj fields) ∧ (field, value) ∈ fields

/-- The variables of a context are those of the trigger and of the steps, whatever the order of the
maps. -/
structure Unambiguous (E : Evalexpr) : Prop where
  builds : ∀ webhook outputs, IsOrder I.trigger.webhookFields webhook → IsOrder I.outputs outputs →
    ∃ c, E.buildEvalContext I.trigger webhook outputs = .ok c ∧
      (∀ field ∈ I.trigger.standardFields,
        E.getValue c (triggerVar field.1) = some (.string field.2)) ∧
      ∀ id field value, I.HasField id field value →
        E.getValue c (stepVar id field) = some (jsonValueToEval value)
  separate : ∀ id field value id' field' value', I.HasField id field value →
    I.HasField id' field' value' → stepVar id field = stepVar id' field' →
    id = id' ∧ field = field'
  order_irrelevant : ∀ webhook webhook' outputs outputs',
    IsOrder I.trigger.webhookFields webhook → IsOrder I.trigger.webhookFields webhook' →
    IsOrder I.outputs outputs → IsOrder I.outputs outputs' → ∀ expr,
      E.evaluateCondition I.trigger webhook outputs expr =
        E.evaluateCondition I.trigger webhook' outputs' expr

def NoClash : Prop :=
  ∀ id field value id' field' value', I.HasField id field value → I.HasField id' field' value' →
    ¬Clash id field id' field'

variable {I}

theorem NoClash.separate (h : I.NoClash) {id field id' field' : String} {value value' : Json}
    (hfield : I.HasField id field value) (hfield' : I.HasField id' field' value')
    (hvar : stepVar id field = stepVar id' field') : id = id' ∧ field = field' := by
  rcases clash_of_stepVar_eq hvar with heq | hclash | hclash
  · exact heq
  · exact absurd hclash (h _ _ _ _ _ _ hfield hfield')
  · exact absurd hclash (h _ _ _ _ _ _ hfield' hfield)

section Orders

variable {webhook webhook' : List (String × String)} {outputs outputs' : List (String × Json)}

theorem mem_outputsVars_iff (horder : IsOrder I.outputs outputs) {v : String × EvalValue} :
    v ∈ Evalexpr.outputsVars outputs ↔
      ∃ id field value, I.HasField id field value ∧
        v = (stepVar id field, jsonValueToEval value) := by
  simp only [Evalexpr.outputsVars, List.mem_flatMap]
  constructor
  · rintro ⟨⟨id, output⟩, hmem, hv⟩
    cases output with
    | obj fields =>
      obtain ⟨⟨field, value⟩, hfield, rfl⟩ := List.mem_map.mp hv
      exact ⟨id, field, value, ⟨fields, horder.mem_iff.mp hmem, hfield⟩, rfl⟩
    | _ => cases hv
  · rintro ⟨id, field, value, ⟨fields, hlookup, hfield⟩, rfl⟩
    exact ⟨(id, .obj fields), horder.mem_iff.mpr hlookup, List.mem_map.mpr ⟨_, hfield, rfl⟩⟩

theorem nodup_outputsVars (h : I.NoClash) (horder : IsOrder I.outputs outputs) :
    ((Evalexpr.outputsVars outputs).map Prod.fst).Nodup := by
  rw [Evalexpr.outputsVars, List.map_flatMap, List.nodup_flatMap]
  constructor
  · rintro ⟨id, output⟩ hmem
    cases output with
    | obj fields =>
      have hnodup := (I.fields_nodup (horder.mem_iff.mp hmem)).map (stepVar_injective id)
      simpa [Evalexpr.outputVars, Function.comp_def] using hnodup
    | _ => exact List.nodup_nil
  · have hkeys : outputs.Pairwise fun o o' ↦ o.1 ≠ o'.1 := List.pairwise_map.mp horder.nodup
    refine hkeys.imp_of_mem fun {o o'} ho ho' hne ↦ ?_
    rw [Function.onFun, List.disjoint_left]
    intro name hname hname'
    obtain ⟨v, hv, rfl⟩ := List.mem_map.mp hname
    obtain ⟨v', hv', heq⟩ := List.mem_map.mp hname'
    rcases o with ⟨id, output⟩
    rcases o' with ⟨id', output'⟩
    cases output with
    | obj fields =>
      cases output' with
      | obj fields' =>
        obtain ⟨⟨field, value⟩, hfield, rfl⟩ := List.mem_map.mp hv
        obtain ⟨⟨field', value'⟩, hfield', rfl⟩ := List.mem_map.mp hv'
        exact hne (h.separate ⟨_, horder.mem_iff.mp ho, hfield⟩
          ⟨_, horder.mem_iff.mp ho', hfield'⟩ heq.symm).1
      | _ => cases hv'
    | _ => cases hv

theorem type_of_mem_trigger {v : String × EvalValue}
    (hv : v ∈ Evalexpr.webhookVars webhook ++ Evalexpr.standardVars I.trigger) :
    v.2.type = .string ∧ ∃ key, v.1 = triggerVar key := by
  rcases List.mem_append.mp hv with hv | hv
  · obtain ⟨field, -, rfl⟩ := List.mem_map.mp hv
    exact ⟨rfl, field.1, rfl⟩
  · obtain ⟨field, -, rfl⟩ := List.mem_map.mp hv
    exact ⟨rfl, field.1, rfl⟩

theorem sameTyped (h : I.NoClash) (horder : IsOrder I.outputs outputs) :
    Evalexpr.SameTyped (contextVars I.trigger webhook outputs) := by
  intro v hv w hw hname
  rw [contextVars, ← List.append_assoc, List.mem_append] at hv hw
  rcases hv with hv | hv
  · obtain ⟨htype, key, hkey⟩ := type_of_mem_trigger hv
    rcases hw with hw | hw
    · rw [htype, (type_of_mem_trigger hw).1]
    · obtain ⟨id, field, value, -, rfl⟩ := (mem_outputsVars_iff horder).mp hw
      exact absurd (hkey.symm.trans hname) (triggerVar_ne_stepVar _ _ _)
  · rcases hw with hw | hw
    · obtain ⟨-, key, hkey⟩ := type_of_mem_trigger hw
      obtain ⟨id, field, value, -, rfl⟩ := (mem_outputsVars_iff horder).mp hv
      exact absurd (hkey.symm.trans hname.symm) (triggerVar_ne_stepVar _ _ _)
    · rw [List.inj_on_of_nodup_map (nodup_outputsVars h horder) hv hw hname]

theorem nodup_webhookVars (horder : IsOrder I.trigger.webhookFields webhook) :
    ((Evalexpr.webhookVars webhook).map Prod.fst).Nodup := by
  have hkeys : (((webhook.filter fun field ↦ !Evalexpr.reserved field.1).map Prod.fst).map
      triggerVar).Nodup :=
    (horder.nodup.sublist (List.filter_sublist.map Prod.fst)).map triggerVar_injective
  simpa [Evalexpr.webhookVars, Function.comp_def] using hkeys

theorem lookup_contextVars (h : I.NoClash) (hwebhook : IsOrder I.trigger.webhookFields webhook)
    (hwebhook' : IsOrder I.trigger.webhookFields webhook') (houtputs : IsOrder I.outputs outputs)
    (houtputs' : IsOrder I.outputs outputs') (n : String) :
    (contextVars I.trigger webhook outputs).reverse.lookup n =
      (contextVars I.trigger webhook' outputs').reverse.lookup n := by
  have hwebhookPerm : (Evalexpr.webhookVars webhook).Perm (Evalexpr.webhookVars webhook') :=
    ((hwebhook.trans hwebhook'.symm).filter _).map _
  have houtputsPerm : (Evalexpr.outputsVars outputs).Perm (Evalexpr.outputsVars outputs') :=
    (houtputs.trans houtputs'.symm).flatMap_right _
  simp only [contextVars, List.reverse_append, List.lookup_append]
  rw [lookup_of_perm ((List.reverse_perm _).trans (hwebhookPerm.trans (List.reverse_perm _).symm))
      (by rw [List.map_reverse, List.nodup_reverse]; exact nodup_webhookVars hwebhook),
    lookup_of_perm ((List.reverse_perm _).trans (houtputsPerm.trans (List.reverse_perm _).symm))
      (by rw [List.map_reverse, List.nodup_reverse]; exact nodup_outputsVars h houtputs)]

theorem lookup_stepVar (h : I.NoClash) (houtputs : IsOrder I.outputs outputs) {id field : String}
    {value : Json} (hfield : I.HasField id field value) :
    (contextVars I.trigger webhook outputs).reverse.lookup (stepVar id field) =
      some (jsonValueToEval value) := by
  have hmem : (stepVar id field, jsonValueToEval value) ∈ (Evalexpr.outputsVars outputs).reverse :=
    List.mem_reverse.mpr ((mem_outputsVars_iff houtputs).mpr ⟨id, field, value, hfield, rfl⟩)
  simp only [contextVars, List.reverse_append, List.lookup_append]
  rw [lookup_of_mem
    (by rw [List.map_reverse, List.nodup_reverse]; exact nodup_outputsVars h houtputs) hmem]
  rfl

theorem lookup_triggerVar (houtputs : IsOrder I.outputs outputs) {field : String × String}
    (hfield : field ∈ I.trigger.standardFields) :
    (contextVars I.trigger webhook outputs).reverse.lookup (triggerVar field.1) =
      some (.string field.2) := by
  have hnone : (Evalexpr.outputsVars outputs).reverse.lookup (triggerVar field.1) = none := by
    rw [List.lookup_eq_none_iff]
    intro v hv
    obtain ⟨id, f, value, -, rfl⟩ := (mem_outputsVars_iff houtputs).mp (List.mem_reverse.mp hv)
    exact bne_iff_ne.mpr (triggerVar_ne_stepVar _ _ _)
  have hmem : (triggerVar field.1, EvalValue.string field.2) ∈
      (Evalexpr.standardVars I.trigger).reverse :=
    List.mem_reverse.mpr (List.mem_map.mpr ⟨field, hfield, rfl⟩)
  have hnodup : ((Evalexpr.standardVars I.trigger).map Prod.fst).Nodup := by
    have hkeys : (I.trigger.standardFields.map Prod.fst).Nodup := by
      simp [TriggerContext.standardFields]
    simpa [Evalexpr.standardVars, Function.comp_def] using hkeys.map triggerVar_injective
  simp only [contextVars, List.reverse_append, List.lookup_append]
  rw [hnone, lookup_of_mem (by rw [List.map_reverse, List.nodup_reverse]; exact hnodup) hmem]
  rfl

end Orders

variable {E : Evalexpr}

theorem evaluateCondition_of_build {webhook : List (String × String)}
    {outputs : List (String × Json)} {c : E.Context} {expr : String}
    (h : E.buildEvalContext I.trigger webhook outputs = .ok c) :
    E.evaluateCondition I.trigger webhook outputs expr =
      (require (expr.utf8ByteSize ≤ Evalexpr.maxExprLen) (.conditionError
        ("condition expression exceeds " ++ toString Evalexpr.maxExprLen ++ " byte limit")) >>=
        fun _ : Unit ↦ (E.evalBoolean expr c).mapError fun e ↦
          .conditionError ("'" ++ expr ++ "': " ++ e)) := by
  rw [Evalexpr.evaluateCondition, h]
  rfl

theorem NoClash.evaluateCondition_eq (h : I.NoClash) (hE : E.TypeSafe)
    {webhook webhook' : List (String × String)} {outputs outputs' : List (String × Json)}
    (hwebhook : IsOrder I.trigger.webhookFields webhook)
    (hwebhook' : IsOrder I.trigger.webhookFields webhook') (houtputs : IsOrder I.outputs outputs)
    (houtputs' : IsOrder I.outputs outputs') (expr : String) :
    E.evaluateCondition I.trigger webhook outputs expr =
      E.evaluateCondition I.trigger webhook' outputs' expr := by
  obtain ⟨c, c₀, hbuild, hfunctions, hholds, hfunction⟩ :=
    Evalexpr.buildEvalContext_eq_ok hE webhook (sameTyped h houtputs)
  obtain ⟨c', c₀', hbuild', hfunctions', hholds', hfunction'⟩ :=
    Evalexpr.buildEvalContext_eq_ok hE webhook' (sameTyped h houtputs')
  obtain rfl : c₀ = c₀' := Except.ok.inj (hfunctions.symm.trans hfunctions')
  have heval : E.evalBoolean expr c = E.evalBoolean expr c' := by
    refine hE.eval_congr c c' expr (fun n ↦ ?_) fun n ↦ (hfunction n).trans (hfunction' n).symm
    rw [hholds, hholds', lookup_contextVars h hwebhook hwebhook' houtputs houtputs']
  rw [evaluateCondition_of_build hbuild, evaluateCondition_of_build hbuild', heval]

/-- The variables are unambiguous exactly where no two fields of the outputs clash. -/
theorem unambiguous_iff (hE : E.TypeSafe) : I.Unambiguous E ↔ I.NoClash := by
  constructor
  · intro hunambiguous id field value id' field' value' hfield hfield' hclash
    exact hclash.ne (hunambiguous.separate _ _ _ _ _ _ hfield hfield' hclash.stepVar_eq).1
  · intro h
    refine ⟨fun webhook outputs _ houtputs ↦ ?_, fun _ _ _ _ _ _ ↦ h.separate,
      fun _ _ _ _ ↦ h.evaluateCondition_eq hE⟩
    obtain ⟨c, c₀, hbuild, -, hholds, -⟩ :=
      Evalexpr.buildEvalContext_eq_ok hE webhook (sameTyped h houtputs)
    refine ⟨c, hbuild, fun field hfield ↦ ?_, fun id field value hfield ↦ ?_⟩
    · rw [hholds, lookup_triggerVar houtputs hfield]
    · rw [hholds, lookup_stepVar h houtputs hfield]

/-- Fields share no variable when no step id continues another with `_output`. -/
theorem noClash_of_ids (h : ∀ id ∈ I.outputs.keys, ∀ id' ∈ I.outputs.keys,
    ¬(id ++ "_output").toList <+: id'.toList) : I.NoClash := by
  rintro id field value id' field' value' ⟨fields, hlookup, -⟩ ⟨fields', hlookup', -⟩ hclash
  have hid : id ∈ I.outputs.keys := AList.lookup_isSome.mp (Option.isSome_of_mem hlookup)
  have hid' : id' ∈ I.outputs.keys := AList.lookup_isSome.mp (Option.isSome_of_mem hlookup')
  apply h id hid id' hid'
  rcases hclash with ⟨rfl, -⟩ | ⟨m, rfl, -⟩
  · exact List.prefix_rfl
  · refine ⟨'_' :: m.toList, ?_⟩
    simp

end ConditionInput

def listContexts : Evalexpr where
  Context := List (String × EvalValue) × List (String × EvalFunction)
  new := ([], [])
  setFunction c name f := .ok (c.1, (name, f) :: c.2)
  setValue c name value :=
    if (c.1.lookup name).all fun old ↦ old.type = value.type then .ok ((name, value) :: c.1, c.2)
    else .error ("expected another type: " ++ name)
  getValue c name := c.1.lookup name
  getFunction c name := c.2.lookup name
  evalBoolean expr c :=
    match c.1.lookup expr with
    | some (.boolean b) => .ok b
    | some _ => .error "expected a boolean"
    | none => .error ("variable is not bound: " ++ expr)

theorem listContexts_typeSafe : listContexts.TypeSafe where
  getValue_new _ := rfl
  setFunction_ok c name f := ⟨_, rfl, fun _ ↦ rfl⟩
  setValue_ok c name value h := by
    have hall : (c.1.lookup name).all (fun old ↦ old.type = value.type) = true := by
      cases hlookup : c.1.lookup name with
      | none => rfl
      | some old => exact decide_eq_true (h old hlookup)
    refine ⟨((name, value) :: c.1, c.2), if_pos hall, fun n ↦ ?_, fun _ ↦ rfl⟩
    by_cases hname : name = n
    · subst hname
      simp [listContexts]
    · simp [listContexts, List.lookup_cons, beq_false_of_ne (Ne.symm hname), hname]
  setValue_error c name value old hold hne := by
    have hlookup : c.1.lookup name = some old := hold
    refine ⟨_, if_neg ?_⟩
    simpa [hlookup] using hne
  eval_congr c c' expr hvalue _ := by
    have hlookup : c.1.lookup expr = c'.1.lookup expr := hvalue expr
    simp only [listContexts, hlookup]

def webhookWorkflow (ids : List String) : WorkflowDef where
  name := "deploy"
  trigger := .webhook
  steps := ids.map fun id ↦ { id, action := .delay "1m" }

theorem webhookWorkflow_valid :
    (webhookWorkflow ["build", "notify"]).validate .ascii (fun _ ↦ none) = .ok () ∧
      (webhookWorkflow ["a", "a_output_x"]).validate .ascii (fun _ ↦ none) = .ok () := by
  decide

def sampleOutputs (id id' field field' : String) (value value' : Json) : StepOutputs :=
  AList.insert id (.obj [(field, value)]) (AList.insert id' (.obj [(field', value')]) ∅)

theorem fields_of_sampleOutputs {id id' field field' k : String} {value value' : Json}
    {fields : List (String × Json)}
    (h : (sampleOutputs id id' field field' value value').lookup k = some (.obj fields)) :
    fields = [(field, value)] ∨ fields = [(field', value')] := by
  simp only [sampleOutputs, Map.lookup_insert_eq] at h
  split at h
  · exact .inl (Json.obj.inj (Option.some.inj h)).symm
  · split at h
    · exact .inr (Json.obj.inj (Option.some.inj h)).symm
    · simp at h

theorem nodup_sampleOutputs {id id' field field' k : String} {value value' : Json}
    {fields : List (String × Json)}
    (h : (sampleOutputs id id' field field' value value').lookup k = some (.obj fields)) :
    (fields.map Prod.fst).Nodup := by
  rcases fields_of_sampleOutputs h with rfl | rfl <;> exact List.nodup_singleton _

def sampleInput : ConditionInput .ascii fun _ ↦ none where
  workflow := webhookWorkflow ["build", "notify"]
  valid := webhookWorkflow_valid.1
  trigger := ⟨"", "", "", "", "", "", AList.insert "text" "spoofed" ∅⟩
  outputs := sampleOutputs "build" "notify" "status" "status" (.num "200") (.str "sent")
  output_of_step := by decide
  fields_nodup := nodup_sampleOutputs

def clashingInput : ConditionInput .ascii fun _ ↦ none where
  workflow := webhookWorkflow ["a", "a_output_x"]
  valid := webhookWorkflow_valid.2
  trigger := ⟨"", "", "", "", "", "", ∅⟩
  outputs := sampleOutputs "a" "a_output_x" "x_output_y" "y" (.num "1") (.str "s")
  output_of_step := by decide
  fields_nodup := nodup_sampleOutputs

theorem sample_unambiguous : sampleInput.Unambiguous listContexts :=
  (ConditionInput.unambiguous_iff listContexts_typeSafe).mpr
    (ConditionInput.noClash_of_ids (by decide))

/-- Fields of two steps meet in one variable, here with values of different types. -/
theorem step_fields_clash :
    (∃ e, listContexts.buildEvalContext clashingInput.trigger []
      [("a", .obj [("x_output_y", .num "1")]), ("a_output_x", .obj [("y", .str "s")])] =
        .error e) ∧ ¬clashingInput.Unambiguous listContexts := by
  refine ⟨⟨_, rfl⟩, fun h ↦ ?_⟩
  have hfield : clashingInput.HasField "a" "x_output_y" (.num "1") :=
    ⟨_, AList.lookup_insert _, List.mem_singleton_self _⟩
  have hfield' : clashingInput.HasField "a_output_x" "y" (.str "s") :=
    ⟨_, (AList.lookup_insert_ne (by decide)).trans (AList.lookup_insert _),
      List.mem_singleton_self _⟩
  have hclash : Clash "a" "x_output_y" "a_output_x" "y" := .inr ⟨"x", rfl, rfl⟩
  exact hclash.ne (h.separate _ _ _ _ _ _ hfield hfield' hclash.stepVar_eq).1

end Buzz.Workflow
