import CapabilityCompiler.Errors
import CapabilityCompiler.Foundation.Process
import CapabilityCompiler.Models.Operations
import CapabilityCompiler.Models.Reference

/-! Execution of compiled workflows as processes that call operations. -/
namespace CapabilityCompiler.Execution
open Foundation Models

/-! Errors. -/

/-- Why a reference has no value: one of the three checks of its resolution. -/
inductive Unavailable where
  | item
  | step (id : String)
  | path (segment : String)
deriving DecidableEq

/-- An error of the executor. The cause is not part of what the error shows. -/
structure ExecutionError where
  code : String
  message : String
  details : Fields
  cause : Option Unavailable := none
deriving DecidableEq

def invalidReference (details : Fields) : ExecutionError where
  code := "ACC_RUNTIME_REFERENCE_INVALID"
  message := "Workflow contains an invalid dynamic reference."
  details := details

def invalidConditionReference (details : Fields) : ExecutionError where
  code := "ACC_RUNTIME_REFERENCE_INVALID"
  message := "Workflow condition must be one static reference."
  details := details

def unavailableReference (details : Fields) (cause : Unavailable) : ExecutionError where
  code := "ACC_RUNTIME_REFERENCE_UNAVAILABLE"
  message := "Workflow reference is unavailable in this execution context."
  details := details
  cause := some cause

def stepInvalid (message : String) (details : Fields) : ExecutionError where
  code := "ACC_RUNTIME_STEP_INVALID"
  message := message
  details := details

def boundExceeded (message : String) (details : Fields) : ExecutionError where
  code := "ACC_RUNTIME_BOUND_EXCEEDED"
  message := message
  details := details

def valueTypeInvalid (message : String) (details : Fields) : ExecutionError where
  code := "ACC_RUNTIME_VALUE_TYPE_INVALID"
  message := message
  details := details

def requiredObject (code : String) (details : Fields) : ExecutionError where
  code := code
  message := "Required object is missing or invalid."
  details := details

def conditionDepthMessage : String := "Workflow condition depth exceeds the runtime bound."

def conditionSizeMessage : String := "Workflow condition size exceeds the runtime bound."

/-! Values. -/

/-- The data a step can refer to. -/
structure Context where
  input : Json
  steps : Fields
  item : Option Json

def Context.store (context : Context) (id : Option String) (result : Json) : Context :=
  match id with
  | none => context
  | some id => { context with steps := (id, result) :: context.steps }

def executorReference? (value : String) : Option Reference := matchReference ["input", "item"] value

def resolvePath : Json → List String → Except Unavailable Json
  | current, [] => .ok current
  | .obj fields, segment :: rest =>
    match Json.field? segment fields with
    | some value => resolvePath value rest
    | none => .error (.path segment)
  | _, segment :: _ => .error (.path segment)

def resolveReference (context : Context) : Reference → Except Unavailable Json
  | .root root path =>
    if root = "input" then resolvePath context.input path
    else match context.item with
      | none => .error .item
      | some item => resolvePath item path
  | .step id path =>
    match Json.field? id context.steps with
    | none => .error (.step id)
    | some result => resolvePath result path

section Values
variable (context : Context) (details : Fields)

def resolveMatch (reference : Reference) : Except ExecutionError Json :=
  match resolveReference context reference with
  | .ok value => .ok value
  | .error cause => .error (unavailableReference details cause)

mutual

def resolveValue : Json → Except ExecutionError Json
  | .str value =>
    match executorReference? value with
    | some reference => resolveMatch context details reference
    | none => if looksDynamic value then .error (invalidReference details) else .ok (.str value)
  | .arr items => (resolveItems items).map .arr
  | .obj fields => (resolveFields fields).map .obj
  | value => .ok value

def resolveItems : List Json → Except ExecutionError (List Json)
  | [] => .ok []
  | item :: rest => (resolveValue item).bind fun value => (resolveItems rest).map (value :: ·)

def resolveFields : Fields → Except ExecutionError Fields
  | [] => .ok []
  | (key, item) :: rest =>
    (resolveValue item).bind fun value => (resolveFields rest).map ((key, value) :: ·)

end

def resolveRequiredReference (value : String) : Except ExecutionError Json :=
  match executorReference? value with
  | some reference => resolveMatch context details reference
  | none => .error (invalidConditionReference details)

/-- The truth value the host language gives a document. -/
def truthy : Json → Bool
  | .null => false
  | .bool b => b
  | .int n => n ≠ 0
  | .float q => q ≠ 0
  | .str s => s ≠ ""
  | .arr items => !items.isEmpty
  | .obj fields => !fields.isEmpty

def resolveConditionOperand : WorkflowConditionOperand → Except ExecutionError Json
  | .reference value => resolveRequiredReference context details value
  | .literal value => .ok value

def maxConditionDepth : ℕ := 16

def maxConditionNodes : ℕ := 64

def enterCondition (depth budget : ℕ) : Except ExecutionError ℕ :=
  if depth > maxConditionDepth then .error (boundExceeded conditionDepthMessage details)
  else if budget = 0 then .error (boundExceeded conditionSizeMessage details)
  else .ok (budget - 1)

def checkFanOut (count : ℕ) : Except ExecutionError Unit :=
  if 1 ≤ count ∧ count ≤ 16 then .ok ()
  else .error (boundExceeded "Workflow condition fan-out exceeds the runtime bound." details)

mutual

/-- The truth of a condition and what it leaves of the budget of nodes. -/
def evaluateCondition (depth budget : ℕ) : WorkflowCondition → Except ExecutionError (Bool × ℕ)
  | .eq left right => do
    let budget ← enterCondition details depth budget
    let left ← resolveConditionOperand context details left
    let right ← resolveConditionOperand context details right
    return (left.jsonEqual right, budget)
  | .isIn item values => do
    let budget ← enterCondition details depth budget
    let item ← resolveConditionOperand context details item
    match ← resolveConditionOperand context details values with
    | .arr values => return (values.any item.jsonEqual, budget)
    | _ => .error (stepInvalid "Workflow in condition requires a JSON array operand." details)
  | .all conditions => do
    let budget ← enterCondition details depth budget
    checkFanOut details conditions.length
    let (results, budget) ← evaluateConditions (depth + 1) budget conditions
    return (results.all id, budget)
  | .any conditions => do
    let budget ← enterCondition details depth budget
    checkFanOut details conditions.length
    let (results, budget) ← evaluateConditions (depth + 1) budget conditions
    return (results.any id, budget)
  | .not condition => do
    let budget ← enterCondition details depth budget
    let (result, budget) ← evaluateCondition (depth + 1) budget condition
    return (!result, budget)

/-- No condition is skipped: the budget is the same whatever their results are. -/
def evaluateConditions (depth budget : ℕ) :
    List WorkflowCondition → Except ExecutionError (List Bool × ℕ)
  | [] => .ok ([], budget)
  | condition :: rest => do
    let (result, budget) ← evaluateCondition depth budget condition
    let (results, budget) ← evaluateConditions depth budget rest
    return (result :: results, budget)

end
end Values
/-! Steps without calls. -/

section Steps
variable (context : Context) (details : Fields)

def evaluateBranchCondition : BranchCondition → Except ExecutionError Bool
  | .reference value => (resolveRequiredReference context details value).map truthy
  | .structured bounded =>
    (evaluateCondition context details 1 maxConditionNodes bounded.condition).map Prod.fst

def requiredFields (details : Fields) : Json → Except ExecutionError Fields
  | .obj fields => .ok fields
  | _ => .error (requiredObject "ACC_RUNTIME_VALUE_TYPE_INVALID" details)

def requiredFieldNames (fields : List String) : Except ExecutionError (List String) :=
  if fields = [] ∨ "" ∈ fields then
    .error (stepInvalid "Field selection requires one or more field names." details)
  else .ok fields

def pick (value : Json) (fields : List String) : Except ExecutionError Json := do
  let source ← requiredFields details (← resolveValue context details value)
  let fields ← requiredFieldNames details fields
  return .obj (fields.eraseDups.filterMap fun field =>
    (Json.field? field source).map fun value => (field, value))

def redact (value : Json) (fields : List String) : Except ExecutionError Json := do
  let source ← requiredFields details (← resolveValue context details value)
  let fields ← requiredFieldNames details fields
  return .obj (source.filter fun field => field.1 ∉ fields)

def limitDetails (details : Fields) (limit : ℕ) : Fields := details ++ [("limit", .int limit)]

def boundedItems (value : Json) (limit : ItemBound) : Except ExecutionError (List Json) :=
  match value with
  | .arr items =>
    if items.length > limit.value then
      .error (boundExceeded "Collection exceeds its declared execution bound."
        (limitDetails details limit.value))
    else .ok items
  | _ => .error (valueTypeInvalid "Collection step requires an array value." details)

def resolveItemsBounded (items : Json) (limit : ItemBound) : Except ExecutionError (List Json) := do
  boundedItems details (← resolveValue context details items) limit

/-- The expression at every item. -/
def mapItems (expression : String) : List Json → Except ExecutionError (List Json)
  | [] => .ok []
  | item :: rest => do
    let value ← resolveRequiredReference { context with item := some item } details expression
    let values ← mapItems expression rest
    return value :: values

/-- The items at which the condition is true. -/
def filterItems (condition : String) : List Json → Except ExecutionError (List Json)
  | [] => .ok []
  | item :: rest => do
    let value ← resolveRequiredReference { context with item := some item } details condition
    let kept ← filterItems condition rest
    return if truthy value then item :: kept else kept

def assertionFailed : ExecutionError where
  code := "ACC_RUNTIME_ASSERTION_FAILED"
  message := "Workflow assertion failed."
  details := details

def assertion (condition : String) : Except ExecutionError Json := do
  let value ← resolveRequiredReference context details condition
  if truthy value then return .null else .error (assertionFailed details)

end Steps

/-! Calls. -/

/-- What may come out of a process of the executor. -/
inductive Failure where
  | execution (error : ExecutionError)
  | caller (error : RuntimeError)
  | exception
deriving DecidableEq

/-- What an operation caller does: it returns a value, which need not be a JSON document, or
raises a stable error or another exception. -/
inductive Reply where
  | value (value : Json)
  | notJson
  | stableError (error : RuntimeError)
  | exception
deriving DecidableEq

/-- A call of an operation and the position of its step in the workflow. -/
structure CallRequest where
  operation : Operation
  arguments : Fields
  position : List ℕ
deriving DecidableEq

/-- The JSON Schema validator of the host. -/
structure SchemaChecker where
  wellFormed : Fields → Bool
  valid : Fields → Json → Bool

structure Settings where
  validateOutput : Bool
  validateOperationInput : Bool

def validateSchema (schemas : SchemaChecker) (code : String) (details schema : Fields)
    (value : Json) : Except ExecutionError Unit :=
  if !schemas.wellFormed schema then .error
    { code := "ACC_RUNTIME_IR_INVALID"
      message := "Compiled IR contains an invalid JSON Schema."
      details := details }
  else if schemas.valid schema value then .ok ()
  else .error
    { code := code
      message := "JSON value does not match its declared schema."
      details := details }

def stepDetails (capabilityId : String) (id : Option String) : Fields :=
  [("capability_id", .str capabilityId), ("step_id", dumpId id)]

def callDetails (capabilityId : String) (id : Option String) (operation : String) : Fields :=
  stepDetails capabilityId id ++ [("operation_id", .str operation)]

def schemaDetails (capabilityId : String) (operation id : Option String) (role : String) : Fields :=
  [("capability_id", .str capabilityId), ("operation_id", dumpId operation),
    ("step_id", dumpId id), ("schema_role", .str role)]

/-- How the calls of a workflow are made and where it is executed. -/
structure Engine (Q R : Type) where
  schemas : SchemaChecker
  settings : Settings
  operations : Operations
  capabilityId : String
  perform : CallRequest → (Reply → Process Q R Failure Json) → Process Q R Failure Json

section Runs
variable {Q R : Type} (engine : Engine Q R)

def raiseExecution (error : ExecutionError) : Process Q R Failure Json :=
  .failed (.execution error)

def ofResult : Except ExecutionError Json → Process Q R Failure Json
  | .ok value => .done value
  | .error error => raiseExecution error

def receive (id : Option String) (operationId : String) (operation : Operation) :
    Reply → Process Q R Failure Json
  | .stableError error => .failed (.caller error)
  | .exception => raiseExecution
      { code := "ACC_RUNTIME_OPERATION_FAILED"
        message := "Operation caller failed."
        details := callDetails engine.capabilityId id operationId }
  | .notJson => raiseExecution
      { code := "ACC_RUNTIME_OPERATION_OUTPUT_INVALID"
        message := "Value is not JSON-compatible."
        details := callDetails engine.capabilityId id operationId }
  | .value result =>
    match validateSchema engine.schemas "ACC_RUNTIME_OPERATION_OUTPUT_INVALID"
        (schemaDetails engine.capabilityId (some operationId) id "operation_output")
        operation.outputSchema result with
    | .ok () => .done result
    | .error error => raiseExecution error

/-- The call a step makes, with its arguments resolved and checked. -/
def prepareCall (context : Context) (position : List ℕ) (id : Option String) (operationId : String)
    (arguments : Fields) : Except ExecutionError CallRequest :=
  if operationId = "" then
    .error (stepInvalid "Call step requires a declared operation id."
      (stepDetails engine.capabilityId id))
  else match operation? operationId engine.operations with
    | none => .error (requiredObject "ACC_RUNTIME_OPERATION_NOT_FOUND"
        (callDetails engine.capabilityId id operationId))
    | some operation => do
      let resolved ← resolveFields context (callDetails engine.capabilityId id operationId) arguments
      if engine.settings.validateOperationInput then
        validateSchema engine.schemas "ACC_RUNTIME_OPERATION_INPUT_INVALID"
          (schemaDetails engine.capabilityId (some operationId) id "operation_input")
          operation.inputSchema (.obj resolved)
      return ⟨operation, resolved, position⟩

def runCall (context : Context) (position : List ℕ) (id : Option String) (operationId : String)
    (arguments : Fields) : Process Q R Failure Json :=
  match prepareCall engine context position id operationId arguments with
  | .error error => raiseExecution error
  | .ok call => engine.perform call (receive engine id operationId call.operation)

def gatherList (children : List (Process Q R Failure Json)) : Process Q R Failure Json :=
  .gather children.length children.get fun results => .done (.arr results)

mutual

/-- Run the steps from the given index on; the result of the last one is the result. -/
def runWorkflow (context : Context) (position : List ℕ) (index : ℕ) (result : Json) :
    List WorkflowStep → Process Q R Failure Json
  | [] => .done result
  | step :: rest =>
    (runStep context (position ++ [index]) step).bind fun result =>
      runWorkflow (context.store step.id result) position (index + 1) result rest

def runStep (context : Context) (position : List ℕ) : WorkflowStep → Process Q R Failure Json
  | .call id operation arguments => runCall engine context position id operation arguments
  | .pick id value fields => ofResult (pick context (stepDetails engine.capabilityId id) value fields)
  | .map id items expression maxItems =>
    let details := stepDetails engine.capabilityId id
    ofResult (((resolveItemsBounded context details items maxItems).bind
      (mapItems context details expression)).map .arr)
  | .filter id items condition maxItems =>
    let details := stepDetails engine.capabilityId id
    ofResult (((resolveItemsBounded context details items maxItems).bind
      (filterItems context details condition)).map .arr)
  | .assert id condition _ =>
    ofResult (assertion context (stepDetails engine.capabilityId id) condition)
  | .redact id value fields =>
    ofResult (redact context (stepDetails engine.capabilityId id) value fields)
  | .branch id condition thenSteps elseSteps =>
    match evaluateBranchCondition context (stepDetails engine.capabilityId id) condition with
    | .error error => raiseExecution error
    | .ok true => runWorkflow context (position ++ [0]) 0 .null thenSteps
    | .ok false => runWorkflow context (position ++ [1]) 0 .null elseSteps
  | .parallel id children =>
    if 1 ≤ children.length ∧ children.length ≤ 8 then
      gatherList (runChildren context position 0 children)
    else raiseExecution (boundExceeded "Parallel workflow exceeds its fixed execution bound."
      (limitDetails (stepDetails engine.capabilityId id) 8))
  | .foreach id items _ maxItems workflow =>
    match resolveItemsBounded context (stepDetails engine.capabilityId id) items maxItems with
    | .error error => raiseExecution error
    | .ok sequence => gatherList (sequence.map fun item =>
        runWorkflow { context with item := some item } (position ++ [0]) 0 .null workflow)
  | .emit id value => ofResult (resolveValue context (stepDetails engine.capabilityId id) value)

/-- Every child is run as a workflow of its own. -/
def runChildren (context : Context) (position : List ℕ) (index : ℕ) :
    List WorkflowStep → List (Process Q R Failure Json)
  | [] => []
  | child :: rest =>
    runStep context (position ++ [index]) child :: runChildren context position (index + 1) rest

end

/-- What the executor is given of a capability. -/
structure CapabilityDefinition where
  inputSchema : Fields
  outputSchema : Fields
  workflow : Workflow

def checkOutput (definition : CapabilityDefinition) (result : Json) : Process Q R Failure Json :=
  if engine.settings.validateOutput then
    match validateSchema engine.schemas "ACC_RUNTIME_OUTPUT_INVALID"
        (schemaDetails engine.capabilityId none none "capability_output")
        definition.outputSchema result with
    | .ok () => .done result
    | .error error => raiseExecution error
  else .done result

/-- Validate the input, run the workflow, which must end with an emit step, and validate the
result. -/
def execute (definition : CapabilityDefinition) (input : Json) : Process Q R Failure Json :=
  match validateSchema engine.schemas "ACC_RUNTIME_INPUT_INVALID"
      (schemaDetails engine.capabilityId none none "capability_input")
      definition.inputSchema input with
  | .error error => raiseExecution error
  | .ok () =>
    if (definition.workflow.getLast?.map WorkflowStep.isEmit).getD false then
      (runWorkflow engine ⟨input, [], none⟩ [] 0 .null definition.workflow).bind
        (checkOutput engine definition)
    else raiseExecution
      { code := "ACC_RUNTIME_FINAL_EMIT_REQUIRED"
        message := "Capability workflow must end with an emit step."
        details := [("capability_id", .str engine.capabilityId)] }

end Runs

/-- An engine that leaves every call to its caller. -/
def workflowExecutor (schemas : SchemaChecker) (settings : Settings) (operations : Operations)
    (capabilityId : String) : Engine CallRequest Reply :=
  ⟨schemas, settings, operations, capabilityId, .request⟩

end CapabilityCompiler.Execution
