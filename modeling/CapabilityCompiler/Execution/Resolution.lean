import CapabilityCompiler.Execution.Executor

/-! The execution of workflows, whatever way their references are resolved. -/
namespace CapabilityCompiler.Execution
open Foundation Models

/-- Which texts are references, and how they are resolved. -/
structure Resolver where
  reference? : String → Option Reference
  find : Context → Reference → Except Unavailable Json

namespace Resolver
variable (resolver : Resolver)

section Values
variable (context : Context) (details : Fields)

def resolveMatch (reference : Reference) : Except ExecutionError Json :=
  match resolver.find context reference with
  | .ok value => .ok value
  | .error cause => .error (unavailableReference details cause)

/-- A text of a value: a reference, or itself. -/
def resolveText (value : String) : Except ExecutionError Json :=
  match resolver.reference? value with
  | some reference => resolver.resolveMatch context details reference
  | none => if looksDynamic value then .error (invalidReference details) else .ok (.str value)

def resolveRequiredReference (value : String) : Except ExecutionError Json :=
  match resolver.reference? value with
  | some reference => resolver.resolveMatch context details reference
  | none => .error (invalidConditionReference details)

mutual

def resolveValue : Json → Except ExecutionError Json
  | .str value => resolver.resolveText context details value
  | .arr items => (resolveItems items).map .arr
  | .obj fields => (resolveFields fields).map .obj
  | value => .ok value

def resolveItems : List Json → Except ExecutionError (List Json)
  | [] => .ok []
  | item :: rest => (resolveValue item).bind fun value => (resolveItems rest).map (value :: ·)

def resolveFields : Fields → Except ExecutionError Fields
  | [] => .ok []
  | (key, item) :: rest =>
    (resolveValue item).bind fun value => (resolveFields rest).map ((key, value) :: ·)

end

def resolveConditionOperand : WorkflowConditionOperand → Except ExecutionError Json
  | .reference value => resolver.resolveRequiredReference context details value
  | .literal value => .ok value

mutual

def evaluateCondition (depth budget : ℕ) : WorkflowCondition → Except ExecutionError (Bool × ℕ)
  | .eq left right => do
    let budget ← enterCondition details depth budget
    let left ← resolver.resolveConditionOperand context details left
    let right ← resolver.resolveConditionOperand context details right
    return (left.jsonEqual right, budget)
  | .isIn item values => do
    let budget ← enterCondition details depth budget
    let item ← resolver.resolveConditionOperand context details item
    match ← resolver.resolveConditionOperand context details values with
    | .arr values => return (values.any item.jsonEqual, budget)
    | _ => .error (stepInvalid "Workflow in condition requires a JSON array operand." details)
  | .all conditions => do
    let budget ← enterCondition details depth budget
    checkFanOut details conditions.length
    let (results, budget) ← evaluateConditions (depth + 1) budget conditions
    return (results.all id, budget)
  | .any conditions => do
    let budget ← enterCondition details depth budget
    checkFanOut details conditions.length
    let (results, budget) ← evaluateConditions (depth + 1) budget conditions
    return (results.any id, budget)
  | .not condition => do
    let budget ← enterCondition details depth budget
    let (result, budget) ← evaluateCondition (depth + 1) budget condition
    return (!result, budget)

def evaluateConditions (depth budget : ℕ) :
    List WorkflowCondition → Except ExecutionError (List Bool × ℕ)
  | [] => .ok ([], budget)
  | condition :: rest => do
    let (result, budget) ← evaluateCondition depth budget condition
    let (results, budget) ← evaluateConditions depth budget rest
    return (result :: results, budget)

end

def evaluateBranchCondition : BranchCondition → Except ExecutionError Bool
  | .reference value => (resolver.resolveRequiredReference context details value).map truthy
  | .structured bounded => (resolver.evaluateCondition context details 1 maxConditionNodes
      bounded.condition).map Prod.fst

def pick (value : Json) (fields : List String) : Except ExecutionError Json := do
  let source ← requiredFields details (← resolver.resolveValue context details value)
  let fields ← requiredFieldNames details fields
  return .obj (fields.eraseDups.filterMap fun field =>
    (Json.field? field source).map fun value => (field, value))

def redact (value : Json) (fields : List String) : Except ExecutionError Json := do
  let source ← requiredFields details (← resolver.resolveValue context details value)
  let fields ← requiredFieldNames details fields
  return .obj (source.filter fun field => field.1 ∉ fields)

def resolveItemsBounded (items : Json) (limit : ItemBound) : Except ExecutionError (List Json) := do
  boundedItems details (← resolver.resolveValue context details items) limit

def mapItems (expression : String) : List Json → Except ExecutionError (List Json)
  | [] => .ok []
  | item :: rest => do
    let value ← resolver.resolveRequiredReference { context with item := some item } details
      expression
    let values ← mapItems expression rest
    return value :: values

def filterItems (condition : String) : List Json → Except ExecutionError (List Json)
  | [] => .ok []
  | item :: rest => do
    let value ← resolver.resolveRequiredReference { context with item := some item } details
      condition
    let kept ← filterItems condition rest
    return if truthy value then item :: kept else kept

def assertion (condition : String) : Except ExecutionError Json := do
  let value ← resolver.resolveRequiredReference context details condition
  if truthy value then return .null else .error (assertionFailed details)

end Values

section Runs
variable {Q R : Type} (engine : Engine Q R)

def prepareCall (context : Context) (position : List ℕ) (id : Option String) (operationId : String)
    (arguments : Fields) : Except ExecutionError CallRequest :=
  if operationId = "" then
    .error (stepInvalid "Call step requires a declared operation id."
      (stepDetails engine.capabilityId id))
  else match operation? operationId engine.operations with
    | none => .error (requiredObject "ACC_RUNTIME_OPERATION_NOT_FOUND"
        (callDetails engine.capabilityId id operationId))
    | some operation => do
      let resolved ← resolver.resolveFields context
        (callDetails engine.capabilityId id operationId) arguments
      if engine.settings.validateOperationInput then
        validateSchema engine.schemas "ACC_RUNTIME_OPERATION_INPUT_INVALID"
          (schemaDetails engine.capabilityId (some operationId) id "operation_input")
          operation.inputSchema (.obj resolved)
      return ⟨operation, resolved, position⟩

def runCall (context : Context) (position : List ℕ) (id : Option String) (operationId : String)
    (arguments : Fields) : Process Q R Failure Json :=
  match resolver.prepareCall engine context position id operationId arguments with
  | .error error => raiseExecution error
  | .ok call => engine.perform call (receive engine id operationId call.operation)

mutual

def runWorkflow (context : Context) (position : List ℕ) (index : ℕ) (result : Json) :
    List WorkflowStep → Process Q R Failure Json
  | [] => .done result
  | step :: rest =>
    (runStep context (position ++ [index]) step).bind fun result =>
      runWorkflow (context.store step.id result) position (index + 1) result rest

def runStep (context : Context) (position : List ℕ) : WorkflowStep → Process Q R Failure Json
  | .call id operation arguments =>
    resolver.runCall engine context position id operation arguments
  | .pick id value fields =>
    ofResult (resolver.pick context (stepDetails engine.capabilityId id) value fields)
  | .map id items expression maxItems =>
    let details := stepDetails engine.capabilityId id
    ofResult (((resolver.resolveItemsBounded context details items maxItems).bind
      (resolver.mapItems context details expression)).map .arr)
  | .filter id items condition maxItems =>
    let details := stepDetails engine.capabilityId id
    ofResult (((resolver.resolveItemsBounded context details items maxItems).bind
      (resolver.filterItems context details condition)).map .arr)
  | .assert id condition _ =>
    ofResult (resolver.assertion context (stepDetails engine.capabilityId id) condition)
  | .redact id value fields =>
    ofResult (resolver.redact context (stepDetails engine.capabilityId id) value fields)
  | .branch id condition thenSteps elseSteps =>
    match resolver.evaluateBranchCondition context (stepDetails engine.capabilityId id)
        condition with
    | .error error => raiseExecution error
    | .ok true => runWorkflow context (position ++ [0]) 0 .null thenSteps
    | .ok false => runWorkflow context (position ++ [1]) 0 .null elseSteps
  | .parallel id children =>
    if 1 ≤ children.length ∧ children.length ≤ 8 then
      gatherList (runChildren context position 0 children)
    else raiseExecution (boundExceeded "Parallel workflow exceeds its fixed execution bound."
      (limitDetails (stepDetails engine.capabilityId id) 8))
  | .foreach id items _ maxItems workflow =>
    match resolver.resolveItemsBounded context (stepDetails engine.capabilityId id) items
        maxItems with
    | .error error => raiseExecution error
    | .ok sequence => gatherList (sequence.map fun item =>
        runWorkflow { context with item := some item } (position ++ [0]) 0 .null workflow)
  | .emit id value =>
    ofResult (resolver.resolveValue context (stepDetails engine.capabilityId id) value)

def runChildren (context : Context) (position : List ℕ) (index : ℕ) :
    List WorkflowStep → List (Process Q R Failure Json)
  | [] => []
  | child :: rest =>
    runStep context (position ++ [index]) child :: runChildren context position (index + 1) rest

end

/-- The input is validated; whether references reach it is up to the resolver. -/
def execute (definition : CapabilityDefinition) (input : Json) : Process Q R Failure Json :=
  match validateSchema engine.schemas "ACC_RUNTIME_INPUT_INVALID"
      (schemaDetails engine.capabilityId none none "capability_input")
      definition.inputSchema input with
  | .error error => raiseExecution error
  | .ok () =>
    if (definition.workflow.getLast?.map WorkflowStep.isEmit).getD false then
      (resolver.runWorkflow engine ⟨input, [], none⟩ [] 0 .null definition.workflow).bind
        (checkOutput engine definition)
    else raiseExecution
      { code := "ACC_RUNTIME_FINAL_EMIT_REQUIRED"
        message := "Capability workflow must end with an emit step."
        details := [("capability_id", .str engine.capabilityId)] }

end Runs
end Resolver
end CapabilityCompiler.Execution
