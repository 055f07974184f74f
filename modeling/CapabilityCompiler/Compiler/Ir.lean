import CapabilityCompiler.Compiler.ActionProof

/-! Deterministic validation of capability workflows. -/
namespace CapabilityCompiler.Compiler
open Foundation Models

/-- Where a diagnostic is reported. -/
structure Location where
  path : String
  pointer : String

def Location.child (location : Location) (suffix : String) : Location :=
  { location with pointer := location.pointer ++ suffix }

def Location.diagnostic (location : Location) (code message : String) : Diagnostic where
  code := code
  message := message
  path := location.path
  pointer := location.pointer

/-! References. -/

/-- What a reference may stand for at some place of a workflow. -/
structure Scope where
  availableSteps : List String
  allowItem : Bool
  allowInput : Bool
  allowPrepared : Bool

def compilerReference? (value : String) : Option Reference :=
  matchReference ["input", "item", "prepared"] value

def validateReference (scope : Scope) (requireReference : Bool) (location : Location)
    (value : String) : List Diagnostic :=
  match compilerReference? value with
  | none =>
    if requireReference || looksDynamic value then
      [location.diagnostic "ACC_COMPILE_REFERENCE_INVALID"
        ("Workflow expressions must be one static reference rooted at " ++
          "$.input, $.prepared, $.steps.<prior-step>, or $.item.")]
    else []
  | some (.root root _) =>
    if root = "item" && !scope.allowItem then
      [location.diagnostic "ACC_COMPILE_ITEM_REFERENCE_OUTSIDE_LOOP"
        "$.item is only available inside a bounded item workflow."]
    else if root = "input" && !scope.allowInput then
      [location.diagnostic "ACC_COMPILE_INPUT_REFERENCE_UNAVAILABLE"
        "$.input is not available in this workflow phase."]
    else if root = "prepared" && !scope.allowPrepared then
      [location.diagnostic "ACC_COMPILE_PREPARED_REFERENCE_UNAVAILABLE"
        "$.prepared is available only in an Action commit workflow."]
    else []
  | some (.step id _) =>
    if id ∈ scope.availableSteps then []
    else [location.diagnostic "ACC_COMPILE_STEP_REFERENCE_NOT_PRIOR"
      s!"Workflow reference must target a prior step id: {id}"]

mutual

/-- Texts inside arrays and objects need not be references. -/
def validateValue (scope : Scope) (location : Location) : Json → List Diagnostic
  | .str value => validateReference scope false location value
  | .arr items => validateItems scope location 0 items
  | .obj fields => validateFields scope location fields
  | _ => []

def validateItems (scope : Scope) (location : Location) (index : ℕ) : List Json → List Diagnostic
  | [] => []
  | item :: rest =>
    validateValue scope (location.child s!"/{index}") item ++
      validateItems scope location (index + 1) rest

def validateFields (scope : Scope) (location : Location) : Fields → List Diagnostic
  | [] => []
  | (key, item) :: rest =>
    validateValue scope (location.child s!"/{Text.escapeToken key}") item ++
      validateFields scope location rest

end

/-- A text that must be one reference. -/
def validateExpression (scope : Scope) (location : Location) (value : String) : List Diagnostic :=
  validateReference scope true location value

def validateOperand (scope : Scope) (location : Location) :
    WorkflowConditionOperand → List Diagnostic
  | .reference value => validateExpression scope (location.child "/value") value
  | .literal _ => []

mutual

def validateCondition (scope : Scope) (location : Location) :
    WorkflowCondition → List Diagnostic
  | .eq left right =>
    validateOperand scope (location.child "/left") left ++
      validateOperand scope (location.child "/right") right
  | .isIn item values =>
    validateOperand scope (location.child "/item") item ++
      validateOperand scope (location.child "/values") values
  | .all conditions | .any conditions => validateConditions scope location 0 conditions
  | .not condition => validateCondition scope (location.child "/conditions/0") condition

def validateConditions (scope : Scope) (location : Location) (index : ℕ) :
    List WorkflowCondition → List Diagnostic
  | [] => []
  | condition :: rest =>
    validateCondition scope (location.child s!"/conditions/{index}") condition ++
      validateConditions scope location (index + 1) rest

end

def validateBranchCondition (scope : Scope) (location : Location) :
    BranchCondition → List Diagnostic
  | .reference value => validateExpression scope location value
  | .structured bounded => validateCondition scope location bounded.condition

/-! Steps. -/

/-- What a walk over steps leaves: the step identifiers met, the operations called and the
diagnostics. -/
structure Walk where
  seen : List String
  dependencies : List String
  diagnostics : List Diagnostic

/-- Go on with the identifiers seen so far. -/
def Walk.andThen (walk : Walk) (next : List String → Walk) : Walk :=
  let rest := next walk.seen
  ⟨rest.seen, walk.dependencies ++ rest.dependencies, walk.diagnostics ++ rest.diagnostics⟩

def Walk.report (diagnostics : List Diagnostic) (seen : List String) : Walk :=
  ⟨seen, [], diagnostics⟩

/-- The declared operations with the inputs that are bound to the context. -/
structure Catalog where
  operations : List String
  bindings : String → List String

def registerStepId (location : Location) (id : Option String) (seen : List String) : Walk :=
  match id with
  | none => .report [] seen
  | some id =>
    if id ∈ seen then
      .report [(location.child "/id").diagnostic "ACC_COMPILE_STEP_ID_DUPLICATE"
        s!"Workflow step ids must be unique: {id}"] seen
    else .report [] (id :: seen)

def validateCall (catalog : Catalog) (scope : Scope) (location : Location) (operation : String)
    (arguments : Fields) (seen : List String) : Walk where
  seen := seen
  dependencies := [operation]
  diagnostics :=
    (if operation ∈ catalog.operations then [] else
      [(location.child "/call/operation").diagnostic "ACC_COMPILE_OPERATION_NOT_FOUND"
        s!"Capability references an unknown operation: {operation}"]) ++
    (Text.sortedSet ((arguments.map Prod.fst).filter (· ∈ catalog.bindings operation))).map
      (fun argument =>
        (location.child s!"/call/arguments/{Text.escapeToken argument}").diagnostic
          "ACC_COMPILE_CONTEXT_BINDING_ARGUMENT_OVERRIDE"
          s!"Workflow arguments cannot provide a context-bound Operation input: {argument}") ++
    validateValue scope (location.child "/call/arguments") (.obj arguments)

mutual

def validateStep (catalog : Catalog) (scope : Scope) (location : Location) :
    WorkflowStep → List String → Walk
  | .call id operation arguments, seen =>
    (registerStepId location id seen).andThen
      (validateCall catalog scope location operation arguments)
  | .pick id value _, seen =>
    (registerStepId location id seen).andThen
      (.report (validateValue scope (location.child "/pick/value") value))
  | .map id items expression _, seen =>
    (registerStepId location id seen).andThen
      (.report (validateValue scope (location.child "/map/items") items ++
        validateExpression { scope with allowItem := true } (location.child "/map/expression")
          expression))
  | .filter id items condition _, seen =>
    (registerStepId location id seen).andThen
      (.report (validateValue scope (location.child "/filter/items") items ++
        validateExpression { scope with allowItem := true } (location.child "/filter/condition")
          condition))
  | .assert id condition _, seen =>
    (registerStepId location id seen).andThen
      (.report (validateExpression scope (location.child "/assert/condition") condition))
  | .redact id value _, seen =>
    (registerStepId location id seen).andThen
      (.report (validateValue scope (location.child "/redact/value") value))
  | .branch id condition thenSteps elseSteps, seen =>
    ((registerStepId location id seen).andThen
      (.report (validateBranchCondition scope (location.child "/branch/condition") condition))).andThen
      fun seen =>
        (validateWorkflow catalog scope (location.child "/branch/then") 0 thenSteps seen).andThen
          (validateWorkflow catalog scope (location.child "/branch/else") 0 elseSteps)
  | .parallel id children, seen =>
    (registerStepId location id seen).andThen
      (validateChildren catalog scope (location.child "/parallel") 0 children)
  | .foreach id items _ _ workflow, seen =>
    ((registerStepId location id seen).andThen
      (.report (validateValue scope (location.child "/foreach/items") items))).andThen
      (validateWorkflow catalog { scope with allowItem := true }
        (location.child "/foreach/workflow") 0 workflow)
  | .emit id value, seen =>
    (registerStepId location id seen).andThen
      (.report (validateValue scope (location.child "/emit/value") value))

/-- A step is available to the ones after it. -/
def validateWorkflow (catalog : Catalog) (scope : Scope) (location : Location) (index : ℕ) :
    List WorkflowStep → List String → Walk
  | [], seen => .report [] seen
  | step :: rest, seen =>
    (validateStep catalog scope (location.child s!"/{index}") step seen).andThen
      (validateWorkflow catalog
        { scope with availableSteps := step.id.toList ++ scope.availableSteps } location
        (index + 1) rest)

/-- The children of a parallel step do not see one another. -/
def validateChildren (catalog : Catalog) (scope : Scope) (location : Location) (index : ℕ) :
    List WorkflowStep → List String → Walk
  | [], seen => .report [] seen
  | child :: rest, seen =>
    (validateStep catalog scope (location.child s!"/{index}") child seen).andThen
      (validateChildren catalog scope location (index + 1) rest)

end

/-! Capabilities. -/

def policyDiagnostics (path policy : String) (policies : List String) : List Diagnostic :=
  if policy ∈ policies then []
  else [(Location.mk path "/policy").diagnostic "ACC_COMPILE_POLICY_NOT_FOUND"
    s!"Capability references an unknown policy: {policy}"]

/-- `targets` maps an eval to the capability it is about. -/
def evalDiagnostics (path capabilityId : String) (evals : List String)
    (targets : List (String × String)) : List Diagnostic :=
  (evals.mapIdx fun index evalId =>
    let location := Location.mk path s!"/evals/{index}"
    match (targets.find? (·.1 = evalId)).map Prod.snd with
    | none => [location.diagnostic "ACC_COMPILE_EVAL_NOT_FOUND"
        s!"Capability references an unknown eval: {evalId}"]
    | some target =>
      if target = capabilityId then []
      else [location.diagnostic "ACC_COMPILE_EVAL_CAPABILITY_MISMATCH"
        s!"Eval {evalId} targets {target}, not capability {capabilityId}."]).flatten

def finalEmitDiagnostics (location : Location) (message : String) (workflow : Workflow) :
    List Diagnostic :=
  match workflow.getLast? with
  | some (.emit ..) => []
  | _ => [location.diagnostic "ACC_COMPILE_FINAL_EMIT_REQUIRED" message]

def unsafeRootKeywords : List String :=
  ["$ref", "allOf", "anyOf", "oneOf", "if", "then", "else", "patternProperties",
    "unevaluatedProperties"]

/-- A public input cannot take the place of a context-bound one. -/
def contextBindingDiagnostics (path : String) (inputSchema : Fields) (bound : List String) :
    List Diagnostic :=
  let report := fun pointer message =>
    (Location.mk path pointer).diagnostic "ACC_COMPILE_CONTEXT_BINDING_PUBLIC_INPUT" message
  if bound = [] then []
  else
    (if Json.field? "type" inputSchema = some (.str "object") then [] else
      [report "/input_schema/type"
        "A Capability using context bindings requires a root object input schema."]) ++
    (if Json.field? "additionalProperties" inputSchema = some (.bool false) then [] else
      [report "/input_schema/additionalProperties"
        ("Capability input schemas must set additionalProperties to false when " ++
          "a dependency uses context bindings.")]) ++
    (unsafeRootKeywords.filter fun keyword => (Json.field? keyword inputSchema).isSome).map
      (fun keyword => report s!"/input_schema/{Text.escapeToken keyword}"
        ("A Capability using context bindings cannot use root input schema " ++
          s!"keyword: {keyword}")) ++
    (Text.sortedSet (match Json.field? "properties" inputSchema with
      | some (.obj properties) => (properties.map Prod.fst).filter (· ∈ bound)
      | _ => [])).map fun target =>
        report s!"/input_schema/properties/{Text.escapeToken target}"
          s!"Capability input cannot expose a context-bound Operation input: {target}"

def inputScope : Scope := ⟨[], false, true, false⟩

def preparedScope : Scope := ⟨[], false, false, true⟩

def compileCapability (capability : ReadCapability) (catalog : Catalog) (policies : List String)
    (targets : List (String × String)) : List String × List Diagnostic :=
  let path := s!"capabilities/{capability.id}.yaml"
  let walk := validateWorkflow catalog inputScope ⟨path, "/workflow"⟩ 0 capability.workflow []
  (walk.dependencies,
    policyDiagnostics path capability.policy policies ++
    evalDiagnostics path capability.id capability.evals targets ++
    walk.diagnostics ++
    finalEmitDiagnostics ⟨path, "/workflow"⟩ "A capability workflow must end with an emit step."
      capability.workflow ++
    contextBindingDiagnostics path capability.inputSchema
      (walk.dependencies.flatMap catalog.bindings))

def catalogOf (operations : Operations) : Catalog where
  operations := operations.map Prod.fst
  bindings id := match operation? id operations with
    | some operation => operation.contextBindings.map Prod.fst
    | none => []

def compileActionCapability (isValid : Json → Json → Bool) (capability : ActionCapability)
    (operations : Operations) (actionSemantics : List (String × ActionSemantics))
    (policies : List (String × Policies.Policy)) (targets : List (String × String)) :
    List String × List Diagnostic :=
  let path := s!"capabilities/{capability.id}.yaml"
  let proof := proveActionCapability isValid path capability operations actionSemantics
    ((policies.find? (·.1 = capability.policy)).map Prod.snd)
  let catalog := catalogOf operations
  let preview := validateWorkflow catalog inputScope ⟨path, "/preview_workflow"⟩ 0
    capability.previewWorkflow []
  let commit := validateWorkflow catalog preparedScope ⟨path, "/commit_workflow"⟩ 0
    capability.commitWorkflow []
  (preview.dependencies ++ proof.strategyOperationIds ++ commit.dependencies,
    policyDiagnostics path capability.policy (policies.map Prod.fst) ++
    evalDiagnostics path capability.id capability.evals targets ++
    proof.diagnostics ++ preview.diagnostics ++ commit.diagnostics ++
    finalEmitDiagnostics ⟨path, "/preview_workflow"⟩
      "An Action preview_workflow must end with an emit step." capability.previewWorkflow ++
    finalEmitDiagnostics ⟨path, "/commit_workflow"⟩
      "An Action commit_workflow must end with an emit step." capability.commitWorkflow)

end CapabilityCompiler.Compiler
