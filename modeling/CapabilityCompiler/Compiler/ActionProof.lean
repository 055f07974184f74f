import CapabilityCompiler.Compiler.Actions

/-! Safety contracts of the mutations of an action, and the whole action proof. -/
namespace CapabilityCompiler.Compiler
open Foundation Models

def commitDiagnostic (path code message pointer : String) : Diagnostic where
  code := code
  message := message
  path := path
  pointer := pointer

/-! Source semantics. -/

def dumpInjectionTarget : RuntimeInjectionTarget → Json
  | .header name => .obj [("kind", .str "header"), ("name", .str name)]
  | .body pointer => .obj [("kind", .str "body"), ("pointer", .str pointer)]

def dumpTokenSource : ConcurrencyTokenSource → Json
  | .responseHeader name => .obj [("kind", .str "response_header"), ("name", .str name)]
  | .body pointer => .obj [("kind", .str "body"), ("pointer", .str pointer)]

def dumpIdempotency : IdempotencyContract → Json
  | .unsupported => .obj [("mode", .str "unsupported")]
  | .runtimeDeduplicate => .obj [("mode", .str "runtime_deduplicate")]
  | .sourceKey target => .obj [("mode", .str "source_key"), ("target", dumpInjectionTarget target)]
  | .stateIdempotent pointer values => .obj [("mode", .str "state_idempotent"),
      ("state_pointer", .str pointer), ("terminal_values", .arr values)]

def dumpConcurrency : ConcurrencyContract → Json
  | .required token precondition => .obj [("mode", .str "required"),
      ("token", dumpTokenSource token), ("precondition", dumpInjectionTarget precondition)]
  | .notSupported => .obj [("mode", .str "not_supported")]
  | .serverSerializedStatePredicate read pointer values => .obj
      [("mode", .str "server_serialized_state_predicate"), ("read_operation_id", .str read),
        ("state_pointer", .str pointer), ("allowed_values", .arr values)]

/-- The declared safety is the one of the source semantics. -/
def sameSemantics (operation : Operation) (semantics : ActionSemantics) : Bool :=
  operation.http.method = semantics.method &&
  operation.http.safety.effect = semantics.safety.effect &&
  operation.http.safety.risk = semantics.safety.risk &&
  operation.http.safety.reversibility = semantics.safety.reversibility &&
  operation.http.safety.retry = semantics.safety.retry &&
  (dumpIdempotency operation.http.safety.idempotency).pyEqual
    (dumpIdempotency semantics.safety.idempotency) &&
  (dumpConcurrency operation.http.safety.concurrency).pyEqual
    (dumpConcurrency semantics.safety.concurrency)

/-- Source semantics can be sealed for the operation they are bound to. -/
def semanticsAttestable (operation : Operation) (semantics : ActionSemantics) : Bool :=
  sameSemantics operation semantics && decide (semantics.evidence ∈ operation.evidence) &&
    semantics.provenance.all fun claim => decide (claim.evidence ∈ operation.evidence)

/-! The schema of the preview. -/

/-- The producing steps of a preview result. -/
def callsNamed (stepId : String) (workflow : Workflow) : List String :=
  workflow.filterMap fun step => match step with
    | .call id operation _ => if id = some stepId then some operation else none
    | _ => none

def previewResultSchema (capability : ActionCapability) (operations : Operations) :
    Option Fields :=
  match capability.previewWorkflow.getLast? with
  | some (.emit _ (.str reference)) =>
    match Text.dropPrefix? "$.steps.".toList reference.toList with
    | none => none
    | some rest =>
      let tokens := (Text.splitChars '.' rest).map String.ofList
      if "" ∈ tokens then none
      else match tokens with
        | [] => none
        | stepId :: valueTokens =>
          match callsNamed stepId capability.previewWorkflow with
          | [operationId] =>
            match operation? operationId operations with
            | some operation =>
              if operation.kind ≠ .read then none
              else if valueTokens = [] then some operation.outputSchema
              else
                let pointer := "/" ++ "/".intercalate (valueTokens.map Text.escapeToken)
                if schemaPointerIsGuaranteed operation.outputSchema pointer then
                  schemaAtDataPointer operation.outputSchema pointer
                else none
            | none => none
          | _ => none
  | _ => none

/-! Status queries. -/

section StatusQuery
variable (isValid : Json → Json → Bool) (path : String) (capability : ActionCapability)
  (policy : Option Policies.Policy)

def policyDiscloses (pointer : String) : Bool :=
  match policy with
  | some policy => policy.id = capability.policy && policyDisclosesUnmodified policy pointer
  | none => false

def proven (source declared : Fields) : Bool :=
  (Contracts.compareOperationOutput isValid (.obj source) (.obj declared)).relation = .proven

/-- The target a binding constructs, or why it does not. -/
def proveStatusQueryBinding (operation : Operation) (properties : Fields)
    (previewSchema : Option Fields) (pointer : String) (binding : StatusQueryRequestBinding) :
    Except Diagnostic String :=
  match Json.field? binding.target properties with
  | some (.obj targetSchema) =>
    if binding.target ∈ operation.contextBindings.map Prod.fst then
      .error (commitDiagnostic path "ACC_COMPILE_ACTION_STATUS_QUERY_BINDING_CONTEXT_FORBIDDEN"
        "Status query bindings cannot override Runtime-owned context inputs." (pointer ++ "/target"))
    else if binding.source = .runtimeIdempotencyKey then
      if proven isValid [("type", .str "string"), ("minLength", .int 1), ("maxLength", .int 200)]
          targetSchema then .ok binding.target
      else .error (commitDiagnostic path
        "ACC_COMPILE_ACTION_STATUS_QUERY_RUNTIME_KEY_TARGET_INVALID"
        "A Runtime idempotency key status binding requires a proven string-compatible target."
        pointer)
    else match binding.sourcePointer with
      | none => .error (commitDiagnostic path
          "ACC_COMPILE_ACTION_STATUS_QUERY_BINDING_SOURCE_INVALID"
          "A sealed status query binding requires a source pointer." (pointer ++ "/source_pointer"))
      | some sourcePointer =>
        let sourceRoot :=
          if binding.source = .capabilityInput then some capability.inputSchema else previewSchema
        if binding.source = .preparedPreview && !policyDiscloses capability policy sourcePointer then
          .error (commitDiagnostic path "ACC_COMPILE_ACTION_STATUS_QUERY_PREVIEW_NOT_PUBLIC"
            ("A prepared-preview status selector must survive its Capability policy " ++
              "without denial or redaction.") (pointer ++ "/source_pointer"))
        else match sourceRoot with
          | none => .error (commitDiagnostic path
              "ACC_COMPILE_ACTION_STATUS_QUERY_BINDING_SOURCE_INVALID"
              "A prepared-preview binding requires a statically proven public preview."
              (pointer ++ "/source_pointer"))
          | some root =>
            match schemaAtDataPointer root sourcePointer,
                schemaPointerIsGuaranteed root sourcePointer with
            | some sourceSchema, true =>
              if proven isValid sourceSchema targetSchema then .ok binding.target
              else .error (commitDiagnostic path
                "ACC_COMPILE_ACTION_STATUS_QUERY_BINDING_SCHEMA_UNPROVEN"
                "A status query binding source is not proven compatible with its target." pointer)
            | _, _ => .error (commitDiagnostic path
                "ACC_COMPILE_ACTION_STATUS_QUERY_BINDING_SOURCE_INVALID"
                "A status query binding source must be present in its sealed schema."
                (pointer ++ "/source_pointer"))
  | _ => .error (commitDiagnostic path "ACC_COMPILE_ACTION_STATUS_QUERY_BINDING_TARGET_INVALID"
      "A status query binding target must be a declared input field." (pointer ++ "/target"))

def proveSuccessContract (operation : Operation) (outcome : StatusQueryOutcomeResolution) :
    List Diagnostic :=
  match outcome.successPointer, outcome.successValues with
  | some pointer, some values =>
    match schemaAtDataPointer operation.outputSchema pointer,
        schemaPointerIsGuaranteed operation.outputSchema pointer with
    | some schema, true =>
      if values.all (isValid (.obj schema)) then []
      else [commitDiagnostic path "ACC_COMPILE_ACTION_STATUS_QUERY_SUCCESS_VALUE_INVALID"
        "Every declared success value must satisfy the success field schema."
        "/commit_workflow/status_query/success_values"]
    | _, _ => [commitDiagnostic path "ACC_COMPILE_ACTION_STATUS_QUERY_SUCCESS_FIELD_UNPROVEN"
        "The status query success field must be guaranteed by its output schema."
        "/commit_workflow/status_query/success_pointer"]
  | _, _ => []

/-- The bindings of a status query, by default one for each required input. -/
def statusQueryBindings (required : List String) (outcome : StatusQueryOutcomeResolution) :
    List StatusQueryRequestBinding :=
  if outcome.requestBindings ≠ [] then outcome.requestBindings
  else (Text.sortedSet required).map fun target =>
    ⟨target, .capabilityInput, some ("/" ++ Text.escapeToken target)⟩

def requiredInputs (operation : Operation) (required : List Json) : List String :=
  required.filterMap fun item => match item with
    | .str name => if name ∈ operation.contextBindings.map Prod.fst then none else some name
    | _ => none

def proveStatusQueryBindings (operation : Operation) (outcome : StatusQueryOutcomeResolution)
    (previewSchema : Option Fields) : List Diagnostic :=
  match Json.field? "properties" operation.inputSchema,
      (Json.field? "required" operation.inputSchema).getD (.arr []) with
  | some (.obj properties), .arr requiredValue =>
    let required := requiredInputs operation requiredValue
    let outcomes := (statusQueryBindings required outcome).mapIdx fun index binding =>
      proveStatusQueryBinding isValid path capability policy operation properties previewSchema
        s!"/commit_workflow/status_query/request_bindings/{index}" binding
    let constructed := outcomes.filterMap Except.toOption
    outcomes.filterMap (fun outcome => match outcome with
      | .error diagnostic => some diagnostic
      | .ok _ => none) ++
    proveSuccessContract isValid path operation outcome ++
    (Text.sortedSet (required.filter (· ∉ constructed))).map fun target =>
      commitDiagnostic path "ACC_COMPILE_ACTION_STATUS_QUERY_REQUIRED_INPUT_UNBOUND"
        "Every required status query input must be constructible from sealed values."
        s!"/commit_workflow/status_query/required/{Text.escapeToken target}"
  | _, _ => [commitDiagnostic path "ACC_COMPILE_ACTION_STATUS_QUERY_BINDING_TARGET_INVALID"
      "Status query bindings require a declared object input schema." "/commit_workflow"]

end StatusQuery

/-! Local development guards. -/

section Guard
variable (path : String) (capability : ActionCapability) (operations : Operations)
  (policy : Option Policies.Policy)

def guardResourceDiagnostics (guard : LocalDevelopmentStateGuard) : List Diagnostic :=
  let scalar := match schemaAtDataPointer capability.inputSchema guard.resourceKeyPointer with
    | some schema => Json.field? "type" schema = some (.str "string") ||
        Json.field? "type" schema = some (.str "integer")
    | none => false
  if scalar && schemaPointerIsGuaranteed capability.inputSchema guard.resourceKeyPointer then []
  else [commitDiagnostic path "ACC_COMPILE_ACTION_LOCAL_DEVELOPMENT_RESOURCE_KEY_INVALID"
    ("A local development state guard requires a required scalar " ++
      "resource key in the sealed capability input.")
    "/action/local_development_state_guard/resource_key_pointer"]

/-- The operation is read in the preview. -/
def isPreviewRead (operationId : String) : Bool :=
  (previewSites capability).any (·.operationId = operationId) &&
    match operation? operationId operations with
    | some operation => operation.kind = .read
    | none => false

def guardReadDiagnostics (guard : LocalDevelopmentStateGuard) : List Diagnostic :=
  if isPreviewRead capability operations guard.readOperationId then []
  else [commitDiagnostic path "ACC_COMPILE_ACTION_LOCAL_DEVELOPMENT_PREVIEW_READ_REQUIRED"
    "A local development state guard requires its declared Read Operation in preview."
    "/preview_workflow"]

def guardStateDiagnostics (guard : LocalDevelopmentStateGuard) : List Diagnostic :=
  let guaranteed := match previewResultSchema capability operations with
    | some schema => schemaPointerIsGuaranteed schema guard.statePointer
    | none => false
  let disclosed := match policy with
    | some policy => policyDisclosesUnmodified policy guard.statePointer
    | none => false
  if guaranteed && disclosed then []
  else [commitDiagnostic path "ACC_COMPILE_ACTION_LOCAL_DEVELOPMENT_STATE_INVALID"
    ("A local development state guard requires a guaranteed, " ++
      "unmodified public preview state.")
    "/action/local_development_state_guard/state_pointer"]

def guardDiagnostics : List Diagnostic :=
  match capability.action.localDevelopmentStateGuard with
  | none => []
  | some guard => guardResourceDiagnostics path capability guard ++
      guardReadDiagnostics path capability operations guard ++
      guardStateDiagnostics path capability operations policy guard

def guardValid : Bool :=
  capability.action.localDevelopmentStateGuard.isSome &&
    guardDiagnostics path capability operations policy = []

end Guard

/-! The safety contract of one mutation. -/

def effectName : Effect → String
  | .read => "read"
  | .create => "create"
  | .update => "update"
  | .delete => "delete"
  | .transition => "transition"
  | .execute => "execute"

/-- The effects that need control over concurrent changes. -/
def changesState (effect : Effect) : Bool :=
  effect = .update || effect = .delete || effect = .transition

def usesLocalDevelopmentGuard (valid : Bool) (safety : OperationSafety) : Bool :=
  valid && changesState safety.effect && safety.risk = .low && safety.retry = .never &&
    safety.idempotency = .runtimeDeduplicate && safety.concurrency = .notSupported

section Safety
variable (isValid : Json → Json → Bool) (path : String) (capability : ActionCapability)
  (operations : Operations) (policy : Option Policies.Policy)
  (actionSemantics : List (String × ActionSemantics))

def semantics? (operationId : String) : Option ActionSemantics :=
  (actionSemantics.find? (·.1 = operationId)).map Prod.snd

def statusQuery? (operation : Operation) : Option StatusQueryOutcomeResolution :=
  match (semantics? actionSemantics operation.id).bind (·.outcomeResolution) with
  | some (.statusQuery query) => some query
  | _ => none

/-- The declared read operation of a status query. -/
def statusOperation? (query : StatusQueryOutcomeResolution) : Option Operation :=
  match operation? query.operationId operations with
  | some operation => if operation.kind = .read then some operation else none
  | none => none

def outcomeDiagnostics (operation : Operation) : List Diagnostic :=
  match statusQuery? actionSemantics operation with
  | none => []
  | some query => match statusOperation? operations query with
    | some statusOperation => proveStatusQueryBindings isValid path capability policy
        statusOperation query (previewResultSchema capability operations)
    | none => [commitDiagnostic path "ACC_COMPILE_ACTION_STATUS_QUERY_INVALID"
        "A status query outcome must reference a declared read Operation." "/commit_workflow"]

def statusQueryValid (operation : Operation) : Bool :=
  ((statusQuery? actionSemantics operation).bind (statusOperation? operations)).isSome

/-- The safety fields of a server-serialized mutation have a trusted source. -/
def trustedProvenance (operation : Operation) : Bool :=
  match semantics? actionSemantics operation.id with
  | none => false
  | some semantics => semanticsAttestable operation semantics &&
    [ProvenanceField.conflictControl, .idempotency, .outcomeResolution].all fun field =>
      match semantics.provenance.reverse.find? (·.field = field) with
      | some claim => claim.authority = .implementation || claim.authority = .test
      | none => false

def serverSerializedDiagnostics (operation : Operation) (readOperationId : String) :
    List Diagnostic :=
  let safety := operation.http.safety
  (if safety.effect = .delete || safety.effect = .transition then [] else
    [commitDiagnostic path "ACC_COMPILE_ACTION_SERVER_SERIALIZED_EFFECT_UNSUPPORTED"
      "Server-serialized state predicates support only delete or transition."
      "/commit_workflow"]) ++
  (if safety.retry = .never then [] else
    [commitDiagnostic path "ACC_COMPILE_ACTION_SERVER_SERIALIZED_RETRY_FORBIDDEN"
      "Server-serialized mutations must never be retried automatically." "/commit_workflow"]) ++
  (match safety.idempotency with
    | .stateIdempotent .. => []
    | _ => [commitDiagnostic path "ACC_COMPILE_ACTION_STATE_IDEMPOTENCY_REQUIRED"
        "Server-serialized mutations require state-idempotent semantics." "/commit_workflow"]) ++
  (if isPreviewRead capability operations readOperationId then [] else
    [commitDiagnostic path "ACC_COMPILE_ACTION_STATE_PREVIEW_READ_REQUIRED"
      "Server-serialized strategy requires its declared read in preview." "/preview_workflow"]) ++
  (if trustedProvenance actionSemantics operation then [] else
    [commitDiagnostic path "ACC_COMPILE_ACTION_SAFETY_PROVENANCE_REQUIRED"
      "Server-serialized safety requires trusted field-level provenance." "/commit_workflow"]) ++
  if statusQueryValid operations actionSemantics operation then [] else
    [commitDiagnostic path "ACC_COMPILE_ACTION_STATUS_QUERY_REQUIRED"
      "Server-serialized safety requires a declared read status query." "/commit_workflow"]

def concurrencyDiagnostics (operation : Operation) (guarded : Bool) : List Diagnostic :=
  match operation.http.safety.concurrency with
  | .required .. => []
  | .serverSerializedStatePredicate readOperationId _ _ =>
    serverSerializedDiagnostics path capability operations actionSemantics operation readOperationId
  | .notSupported =>
    if changesState operation.http.safety.effect && !guarded then
      [commitDiagnostic path "ACC_COMPILE_ACTION_CONCURRENCY_REQUIRED"
        s!"{effectName operation.http.safety.effect} Action requires an optimistic concurrency contract."
        "/commit_workflow"]
    else []

def isSourceKey : IdempotencyContract → Bool
  | .sourceKey _ => true
  | _ => false

def safetyDiagnostics (operation : Operation) : List Diagnostic :=
  let safety := operation.http.safety
  let guarded := usesLocalDevelopmentGuard (guardValid path capability operations policy) safety
  outcomeDiagnostics isValid path capability operations policy actionSemantics operation ++
  (if (safety.effect = .create || safety.effect = .execute) && !isSourceKey safety.idempotency then
    [commitDiagnostic path "ACC_COMPILE_ACTION_SOURCE_IDEMPOTENCY_REQUIRED"
      s!"{effectName safety.effect} Action requires evidenced source-key idempotency."
      "/commit_workflow"] else []) ++
  (if capability.action.localDevelopmentStateGuard.isSome && !guarded then
    [commitDiagnostic path "ACC_COMPILE_ACTION_LOCAL_DEVELOPMENT_SAFETY_INVALID"
      ("A local development state guard supports only low-risk update, " ++
        "delete, or transition Operations with runtime_deduplicate, " ++
        "retry never, and explicitly unsupported source concurrency.")
      "/action/local_development_state_guard"] else []) ++
  concurrencyDiagnostics path capability operations actionSemantics operation guarded

/-- The operations the safety strategies of the mutations read. -/
def strategyOperationIds (mutations : List Operation) : List String :=
  let ofGuard := match capability.action.localDevelopmentStateGuard with
    | some guard =>
      if isPreviewRead capability operations guard.readOperationId then [guard.readOperationId]
      else []
    | none => []
  let ofOperation := fun operation : Operation =>
    (match statusQuery? actionSemantics operation with
      | some query => if (statusOperation? operations query).isSome then [query.operationId] else []
      | none => []) ++
    match operation.http.safety.concurrency with
    | .serverSerializedStatePredicate read _ _ =>
      if isPreviewRead capability operations read then [read] else []
    | _ => []
  ofGuard ++ mutations.flatMap ofOperation

end Safety

/-! The whole proof. -/

def derivedApprovalRequired (operations : List Operation) : Bool :=
  operations.any fun operation =>
    let safety := operation.http.safety
    safety.risk = .high || safety.risk = .critical || safety.reversibility ≠ .reversible ||
      safety.effect = .delete || safety.effect = .execute || !isSourceKey safety.idempotency

def riskRank : Risk → ℕ
  | .low => 0
  | .medium => 1
  | .high => 2
  | .critical => 3

def maximumRisk (operations : List Operation) : Option Risk :=
  operations.foldl (fun greatest operation => match greatest with
    | some risk => if riskRank risk < riskRank operation.http.safety.risk then
        some operation.http.safety.risk else some risk
    | none => some operation.http.safety.risk) none

structure ActionProof where
  diagnostics : List Diagnostic
  mutationOperationIds : List String
  effects : List String
  maximumRisk : Option Risk
  requiredScopes : List String
  approvalRequired : Bool
  strategyOperationIds : List String

def ActionProof.ok (proof : ActionProof) : Bool := errorFree proof.diagnostics

/-- The distinct mutations of the commit workflow, in the order of their identifiers. -/
def mutationOperations (capability : ActionCapability) (operations : Operations) :
    List Operation :=
  (Text.sortedSet ((mutationSites capability operations).map (·.operationId))).filterMap
    (operation? · operations)

def approvalDiagnostics (path : String) (capability : ActionCapability)
    (mutations : List Operation) : List Diagnostic :=
  if derivedApprovalRequired mutations && capability.action.approval ≠ .required then
    [commitDiagnostic path "ACC_COMPILE_ACTION_APPROVAL_REQUIRED"
      "The derived Action risk requires an explicit approval grant." "/action/approval/mode"]
  else []

def proveActionCapability (isValid : Json → Json → Bool) (path : String)
    (capability : ActionCapability) (operations : Operations)
    (actionSemantics : List (String × ActionSemantics)) (policy : Option Policies.Policy) :
    ActionProof :=
  let mutations := mutationOperations capability operations
  let strategies := strategyOperationIds capability operations actionSemantics mutations
  let used := (previewSites capability ++ commitSites capability).map (·.operationId) ++ strategies
  { diagnostics := workflowDiagnostics path capability operations ++
      guardDiagnostics path capability operations policy ++
      mutations.flatMap
        (safetyDiagnostics isValid path capability operations policy actionSemantics) ++
      approvalDiagnostics path capability mutations
    mutationOperationIds :=
      Text.sortedSet ((mutationSites capability operations).map (·.operationId))
    effects := Text.sortedSet (mutations.map fun operation => effectName operation.http.safety.effect)
    maximumRisk := maximumRisk mutations
    requiredScopes := Text.sortedSet
      ((used.filterMap (operation? · operations)).flatMap fun operation => operation.http.scopes)
    approvalRequired :=
      capability.action.approval = .required || derivedApprovalRequired mutations
    strategyOperationIds := Text.sortedSet strategies }

end CapabilityCompiler.Compiler
