import CapabilityCompiler.Actions.PreparedReferences
import CapabilityCompiler.Compiler.ActionProof
import CapabilityCompiler.Execution.Executor

/-! The commit of a compiled action over a provider of operations. -/
namespace CapabilityCompiler.Actions
open Foundation Models Compiler Execution

/-! The trusted identity of the caller. -/

structure PrincipalContext where
  principalId : String
  targetSystemId : String
  effectiveScopes : List String
  tenantContext : Option Fields

/-- What the host provides: a schema validator, hashing, case folding and the test for
authentication names. -/
structure Host where
  schemas : SchemaChecker
  digest : Policies.Digest
  casefold : String → String
  sensitive : String → Bool

def isTenantSegment (segment : String) : Bool :=
  match segment.toList with
  | [] => false
  | first :: rest =>
    (first.isUpper || first.isLower) &&
      rest.all fun c => c.isUpper || c.isLower || c.isDigit || c = '_' || c = '-'

/-- `tenant_context(.segment)+` -/
def tenantPath? (reference : String) : Option (List String) :=
  match Text.split '.' reference with
  | root :: segment :: rest =>
    if root = "tenant_context" ∧ (segment :: rest).all isTenantSegment then some (segment :: rest)
    else none
  | _ => none

def resolveContextBinding (host : Host) (context : PrincipalContext) (reference : String)
    (allowed : List String) : Option Json :=
  if reference = "principal_id" then some (.str context.principalId)
  else match tenantPath? reference with
    | none => none
    | some path =>
      if path.any host.sensitive || reference ∉ allowed then none
      else context.tenantContext.bind fun tenant => Policies.lookup (.obj tenant) path

/-! The provider's side. -/

/-- What a commit asks of the provider, the resource lock and the lists its caller fills. -/
inductive ActionRequest where
  | read (call : CallRequest)
  | mutate (call : CallRequest) (idempotencyKey : String) (concurrencyToken : Json)
  | hold (key : String)
  | recorded

inductive ActionReply where
  | readResult (value : Json) (headers : List (String × String))
  | value (value : Json)
  | notJson
  | invalid
  | error (error : RuntimeError)
  | exception
  | held
  | recorded (responseHeaders : List (List (String × String))) (actionOperationIds : List String)

def configurationInvalid (message : String) : RuntimeError where
  code := "ACC_RUNTIME_ACTION_CONFIGURATION_INVALID"
  status := 500
  message := message

def stateConflict (message : String) : RuntimeError where
  code := "ACC_RUNTIME_ACTION_STATE_CONFLICT"
  status := 409
  message := message

def argumentsInvalid (operationId : String) : RuntimeError where
  code := "ACC_RUNTIME_OPERATION_INPUT_INVALID"
  status := 500
  message := "Trusted Action arguments do not match the Operation schema."
  details := [("operation_id", .str operationId)]

/-! The arguments of an operation. -/

/-- An action whose compiled form has been attested. -/
structure LoadedAction (isValid : Json → Json → Bool) where
  capability : ActionCapability
  operations : Operations
  policy : Policies.Policy
  semantics : List (String × ActionSemantics)
  projectId : String
  contextBindingAllowlist : List String
  proved : (proveActionCapability isValid "" capability operations semantics (some policy)).ok = true

inductive Phase where
  | preview
  | commit
  | status
deriving DecidableEq

/-- How the operations of one workflow are called. -/
structure ActionOperationCaller where
  host : Host
  operations : Operations
  policy : Policies.Policy
  principalContext : PrincipalContext
  allowedContextBindings : List String
  phase : Phase
  idempotencyKey : Option String := none
  concurrencyToken : Json := .null

def bindContext (host : Host) (context : PrincipalContext) (allowed : List String) :
    List (String × String) → Fields → Except RuntimeError Fields
  | [], arguments => .ok arguments
  | (target, reference) :: rest, arguments =>
    if (Json.field? target arguments).isSome then
      .error (configurationInvalid "Workflow arguments cannot override trusted context")
    else match resolveContextBinding host context reference allowed with
      | none => .error (configurationInvalid "Compiled context binding cannot be resolved")
      | some value => bindContext host context allowed rest (arguments ++ [(target, value)])

/-- Assign to a key of a dictionary. -/
def setField (key : String) (value : Json) : Fields → Fields
  | [] => [(key, value)]
  | (k, v) :: rest => if k = key then (key, value) :: rest else (k, v) :: setField key value rest

/-- Absent and null parents are created; a value that is there stays. -/
def injectAt (value : Json) : List String → Fields → Except RuntimeError Fields
  | [], _ => .error (configurationInvalid "Policy tenant field is invalid")
  | [last], arguments =>
    .ok (if (Json.field? last arguments).isSome then arguments else setField last value arguments)
  | token :: rest, arguments =>
    match Json.field? token arguments with
    | none | some .null => do
      let created ← injectAt value rest []
      return setField token (.obj created) arguments
    | some (.obj child) => do
      let filled ← injectAt value rest child
      return setField token (.obj filled) arguments
    | some _ => .error (configurationInvalid "Policy tenant field conflicts with input")

def injectContextValue (arguments : Fields) (fieldName : String) (value : Json) :
    Except RuntimeError Fields :=
  if value = .null then .ok arguments
  else
    let path := (Text.dropPrefix? ['$', '.'] fieldName.toList).getD fieldName.toList
    injectAt value (((Text.splitChars '.' path).filter (· ≠ [])).map String.ofList) arguments

def tenantId (host : Host) (context : PrincipalContext) : Json :=
  (resolveContextBinding host context "tenant_context.tenant_id"
    ["tenant_context.tenant_id"]).getD .null

namespace ActionOperationCaller
variable (caller : ActionOperationCaller)

/-- The arguments with the context-bound inputs and the tenant. -/
def enrich (definition : Operation) (arguments : Fields) : Except RuntimeError Fields := do
  let bound ← bindContext caller.host caller.principalContext caller.allowedContextBindings
    definition.contextBindings arguments
  match caller.policy.tenantMode, caller.policy.tenantField with
  | .required, some field =>
    injectContextValue bound field (tenantId caller.host caller.principalContext)
  | _, _ => return bound

/-- The checks before an operation is performed. -/
def permit (definition : Operation) (enriched : Fields) : Except RuntimeError Unit := do
  let effective := { caller.policy with
    requiredScopes := Text.sortedSet (caller.policy.requiredScopes ++ definition.http.scopes) }
  if caller.host.schemas.valid definition.inputSchema (.obj enriched) then
    Policies.authorize effective caller.principalContext.effectiveScopes enriched
      (tenantId caller.host caller.principalContext)
  else .error (argumentsInvalid definition.id)

def requiresToken (definition : Operation) : Bool :=
  match definition.http.safety.concurrency with
  | .required .. => true
  | _ => false

/-- What the provider is asked for a call of the workflow. -/
def request (call : CallRequest) : Except RuntimeError ActionRequest :=
  match operation? call.operation.id caller.operations with
  | none => .error (configurationInvalid "Compiled Action Operation is invalid")
  | some definition =>
    if definition ≠ call.operation then
      .error (configurationInvalid "Compiled Action Operation is invalid")
    else do
      let enriched ← caller.enrich definition call.arguments
      caller.permit definition enriched
      let performed := { call with arguments := enriched }
      match definition.kind with
      | .read => return .read performed
      | .action => match caller.phase, caller.idempotencyKey with
        | .commit, some key =>
          if requiresToken definition && decide (caller.concurrencyToken = .null) then
            .error (configurationInvalid "A required optimistic concurrency token is unavailable")
          else return .mutate performed key caller.concurrencyToken
        | _, _ => .error (configurationInvalid
            "A mutation cannot execute outside the trusted commit phase")

def isControl (c : Char) : Bool := c.toNat < 32 || (127 ≤ c.toNat && c.toNat < 160)

def headersValid (headers : List (String × String)) : Bool :=
  headers.all fun header => header.1 ≠ "" && !(header.1 ++ header.2).toList.any isControl

/-- What the workflow sees of a reply of the provider. -/
def reply (definition : Operation) : ActionReply → Reply
  | .readResult value headers =>
    if definition.kind = .action then .notJson
    else if headersValid headers then .value value
    else .stableError (configurationInvalid "Action read response headers are invalid")
  | .value value =>
    if definition.kind = .action then .value value
    else .stableError (configurationInvalid "Action read provider result is invalid")
  | .notJson => .notJson
  | .invalid =>
    if definition.kind = .action then .notJson
    else .stableError (configurationInvalid "Action read provider result is invalid")
  | .error error => .stableError error
  | _ => .exception

/-- A call that is refused raises at the call step. -/
def perform (call : CallRequest)
    (next : Reply → Process ActionRequest ActionReply Failure Json) :
    Process ActionRequest ActionReply Failure Json :=
  match caller.request call with
  | .error error => next (.stableError error)
  | .ok asked => .request asked fun answer => next (reply call.operation answer)

end ActionOperationCaller
/-! Values at JSON Pointers. -/

def runtimeTokens (pointer : String) : List String :=
  (Text.splitChars '/' pointer.toList).tail.map fun token =>
    Text.unescapeToken (String.ofList token)

/-- Array indices have no leading zero. -/
def resolveTokens : Json → List String → Option Json
  | value, [] => some value
  | .obj fields, token :: rest =>
    (Json.field? token fields).bind fun value => resolveTokens value rest
  | .arr items, token :: rest =>
    (arrayIndex? token).bind fun index => items[index]?.bind fun value => resolveTokens value rest
  | _, _ :: _ => none

def resolveJsonPointer (value : Json) (pointer : String) : Option Json :=
  resolveTokens value (runtimeTokens pointer)

/-- Scalars with the same canonical text. -/
def textLeaf : Json → Json → Bool
  | .null, .null => true
  | .bool a, .bool b => a == b
  | .int a, .int b => a == b
  | .float a, .float b => a == b
  | .str a, .str b => a == b
  | _, _ => false

/-- The canonical JSON texts are equal. -/
def sameText : Json → Json → Bool := Json.eqWith textLeaf

def hasText (values : List Json) (value : Json) : Bool := values.any (sameText value)

/-! The preview. -/

abbrev ActionProcess := Process ActionRequest ActionReply Failure Json

def fail (error : RuntimeError) : ActionProcess := .failed (.caller error)

/-- Continue a process with the result of a check. -/
def checked {α : Type} (result : Except RuntimeError α) (next : α → ActionProcess) :
    ActionProcess :=
  match result with
  | .ok value => next value
  | .error error => fail error

section Loaded
variable {isValid : Json → Json → Bool} (host : Host) (loaded : LoadedAction isValid)

def LoadedAction.mutationOperationIds : List String :=
  (proveActionCapability isValid "" loaded.capability loaded.operations loaded.semantics
    (some loaded.policy)).mutationOperationIds

/-- The mutating operations of the proof. -/
def LoadedAction.mutations : List Operation :=
  loaded.mutationOperationIds.filterMap (operation? · loaded.operations)

def permitConflict : RuntimeError :=
  stateConflict "Action preview state does not permit the requested transition"

/-- Whether the preview is in an allowed (`false`) or in a terminal (`true`) state, for each
server-serialized mutation. -/
def classifyPreview (preview : Json) : List Operation → Except RuntimeError (List Bool)
  | [] => .ok []
  | operation :: rest =>
    match operation.http.safety.concurrency with
    | .serverSerializedStatePredicate _ pointer allowed =>
      match operation.http.safety.idempotency, resolveJsonPointer preview pointer with
      | .stateIdempotent _ terminal, some state => do
        let terminalState ← if hasText terminal state then .ok true
          else if hasText allowed state then .ok false else .error permitConflict
        let others ← classifyPreview preview rest
        return terminalState :: others
      | _, _ => .error permitConflict
    | _ => classifyPreview preview rest

/-- The preview shows an idempotent terminal state. -/
def validateServerSerializedPreview (preview : Json) : Except RuntimeError Bool := do
  match ← classifyPreview preview loaded.mutations with
  | [] => return false
  | first :: others =>
    if others.any (· ≠ first) then .error permitConflict
    else if first && decide (others.length + 1 < loaded.mutations.length) then .error permitConflict
    else return first

def tokenSources : List ConcurrencyTokenSource :=
  (loaded.mutations.filterMap fun operation => match operation.http.safety.concurrency with
    | .required token _ => some token
    | _ => none).dedup

def captureConcurrencyToken (preview : Json) (responseHeaders : List (List (String × String))) :
    Except RuntimeError Json :=
  match tokenSources loaded with
  | [] => .ok .null
  | [.body pointer] => .ok ((resolveJsonPointer preview pointer).getD .null)
  | [.responseHeader name] =>
    match ((responseHeaders.flatten.filter fun header =>
        host.casefold header.1 = host.casefold name).map Prod.snd).dedup with
    | [] => .ok .null
    | [value] => .ok (.str value)
    | _ => .error (configurationInvalid "Preview returned ambiguous concurrency tokens")
  | _ => .error (configurationInvalid
      "Action mutations require incompatible concurrency token sources")

def validateLocalDevelopmentPreview (preview : Json) : Except RuntimeError Unit :=
  match loaded.capability.action.localDevelopmentStateGuard with
  | none => .ok ()
  | some guard =>
    match resolveJsonPointer preview guard.statePointer with
    | some state =>
      if hasText (guard.allowedValues ++ guard.terminalValues) state then .ok ()
      else .error (stateConflict "Action preview state does not permit the requested mutation")
    | none =>
      .error (stateConflict "Action preview state does not permit the requested mutation")

def LoadedAction.caller (principalContext : PrincipalContext) (phase : Phase) :
    ActionOperationCaller where
  host := host
  operations := loaded.operations
  policy := loaded.policy
  principalContext := principalContext
  allowedContextBindings := loaded.contextBindingAllowlist
  phase := phase

/-- Workflows of actions are executed without input and output validation of their own. -/
def actionEngine (caller : ActionOperationCaller) (capabilityId : String) :
    Engine ActionRequest ActionReply where
  schemas := caller.host.schemas
  settings := ⟨false, false⟩
  operations := caller.operations
  capabilityId := capabilityId
  perform := caller.perform

/-- Ask for the lists the caller has filled. -/
def withRecorded (next : List (List (String × String)) → List String → ActionProcess) :
    ActionProcess :=
  .request .recorded fun answer => match answer with
    | .recorded responseHeaders actionOperationIds => next responseHeaders actionOperationIds
    | _ => fail (configurationInvalid "Compiled Action mutation execution is invalid")

/-- The policy-filtered preview. -/
def preview (arguments : Json) (principalContext : PrincipalContext) : ActionProcess :=
  (execute (actionEngine (loaded.caller host principalContext .preview) loaded.capability.id)
    ⟨loaded.capability.inputSchema, loaded.capability.outputSchema,
      loaded.capability.previewWorkflow⟩ arguments).bind fun rawPreview =>
    withRecorded fun responseHeaders _ =>
      checked (validateServerSerializedPreview loaded rawPreview) fun _ =>
        checked (captureConcurrencyToken host loaded rawPreview responseHeaders) fun _ =>
          let publicPreview := Policies.filterOutput host.digest loaded.policy rawPreview
          checked (validateLocalDevelopmentPreview loaded publicPreview) fun _ =>
            .done publicPreview

/-! The commit. -/

/-- The trusted inputs of a commit: the sealed record. -/
structure ActionCommitExecution where
  inputValue : Json
  previewValue : Json
  concurrencyToken : Json
  idempotencyKey : String
  idempotentTerminal : Bool := false
  idempotentResult : Json := .null

def outputValid (value : Json) : Bool := host.schemas.valid loaded.capability.outputSchema value

def validateActionOutput (value : Json) (next : ActionProcess) : ActionProcess :=
  if outputValid host loaded value then next
  else .failed (.execution
    { code := "ACC_RUNTIME_OUTPUT_INVALID"
      message := "Policy-filtered Action output does not match its schema."
      details := [("capability_id", .str loaded.capability.id)] })

/-- Every mutation is state idempotent and the result shows its terminal state. -/
def isTerminalResult (value : Json) : Bool :=
  loaded.mutations.all fun operation => match operation.http.safety.idempotency with
    | .stateIdempotent pointer terminal => match resolveJsonPointer value pointer with
      | some state => hasText terminal state
      | none => false
    | _ => false

/-- The prepared state re-read under the lock: a terminal state (`true`) needs no mutation. -/
def validateLocalDevelopmentRecheck (guard : LocalDevelopmentStateGuard)
    (preparedPreview freshPreview : Json) : Except RuntimeError Bool :=
  match resolveJsonPointer preparedPreview guard.statePointer,
      resolveJsonPointer freshPreview guard.statePointer with
  | some prepared, some fresh =>
    if !hasText (guard.allowedValues ++ guard.terminalValues) prepared then
      .error (stateConflict "Prepared Action state does not permit the requested mutation")
    else if hasText guard.terminalValues fresh then .ok true
    else if !hasText guard.allowedValues fresh || !sameText fresh prepared then
      .error (stateConflict "Action state changed after prepare")
    else .ok false
  | _, _ => .error (stateConflict "Action state cannot be safely rechecked before commit")

def statusQueryInvalid : RuntimeError :=
  configurationInvalid "Compiled Action status query is invalid"

def statusQueryArguments (operation : Operation) (execution : ActionCommitExecution)
    (publicPreview : Json) :
    List StatusQueryRequestBinding → Fields → Except RuntimeError Fields
  | [], arguments => .ok arguments
  | binding :: rest, arguments =>
    if binding.target ∈ operation.contextBindings.map Prod.fst then .error statusQueryInvalid
    else
      let resolved := if binding.source = .runtimeIdempotencyKey then
          some (.str execution.idempotencyKey)
        else binding.sourcePointer.bind (resolveJsonPointer
          (if binding.source = .capabilityInput then execution.inputValue else publicPreview))
      match resolved with
      | none => .error statusQueryInvalid
      | some value => statusQueryArguments operation execution publicPreview rest
          (setField binding.target value arguments)

/-- The terminal state a status query shows. -/
def statusQueryOutcome (semantics : ActionSemantics) (query : StatusQueryOutcomeResolution)
    (value : Json) : Except RuntimeError Unit :=
  let expected := match semantics.safety.idempotency with
    | .sourceKey _ => match query.successPointer, query.successValues with
      | some pointer, some values => some (pointer, values)
      | _, _ => none
    | .stateIdempotent pointer values => some (pointer, values)
    | _ => none
  match expected with
  | none => .error statusQueryInvalid
  | some (pointer, values) =>
    if (resolveJsonPointer value pointer).any (hasText values) then .ok ()
    else .error (stateConflict "Action commit outcome is unknown")

/-- A reply outside of a workflow: what is raised is not wrapped. -/
def received (next : Json → ActionProcess) : Reply → ActionProcess
  | .value value => next value
  | .stableError error => fail error
  | _ => .failed .exception

def resolveStatusQuery (semantics : ActionSemantics) (query : StatusQueryOutcomeResolution)
    (execution : ActionCommitExecution) (publicPreview : Json)
    (principalContext : PrincipalContext) : ActionProcess :=
  match statusOperation? loaded.operations query, execution.inputValue with
  | some operation, .obj _ =>
    match (Json.field? "required" operation.inputSchema).getD (.arr []) with
    | .arr required =>
      checked (statusQueryArguments operation execution publicPreview
        (statusQueryBindings (requiredInputs operation required) query) []) fun arguments =>
        (loaded.caller host principalContext .status).perform ⟨operation, arguments, []⟩
          (received fun value =>
            checked (statusQueryOutcome semantics query value) fun _ =>
              .done (Policies.filterOutput host.digest loaded.policy value))
    | _ => fail statusQueryInvalid
  | _, _ => fail statusQueryInvalid

/-- The result of the commit workflow, or of the status query its mutation declares. -/
def settle (execution : ActionCommitExecution) (principalContext : PrincipalContext)
    (rawResult : Json) (actionOperationIds : List String) : ActionProcess :=
  match actionOperationIds with
  | [operationId] =>
    match semantics? loaded.semantics operationId with
    | none => .done rawResult
    | some found => match found.outcomeResolution with
      | some (.statusQuery query) =>
        resolveStatusQuery host loaded found query execution
          (Policies.filterOutput host.digest loaded.policy execution.previewValue) principalContext
      | _ => .done rawResult
  | _ => fail (configurationInvalid "Compiled Action mutation execution is invalid")

/-- The input the commit workflow is executed with. -/
def preparedInput (execution : ActionCommitExecution) : Json :=
  .obj [("prepared", .obj [("input", execution.inputValue), ("preview", execution.previewValue)])]

def commitCaller (execution : ActionCommitExecution) (principalContext : PrincipalContext) :
    ActionOperationCaller :=
  { loaded.caller host principalContext .commit with
    idempotencyKey := some execution.idempotencyKey
    concurrencyToken := execution.concurrencyToken }

def commitLoaded (execution : ActionCommitExecution) (principalContext : PrincipalContext) :
    ActionProcess :=
  if execution.idempotentTerminal then
    if isTerminalResult loaded execution.idempotentResult &&
        outputValid host loaded execution.idempotentResult then .done execution.idempotentResult
    else fail (configurationInvalid "Prepared Action idempotent result is invalid")
  else
    (execute (actionEngine (commitCaller host loaded execution principalContext)
        loaded.capability.id)
      ⟨preparedInputSchema loaded.capability.inputSchema, loaded.capability.outputSchema,
        rewritePrepared loaded.capability.commitWorkflow⟩ (preparedInput execution)).bind
    fun rawResult => withRecorded fun _ actionOperationIds =>
      (settle host loaded execution principalContext rawResult actionOperationIds).bind fun result =>
        let publicResult := Policies.filterOutput host.digest loaded.policy result
        validateActionOutput host loaded publicResult (.done publicResult)

/-- The key a resource is locked under. -/
def resourceLockKey (guard : LocalDevelopmentStateGuard) (inputValue : Json) : Option String :=
  let locked := fun key : Json => some (loaded.capability.id ++ ":sha256:" ++
    host.digest.sha256 (host.digest.dumps key))
  match resolveJsonPointer inputValue guard.resourceKeyPointer with
  | some (.str key) => locked (.str key)
  | some (.int key) => locked (.int key)
  | _ => none

/-- Re-read the prepared state and commit with the fresh preview. -/
def recheck (guard : LocalDevelopmentStateGuard) (execution : ActionCommitExecution)
    (principalContext : PrincipalContext) : ActionProcess :=
  (preview host loaded execution.inputValue principalContext).bind fun fresh =>
    checked (validateLocalDevelopmentRecheck guard execution.previewValue fresh) fun terminal =>
      if terminal then validateActionOutput host loaded fresh (.done fresh)
      else commitLoaded host loaded
        { inputValue := execution.inputValue
          previewValue := fresh
          concurrencyToken := execution.concurrencyToken
          idempotencyKey := execution.idempotencyKey } principalContext

def commit (execution : ActionCommitExecution) (principalContext : PrincipalContext) :
    ActionProcess :=
  if principalContext.targetSystemId ≠ loaded.projectId then
    fail (configurationInvalid "Compiled Action IR failed runtime validation")
  else match loaded.capability.action.localDevelopmentStateGuard with
    | none => commitLoaded host loaded execution principalContext
    | some guard => match execution.inputValue with
      | .obj _ => match resourceLockKey host loaded guard execution.inputValue with
        | none => fail (configurationInvalid "Local development Action resource key is invalid")
        | some key => .request (.hold key) fun answer => match answer with
          | .held => recheck host loaded guard execution principalContext
          | .error error => fail error
          | _ => .failed .exception
      | _ => fail (configurationInvalid
          "Local development Action state guard is not safely configured")

end Loaded
end CapabilityCompiler.Actions
