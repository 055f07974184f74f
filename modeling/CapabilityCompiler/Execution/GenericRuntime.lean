import CapabilityCompiler.Actions.RuntimeExecutor

/-! Calls of compiled reads: authorization, execution over a provider and disclosure. -/
namespace CapabilityCompiler.Execution
open Foundation Models Actions

def runtimeConfigurationInvalid (message : String) (details : Fields) : RuntimeError where
  code := "ACC_RUNTIME_CONFIGURATION_INVALID"
  status := 500
  message := message
  details := details

/-! The policy's operation caller. -/

/-- How the operations of a read are called. -/
structure PolicyOperationCaller where
  host : Host
  policy : Policies.Policy
  principalContext : PrincipalContext
  allowedContextBindings : List String

def bindTargets (host : Host) (context : PrincipalContext) (allowed : List String)
    (operationId : String) : List (String × String) → Fields → Except RuntimeError Fields
  | [], arguments => .ok arguments
  | (target, reference) :: rest, arguments =>
    let details := [("operation_id", .str operationId), ("binding_target", .str target)]
    if (Json.field? target arguments).isSome then
      .error (runtimeConfigurationInvalid
        "workflow arguments cannot override a trusted context binding" details)
    else match resolveContextBinding host context reference allowed with
      | none => .error (runtimeConfigurationInvalid
          "compiled context binding cannot be resolved" details)
      | some value => bindTargets host context allowed operationId rest (arguments ++ [(target, value)])

def fieldPath (field : String) : List String :=
  let chars := (Text.dropPrefix? ['$', '.'] field.toList).getD field.toList
  match Text.dropPrefix? ['/'] chars with
  | some rest => ((Text.splitChars '/' rest).filter (· ≠ [])).map fun token =>
      Text.unescapeToken (String.ofList token)
  | none => ((Text.splitChars '.' chars).filter (· ≠ [])).map String.ofList

/-- Absent and null parents are created; at any other value on the way nothing changes. -/
def fillAt (value : Json) : List String → Fields → Fields
  | [], arguments => arguments
  | [last], arguments =>
    if (Json.field? last arguments).isSome then arguments else setField last value arguments
  | token :: rest, arguments =>
    match Json.field? token arguments with
    | none | some .null => setField token (.obj (fillAt value rest [])) arguments
    | some (.obj child) => setField token (.obj (fillAt value rest child)) arguments
    | some _ => arguments

namespace PolicyOperationCaller
variable (caller : PolicyOperationCaller)

def tenant : Json := tenantId caller.host caller.principalContext

def enrich (definition : Operation) (arguments : Fields) : Except RuntimeError Fields := do
  let bound ← bindTargets caller.host caller.principalContext caller.allowedContextBindings
    definition.id definition.contextBindings arguments
  match caller.policy.tenantMode, caller.policy.tenantField with
  | .required, some field =>
    return if caller.tenant = .null then bound else fillAt caller.tenant (fieldPath field) bound
  | _, _ => return bound

def inputInvalid (operationId : String) : RuntimeError where
  code := "ACC_RUNTIME_OPERATION_INPUT_INVALID"
  status := 500
  message := "trusted context and workflow arguments do not match the operation schema"
  details := [("operation_id", .str operationId), ("schema_role", .str "operation_input")]

/-- The policy with the scopes of the operation added. -/
def effectivePolicy (definition : Operation) : Policies.Policy :=
  { caller.policy with
    requiredScopes := Text.sortedSet (caller.policy.requiredScopes ++ definition.http.scopes) }

/-- What the provider is asked for a call. -/
def request (call : CallRequest) : Except RuntimeError CallRequest :=
  if call.operation.kind = .action then
    .error (runtimeConfigurationInvalid "Action operation requires the Action lifecycle"
      [("operation_id", .str call.operation.id), ("reason", .str "action_lifecycle_required")])
  else do
    let enriched ← caller.enrich call.operation call.arguments
    if caller.host.schemas.valid call.operation.inputSchema (.obj enriched) then
      Policies.authorize (caller.effectivePolicy call.operation)
        caller.principalContext.effectiveScopes enriched caller.tenant
      return { call with arguments := enriched }
    else .error (inputInvalid call.operation.id)

/-- A call that is refused raises at the call step. -/
def perform (call : CallRequest) (next : Reply → Process CallRequest Reply Failure Json) :
    Process CallRequest Reply Failure Json :=
  match caller.request call with
  | .error error => next (.stableError error)
  | .ok asked => .request asked next

end PolicyOperationCaller

/-! The runtime. -/

/-- A loaded pack with the identity it is used for. -/
structure GenericRuntime where
  host : Host
  operations : Operations
  policies : List (String × Policies.Policy)
  principalContext : PrincipalContext
  contextBindingAllowlist : List String

def outputInvalid (capabilityId : String) : RuntimeError where
  code := "ACC_RUNTIME_OUTPUT_INVALID"
  status := 500
  message := "policy-filtered output does not match the capability schema"
  details := [("capability_id", .str capabilityId),
    ("schema_role", .str "filtered_capability_output")]

def outputTooLarge (capabilityId : String) (actual limit : ℕ) : RuntimeError where
  code := "ACC_RUNTIME_CAPABILITY_OUTPUT_TOO_LARGE"
  status := 500
  message := "capability output exceeded its declared budget"
  details := [("capability_id", .str capabilityId), ("actual_bytes", .int actual),
    ("limit_bytes", .int limit)]

namespace GenericRuntime
variable (runtime : GenericRuntime)

def policy? (id : String) : Option Policies.Policy :=
  (runtime.policies.find? (·.1 = id)).map Prod.snd

/-- The executor's engine with the policy's operation caller. -/
def engine (policy : Policies.Policy) (capabilityId : String) : Engine CallRequest Reply where
  schemas := runtime.host.schemas
  settings := ⟨false, false⟩
  operations := runtime.operations
  capabilityId := capabilityId
  perform := (PolicyOperationCaller.mk runtime.host policy runtime.principalContext
    runtime.contextBindingAllowlist).perform

/-- The disclosed part of a result, if it matches the capability's schema and its budget. -/
def disclose (policy : Policies.Policy) (capability : ReadCapability) (maxOutputBytes : Option ℕ)
    (result : Json) : Process CallRequest Reply Failure Json :=
  let filtered := Policies.filterOutput runtime.host.digest policy result
  let size := (runtime.host.digest.dumps filtered).utf8ByteSize
  if runtime.host.schemas.valid capability.outputSchema filtered then
    match maxOutputBytes with
    | none => .done filtered
    | some limit =>
      if size > limit then .failed (.caller (outputTooLarge capability.id size limit))
      else .done filtered
  else .failed (.caller (outputInvalid capability.id))

/-- The scopes of the policy are checked first, and again with every operation. -/
def executeCall (capability : ReadCapability) (maxOutputBytes : Option ℕ) (arguments : Fields) :
    Process CallRequest Reply Failure Json :=
  match runtime.policy? capability.policy with
  | none => .failed (.caller (runtimeConfigurationInvalid "compiled policy is invalid"
      [("policy_id", .str capability.policy)]))
  | some policy =>
    let scopeOnly := { policy with tenantMode := .none, tenantField := none }
    match Policies.authorize scopeOnly runtime.principalContext.effectiveScopes [] .null with
    | .error error => .failed (.caller error)
    | .ok () =>
      (execute (runtime.engine policy capability.id)
        ⟨capability.inputSchema, capability.outputSchema, capability.workflow⟩
        (.obj arguments)).bind (runtime.disclose policy capability maxOutputBytes)

end GenericRuntime

/-! What is authorized. -/

/-- A call that reaches the provider was granted the scopes of its operation and of the policy. -/
theorem PolicyOperationCaller.granted_of_request {caller : PolicyOperationCaller}
    {call asked : CallRequest} (h : caller.request call = .ok asked) :
    caller.policy.requiredScopes ++ call.operation.http.scopes ⊆
      caller.principalContext.effectiveScopes := by
  unfold PolicyOperationCaller.request at h
  split at h
  · exact absurd h (by simp)
  · cases henriched : caller.enrich call.operation call.arguments with
    | error error => simp [henriched, bind, Except.bind] at h
    | ok enriched =>
      simp only [henriched, bind, Except.bind] at h
      split at h
      · cases hauthorized : Policies.authorize (caller.effectivePolicy call.operation)
            caller.principalContext.effectiveScopes enriched caller.tenant with
        | error error => simp [hauthorized] at h
        | ok _ =>
          have hgranted := Policies.requiredScopes_of_authorize hauthorized
          exact fun scope hscope => hgranted (Text.mem_sortedSet.mpr hscope)
      · exact absurd h (by simp)

end CapabilityCompiler.Execution
