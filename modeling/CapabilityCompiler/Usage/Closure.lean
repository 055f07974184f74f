import CapabilityCompiler.Foundation.Table
import CapabilityCompiler.Usage.Models

/-! The closure of a Usage contract: what its parts say of each other. -/
namespace CapabilityCompiler.Usage
open Foundation

def pointerStep (document : Json) (rawToken : String) : Option Json :=
  let token := Text.unescapeToken rawToken
  match document with
  | .obj fields => Json.field? token fields
  | .arr items => (Text.decimal? token).bind (items[·]?)
  | _ => none

/-- The document has a value at the pointer, whose first character is not looked at. -/
def pointerExists (document : Json) (pointer : String) : Bool :=
  pointer = "" || ((Text.split '/' (String.ofList (pointer.toList.drop 1))).foldlM pointerStep
    document).isSome

namespace DomainUsageContract
variable (contract : DomainUsageContract)

/-- All steps of all routes. -/
def steps : List UsageToolStep := contract.toolRoutes.flatMap (·.steps)

def step? (stepId : String) : Option UsageToolStep := contract.steps.find? (·.id = stepId)

def binding? (bindingId : String) : Option UsageStepBinding :=
  contract.inputBindings.find? (·.id = bindingId)

def lifecycle? (lifecycleId : String) : Option UsageActionLifecycle :=
  contract.actionLifecycles.find? (·.id = lifecycleId)

def branch? (branchId : String) : Option UsageErrorBranch :=
  contract.errorHandling.find? (·.id = branchId)

/-- The route that a step belongs to. -/
def routeOf? (stepId : String) : Option UsageToolRoute :=
  contract.toolRoutes.find? (·.stepIds.contains stepId)

def dependencies (stepId : String) : List String := dependenciesIn contract.steps stepId

/-! Evidence. -/

/-- The claims that the semantics of the contract refer to. -/
def semanticClaimIds : List (List String) :=
  contract.businessGoals.map (·.evidenceClaimIds) ++
  contract.defaults.map (·.evidenceClaimIds) ++
  contract.conditions.map (·.evidenceClaimIds) ++
  contract.optionSources.map (·.evidenceClaimIds) ++
  contract.relatedData.map (·.evidenceClaimIds) ++
  contract.resultConsumption.map (·.evidenceClaimIds) ++
  contract.errorHandling.map (·.evidenceClaimIds)

/-- The declared objects of a kind with the documents they are dumped as. -/
def targets : TargetKind → List (String × Json)
  | .businessGoal => contract.businessGoals.map fun item => (item.id, item.dump)
  | .toolRoute => contract.toolRoutes.map fun item => (item.id, item.dump)
  | .inputBinding => contract.inputBindings.map fun item => (item.id, item.dump)
  | .default => contract.defaults.map fun item => (item.id, item.dump)
  | .condition => contract.conditions.map fun item => (item.id, item.dump)
  | .optionSource => contract.optionSources.map fun item => (item.id, item.dump)
  | .relatedData => contract.relatedData.map fun item => (item.id, item.dump)
  | .resultConsumption => contract.resultConsumption.map fun item => (item.id, item.dump)
  | .errorBranch => contract.errorHandling.map fun item => (item.id, item.dump)
  | .actionLifecycle => contract.actionLifecycles.map fun item => (item.id, item.dump)

def validateClaim (claim : UsageEvidenceClaim) : Except String Unit :=
  match (contract.targets claim.target.targetKind).find? (·.1 = claim.target.targetId) with
  | none => .error "evidence claim target must reference a declared object"
  | some target => ensure (pointerExists target.2 claim.target.fieldPointer)
      "evidence claim field_pointer must reference a real target field"

def validateEvidence : Except String Unit := do
  checkAll (fun claimIds => ensure (claimIds.all (contract.evidenceClaims.map (·.id)).contains)
    "Usage semantic references an unknown evidence claim") contract.semanticClaimIds
  checkAll contract.validateClaim contract.evidenceClaims

/-! Ancestors. -/

/-- The keys that wait are taken one after the other, the last one first; every key is expanded
once, so that no more keys can wait than there are dependencies. -/
def collectAncestors : ℕ → List String → List String → List String
  | fuel + 1, ancestors, ancestorId :: pending =>
    if ancestorId ∈ ancestors then collectAncestors fuel ancestors pending
    else collectAncestors fuel (ancestorId :: ancestors)
      ((contract.dependencies ancestorId).reverse ++ pending)
  | _, ancestors, _ => ancestors

def ancestors (stepId : String) : List String :=
  let pending := (contract.dependencies stepId).reverse
  contract.collectAncestors
    (pending.length + (contract.steps.map (·.dependsOnStepIds.length)).sum) [] pending

def isAncestor (producerStepId consumerStepId : String) : Bool :=
  match contract.routeOf? producerStepId, contract.routeOf? consumerStepId with
  | some producer, some consumer =>
    producer.id = consumer.id && (contract.ancestors consumerStepId).contains producerStepId
  | _, _ => false

/-! Routes. -/

def validateStepBinding (step : UsageToolStep) (bindingId : String) : Except String Unit :=
  match contract.binding? bindingId with
  | none => .ok ()
  | some binding => do
    ensure (binding.consumerStepId = step.id) "binding must be attached only to its consumer step"
    ensure (binding.sourceStepId.all (contract.isAncestor · binding.consumerStepId))
      "binding producer must be an ancestor of its consumer"

/-- The phases of steps with these identifiers. -/
def phasesOf (stepIds : List String) : List (Option ActionPhase) :=
  stepIds.map fun stepId => (contract.step? stepId).bind (·.actionPhase)

def validateBranch (route : UsageToolRoute) (branchId : String) : Except String Unit :=
  match contract.branch? branchId with
  | none => .ok ()
  | some branch => do
    ensure (branch.stepIds.all route.stepIds.contains) "error branch steps must belong to their route"
    ensure (!(branch.behavior = .retry && (contract.phasesOf branch.stepIds).any (·.isSome)))
      "mutation phases cannot be retried directly"
    ensure (!(branch.behavior = .queryStatus &&
        (contract.phasesOf branch.stepIds).any (· ≠ some .status)))
      "outcome_unknown resolution may call only status steps"

/-- The phases that a lifecycle declares for its steps. -/
def expectedPhases (lifecycle : UsageActionLifecycle) : Table String ActionPhase :=
  [(lifecycle.prepareStepId, .prepare), (lifecycle.commitStepId, .commit),
    (lifecycle.statusStepId, .status)] ++
    lifecycle.approveStepId.toList.map fun stepId => (stepId, .approve)

/-- The bindings of the Action handle with the steps that consume them; a later entry replaces an
earlier one for the same binding. -/
def actionHandleRequirements (lifecycle : UsageActionLifecycle) : Table String String :=
  let requirements := Table.put lifecycle.statusActionHandleBindingId lifecycle.statusStepId
    [(lifecycle.commitActionHandleBindingId, lifecycle.commitStepId)]
  match lifecycle.approveActionHandleBindingId, lifecycle.approveStepId with
  | some bindingId, some stepId => Table.put bindingId stepId requirements
  | _, _ => requirements

def validateActionHandle (lifecycle : UsageActionLifecycle) (bindingId consumerStepId : String) :
    Except String Unit :=
  ensure ((contract.binding? bindingId).any fun binding =>
      binding.sourceKind = .priorStepOutput &&
      binding.sourceStepId = some lifecycle.prepareStepId &&
      binding.consumerStepId = consumerStepId && binding.valueKind = .actionHandle)
    "action handles must flow from prepare to each consumer phase"

def validateApprovalHandle (lifecycle : UsageActionLifecycle) : Except String Unit :=
  match lifecycle.approvalHandleBindingId with
  | none => .ok ()
  | some bindingId => ensure ((contract.binding? bindingId).any fun binding =>
      binding.sourceKind = .trustedContext &&
      some binding.consumerStepId = lifecycle.approveStepId && binding.valueKind = .approvalHandle)
    "approval handle requires a trusted_context approve binding"

def validateLifecycle (route : UsageToolRoute) (lifecycle : UsageActionLifecycle) :
    Except String Unit := do
  let phaseOf := fun stepId => (route.steps.find? (·.id = stepId)).bind (·.actionPhase)
  let dependenciesOf := dependenciesIn route.steps
  ensure ((expectedPhases lifecycle).all fun entry => route.stepIds.contains entry.1)
    "action lifecycle steps must belong to their tool route"
  ensure ((expectedPhases lifecycle).all fun entry => phaseOf entry.1 = some entry.2)
    "action lifecycle step phases must match their declarations"
  ensure (lifecycle.approveStepId.all fun stepId =>
      (dependenciesOf stepId).contains lifecycle.prepareStepId)
    "approve must depend on prepare"
  ensure ((lifecycle.prepareStepId :: lifecycle.approveStepId.toList).all
      (dependenciesOf lifecycle.commitStepId).contains)
    "commit must depend on all required prior action phases"
  ensure ((dependenciesOf lifecycle.statusStepId).contains lifecycle.prepareStepId)
    "status must depend on prepare, not mutation completion"
  checkAll (fun entry => contract.validateActionHandle lifecycle entry.1 entry.2)
    (actionHandleRequirements lifecycle)
  contract.validateApprovalHandle lifecycle

/-- A route has an Action lifecycle if its steps have phases. -/
def validateActions (route : UsageToolRoute) : Except String Unit :=
  match route.actionLifecycleId with
  | none => ensure (route.steps.all (·.actionPhase.isNone)) "action steps require an action lifecycle"
  | some lifecycleId => match contract.lifecycle? lifecycleId with
    | none => .error "route action_lifecycle_id must reference a declared lifecycle"
    | some lifecycle => contract.validateLifecycle route lifecycle

def validateRoute (route : UsageToolRoute) : Except String Unit := do
  ensure ((contract.businessGoals.map (·.id)).contains route.businessGoalId)
    "tool route must reference a declared business goal"
  ensure ((route.steps.flatMap (·.bindingIds)).all (contract.inputBindings.map (·.id)).contains)
    "route binding_ids must reference declared input bindings"
  ensure (route.errorBranchIds.all (contract.errorHandling.map (·.id)).contains)
    "route error_branch_ids must reference declared error handling"
  checkAll (fun step => checkAll (contract.validateStepBinding step) step.bindingIds) route.steps
  checkAll (contract.validateBranch route) route.errorBranchIds
  contract.validateActions route

/-! References between the parts. -/

/-- The routes that use a binding. -/
def routesUsing (bindingId : String) : List UsageToolRoute :=
  contract.toolRoutes.filter fun route => route.steps.any (·.bindingIds.contains bindingId)

def hasCapability (stepId capabilityId : String) : Bool :=
  (contract.step? stepId).any (·.capabilityId = capabilityId)

def validateDefault (default : UsageDefaultRef) : Except String Unit := do
  ensure (contract.hasCapability default.stepId default.capabilityId)
    "default must reference a declared capability step"
  ensure (default.referenceBindingId.all (contract.inputBindings.map (·.id)).contains)
    "default binding reference must exist"

def validateOption (option : UsageOptionSourceRef) : Except String Unit := do
  ensure (contract.hasCapability option.consumerStepId option.capabilityId)
    "option source must reference its consumer capability step"
  ensure (option.producerStepId.all (contract.isAncestor · option.consumerStepId))
    "option producer must be an ancestor of its consumer"

def validateConditionScope (condition : UsageConditionRef) : Except String Unit :=
  ensure ((contract.toolRoutes.find? (·.id = condition.routeId)).any fun route =>
      condition.stepId.all route.stepIds.contains)
    "condition scope must reference a declared route or step"

def validateReferences : Except String Unit := do
  ensure (contract.inputBindings.all fun binding => (contract.routesUsing binding.id).length = 1)
    "every binding must be used by exactly one route"
  checkAll contract.validateDefault contract.defaults
  checkAll contract.validateOption contract.optionSources
  checkAll (fun related => ensure
      (contract.isAncestor related.producerStepId related.consumerStepId)
    "related data producer must be an ancestor of its consumer") contract.relatedData
  checkAll (fun consumption => ensure
      (contract.hasCapability consumption.stepId consumption.capabilityId)
    "result consumption must reference a declared capability step") contract.resultConsumption
  checkAll contract.validateConditionScope contract.conditions
  ensure (contract.actionLifecycles.all fun lifecycle =>
      (contract.toolRoutes.filterMap (·.actionLifecycleId)).contains lifecycle.id)
    "every action lifecycle must be referenced by exactly one route"

def validateContractClosure : Except String Unit := do
  contract.validateEvidence
  ensure (decide (contract.steps.map (·.id)).Nodup)
    "step ids must be globally unique across domain routes"
  checkAll contract.validateRoute contract.toolRoutes
  contract.validateReferences

/-! The whole contract. -/

def validateParts : Except String Unit := do
  checkAll (fun goal => validateListed goal.evidenceClaimIds "evidence_claim_ids")
    contract.businessGoals
  checkAll UsageToolRoute.validate contract.toolRoutes
  checkAll UsageStepBinding.validateSource contract.inputBindings
  checkAll (fun default => do
    validateListed default.evidenceClaimIds "evidence_claim_ids"
    default.validateSource) contract.defaults
  checkAll (fun condition => do
    validateListed condition.evidenceClaimIds "evidence_claim_ids"
    condition.validateExpression) contract.conditions
  checkAll (fun option => do
    validateListed option.evidenceClaimIds "evidence_claim_ids"
    option.validateSource) contract.optionSources
  checkAll (fun related => validateListed related.evidenceClaimIds "evidence_claim_ids")
    contract.relatedData
  checkAll (fun consumption => do
    validateListed consumption.evidenceClaimIds "evidence_claim_ids"
    validateListed consumption.fieldPointers "field_pointers") contract.resultConsumption
  checkAll UsageErrorBranch.validate contract.errorHandling
  checkAll UsageActionLifecycle.validateApproval contract.actionLifecycles
  checkAll (fun claim => validateListed claim.sourceIds "evidence reference source_ids")
    contract.evidenceClaims

def validateFields : Except String Unit := do
  ensure (!contract.businessGoals.isEmpty && !contract.toolRoutes.isEmpty &&
      !contract.resultConsumption.isEmpty && !contract.evidenceClaims.isEmpty)
    "List should have at least 1 item"
  validateListed contract.requiredScenarioIds "required_scenario_ids"
  sortedUnique (contract.toolRoutes.map (·.id)) "tool_routes"
  sortedUnique (contract.businessGoals.map (·.id)) "business_goals"
  sortedUnique (contract.inputBindings.map (·.id)) "input_bindings"
  sortedUnique (contract.defaults.map (·.id)) "defaults"
  sortedUnique (contract.conditions.map (·.id)) "conditions"
  sortedUnique (contract.optionSources.map (·.id)) "option_sources"
  sortedUnique (contract.relatedData.map (·.id)) "related_data"
  sortedUnique (contract.resultConsumption.map (·.id)) "result_consumption"
  sortedUnique (contract.errorHandling.map (·.id)) "error_handling"
  sortedUnique (contract.actionLifecycles.map (·.id)) "action_lifecycles"
  sortedUnique (contract.evidenceClaims.map (·.id)) "evidence_claims"

def validate : Except String Unit := do
  contract.validateParts
  contract.validateFields
  contract.validateContractClosure

end DomainUsageContract
end CapabilityCompiler.Usage
