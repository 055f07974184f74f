import CapabilityCompiler.Overlay.Payload
import CapabilityCompiler.Usage.RouteClosure

/-! The projection of a released route for host adapters, and the contract as its checks see it. -/
namespace CapabilityCompiler.Overlay
open Foundation Json Interactions

/-! The checks of a contract look at the dumps of its parts, and at less than all their fields. -/

def usageOperand : ConditionOperand → Usage.ConditionOperand
  | .reference pointer => .reference pointer
  | .literal value => .literal value

mutual

def usageExpression : ConditionExpression → Usage.ConditionExpression
  | .all operands => .all (usageExpressions operands)
  | .any operands => .any (usageExpressions operands)
  | .not operand => .not (usageExpression operand)
  | .comparison operator left right =>
    .comparison operator.dump (usageOperand left) (usageOperand right)
  | .present operand => .present (usageOperand operand)

def usageExpressions : List ConditionExpression → List Usage.ConditionExpression
  | [] => []
  | expression :: rest => usageExpression expression :: usageExpressions rest

end

def UsageBusinessGoal.checked (goal : UsageBusinessGoal) : Usage.UsageBusinessGoal where
  id := goal.id
  evidenceClaimIds := goal.evidenceClaimIds
  dump := goal.model.toJson

def UsageToolStep.checked (step : UsageToolStep) : Usage.UsageToolStep where
  id := step.id
  capabilityId := step.capabilityId
  dependsOnStepIds := step.dependsOnStepIds
  bindingIds := step.bindingIds
  condition := step.condition.map usageExpression
  retry := step.retry
  actionPhase := step.actionPhase

def UsageToolRoute.checked (route : UsageToolRoute) : Usage.UsageToolRoute where
  id := route.id
  businessGoalId := route.businessGoalId
  steps := route.steps.map UsageToolStep.checked
  errorBranchIds := route.errorBranchIds
  resultStepId := route.resultStepId
  actionLifecycleId := route.actionLifecycleId
  dump := route.model.toJson

def UsageStepBinding.checked (binding : UsageStepBinding) : Usage.UsageStepBinding where
  id := binding.id
  sourceKind := binding.sourceKind
  sourceStepId := binding.sourceStepId
  consumerStepId := binding.consumerStepId
  valueKind := binding.valueKind
  dump := binding.model.toJson

/-- The documents of a package name every field, also the value of a default. -/
def UsageDefaultRef.checked (default : UsageDefaultRef) : Usage.UsageDefaultRef where
  id := default.id
  capabilityId := default.capabilityId
  stepId := default.stepId
  evidenceClaimIds := default.evidenceClaimIds
  source := default.source
  hasValue := true
  referenceBindingId := default.referenceBindingId
  dump := default.model.toJson

def UsageConditionRef.checked (condition : UsageConditionRef) : Usage.UsageConditionRef where
  id := condition.id
  scope := condition.scope
  routeId := condition.routeId
  stepId := condition.stepId
  expression := usageExpression condition.expression
  evidenceClaimIds := condition.evidenceClaimIds
  dump := condition.model.toJson

def UsageOptionSourceRef.checked (option : UsageOptionSourceRef) : Usage.UsageOptionSourceRef where
  id := option.id
  capabilityId := option.capabilityId
  consumerStepId := option.consumerStepId
  source := option.source
  producerStepId := option.producerStepId
  staticItems := option.staticItems.map fun item => item.model.toJson
  itemsPointer := option.itemsPointer
  valuePointer := option.valuePointer
  labelPointer := option.labelPointer
  evidenceClaimIds := option.evidenceClaimIds
  dump := option.model.toJson

def UsageRelatedDataRef.checked (related : UsageRelatedDataRef) : Usage.UsageRelatedDataRef where
  id := related.id
  producerStepId := related.producerStepId
  consumerStepId := related.consumerStepId
  evidenceClaimIds := related.evidenceClaimIds
  dump := related.model.toJson

def UsageResultConsumption.checked (consumption : UsageResultConsumption) :
    Usage.UsageResultConsumption where
  id := consumption.id
  capabilityId := consumption.capabilityId
  stepId := consumption.stepId
  fieldPointers := consumption.fieldPointers
  evidenceClaimIds := consumption.evidenceClaimIds
  dump := consumption.model.toJson

def UsageErrorBranch.checked (branch : UsageErrorBranch) : Usage.UsageErrorBranch where
  id := branch.id
  outcomes := branch.outcomes
  behavior := branch.behavior
  stepIds := branch.stepIds
  retryPolicy := branch.retryPolicy
  evidenceClaimIds := branch.evidenceClaimIds
  dump := branch.model.toJson

def UsageActionLifecycle.checked (lifecycle : UsageActionLifecycle) :
    Usage.UsageActionLifecycle where
  id := lifecycle.id
  prepareStepId := lifecycle.prepareStepId
  approveActionHandleBindingId := lifecycle.approveActionHandleBindingId
  commitActionHandleBindingId := lifecycle.commitActionHandleBindingId
  statusActionHandleBindingId := lifecycle.statusActionHandleBindingId
  approval := lifecycle.approval
  approvalCondition := lifecycle.approvalCondition.map usageExpression
  approveStepId := lifecycle.approveStepId
  approvalHandleBindingId := lifecycle.approvalHandleBindingId
  commitStepId := lifecycle.commitStepId
  statusStepId := lifecycle.statusStepId
  dump := lifecycle.model.toJson

def DomainUsageContract.checked (contract : DomainUsageContract)
    (requiredScenarioIds : List String) (evidenceClaims : List Usage.UsageEvidenceClaim) :
    Usage.DomainUsageContract where
  businessGoals := contract.businessGoals.map UsageBusinessGoal.checked
  toolRoutes := contract.toolRoutes.map UsageToolRoute.checked
  inputBindings := contract.inputBindings.map UsageStepBinding.checked
  defaults := contract.defaults.map UsageDefaultRef.checked
  conditions := contract.conditions.map UsageConditionRef.checked
  optionSources := contract.optionSources.map UsageOptionSourceRef.checked
  relatedData := contract.relatedData.map UsageRelatedDataRef.checked
  resultConsumption := contract.resultConsumption.map UsageResultConsumption.checked
  errorHandling := contract.errorHandling.map UsageErrorBranch.checked
  actionLifecycles := contract.actionLifecycles.map UsageActionLifecycle.checked
  requiredScenarioIds := requiredScenarioIds
  evidenceClaims := evidenceClaims

/-- A verified package holds contracts that passed all checks when its documents were read. -/
def DomainUsageContract.Verified (contract : DomainUsageContract) : Prop :=
  ∃ requiredScenarioIds evidenceClaims,
    (contract.checked requiredScenarioIds evidenceClaims).validate = .ok ()

/-! The projection of a route. -/

def UsageToolRoute.stepIds (route : UsageToolRoute) : List String := route.steps.map (·.id)

def UsageToolRoute.stepPairs (route : UsageToolRoute) : List (String × String) :=
  route.steps.map fun step => (step.capabilityId, step.id)

def UsageToolRoute.bindingIds (route : UsageToolRoute) : List String :=
  route.steps.flatMap (·.bindingIds)

section Projected
variable (contract : DomainUsageContract) (route : UsageToolRoute)

def projectedBindings : List UsageStepBinding :=
  contract.inputBindings.filter (·.id ∈ route.bindingIds)

def projectedDefaults : List UsageDefaultRef :=
  contract.defaults.filter fun item => (item.capabilityId, item.stepId) ∈ route.stepPairs

def projectedConditions : List UsageConditionRef :=
  contract.conditions.filter (·.routeId = route.id)

def projectedOptionSources : List UsageOptionSourceRef :=
  contract.optionSources.filter (·.consumerStepId ∈ route.stepIds)

def projectedRelatedData : List UsageRelatedDataRef :=
  contract.relatedData.filter fun item =>
    decide (item.producerStepId ∈ route.stepIds) && decide (item.consumerStepId ∈ route.stepIds)

def projectedConsumption : List UsageResultConsumption :=
  contract.resultConsumption.filter fun item => (item.capabilityId, item.stepId) ∈ route.stepPairs

def projectedBranches : List UsageErrorBranch :=
  contract.errorHandling.filter (·.id ∈ route.errorBranchIds)

def projectedLifecycle : Option UsageActionLifecycle :=
  contract.actionLifecycles.find? fun item => some item.id = route.actionLifecycleId

end Projected

def proofLinkage : List String := ["evidence_claim_ids", "evidence_refs"]

/-- Without the fields that link to proofs, wherever they are. -/
def withoutEvidence (value : Json) : Json := stripKeys proofLinkage value

def modelValues (models : List Dump) : List Json :=
  models.map fun model => withoutEvidence model.toJson

structure RouteProjection where
  actionLifecycle : Option Json
  bindings : List Json
  businessGoalId : String
  conditions : List Json
  defaults : List Json
  errorHandling : List Json
  id : String
  optionSources : List Json
  preconditions : List String
  relatedData : List Json
  resultConsumption : List Json
  resultPointer : String
  resultStepId : String
  steps : List Json

def routeProjection (contract : DomainUsageContract) (route : UsageToolRoute) : RouteProjection where
  actionLifecycle :=
    (projectedLifecycle contract route).map fun item => withoutEvidence item.model.toJson
  bindings := modelValues ((projectedBindings contract route).map (·.model))
  businessGoalId := route.businessGoalId
  conditions := modelValues ((projectedConditions contract route).map (·.model))
  defaults := modelValues ((projectedDefaults contract route).map (·.model))
  errorHandling := modelValues ((projectedBranches contract route).map (·.model))
  id := route.id
  optionSources := modelValues ((projectedOptionSources contract route).map (·.model))
  preconditions := route.preconditions
  relatedData := modelValues ((projectedRelatedData contract route).map (·.model))
  resultConsumption := modelValues ((projectedConsumption contract route).map (·.model))
  resultPointer := route.resultPointer
  resultStepId := route.resultStepId
  steps := modelValues (route.steps.map (·.model))

end CapabilityCompiler.Overlay
