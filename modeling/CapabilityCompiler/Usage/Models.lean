import CapabilityCompiler.Foundation.Json
import CapabilityCompiler.Foundation.Precedence
import CapabilityCompiler.Foundation.Text

/-! Usage contracts: business goals, tool routes with their steps and Action lifecycles, and the checks
that every part makes on itself. -/
namespace CapabilityCompiler.Usage
open Foundation

def ensure (condition : Bool) (message : String) : Except String Unit :=
  if condition then .ok () else .error message

def checkAll {α : Type} (check : α → Except String Unit) : List α → Except String Unit
  | [] => .ok ()
  | item :: rest => (check item).bind fun _ => checkAll check rest

/-- `values != sorted(set(values))` is an error. -/
def sortedUnique (values : List String) (fieldName : String) : Except String Unit :=
  ensure (values == Text.sortedSet values) (fieldName ++ " must be sorted and unique")

/-! Conditions. -/

inductive ConditionOperand where
  | reference (pointer : String)
  | literal (value : Json)

inductive ConditionExpression where
  | all (operands : List ConditionExpression)
  | any (operands : List ConditionExpression)
  | not (operand : ConditionExpression)
  | comparison (operator : String) (left right : ConditionOperand)
  | present (operand : ConditionOperand)

inductive ConditionNode where
  | expression (expression : ConditionExpression)
  | operand (operand : ConditionOperand)

def ConditionNode.children : ConditionNode → List ConditionNode
  | .expression (.all operands) | .expression (.any operands) => operands.map .expression
  | .expression (.not inner) => [.expression inner]
  | .expression (.comparison _ left right) => [.operand left, .operand right]
  | .expression (.present read) => [.operand read]
  | .operand _ => []

def maxConditionDepth : ℕ := 64

def maxConditionNodes : ℕ := 4096

/-- Visit the nodes of the stack while fewer than the most nodes were visited. -/
def visitCondition : ℕ → List (ConditionNode × ℕ) → Except String Unit
  | _, [] => .ok ()
  | remaining, (node, depth) :: stack =>
    if maxConditionDepth < depth then .error "condition expression exceeds maximum depth"
    else match remaining with
      | 0 => .error "condition expression exceeds maximum node count"
      | remaining + 1 =>
        visitCondition remaining (node.children.map (fun child => (child, depth + 1)) ++ stack)

def validateConditionComplexity (expression : ConditionExpression) : Except String Unit :=
  visitCondition maxConditionNodes [(.expression expression, 1)]

def validateCondition? : Option ConditionExpression → Except String Unit
  | none => .ok ()
  | some expression => validateConditionComplexity expression

/-! Parts of a contract, each with the document it is dumped as where evidence can point into it. -/

structure UsageBusinessGoal where
  id : String
  evidenceClaimIds : List String
  dump : Json

inductive SourceKind where
  | publicInput
  | routeInput
  | priorStepOutput
  | trustedContext
deriving DecidableEq

inductive ValueKind where
  | publicValue
  | actionHandle
  | approvalHandle
  | statusHandle
deriving DecidableEq

structure UsageStepBinding where
  id : String
  sourceKind : SourceKind
  sourceStepId : Option String
  consumerStepId : String
  valueKind : ValueKind
  dump : Json

inductive StepRetry where
  | never
  | safe
  | statusOnly
deriving DecidableEq

inductive ActionPhase where
  | prepare
  | approve
  | commit
  | status
deriving DecidableEq

structure UsageToolStep where
  id : String
  capabilityId : String
  dependsOnStepIds : List String
  bindingIds : List String
  condition : Option ConditionExpression
  retry : StepRetry
  actionPhase : Option ActionPhase

inductive BranchBehavior where
  | stop
  | returnEmpty
  | retry
  | queryStatus
deriving DecidableEq

inductive RetryPolicy where
  | never
  | safeRead
  | idempotent
  | statusOnly
deriving DecidableEq

structure UsageErrorBranch where
  id : String
  outcomes : List String
  behavior : BranchBehavior
  stepIds : List String
  retryPolicy : RetryPolicy
  evidenceClaimIds : List String
  dump : Json

inductive Approval where
  | never
  | always
  | conditional
deriving DecidableEq

structure UsageActionLifecycle where
  id : String
  prepareStepId : String
  approveActionHandleBindingId : Option String
  commitActionHandleBindingId : String
  statusActionHandleBindingId : String
  approval : Approval
  approvalCondition : Option ConditionExpression
  approveStepId : Option String
  approvalHandleBindingId : Option String
  commitStepId : String
  statusStepId : String
  dump : Json

structure UsageToolRoute where
  id : String
  businessGoalId : String
  steps : List UsageToolStep
  errorBranchIds : List String
  resultStepId : String
  actionLifecycleId : Option String
  dump : Json

inductive DefaultSource where
  | literal
  | binding
  | sourceDefault
deriving DecidableEq

structure UsageDefaultRef where
  id : String
  capabilityId : String
  stepId : String
  evidenceClaimIds : List String
  source : DefaultSource
  hasValue : Bool
  referenceBindingId : Option String
  dump : Json

inductive ConditionScope where
  | route
  | step
deriving DecidableEq

structure UsageConditionRef where
  id : String
  scope : ConditionScope
  routeId : String
  stepId : Option String
  expression : ConditionExpression
  evidenceClaimIds : List String
  dump : Json

inductive OptionSource where
  | producerStep
  | static
deriving DecidableEq

structure UsageOptionSourceRef where
  id : String
  capabilityId : String
  consumerStepId : String
  source : OptionSource
  producerStepId : Option String
  staticItems : List Json
  itemsPointer : Option String
  valuePointer : Option String
  labelPointer : Option String
  evidenceClaimIds : List String
  dump : Json

structure UsageRelatedDataRef where
  id : String
  producerStepId : String
  consumerStepId : String
  evidenceClaimIds : List String
  dump : Json

structure UsageResultConsumption where
  id : String
  capabilityId : String
  stepId : String
  fieldPointers : List String
  evidenceClaimIds : List String
  dump : Json

inductive TargetKind where
  | businessGoal
  | toolRoute
  | inputBinding
  | default
  | condition
  | optionSource
  | relatedData
  | resultConsumption
  | errorBranch
  | actionLifecycle
deriving DecidableEq

structure UsageEvidenceTarget where
  targetKind : TargetKind
  targetId : String
  fieldPointer : String

structure UsageEvidenceClaim where
  id : String
  target : UsageEvidenceTarget
  sourceIds : List String

structure DomainUsageContract where
  businessGoals : List UsageBusinessGoal
  toolRoutes : List UsageToolRoute
  inputBindings : List UsageStepBinding
  defaults : List UsageDefaultRef
  conditions : List UsageConditionRef
  optionSources : List UsageOptionSourceRef
  relatedData : List UsageRelatedDataRef
  resultConsumption : List UsageResultConsumption
  errorHandling : List UsageErrorBranch
  actionLifecycles : List UsageActionLifecycle
  requiredScenarioIds : List String
  evidenceClaims : List UsageEvidenceClaim

/-! The checks of the parts. -/

def UsageStepBinding.validateSource (binding : UsageStepBinding) : Except String Unit := do
  ensure (!(binding.sourceKind = .priorStepOutput && binding.sourceStepId.isNone))
    "prior_step_output requires source_step_id"
  ensure (!(binding.sourceKind ≠ .priorStepOutput && binding.sourceStepId.isSome))
    "source_step_id is only valid for prior_step_output"

def UsageToolStep.validate (step : UsageToolStep) : Except String Unit := do
  sortedUnique step.dependsOnStepIds "depends_on_step_ids"
  sortedUnique step.bindingIds "binding_ids"
  ensure (!step.dependsOnStepIds.contains step.id) "a tool step cannot depend on itself"
  validateCondition? step.condition

def UsageErrorBranch.validate (branch : UsageErrorBranch) : Except String Unit := do
  ensure (!branch.outcomes.isEmpty && !branch.stepIds.isEmpty && !branch.evidenceClaimIds.isEmpty)
    "List should have at least 1 item"
  sortedUnique branch.outcomes "outcomes"
  sortedUnique branch.stepIds "step_ids"
  sortedUnique branch.evidenceClaimIds "evidence_claim_ids"
  ensure ((branch.behavior = .retry : Bool) =
      (branch.retryPolicy = .safeRead || branch.retryPolicy = .idempotent : Bool))
    "retry behavior and retry policy must agree"
  ensure (!(branch.behavior = .queryStatus && branch.retryPolicy ≠ .statusOnly))
    "query_status requires status_only policy"
  ensure (!(branch.behavior ≠ .retry && branch.behavior ≠ .queryStatus &&
      branch.retryPolicy ≠ .never))
    "non-retry behavior requires retry_policy=never"

/-- The steps that a lifecycle names. -/
def UsageActionLifecycle.phaseSteps (lifecycle : UsageActionLifecycle) : List String :=
  [lifecycle.prepareStepId, lifecycle.commitStepId, lifecycle.statusStepId] ++
    lifecycle.approveStepId.toList

def UsageActionLifecycle.validateApproval (lifecycle : UsageActionLifecycle) :
    Except String Unit := do
  match lifecycle.approval with
  | .conditional =>
    ensure (lifecycle.approvalCondition.isSome && lifecycle.approveStepId.isSome &&
        lifecycle.approveActionHandleBindingId.isSome && lifecycle.approvalHandleBindingId.isSome)
      "conditional approval requires a condition, step, and handle"
  | .always =>
    ensure (lifecycle.approveStepId.isSome && lifecycle.approveActionHandleBindingId.isSome &&
        lifecycle.approvalHandleBindingId.isSome && lifecycle.approvalCondition.isNone)
      "always approval requires an approve step and handle"
  | .never =>
    ensure (lifecycle.approveStepId.isNone && lifecycle.approveActionHandleBindingId.isNone &&
        lifecycle.approvalHandleBindingId.isNone && lifecycle.approvalCondition.isNone)
      "approval=never cannot reference approval work"
  validateCondition? lifecycle.approvalCondition
  ensure (decide lifecycle.phaseSteps.Nodup) "action lifecycle phases must reference distinct steps"

/-- The dependencies of a step in a list of steps. -/
def dependenciesIn (steps : List UsageToolStep) (stepId : String) : List String :=
  ((steps.find? (·.id = stepId)).map (·.dependsOnStepIds)).getD []

def UsageToolRoute.stepIds (route : UsageToolRoute) : List String := route.steps.map (·.id)

def UsageToolRoute.validateRouteGraph (route : UsageToolRoute) : Except String Unit := do
  ensure (route.stepIds.contains route.resultStepId) "result_step_id must reference a route step"
  checkAll (fun step => ensure (step.dependsOnStepIds.all route.stepIds.contains)
    "step dependency must reference a route step") route.steps
  ensure (Precedence.visitKeys (dependenciesIn route.steps) route.stepIds).isSome
    "tool route must be acyclic"

def UsageToolRoute.validate (route : UsageToolRoute) : Except String Unit := do
  ensure (!route.steps.isEmpty) "List should have at least 1 item"
  checkAll UsageToolStep.validate route.steps
  sortedUnique route.errorBranchIds "error_branch_ids"
  sortedUnique route.stepIds "step ids"
  route.validateRouteGraph

def UsageDefaultRef.validateSource (default : UsageDefaultRef) : Except String Unit := do
  ensure (!(default.source = .literal && (!default.hasValue || default.referenceBindingId.isSome)))
    "literal defaults require a value and no binding reference"
  ensure (!(default.source = .binding && (default.hasValue || default.referenceBindingId.isNone)))
    "binding defaults require only a binding reference"
  ensure (!(default.source = .sourceDefault &&
      (default.hasValue || default.referenceBindingId.isSome)))
    "source defaults cannot embed a value or binding reference"

def UsageConditionRef.validateExpression (condition : UsageConditionRef) : Except String Unit := do
  ensure ((condition.scope = .step : Bool) = condition.stepId.isSome)
    "step-scoped conditions require exactly one step_id"
  validateConditionComplexity condition.expression

def UsageOptionSourceRef.validateSource (option : UsageOptionSourceRef) : Except String Unit :=
  let pointers := [option.itemsPointer, option.valuePointer, option.labelPointer]
  match option.source with
  | .producerStep => do
    ensure (option.producerStepId.isSome && pointers.all (·.isSome))
      "producer options require a step and item/value/label pointers"
    ensure option.staticItems.isEmpty "producer options cannot contain static items"
  | .static => do
    ensure (option.producerStepId.isNone && pointers.all (·.isNone))
      "static options cannot reference a producer response"
    ensure (!option.staticItems.isEmpty) "static options require at least one item"

/-- Lists of claims and of fields have members and are sorted. -/
def validateListed (values : List String) (fieldName : String) : Except String Unit := do
  ensure (!values.isEmpty) "List should have at least 1 item"
  sortedUnique values fieldName

end CapabilityCompiler.Usage
