import CapabilityCompiler.Interactions.Contracts
import CapabilityCompiler.Usage.Models

/-! The parts of a released Usage contract with all their fields, and the models that they are dumped
as. -/
namespace CapabilityCompiler.Overlay
open Foundation Interactions
open Usage (SourceKind ValueKind StepRetry ActionPhase BranchBehavior RetryPolicy Approval DefaultSource
  ConditionScope)

/-! Goals, steps and routes. -/

structure UsageBusinessGoal where
  id : String
  description : String
  evidenceClaimIds : List String

structure UsageToolStep where
  id : String
  capabilityId : String
  toolName : String
  dependsOnStepIds : List String
  bindingIds : List String
  condition : Option ConditionExpression
  retry : StepRetry
  actionPhase : Option ActionPhase

structure UsageToolRoute where
  id : String
  businessGoalId : String
  preconditions : List String
  steps : List UsageToolStep
  errorBranchIds : List String
  resultStepId : String
  resultPointer : String
  actionLifecycleId : Option String

structure UsageErrorBranch where
  id : String
  outcomes : List String
  behavior : BranchBehavior
  description : String
  stepIds : List String
  retryPolicy : RetryPolicy
  evidenceClaimIds : List String

structure UsageActionLifecycle where
  id : String
  actionId : String
  prepareStepId : String
  approveActionHandleBindingId : Option String
  commitActionHandleBindingId : String
  statusActionHandleBindingId : String
  approval : Approval
  approvalCondition : Option ConditionExpression
  approveStepId : Option String
  approvalHandleBindingId : Option String
  commitStepId : String
  statusStepId : String

/-! Inputs. -/

structure UsageStepBinding where
  id : String
  sourceKind : SourceKind
  sourceStepId : Option String
  consumerStepId : String
  sourcePointer : String
  targetPointer : String
  mapping : Option InputMapping
  valueKind : ValueKind

inductive UsageSubmission where
  | always
  | whenMissing
  | omitWhenAbsent

structure UsageDefaultRef where
  id : String
  capabilityId : String
  stepId : String
  evidenceClaimIds : List String
  targetPointer : String
  source : DefaultSource
  value : Json
  referenceBindingId : Option String
  precedence : ℕ
  submission : UsageSubmission

inductive UsageConditionKind where
  | visible
  | enabled
  | required
  | reset
  | execute

structure UsageConditionRef where
  id : String
  kind : UsageConditionKind
  scope : ConditionScope
  routeId : String
  stepId : Option String
  targetPointer : String
  expression : ConditionExpression
  evidenceClaimIds : List String

structure UsageOptionItem where
  value : Json
  label : String

inductive OptionSupport where
  | unsupported
  | supported
  | required

inductive UsageEmptyBehavior where
  | returnEmpty
  | stop

inductive UsageErrorBehavior where
  | stop
  | retry

structure UsageOptionSourceRef where
  id : String
  capabilityId : String
  consumerStepId : String
  targetPointer : String
  source : Usage.OptionSource
  producerStepId : Option String
  staticItems : List UsageOptionItem
  itemsPointer : Option String
  valuePointer : Option String
  labelPointer : Option String
  search : OptionSupport
  paging : OptionSupport
  emptyBehavior : UsageEmptyBehavior
  errorBehavior : UsageErrorBehavior
  evidenceClaimIds : List String

/-! Results. -/

inductive DataConsistency where
  | current
  | snapshot
  | staleCheckRequired

structure UsageRelatedDataRef where
  id : String
  producerStepId : String
  producerPointer : String
  consumerStepId : String
  targetPointer : String
  cardinality : Cardinality
  consistency : DataConsistency
  evidenceClaimIds : List String

inductive ConsumptionKind where
  | return
  | display
  | navigate
  | download
  | storeReference

structure UsageResultConsumption where
  id : String
  capabilityId : String
  stepId : String
  evidenceClaimIds : List String
  kind : ConsumptionKind
  fieldPointers : List String
  order : ℕ

structure DomainUsageContract where
  businessGoals : List UsageBusinessGoal
  toolRoutes : List UsageToolRoute
  inputBindings : List UsageStepBinding
  defaults : List UsageDefaultRef
  conditions : List UsageConditionRef
  optionSources : List UsageOptionSourceRef
  relatedData : List UsageRelatedDataRef
  resultConsumption : List UsageResultConsumption
  errorHandling : List UsageErrorBranch
  actionLifecycles : List UsageActionLifecycle
  prohibitedBehaviors : List String

/-! Names. -/

def retryName : StepRetry → String
  | .never => "never"
  | .safe => "safe"
  | .statusOnly => "status_only"

def phaseName : ActionPhase → String
  | .prepare => "prepare"
  | .approve => "approve"
  | .commit => "commit"
  | .status => "status"

def behaviorName : BranchBehavior → String
  | .stop => "stop"
  | .returnEmpty => "return_empty"
  | .retry => "retry"
  | .queryStatus => "query_status"

def retryPolicyName : RetryPolicy → String
  | .never => "never"
  | .safeRead => "safe_read"
  | .idempotent => "idempotent"
  | .statusOnly => "status_only"

def approvalName : Approval → String
  | .never => "never"
  | .always => "always"
  | .conditional => "conditional"

def sourceKindName : SourceKind → String
  | .publicInput => "public_input"
  | .routeInput => "route_input"
  | .priorStepOutput => "prior_step_output"
  | .trustedContext => "trusted_context"

def valueKindName : ValueKind → String
  | .publicValue => "public_value"
  | .actionHandle => "action_handle"
  | .approvalHandle => "approval_handle"
  | .statusHandle => "status_handle"

def defaultSourceName : DefaultSource → String
  | .literal => "literal"
  | .binding => "binding"
  | .sourceDefault => "source_default"

def UsageSubmission.name : UsageSubmission → String
  | .always => "always"
  | .whenMissing => "when_missing"
  | .omitWhenAbsent => "omit_when_absent"

def UsageConditionKind.name : UsageConditionKind → String
  | .visible => "visible"
  | .enabled => "enabled"
  | .required => "required"
  | .reset => "reset"
  | .execute => "execute"

def scopeName : ConditionScope → String
  | .route => "route"
  | .step => "step"

def OptionSupport.name : OptionSupport → String
  | .unsupported => "unsupported"
  | .supported => "supported"
  | .required => "required"

def optionSourceName : Usage.OptionSource → String
  | .producerStep => "producer_step"
  | .static => "static"

def UsageEmptyBehavior.name : UsageEmptyBehavior → String
  | .returnEmpty => "return_empty"
  | .stop => "stop"

def UsageErrorBehavior.name : UsageErrorBehavior → String
  | .stop => "stop"
  | .retry => "retry"

def DataConsistency.name : DataConsistency → String
  | .current => "current"
  | .snapshot => "snapshot"
  | .staleCheckRequired => "stale_check_required"

def ConsumptionKind.name : ConsumptionKind → String
  | .return => "return"
  | .display => "display"
  | .navigate => "navigate"
  | .download => "download"
  | .storeReference => "store_reference"

/-! Dumps. -/

def conditionModel : Option ConditionExpression → Dump
  | some expression => expression.model
  | none => .value .null

def conditionLiterals : Option ConditionExpression → List Json
  | some expression => expression.literals
  | none => []

def UsageBusinessGoal.model (goal : UsageBusinessGoal) : Dump :=
  .model [("id", .text goal.id), ("description", .text goal.description),
    ("evidence_claim_ids", .texts goal.evidenceClaimIds)]

def UsageToolStep.model (step : UsageToolStep) : Dump :=
  .model [("id", .text step.id), ("capability_id", .text step.capabilityId),
    ("tool_name", .text step.toolName), ("depends_on_step_ids", .texts step.dependsOnStepIds),
    ("binding_ids", .texts step.bindingIds), ("condition", conditionModel step.condition),
    ("retry", .text (retryName step.retry)),
    ("action_phase", .optionalText (step.actionPhase.map phaseName))]

def UsageToolRoute.model (route : UsageToolRoute) : Dump :=
  .model [("id", .text route.id), ("business_goal_id", .text route.businessGoalId),
    ("preconditions", .texts route.preconditions),
    ("steps", .list (route.steps.map UsageToolStep.model)),
    ("error_branch_ids", .texts route.errorBranchIds),
    ("result_step_id", .text route.resultStepId), ("result_pointer", .text route.resultPointer),
    ("action_lifecycle_id", .optionalText route.actionLifecycleId)]

def UsageErrorBranch.model (branch : UsageErrorBranch) : Dump :=
  .model [("id", .text branch.id), ("outcomes", .texts branch.outcomes),
    ("behavior", .text (behaviorName branch.behavior)),
    ("description", .text branch.description), ("step_ids", .texts branch.stepIds),
    ("retry_policy", .text (retryPolicyName branch.retryPolicy)),
    ("evidence_claim_ids", .texts branch.evidenceClaimIds)]

def UsageActionLifecycle.model (lifecycle : UsageActionLifecycle) : Dump :=
  .model [("id", .text lifecycle.id), ("action_id", .text lifecycle.actionId),
    ("prepare_step_id", .text lifecycle.prepareStepId),
    ("approve_action_handle_binding_id", .optionalText lifecycle.approveActionHandleBindingId),
    ("commit_action_handle_binding_id", .text lifecycle.commitActionHandleBindingId),
    ("status_action_handle_binding_id", .text lifecycle.statusActionHandleBindingId),
    ("approval", .text (approvalName lifecycle.approval)),
    ("approval_condition", conditionModel lifecycle.approvalCondition),
    ("approve_step_id", .optionalText lifecycle.approveStepId),
    ("approval_handle_binding_id", .optionalText lifecycle.approvalHandleBindingId),
    ("commit_step_id", .text lifecycle.commitStepId),
    ("status_step_id", .text lifecycle.statusStepId),
    ("outcome_unknown_behavior", .text "query_status")]

def UsageStepBinding.model (binding : UsageStepBinding) : Dump :=
  .model [("id", .text binding.id), ("source_kind", .text (sourceKindName binding.sourceKind)),
    ("source_step_id", .optionalText binding.sourceStepId),
    ("consumer_step_id", .text binding.consumerStepId),
    ("source_pointer", .text binding.sourcePointer),
    ("target_pointer", .text binding.targetPointer), ("mapping", mappingModel binding.mapping),
    ("value_kind", .text (valueKindName binding.valueKind))]

def UsageDefaultRef.model (default : UsageDefaultRef) : Dump :=
  .model [("id", .text default.id), ("capability_id", .text default.capabilityId),
    ("step_id", .text default.stepId), ("evidence_claim_ids", .texts default.evidenceClaimIds),
    ("target_pointer", .text default.targetPointer),
    ("source", .text (defaultSourceName default.source)), ("value", .value default.value),
    ("reference_binding_id", .optionalText default.referenceBindingId),
    ("precedence", .value (.int default.precedence)),
    ("submission", .text default.submission.name)]

def UsageConditionRef.model (condition : UsageConditionRef) : Dump :=
  .model [("id", .text condition.id), ("kind", .text condition.kind.name),
    ("scope", .text (scopeName condition.scope)), ("route_id", .text condition.routeId),
    ("step_id", .optionalText condition.stepId),
    ("target_pointer", .text condition.targetPointer), ("expression", condition.expression.model),
    ("evidence_claim_ids", .texts condition.evidenceClaimIds)]

def UsageOptionItem.model (item : UsageOptionItem) : Dump :=
  .model [("value", .value item.value), ("label", .text item.label)]

def UsageOptionSourceRef.model (option : UsageOptionSourceRef) : Dump :=
  .model [("id", .text option.id), ("capability_id", .text option.capabilityId),
    ("consumer_step_id", .text option.consumerStepId),
    ("target_pointer", .text option.targetPointer),
    ("source", .text (optionSourceName option.source)),
    ("producer_step_id", .optionalText option.producerStepId),
    ("static_items", .list (option.staticItems.map UsageOptionItem.model)),
    ("items_pointer", .optionalText option.itemsPointer),
    ("value_pointer", .optionalText option.valuePointer),
    ("label_pointer", .optionalText option.labelPointer), ("search", .text option.search.name),
    ("paging", .text option.paging.name), ("empty_behavior", .text option.emptyBehavior.name),
    ("error_behavior", .text option.errorBehavior.name),
    ("evidence_claim_ids", .texts option.evidenceClaimIds)]

def UsageRelatedDataRef.model (related : UsageRelatedDataRef) : Dump :=
  .model [("id", .text related.id), ("producer_step_id", .text related.producerStepId),
    ("producer_pointer", .text related.producerPointer),
    ("consumer_step_id", .text related.consumerStepId),
    ("target_pointer", .text related.targetPointer),
    ("cardinality", .text related.cardinality.name),
    ("consistency", .text related.consistency.name),
    ("evidence_claim_ids", .texts related.evidenceClaimIds)]

def UsageResultConsumption.model (consumption : UsageResultConsumption) : Dump :=
  .model [("id", .text consumption.id), ("capability_id", .text consumption.capabilityId),
    ("step_id", .text consumption.stepId),
    ("evidence_claim_ids", .texts consumption.evidenceClaimIds),
    ("kind", .text consumption.kind.name), ("field_pointers", .texts consumption.fieldPointers),
    ("order", .value (.int consumption.order))]

end CapabilityCompiler.Overlay
