import CapabilityCompiler.Foundation.Table
import CapabilityCompiler.Interactions.EvidenceStripping
import CapabilityCompiler.Overlay.Parts

/-! The payloads that the Usage overlay publishes. Evidence bindings are removed from them by name, as
evidence is from compiled interaction contracts. -/
namespace CapabilityCompiler.Overlay
open Foundation Json Interactions

structure UsageVerification where
  sourceUsageTraced : Bool
  usageContractVerified : Bool
  headlessAgentVerified : Bool
  hostAdapterVerified : Bool
  realMcpVerified : Bool
  userAccepted : Bool

/-- What the overlay reads of the release of a domain. -/
structure AgentUsageRelease where
  usageReleaseId : String
  mcpReleaseId : String
  businessGoalIds : List String
  routeIds : List String
  knownLimitations : List String
  verification : UsageVerification

structure VerifiedUsagePackage where
  sha256 : String
  contracts : Table String DomainUsageContract
  releases : Table String AgentUsageRelease

def UsageVerification.model (verification : UsageVerification) : Dump :=
  .model [("source_usage_traced", .value (.bool verification.sourceUsageTraced)),
    ("usage_contract_verified", .value (.bool verification.usageContractVerified)),
    ("headless_agent_verified", .value (.bool verification.headlessAgentVerified)),
    ("host_adapter_verified", .value (.bool verification.hostAdapterVerified)),
    ("real_mcp_verified", .value (.bool verification.realMcpVerified)),
    ("user_accepted", .value (.bool verification.userAccepted))]

/-! Released parts. -/

section Released
variable (contract : DomainUsageContract) (release : AgentUsageRelease)

def releasedRoutes : List UsageToolRoute :=
  contract.toolRoutes.filter (·.id ∈ release.routeIds)

def releasedStepIds : List String :=
  (releasedRoutes contract release).flatMap fun route => route.steps.map (·.id)

def releasedGoals : List UsageBusinessGoal :=
  contract.businessGoals.filter (·.id ∈ release.businessGoalIds)

def releasedConditions : List UsageConditionRef :=
  contract.conditions.filter fun condition => decide (condition.routeId ∈ release.routeIds) &&
    condition.stepId.all (· ∈ releasedStepIds contract release)

def releasedDefaults : List UsageDefaultRef :=
  contract.defaults.filter (·.stepId ∈ releasedStepIds contract release)

def releasedBranches : List UsageErrorBranch :=
  let errorIds := (releasedRoutes contract release).flatMap (·.errorBranchIds)
  contract.errorHandling.filter (·.id ∈ errorIds)

def releasedBindings : List UsageStepBinding :=
  let stepIds := releasedStepIds contract release
  contract.inputBindings.filter fun binding =>
    decide (binding.consumerStepId ∈ stepIds) && binding.sourceStepId.all (· ∈ stepIds)

def releasedOptionSources : List UsageOptionSourceRef :=
  let stepIds := releasedStepIds contract release
  contract.optionSources.filter fun option =>
    decide (option.consumerStepId ∈ stepIds) && option.producerStepId.all (· ∈ stepIds)

def releasedRelatedData : List UsageRelatedDataRef :=
  let stepIds := releasedStepIds contract release
  contract.relatedData.filter fun related =>
    decide (related.consumerStepId ∈ stepIds) && decide (related.producerStepId ∈ stepIds)

def releasedConsumption : List UsageResultConsumption :=
  contract.resultConsumption.filter (·.stepId ∈ releasedStepIds contract release)

def releasedLifecycles : List UsageActionLifecycle :=
  let lifecycleIds := (releasedRoutes contract release).flatMap (·.actionLifecycleId.toList)
  contract.actionLifecycles.filter (·.id ∈ lifecycleIds)

/-- The payload before evidence bindings are removed. -/
def payloadModel (sha256 domainId : String) : Dump :=
  .model [
    ("business_goals", .list ((releasedGoals contract release).map (·.model))),
    ("conditions", .list ((releasedConditions contract release).map (·.model))),
    ("defaults", .list ((releasedDefaults contract release).map (·.model))),
    ("domain_id", .text domainId),
    ("error_handling", .list ((releasedBranches contract release).map (·.model))),
    ("input_bindings", .list ((releasedBindings contract release).map (·.model))),
    ("known_limitations", .texts release.knownLimitations),
    ("mcp_release_id", .text release.mcpReleaseId),
    ("option_sources", .list ((releasedOptionSources contract release).map (·.model))),
    ("package_sha256", .text ("sha256:" ++ sha256)),
    ("prohibited_behaviors", .texts contract.prohibitedBehaviors),
    ("related_data", .list ((releasedRelatedData contract release).map (·.model))),
    ("result_consumption", .list ((releasedConsumption contract release).map (·.model))),
    ("schema_version", .text "2"),
    ("tool_routes", .list ((releasedRoutes contract release).map (·.model))),
    ("usage_release_id", .text release.usageReleaseId),
    ("verification", release.verification.model),
    ("action_lifecycles", .list ((releasedLifecycles contract release).map (·.model)))]

/-- The declared values in the released parts. -/
def releasedLiterals : List Json :=
  ((releasedConditions contract release).flatMap fun condition => condition.expression.literals) ++
    (releasedDefaults contract release).map (·.value) ++
    ((releasedBindings contract release).flatMap fun binding => mappingLiterals binding.mapping) ++
    ((releasedOptionSources contract release).flatMap fun option =>
      option.staticItems.map (·.value)) ++
    ((releasedRoutes contract release).flatMap fun route =>
      route.steps.flatMap fun step => conditionLiterals step.condition) ++
    (releasedLifecycles contract release).flatMap fun lifecycle =>
      conditionLiterals lifecycle.approvalCondition

end Released

/-! Payloads. -/

def evidenceBindings : List String := ["evidence_claim_ids", "evidence_claims", "evidence_refs"]

def stripEvidenceBindings (value : Json) : Json := stripKeys evidenceBindings value

def releasedContractPayload (package : VerifiedUsagePackage) (domainId : String) : Option Json :=
  match package.contracts.get? domainId, package.releases.get? domainId with
  | some contract, some release =>
    some (stripEvidenceBindings (payloadModel contract release package.sha256 domainId).toJson)
  | _, _ => none

/-- Every published payload is the released model without its evidence bindings. -/
def OnlyEvidenceBindingsRemoved (package : VerifiedUsagePackage) : Prop :=
  ∀ domainId contract release, package.contracts.get? domainId = some contract →
    package.releases.get? domainId = some release →
    releasedContractPayload package domainId = some ((payloadModel contract release package.sha256
      domainId).withoutFields evidenceBindings).toJson

/-! When only evidence bindings are removed. -/

theorem mem_evidenceBindings {name : String} : name ∈ evidenceBindings ↔
    name = "evidence_claim_ids" ∨ name = "evidence_claims" ∨ name = "evidence_refs" := by
  simp [evidenceBindings]

theorem conditionModel_intact_iff (condition : Option ConditionExpression) :
    (conditionModel condition).intact evidenceBindings = true ↔
      AllLack evidenceBindings (conditionLiterals condition) := by
  cases condition with
  | none => simp [conditionModel, conditionLiterals, AllLack, Dump.intact, lacksKeys]
  | some expression => exact expression.intact_iff (by decide)

theorem UsageToolStep.intact_iff (step : UsageToolStep) :
    step.model.intact evidenceBindings = true ↔
      AllLack evidenceBindings (conditionLiterals step.condition) := by
  rw [← conditionModel_intact_iff]
  simp [UsageToolStep.model, Dump.intact, Dump.fieldsIntact, mem_evidenceBindings]

theorem UsageToolRoute.intact_iff (route : UsageToolRoute) :
    route.model.intact evidenceBindings = true ↔
      AllLack evidenceBindings (route.steps.flatMap fun step => conditionLiterals step.condition) := by
  rw [allLack_flatMap]
  simp [UsageToolRoute.model, Dump.intact, Dump.fieldsIntact, Dump.itemsIntact_iff,
    UsageToolStep.intact_iff, mem_evidenceBindings]

theorem UsageActionLifecycle.intact_iff (lifecycle : UsageActionLifecycle) :
    lifecycle.model.intact evidenceBindings = true ↔
      AllLack evidenceBindings (conditionLiterals lifecycle.approvalCondition) := by
  rw [← conditionModel_intact_iff]
  simp [UsageActionLifecycle.model, Dump.intact, Dump.fieldsIntact, mem_evidenceBindings]

theorem UsageStepBinding.intact_iff (binding : UsageStepBinding) :
    binding.model.intact evidenceBindings = true ↔
      AllLack evidenceBindings (mappingLiterals binding.mapping) := by
  rw [← mappingModel_intact_iff (by decide)]
  simp [UsageStepBinding.model, Dump.intact, Dump.fieldsIntact, mem_evidenceBindings]

theorem UsageDefaultRef.intact_iff (default : UsageDefaultRef) :
    default.model.intact evidenceBindings = true ↔
      lacksKeys evidenceBindings default.value = true := by
  simp [UsageDefaultRef.model, Dump.intact, Dump.fieldsIntact, mem_evidenceBindings, lacksKeys]

theorem UsageConditionRef.intact_iff (condition : UsageConditionRef) :
    condition.model.intact evidenceBindings = true ↔
      AllLack evidenceBindings condition.expression.literals := by
  rw [← ConditionExpression.intact_iff (by decide)]
  simp [UsageConditionRef.model, Dump.intact, Dump.fieldsIntact, mem_evidenceBindings]

theorem UsageOptionItem.intact_iff (item : UsageOptionItem) :
    item.model.intact evidenceBindings = true ↔ lacksKeys evidenceBindings item.value = true := by
  simp [UsageOptionItem.model, Dump.intact, Dump.fieldsIntact, mem_evidenceBindings]

theorem UsageOptionSourceRef.intact_iff (option : UsageOptionSourceRef) :
    option.model.intact evidenceBindings = true ↔
      AllLack evidenceBindings (option.staticItems.map (·.value)) := by
  simp only [AllLack, List.forall_mem_map, ← UsageOptionItem.intact_iff]
  simp [UsageOptionSourceRef.model, Dump.intact, Dump.fieldsIntact, Dump.itemsIntact_iff,
    mem_evidenceBindings]

/-! Parts without declared values. -/

theorem UsageBusinessGoal.intact (goal : UsageBusinessGoal) :
    goal.model.intact evidenceBindings = true := by
  simp [UsageBusinessGoal.model, Dump.intact, Dump.fieldsIntact]

theorem UsageErrorBranch.intact (branch : UsageErrorBranch) :
    branch.model.intact evidenceBindings = true := by
  simp [UsageErrorBranch.model, Dump.intact, Dump.fieldsIntact]

theorem UsageRelatedDataRef.intact (related : UsageRelatedDataRef) :
    related.model.intact evidenceBindings = true := by
  simp [UsageRelatedDataRef.model, Dump.intact, Dump.fieldsIntact]

theorem UsageResultConsumption.intact (consumption : UsageResultConsumption) :
    consumption.model.intact evidenceBindings = true := by
  simp [UsageResultConsumption.model, Dump.intact, Dump.fieldsIntact, lacksKeys]

theorem UsageVerification.intact (verification : UsageVerification) :
    verification.model.intact evidenceBindings = true := by
  simp [UsageVerification.model, Dump.intact, Dump.fieldsIntact, lacksKeys]

section Payloads
variable {contract : DomainUsageContract} {release : AgentUsageRelease}

theorem payloadModel_intact_iff {sha256 domainId : String} :
    (payloadModel contract release sha256 domainId).intact evidenceBindings = true ↔
      AllLack evidenceBindings (releasedLiterals contract release) := by
  have hdefaults : AllLack evidenceBindings ((releasedDefaults contract release).map (·.value)) ↔
      ∀ default ∈ releasedDefaults contract release,
        default.model.intact evidenceBindings = true := by
    simp only [AllLack, List.forall_mem_map, UsageDefaultRef.intact_iff]
  have hroutes : AllLack evidenceBindings ((releasedRoutes contract release).flatMap fun route =>
        route.steps.flatMap fun step => conditionLiterals step.condition) ↔
      ∀ route ∈ releasedRoutes contract release, route.model.intact evidenceBindings = true := by
    rw [allLack_flatMap]
    exact forall₂_congr fun route _ => route.intact_iff.symm
  simp only [releasedLiterals, allLack_append, hroutes, hdefaults]
  simp only [allLack_flatMap, ← UsageConditionRef.intact_iff, ← UsageStepBinding.intact_iff,
    ← UsageOptionSourceRef.intact_iff, ← UsageActionLifecycle.intact_iff]
  simp [payloadModel, Dump.intact, Dump.fieldsIntact, Dump.itemsIntact_iff, mem_evidenceBindings,
    UsageBusinessGoal.intact, UsageErrorBranch.intact, UsageRelatedDataRef.intact,
    UsageResultConsumption.intact, UsageVerification.intact]
  tauto

theorem onlyEvidenceBindingsRemoved_iff {package : VerifiedUsagePackage} :
    OnlyEvidenceBindingsRemoved package ↔
      ∀ domainId contract release, package.contracts.get? domainId = some contract →
        package.releases.get? domainId = some release →
        AllLack evidenceBindings (releasedLiterals contract release) := by
  refine forall_congr' fun domainId => forall₂_congr fun contract release => ?_
  refine forall₂_congr fun hcontract hrelease => ?_
  rw [releasedContractPayload, hcontract, hrelease]
  simp only [Option.some.injEq]
  rw [stripEvidenceBindings, Dump.stripKeys_toJson_iff, payloadModel_intact_iff]

/-- Compiling and publishing remove evidence and nothing else just when no declared value has a key
that evidence goes by. -/
theorem evidence_only_iff {presentationIsProven : ResultConsumption → Bool}
    {contract : CapabilityInteractionContract} {package : VerifiedUsagePackage} :
    OnlyEvidenceRemoved presentationIsProven contract ∧ OnlyEvidenceBindingsRemoved package ↔
      AllLack ["evidence"] contract.literals ∧
        ∀ domainId contract release, package.contracts.get? domainId = some contract →
          package.releases.get? domainId = some release →
          AllLack evidenceBindings (releasedLiterals contract release) :=
  and_congr onlyEvidenceRemoved_iff onlyEvidenceBindingsRemoved_iff

end Payloads

/-! A condition on a record that has evidence of its own, and a default with references to it. -/

def recordBinding : InputBinding where
  id := "record"
  sourceKind := .userInput
  sourceId := none
  sourcePointer := some "/record"
  targetPointer := "/record"
  cardinality := .one
  mapping := none
  literalValue := none
  evidence := .obj [("source", .str "form")]

def recordContract : CapabilityInteractionContract where
  publicInputBindings := [recordBinding]
  trustedInputBindings := []
  defaults := []
  optionSources := []
  conditions := [
    { id := "photographed"
      target := .visible
      targetPointer := "/record"
      expression := .comparison .eq (.reference "/record")
        (.literal (.obj [("evidence", .str "photo")]))
      evidence := .obj [("source", .str "form")] }]
  resultConsumption := []

def recordDefault : UsageDefaultRef where
  id := "record"
  capabilityId := "file-record"
  stepId := "file"
  evidenceClaimIds := ["seen"]
  targetPointer := "/record"
  source := .literal
  value := .obj [("evidence_refs", .arr [.str "photo"])]
  referenceBindingId := none
  precedence := 1
  submission := .whenMissing

def recordRoute : UsageToolRoute where
  id := "filing"
  businessGoalId := "file"
  preconditions := []
  steps := [
    { id := "file"
      capabilityId := "file-record"
      toolName := "file_record"
      dependsOnStepIds := []
      bindingIds := []
      condition := none
      retry := .never
      actionPhase := none }]
  errorBranchIds := []
  resultStepId := "file"
  resultPointer := ""
  actionLifecycleId := none

def recordUsage : DomainUsageContract where
  businessGoals := [{ id := "file", description := "File a record", evidenceClaimIds := ["seen"] }]
  toolRoutes := [recordRoute]
  inputBindings := []
  defaults := [recordDefault]
  conditions := []
  optionSources := []
  relatedData := []
  resultConsumption := [
    { id := "filed"
      capabilityId := "file-record"
      stepId := "file"
      evidenceClaimIds := ["seen"]
      kind := .return
      fieldPointers := ["/id"]
      order := 1 }]
  errorHandling := []
  actionLifecycles := []
  prohibitedBehaviors := ["Never file a record twice"]

def recordRelease : AgentUsageRelease where
  usageReleaseId := "usage-1"
  mcpReleaseId := "mcp-1"
  businessGoalIds := ["file"]
  routeIds := ["filing"]
  knownLimitations := []
  verification :=
    { sourceUsageTraced := true
      usageContractVerified := true
      headlessAgentVerified := true
      hostAdapterVerified := true
      realMcpVerified := true
      userAccepted := true }

def recordPackage : VerifiedUsagePackage where
  sha256 := ""
  contracts := [("records", recordUsage)]
  releases := [("records", recordRelease)]

/-- The literal of the condition and the default lose what they declare. -/
theorem declared_evidence_removed :
    ¬ OnlyEvidenceRemoved (fun _ => true) recordContract ∧
      ¬ OnlyEvidenceBindingsRemoved recordPackage := by
  constructor
  · intro h
    have hlacks := onlyEvidenceRemoved_iff.mp h (.obj [("evidence", .str "photo")]) (by decide +kernel)
    cases hlacks
  · intro h
    have hlacks := onlyEvidenceBindingsRemoved_iff.mp h "records" recordUsage recordRelease rfl rfl
      (.obj [("evidence_refs", .arr [.str "photo"])]) (by decide +kernel)
    cases hlacks

end CapabilityCompiler.Overlay
