import CapabilityCompiler.Overlay.RouteProjection

/-! What the adapter projection and the overlay payload show of a released route. -/
namespace CapabilityCompiler.Overlay
open Foundation Json Interactions

/-! What a payload holds for a route. -/

def itemsAt (collection : String) (document : Json) : List Json :=
  match Json.get? collection document with
  | some (.arr items) => items
  | _ => []

/-- The field of the item is one of the identifiers. -/
def refersTo (key : String) (identifiers : List String) (item : Json) : Bool :=
  match Json.get? key item with
  | some (.str identifier) => decide (identifier ∈ identifiers)
  | _ => false

def holding (key collection : String) (identifiers : List String) (payload : Json) : List Json :=
  (itemsAt collection payload).filter (refersTo key identifiers)

structure RouteView where
  steps : List Json
  bindings : List Json
  defaults : List Json
  conditions : List Json
  optionSources : List Json
  relatedData : List Json
  resultConsumption : List Json
  errorHandling : List Json
  actionLifecycle : Option Json

/-- The objects of a published payload that are for the route and its steps. -/
def payloadView (payload : Json) (route : UsageToolRoute) : RouteView where
  steps := (holding "id" "tool_routes" [route.id] payload).flatMap (itemsAt "steps")
  bindings := holding "consumer_step_id" "input_bindings" route.stepIds payload
  defaults := holding "step_id" "defaults" route.stepIds payload
  conditions := holding "route_id" "conditions" [route.id] payload
  optionSources := holding "consumer_step_id" "option_sources" route.stepIds payload
  relatedData := holding "consumer_step_id" "related_data" route.stepIds payload
  resultConsumption := holding "step_id" "result_consumption" route.stepIds payload
  errorHandling := holding "id" "error_handling" route.errorBranchIds payload
  actionLifecycle :=
    (holding "id" "action_lifecycles" route.actionLifecycleId.toList payload).head?

def RouteProjection.view (projection : RouteProjection) : RouteView where
  steps := projection.steps
  bindings := projection.bindings
  defaults := projection.defaults
  conditions := projection.conditions
  optionSources := projection.optionSources
  relatedData := projection.relatedData
  resultConsumption := projection.resultConsumption
  errorHandling := projection.errorHandling
  actionLifecycle := projection.actionLifecycle

/-- The payload of the domain is published, and shows of the route what the projection shows. -/
def ViewsAgree (package : VerifiedUsagePackage) (domainId : String) (contract : DomainUsageContract)
    (route : UsageToolRoute) : Prop :=
  ∃ payload, releasedContractPayload package domainId = some payload ∧
    payloadView payload route = (routeProjection contract route).view

/-- What the objects shown for a route refer to is shown with them. -/
structure ProjectionClosed (contract : DomainUsageContract) (route : UsageToolRoute) : Prop where
  dependencies : ∀ step ∈ route.steps, step.dependsOnStepIds ⊆ route.stepIds
  bindings : ∀ step ∈ route.steps,
    step.bindingIds ⊆ (projectedBindings contract route).map (·.id)
  result : route.resultStepId ∈ route.stepIds
  sources : ∀ binding ∈ projectedBindings contract route,
    binding.consumerStepId :: binding.sourceStepId.toList ⊆ route.stepIds
  defaults : ∀ default ∈ projectedDefaults contract route, default.stepId ∈ route.stepIds
  references : ∀ default ∈ projectedDefaults contract route,
    default.referenceBindingId.toList ⊆ (projectedBindings contract route).map (·.id)
  conditions : ∀ condition ∈ projectedConditions contract route,
    condition.stepId.toList ⊆ route.stepIds
  options : ∀ option ∈ projectedOptionSources contract route,
    option.consumerStepId :: option.producerStepId.toList ⊆ route.stepIds
  related : ∀ related ∈ projectedRelatedData contract route,
    [related.producerStepId, related.consumerStepId] ⊆ route.stepIds
  consumption : ∀ consumption ∈ projectedConsumption contract route,
    consumption.stepId ∈ route.stepIds
  errors : route.errorBranchIds ⊆ (projectedBranches contract route).map (·.id)
  branches : ∀ branch ∈ projectedBranches contract route, branch.stepIds ⊆ route.stepIds
  lifecycle : route.actionLifecycleId = (projectedLifecycle contract route).map (·.id)
  phases : ∀ lifecycle, projectedLifecycle contract route = some lifecycle →
    lifecycle.checked.phaseSteps ⊆ route.stepIds
  handles : ∀ lifecycle, projectedLifecycle contract route = some lifecycle →
    lifecycle.checked.handleBindingIds ⊆ (projectedBindings contract route).map (·.id)

/-! The closure of a verified contract around its routes. -/

section Closure
variable {contract : DomainUsageContract} {route : UsageToolRoute}

@[simp] theorem stepIds_checked (route : UsageToolRoute) : route.checked.stepIds = route.stepIds := by
  simp [Usage.UsageToolRoute.stepIds, UsageToolRoute.checked, UsageToolRoute.stepIds,
    Function.comp_def, UsageToolStep.checked]

theorem bindingIds_checked (route : UsageToolRoute) :
    route.checked.steps.flatMap (·.bindingIds) = route.bindingIds := by
  simp [UsageToolRoute.checked, UsageToolRoute.bindingIds, List.flatMap_map, UsageToolStep.checked]

/-- The facts of `Usage.RouteClosed` about the objects of the contract itself. -/
structure RouteKept (contract : DomainUsageContract) (route : UsageToolRoute) : Prop where
  graph : ∀ step ∈ route.steps, step.dependsOnStepIds ⊆ route.stepIds
  result : route.resultStepId ∈ route.stepIds
  declared : ∀ step ∈ route.steps, step.bindingIds ⊆ contract.inputBindings.map (·.id)
  consumer : ∀ binding ∈ contract.inputBindings,
    binding.id ∈ route.bindingIds ↔ binding.consumerStepId ∈ route.stepIds
  producer : ∀ binding ∈ contract.inputBindings, binding.consumerStepId ∈ route.stepIds →
    binding.sourceStepId.toList ⊆ route.stepIds
  defaults : ∀ default ∈ contract.defaults,
    (default.capabilityId, default.stepId) ∈ route.stepPairs ↔ default.stepId ∈ route.stepIds
  literal : ∀ default ∈ contract.defaults, default.referenceBindingId = none
  conditions : ∀ condition ∈ contract.conditions, condition.routeId = route.id →
    condition.stepId.toList ⊆ route.stepIds
  options : ∀ option ∈ contract.optionSources, option.consumerStepId ∈ route.stepIds →
    option.producerStepId.toList ⊆ route.stepIds
  related : ∀ related ∈ contract.relatedData, related.consumerStepId ∈ route.stepIds →
    related.producerStepId ∈ route.stepIds
  consumption : ∀ consumption ∈ contract.resultConsumption,
    (consumption.capabilityId, consumption.stepId) ∈ route.stepPairs ↔
      consumption.stepId ∈ route.stepIds
  errors : route.errorBranchIds ⊆ contract.errorHandling.map (·.id)
  branches : ∀ branch ∈ contract.errorHandling, branch.id ∈ route.errorBranchIds →
    branch.stepIds ⊆ route.stepIds
  lifecycle : route.actionLifecycleId.toList ⊆ contract.actionLifecycles.map (·.id)
  phases : ∀ lifecycle ∈ contract.actionLifecycles, route.actionLifecycleId = some lifecycle.id →
    lifecycle.checked.phaseSteps ⊆ route.stepIds
  handles : ∀ lifecycle ∈ contract.actionLifecycles, route.actionLifecycleId = some lifecycle.id →
    lifecycle.checked.handleBindingIds ⊆ route.bindingIds

theorem mem_stepPairs_of_hasStep {stepId capabilityId : String}
    (h : Usage.DomainUsageContract.HasStep route.checked stepId capabilityId) :
    (capabilityId, stepId) ∈ route.stepPairs := by
  obtain ⟨checked, hchecked, rfl, rfl⟩ := h
  obtain ⟨step, hstep, rfl⟩ := List.mem_map.mp hchecked
  exact List.mem_map.mpr ⟨step, hstep, rfl⟩

theorem mem_stepIds_of_mem_stepPairs {stepId capabilityId : String}
    (h : (capabilityId, stepId) ∈ route.stepPairs) : stepId ∈ route.stepIds := by
  obtain ⟨step, hstep, hpair⟩ := List.mem_map.mp h
  obtain ⟨-, rfl⟩ := Prod.mk.inj hpair
  exact List.mem_map_of_mem hstep

theorem toList_subset {identifier : Option String} {identifiers : List String}
    (h : ∀ name, identifier = some name → name ∈ identifiers) :
    identifier.toList ⊆ identifiers := fun name hname => h name (Option.mem_toList.mp hname)

theorem routeKept_of_verified (hverified : contract.Verified) (hroute : route ∈ contract.toolRoutes) :
    RouteKept contract route := by
  obtain ⟨scenarioIds, claims, hvalid⟩ := hverified
  have hclosed := Usage.DomainUsageContract.routeClosed_of_validate hvalid
    (List.mem_map_of_mem hroute)
  have hbindings : (contract.checked scenarioIds claims).inputBindings.map (·.id) =
      contract.inputBindings.map (·.id) := by
    rw [DomainUsageContract.checked, List.map_map]
    rfl
  have hbranches : (contract.checked scenarioIds claims).errorHandling.map (·.id) =
      contract.errorHandling.map (·.id) := by
    rw [DomainUsageContract.checked, List.map_map]
    rfl
  have hlifecycles : (contract.checked scenarioIds claims).actionLifecycles.map (·.id) =
      contract.actionLifecycles.map (·.id) := by
    rw [DomainUsageContract.checked, List.map_map]
    rfl
  have hsteps := stepIds_checked route
  have hused := bindingIds_checked route
  have hmem : ∀ {α β : Type} {items : List α} {f : α → β} {item : α}, item ∈ items →
      f item ∈ items.map f := List.mem_map_of_mem
  refine
    { graph := ?_
      result := hsteps ▸ hclosed.result
      declared := ?_
      consumer := ?_
      producer := ?_
      defaults := ?_
      literal := ?_
      conditions := ?_
      options := ?_
      related := ?_
      consumption := ?_
      errors := ?_
      branches := ?_
      lifecycle := ?_
      phases := ?_
      handles := ?_ }
  · intro step hstep stepId hstepId
    exact hsteps ▸ hclosed.dependencies step.checked (hmem hstep) stepId hstepId
  · intro step hstep bindingId hbindingId
    exact hbindings ▸ hclosed.bindings step.checked (hmem hstep) bindingId hbindingId
  · intro binding hbinding
    have hconsumer := hclosed.consumer binding.checked (hmem hbinding)
    rwa [hused, hsteps] at hconsumer
  · intro binding hbinding hconsumer
    rw [← hsteps] at hconsumer ⊢
    exact toList_subset (hclosed.producer binding.checked (hmem hbinding) hconsumer)
  · intro default hdefault
    refine ⟨mem_stepIds_of_mem_stepPairs, fun hstep => ?_⟩
    rw [← hsteps] at hstep
    exact mem_stepPairs_of_hasStep (hclosed.defaults default.checked (hmem hdefault) hstep)
  · intro default hdefault
    obtain ⟨hparts, -⟩ := Usage.DomainUsageContract.validate_iff.mp hvalid
    simp only [Usage.DomainUsageContract.validateParts, Usage.checked_bind,
      Usage.checkAll_ok] at hparts
    have hsource := (hparts.2.2.2.1 default.checked (hmem hdefault)).2
    simp only [Usage.UsageDefaultRef.validateSource, Usage.checked_bind, Usage.ensure_ok,
      UsageDefaultRef.checked] at hsource
    -- a default that was read from a document has a value, so that only literal ones pass
    cases hcase : default.source with
    | literal => simpa [hcase] using hsource
    | binding => simp [hcase] at hsource
    | sourceDefault => simp [hcase] at hsource
  · intro condition hcondition hrouteId
    rw [← hsteps]
    exact toList_subset (hclosed.conditions condition.checked (hmem hcondition) hrouteId)
  · intro option hoption hconsumer
    rw [← hsteps] at hconsumer ⊢
    exact toList_subset (hclosed.options option.checked (hmem hoption) hconsumer)
  · intro related hrelated hconsumer
    rw [← hsteps] at hconsumer ⊢
    exact hclosed.related related.checked (hmem hrelated) hconsumer
  · intro consumption hconsumption
    refine ⟨mem_stepIds_of_mem_stepPairs, fun hstep => ?_⟩
    rw [← hsteps] at hstep
    exact mem_stepPairs_of_hasStep
      (hclosed.consumption consumption.checked (hmem hconsumption) hstep)
  · exact fun branchId hbranchId => hbranches ▸ hclosed.errors branchId hbranchId
  · intro branch hbranch hlisted stepId hstepId
    exact hsteps ▸ hclosed.branches branch.checked (hmem hbranch) hlisted stepId hstepId
  · rw [← hlifecycles]
    exact toList_subset hclosed.lifecycle
  · intro lifecycle hlifecycle hid stepId hstepId
    exact hsteps ▸ hclosed.phases lifecycle.checked (hmem hlifecycle) hid stepId hstepId
  · intro lifecycle hlifecycle hid bindingId hbindingId
    exact hused ▸ hclosed.handles lifecycle.checked (hmem hlifecycle) hid bindingId hbindingId

/-! Closed projections. -/

theorem exists_lifecycle (hkept : RouteKept contract route) {lifecycleId : String}
    (hid : route.actionLifecycleId = some lifecycleId) :
    ∃ lifecycle, projectedLifecycle contract route = some lifecycle ∧ lifecycle.id = lifecycleId := by
  have hdeclared := hkept.lifecycle (Option.mem_toList.mpr hid)
  obtain ⟨declared, hdeclared, hname⟩ := List.mem_map.mp hdeclared
  cases hfound : projectedLifecycle contract route with
  | none =>
    have hnot := List.find?_eq_none.mp hfound declared hdeclared
    rw [hid, hname] at hnot
    exact absurd (decide_eq_true rfl) hnot
  | some lifecycle =>
    have hsome := List.find?_some (p := fun item : UsageActionLifecycle =>
      decide (some item.id = route.actionLifecycleId)) hfound
    rw [decide_eq_true_eq, hid] at hsome
    exact ⟨lifecycle, rfl, Option.some.inj hsome⟩

theorem projectedLifecycle_eq_some {lifecycle : UsageActionLifecycle}
    (hfound : projectedLifecycle contract route = some lifecycle) :
    lifecycle ∈ contract.actionLifecycles ∧ route.actionLifecycleId = some lifecycle.id := by
  have hsome := List.find?_some (p := fun item : UsageActionLifecycle =>
    decide (some item.id = route.actionLifecycleId)) hfound
  exact ⟨List.mem_of_find?_eq_some hfound, (decide_eq_true_eq.mp hsome).symm⟩

/-- The declared bindings that the route uses are shown. -/
theorem mem_projectedBindings {bindingId : String}
    (hdeclared : bindingId ∈ contract.inputBindings.map (·.id)) (hused : bindingId ∈ route.bindingIds) :
    bindingId ∈ (projectedBindings contract route).map (·.id) := by
  obtain ⟨binding, hbinding, rfl⟩ := List.mem_map.mp hdeclared
  exact List.mem_map_of_mem (List.mem_filter.mpr ⟨hbinding, decide_eq_true hused⟩)

theorem RouteKept.declared_of_used (hkept : RouteKept contract route) {bindingId : String}
    (hused : bindingId ∈ route.bindingIds) : bindingId ∈ contract.inputBindings.map (·.id) := by
  obtain ⟨step, hstep, hmem⟩ := List.mem_flatMap.mp hused
  exact hkept.declared step hstep hmem

theorem RouteKept.projectionClosed (hkept : RouteKept contract route) :
    ProjectionClosed contract route where
  dependencies := hkept.graph
  bindings step hstep bindingId hmem :=
    mem_projectedBindings (hkept.declared step hstep hmem) (List.mem_flatMap.mpr ⟨step, hstep, hmem⟩)
  result := hkept.result
  sources binding hbinding := by
    obtain ⟨hbinding, hused⟩ := List.mem_filter.mp hbinding
    have hconsumer := (hkept.consumer binding hbinding).mp (decide_eq_true_eq.mp hused)
    exact List.cons_subset.mpr ⟨hconsumer, hkept.producer binding hbinding hconsumer⟩
  defaults default hdefault :=
    mem_stepIds_of_mem_stepPairs (decide_eq_true_eq.mp (List.mem_filter.mp hdefault).2)
  references default hdefault := by
    rw [hkept.literal default (List.mem_filter.mp hdefault).1]
    exact List.nil_subset _
  conditions condition hcondition := by
    obtain ⟨hcondition, hrouteId⟩ := List.mem_filter.mp hcondition
    exact hkept.conditions condition hcondition (decide_eq_true_eq.mp hrouteId)
  options option hoption := by
    obtain ⟨hoption, hconsumer⟩ := List.mem_filter.mp hoption
    rw [decide_eq_true_eq] at hconsumer
    exact List.cons_subset.mpr ⟨hconsumer, hkept.options option hoption hconsumer⟩
  related related hrelated := by
    have hkeptBoth := (List.mem_filter.mp hrelated).2
    rw [Bool.and_eq_true, decide_eq_true_eq, decide_eq_true_eq] at hkeptBoth
    simpa using hkeptBoth
  consumption consumption hconsumption :=
    mem_stepIds_of_mem_stepPairs (decide_eq_true_eq.mp (List.mem_filter.mp hconsumption).2)
  errors branchId hbranchId := by
    obtain ⟨branch, hbranch, rfl⟩ := List.mem_map.mp (hkept.errors hbranchId)
    exact List.mem_map_of_mem (List.mem_filter.mpr ⟨hbranch, decide_eq_true hbranchId⟩)
  branches branch hbranch := by
    obtain ⟨hbranch, hlisted⟩ := List.mem_filter.mp hbranch
    exact hkept.branches branch hbranch (decide_eq_true_eq.mp hlisted)
  lifecycle := by
    cases hid : route.actionLifecycleId with
    | none =>
      cases hfound : projectedLifecycle contract route with
      | none => rfl
      | some lifecycle =>
        have hnamed := (projectedLifecycle_eq_some hfound).2
        rw [hid] at hnamed
        cases hnamed
    | some lifecycleId =>
      obtain ⟨lifecycle, hfound, hname⟩ := exists_lifecycle hkept hid
      rw [hfound, Option.map_some, hname]
  phases lifecycle hfound := by
    obtain ⟨hlifecycle, hid⟩ := projectedLifecycle_eq_some hfound
    exact hkept.phases lifecycle hlifecycle hid
  handles lifecycle hfound bindingId hmem := by
    obtain ⟨hlifecycle, hid⟩ := projectedLifecycle_eq_some hfound
    have hused := hkept.handles lifecycle hlifecycle hid hmem
    exact mem_projectedBindings (hkept.declared_of_used hused) hused

end Closure

/-! Both views show the same objects, each in its own form. -/

/-- The objects that are shown for a route, in the form that the function gives them. -/
def viewWith (form : Json → Json) (contract : DomainUsageContract) (route : UsageToolRoute) :
    RouteView where
  steps := route.steps.map fun item => form item.model.toJson
  bindings := (projectedBindings contract route).map fun item => form item.model.toJson
  defaults := (projectedDefaults contract route).map fun item => form item.model.toJson
  conditions := (projectedConditions contract route).map fun item => form item.model.toJson
  optionSources := (projectedOptionSources contract route).map fun item => form item.model.toJson
  relatedData := (projectedRelatedData contract route).map fun item => form item.model.toJson
  resultConsumption := (projectedConsumption contract route).map fun item => form item.model.toJson
  errorHandling := (projectedBranches contract route).map fun item => form item.model.toJson
  actionLifecycle := (projectedLifecycle contract route).map fun item => form item.model.toJson

theorem view_routeProjection (contract : DomainUsageContract) (route : UsageToolRoute) :
    (routeProjection contract route).view = viewWith withoutEvidence contract route := by
  simp [RouteProjection.view, routeProjection, viewWith, modelValues, Function.comp_def]

/-- The models of the objects that are shown for a route. -/
def shownModels (contract : DomainUsageContract) (route : UsageToolRoute) : List Dump :=
  route.steps.map (·.model) ++ (projectedBindings contract route).map (·.model) ++
    (projectedDefaults contract route).map (·.model) ++
    (projectedConditions contract route).map (·.model) ++
    (projectedOptionSources contract route).map (·.model) ++
    (projectedRelatedData contract route).map (·.model) ++
    (projectedConsumption contract route).map (·.model) ++
    (projectedBranches contract route).map (·.model) ++
    (projectedLifecycle contract route).toList.map (·.model)

theorem viewWith_eq_iff {first second : Json → Json} {contract : DomainUsageContract}
    {route : UsageToolRoute} : viewWith first contract route = viewWith second contract route ↔
      ∀ model ∈ shownModels contract route, first model.toJson = second model.toJson := by
  have hlifecycle : ∀ lifecycle : Option UsageActionLifecycle,
      (lifecycle.map fun item => first item.model.toJson) =
        (lifecycle.map fun item => second item.model.toJson) ↔
        ∀ item ∈ lifecycle.toList, first item.model.toJson = second item.model.toJson := by
    intro lifecycle
    cases lifecycle <;> simp
  simp only [viewWith, RouteView.mk.injEq, List.map_inj_left, hlifecycle, shownModels,
    List.forall_mem_append, List.forall_mem_map, and_assoc]

section Payload
variable {contract : DomainUsageContract} {release : AgentUsageRelease} {route : UsageToolRoute}

theorem itemsAt_stripEvidenceBindings {collection : String} (hcollection : collection ∉ evidenceBindings)
    {dump : Dump} {items : List Dump} (h : dump.get? collection = some (.list items)) :
    itemsAt collection (stripEvidenceBindings dump.toJson) =
      items.map fun item => stripEvidenceBindings item.toJson := by
  rw [itemsAt, stripEvidenceBindings, Dump.get?_stripKeys_toJson hcollection h, Dump.toJson,
    stripKeys, stripItems_eq, Dump.itemsToJson_eq, List.map_map]
  rfl

theorem refersTo_stripEvidenceBindings {key : String} (hkey : key ∉ evidenceBindings) {dump : Dump}
    {name : String} (h : dump.get? key = some (.text name)) (identifiers : List String) :
    refersTo key identifiers (stripEvidenceBindings dump.toJson) = decide (name ∈ identifiers) := by
  rw [refersTo, stripEvidenceBindings, Dump.get?_stripKeys_toJson hkey h]
  rfl

/-- What the payload holds is the form of the objects that refer to the identifiers. -/
theorem holding_eq {α : Type} (key collection : String) (identifiers : List String)
    {payload : Dump} {objects shown : List α} {model : α → Dump} (name : α → String)
    (hkeys : key ∉ evidenceBindings ∧ collection ∉ evidenceBindings)
    (hobjects : payload.get? collection = some (.list (objects.map model)))
    (hname : ∀ object, (model object).get? key = some (.text (name object)))
    (hshown : (objects.filter fun object => decide (name object ∈ identifiers)) = shown) :
    holding key collection identifiers (stripEvidenceBindings payload.toJson) =
      shown.map fun object => stripEvidenceBindings (model object).toJson := by
  rw [holding, itemsAt_stripEvidenceBindings hkeys.2 hobjects, List.map_map, List.filter_map,
    ← hshown]
  congr 1
  refine List.filter_congr fun object _ => ?_
  exact refersTo_stripEvidenceBindings hkeys.1 (hname object) identifiers

theorem routeIds_nodup (hverified : contract.Verified) :
    (contract.toolRoutes.map (·.id)).Nodup := by
  obtain ⟨scenarioIds, claims, hvalid⟩ := hverified
  obtain ⟨-, hfields, -⟩ := Usage.DomainUsageContract.validate_iff.mp hvalid
  simp only [Usage.DomainUsageContract.validateFields, Usage.checked_bind] at hfields
  have hids := Usage.sortedUnique_nodup hfields.2.2.1
  rw [DomainUsageContract.checked, List.map_map] at hids
  exact hids

/-! The released objects that are for a released route. -/

section Released
variable (hkept : RouteKept contract route) (hsteps : route.stepIds ⊆ releasedStepIds contract release)
include hkept hsteps

theorem filter_releasedBindings : ((releasedBindings contract release).filter fun binding =>
    decide (binding.consumerStepId ∈ route.stepIds)) = projectedBindings contract route := by
  rw [releasedBindings, projectedBindings, List.filter_filter]
  refine List.filter_congr fun binding hbinding => ?_
  have hused := hkept.consumer binding hbinding
  by_cases hconsumer : binding.consumerStepId ∈ route.stepIds
  · have hsource : binding.sourceStepId.all
        (decide <| · ∈ releasedStepIds contract release) = true := by
      refine (Option.all_eq_true_iff_get _ _).mpr fun hsome => decide_eq_true (hsteps ?_)
      exact hkept.producer binding hbinding hconsumer
        (Option.mem_toList.mpr (Option.get_mem hsome))
    simp [hused, hconsumer, hsteps hconsumer, hsource]
  · simp [hused, hconsumer]

theorem filter_releasedDefaults : ((releasedDefaults contract release).filter fun default =>
    decide (default.stepId ∈ route.stepIds)) = projectedDefaults contract route := by
  rw [releasedDefaults, projectedDefaults, List.filter_filter]
  refine List.filter_congr fun default hdefault => ?_
  have hpair := hkept.defaults default hdefault
  by_cases hmem : default.stepId ∈ route.stepIds
  · simp [hpair, hmem, hsteps hmem]
  · simp [hpair, hmem]

theorem filter_releasedConsumption : ((releasedConsumption contract release).filter
    fun consumption => decide (consumption.stepId ∈ route.stepIds)) =
      projectedConsumption contract route := by
  rw [releasedConsumption, projectedConsumption, List.filter_filter]
  refine List.filter_congr fun consumption hconsumption => ?_
  have hpair := hkept.consumption consumption hconsumption
  by_cases hmem : consumption.stepId ∈ route.stepIds
  · simp [hpair, hmem, hsteps hmem]
  · simp [hpair, hmem]

theorem filter_releasedOptionSources : ((releasedOptionSources contract release).filter
    fun option => decide (option.consumerStepId ∈ route.stepIds)) =
      projectedOptionSources contract route := by
  rw [releasedOptionSources, projectedOptionSources, List.filter_filter]
  refine List.filter_congr fun option hoption => ?_
  by_cases hconsumer : option.consumerStepId ∈ route.stepIds
  · have hproducer : option.producerStepId.all
        (decide <| · ∈ releasedStepIds contract release) = true := by
      refine (Option.all_eq_true_iff_get _ _).mpr fun hsome => decide_eq_true (hsteps ?_)
      exact hkept.options option hoption hconsumer (Option.mem_toList.mpr (Option.get_mem hsome))
    simp [hconsumer, hsteps hconsumer, hproducer]
  · simp [hconsumer]

theorem filter_releasedRelatedData : ((releasedRelatedData contract release).filter
    fun related => decide (related.consumerStepId ∈ route.stepIds)) =
      projectedRelatedData contract route := by
  rw [releasedRelatedData, projectedRelatedData, List.filter_filter]
  refine List.filter_congr fun related hrelated => ?_
  by_cases hconsumer : related.consumerStepId ∈ route.stepIds
  · have hproducer := hkept.related related hrelated hconsumer
    simp [hconsumer, hproducer, hsteps hconsumer, hsteps hproducer]
  · simp [hconsumer]

theorem filter_releasedConditions (hreleased : route.id ∈ release.routeIds) :
    ((releasedConditions contract release).filter fun condition =>
      decide (condition.routeId ∈ [route.id])) = projectedConditions contract route := by
  rw [releasedConditions, projectedConditions, List.filter_filter]
  refine List.filter_congr fun condition hcondition => ?_
  by_cases hrouteId : condition.routeId = route.id
  · have hstep : condition.stepId.all (decide <| · ∈ releasedStepIds contract release) = true := by
      refine (Option.all_eq_true_iff_get _ _).mpr fun hsome => decide_eq_true (hsteps ?_)
      exact hkept.conditions condition hcondition hrouteId
        (Option.mem_toList.mpr (Option.get_mem hsome))
    simp [hrouteId, hreleased, hstep]
  · simp [hrouteId]

end Released

theorem filter_releasedBranches (hroute : route ∈ releasedRoutes contract release) :
    ((releasedBranches contract release).filter fun branch =>
      decide (branch.id ∈ route.errorBranchIds)) = projectedBranches contract route := by
  rw [releasedBranches, projectedBranches, List.filter_filter]
  refine List.filter_congr fun branch _ => ?_
  by_cases hlisted : branch.id ∈ route.errorBranchIds
  · have hreleased : branch.id ∈
        (releasedRoutes contract release).flatMap (·.errorBranchIds) :=
      List.mem_flatMap.mpr ⟨route, hroute, hlisted⟩
    simp only [hlisted, hreleased, decide_true, Bool.and_self]
  · simp [hlisted]

theorem head?_releasedLifecycles (hroute : route ∈ releasedRoutes contract release) :
    ((releasedLifecycles contract release).filter fun lifecycle =>
      decide (lifecycle.id ∈ route.actionLifecycleId.toList)).head? =
      projectedLifecycle contract route := by
  rw [releasedLifecycles, projectedLifecycle, List.filter_filter, List.head?_filter]
  congr 1
  funext lifecycle
  by_cases hnamed : some lifecycle.id = route.actionLifecycleId
  · have hlisted : lifecycle.id ∈ route.actionLifecycleId.toList := by
      rw [← hnamed]
      exact List.mem_singleton_self _
    have hreleased : lifecycle.id ∈
        (releasedRoutes contract release).flatMap (·.actionLifecycleId.toList) :=
      List.mem_flatMap.mpr ⟨route, hroute, hlisted⟩
    simp only [hlisted, hreleased, hnamed, decide_true, Bool.and_self]
  · have hnot : lifecycle.id ∉ route.actionLifecycleId.toList := fun hmem =>
      hnamed (Option.mem_toList.mp hmem).symm
    simp only [hnot, hnamed, decide_false, Bool.false_and]

theorem filter_releasedRoutes (hids : (contract.toolRoutes.map (·.id)).Nodup)
    (hroute : route ∈ releasedRoutes contract release) :
    ((releasedRoutes contract release).filter fun other => decide (other.id ∈ [route.id])) =
      [route] := by
  have hdeclared := List.mem_of_mem_filter hroute
  have hnodup : ((releasedRoutes contract release).filter fun other =>
      decide (other.id ∈ [route.id])).Nodup :=
    ((List.Nodup.of_map _ hids).filter _).filter _
  refine List.perm_singleton.mp
    ((List.perm_ext_iff_of_nodup hnodup (List.nodup_singleton _)).mpr fun other => ?_)
  simp only [List.mem_filter, List.mem_singleton, decide_eq_true_eq]
  constructor
  · rintro ⟨hother, hid⟩
    exact List.inj_on_of_nodup_map hids (List.mem_of_mem_filter hother) hdeclared hid
  · rintro rfl
    exact ⟨hroute, rfl⟩

/-- The released objects that are for a released route are those that its projection shows. -/
theorem payloadView_eq (hverified : contract.Verified)
    (hroute : route ∈ releasedRoutes contract release) (sha256 domainId : String) :
    payloadView (stripEvidenceBindings (payloadModel contract release sha256 domainId).toJson) route =
      viewWith stripEvidenceBindings contract route := by
  obtain ⟨hdeclared, hreleased⟩ := List.mem_filter.mp hroute
  rw [decide_eq_true_eq] at hreleased
  have hkept := routeKept_of_verified hverified hdeclared
  have hsteps : route.stepIds ⊆ releasedStepIds contract release :=
    fun stepId hstepId => List.mem_flatMap.mpr ⟨route, hroute, hstepId⟩
  have hroutes := holding_eq "id" "tool_routes" [route.id] UsageToolRoute.id (by decide)
    (show (payloadModel contract release sha256 domainId).get? "tool_routes" = _ from rfl)
    (fun _ => rfl) (filter_releasedRoutes (routeIds_nodup hverified) hroute)
  have hbindings := holding_eq "consumer_step_id" "input_bindings" route.stepIds
    UsageStepBinding.consumerStepId (by decide)
    (show (payloadModel contract release sha256 domainId).get? "input_bindings" = _ from rfl)
    (fun _ => rfl) (filter_releasedBindings hkept hsteps)
  have hdefaults := holding_eq "step_id" "defaults" route.stepIds
    UsageDefaultRef.stepId (by decide)
    (show (payloadModel contract release sha256 domainId).get? "defaults" = _ from rfl)
    (fun _ => rfl) (filter_releasedDefaults hkept hsteps)
  have hconditions := holding_eq "route_id" "conditions" [route.id]
    UsageConditionRef.routeId (by decide)
    (show (payloadModel contract release sha256 domainId).get? "conditions" = _ from rfl)
    (fun _ => rfl) (filter_releasedConditions hkept hsteps hreleased)
  have hoptions := holding_eq "consumer_step_id" "option_sources" route.stepIds
    UsageOptionSourceRef.consumerStepId (by decide)
    (show (payloadModel contract release sha256 domainId).get? "option_sources" = _ from rfl)
    (fun _ => rfl) (filter_releasedOptionSources hkept hsteps)
  have hrelated := holding_eq "consumer_step_id" "related_data" route.stepIds
    UsageRelatedDataRef.consumerStepId (by decide)
    (show (payloadModel contract release sha256 domainId).get? "related_data" = _ from rfl)
    (fun _ => rfl) (filter_releasedRelatedData hkept hsteps)
  have hconsumption := holding_eq "step_id" "result_consumption" route.stepIds
    UsageResultConsumption.stepId (by decide)
    (show (payloadModel contract release sha256 domainId).get? "result_consumption" = _ from rfl)
    (fun _ => rfl) (filter_releasedConsumption hkept hsteps)
  have hbranches := holding_eq "id" "error_handling" route.errorBranchIds
    UsageErrorBranch.id (by decide)
    (show (payloadModel contract release sha256 domainId).get? "error_handling" = _ from rfl)
    (fun _ => rfl) (filter_releasedBranches hroute)
  have hlifecycles := holding_eq "id" "action_lifecycles" route.actionLifecycleId.toList
    UsageActionLifecycle.id (by decide)
    (show (payloadModel contract release sha256 domainId).get? "action_lifecycles" = _ from rfl)
    (fun _ => rfl) rfl
  have hdumps : itemsAt "steps" (stripEvidenceBindings route.model.toJson) =
      (route.steps.map (·.model)).map fun item => stripEvidenceBindings item.toJson :=
    itemsAt_stripEvidenceBindings (by decide) rfl
  rw [payloadView, viewWith, hroutes, hbindings, hdefaults, hconditions, hoptions, hrelated,
    hconsumption, hbranches, hlifecycles, List.head?_map, head?_releasedLifecycles hroute]
  simp [hdumps, Function.comp_def]

/-- The two forms of a document differ in the fields named `evidence_claims` that the adapters see. -/
theorem stripEvidenceBindings_eq_iff {value : Json} :
    stripEvidenceBindings value = withoutEvidence value ↔
      lacksKeys ["evidence_claims"] (withoutEvidence value) = true := by
  have hturns : stripEvidenceBindings value =
      stripKeys ["evidence_claims"] (withoutEvidence value) := by
    refine (stripKeys_stripKeys (fun key => ?_) value).symm
    simp [evidenceBindings, proofLinkage]
    tauto
  rw [hturns, stripKeys_eq_self_iff]

section Views
variable {package : VerifiedUsagePackage} {domainId : String}
  (hcontract : package.contracts.get? domainId = some contract)
  (hrelease : package.releases.get? domainId = some release) (hverified : contract.Verified)
  (hroute : route ∈ releasedRoutes contract release)
include hcontract hrelease hverified hroute

theorem viewsAgree_iff : ViewsAgree package domainId contract route ↔
    ∀ model ∈ shownModels contract route,
      lacksKeys ["evidence_claims"] (withoutEvidence model.toJson) = true := by
  have hpayload : releasedContractPayload package domainId = some (stripEvidenceBindings
      (payloadModel contract release package.sha256 domainId).toJson) := by
    rw [releasedContractPayload, hcontract, hrelease]
  have hforms : ViewsAgree package domainId contract route ↔
      viewWith stripEvidenceBindings contract route = viewWith withoutEvidence contract route := by
    rw [ViewsAgree, ← payloadView_eq hverified hroute package.sha256 domainId,
      view_routeProjection, hpayload]
    simp
  rw [hforms, viewWith_eq_iff]
  exact forall₂_congr fun model _ => stripEvidenceBindings_eq_iff

/-- Both views of a released route agree, and they are closed, just when no object shown for it has a
field named `evidence_claims`. -/
theorem route_views_agree_iff :
    ViewsAgree package domainId contract route ∧ ProjectionClosed contract route ↔
      ∀ model ∈ shownModels contract route,
        lacksKeys ["evidence_claims"] (withoutEvidence model.toJson) = true := by
  have hkept := routeKept_of_verified hverified (List.mem_of_mem_filter hroute)
  rw [and_iff_left hkept.projectionClosed]
  exact viewsAgree_iff hcontract hrelease hverified hroute

end Views
end Payload

/-! A default with references to evidence, which both views remove, and one with claims, which only the
payload does. -/

def claimedDefault : UsageDefaultRef :=
  { recordDefault with value := .obj [("evidence_claims", .arr [.str "photo"])] }

def claimedUsage : DomainUsageContract := { recordUsage with defaults := [claimedDefault] }

def claimedPackage : VerifiedUsagePackage :=
  { recordPackage with contracts := [("records", claimedUsage)] }

private def seenClaim : Usage.UsageEvidenceClaim where
  id := "seen"
  target := ⟨.businessGoal, "file", ""⟩
  sourceIds := ["form"]

private theorem recordUsage_verified : recordUsage.Verified := ⟨["filed"], [seenClaim], rfl⟩

private theorem claimedUsage_verified : claimedUsage.Verified := ⟨["filed"], [seenClaim], rfl⟩

theorem route_views_agree_record :
    ViewsAgree recordPackage "records" recordUsage recordRoute ∧
      ProjectionClosed recordUsage recordRoute := by
  have hroute : recordRoute ∈ releasedRoutes recordUsage recordRelease := List.mem_cons_self
  refine (route_views_agree_iff rfl rfl recordUsage_verified hroute).mpr ?_
  have hlacks : (shownModels recordUsage recordRoute).all (fun model =>
      lacksKeys ["evidence_claims"] (withoutEvidence model.toJson)) = true := by decide +kernel
  exact List.all_eq_true.mp hlacks

/-- The payload does not hold the value of the default that the projection shows. -/
theorem declared_claims_removed :
    claimedUsage.Verified ∧ recordRoute ∈ releasedRoutes claimedUsage recordRelease ∧
      claimedPackage.contracts.get? "records" = some claimedUsage ∧
      claimedPackage.releases.get? "records" = some recordRelease ∧
      ¬ (ViewsAgree claimedPackage "records" claimedUsage recordRoute ∧
        ProjectionClosed claimedUsage recordRoute) := by
  refine ⟨claimedUsage_verified, List.mem_cons_self, rfl, rfl, fun ⟨hagree, _⟩ => ?_⟩
  have hroute : recordRoute ∈ releasedRoutes claimedUsage recordRelease := List.mem_cons_self
  have hlacks := (viewsAgree_iff rfl rfl claimedUsage_verified hroute).mp hagree
    claimedDefault.model (List.mem_cons_of_mem _ List.mem_cons_self)
  exact absurd hlacks (by decide)

end CapabilityCompiler.Overlay
