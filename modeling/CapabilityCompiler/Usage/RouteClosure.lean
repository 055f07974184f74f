import CapabilityCompiler.Usage.SelectedRoutes

/-! What a valid contract refers to around one of its routes stays with that route. -/
namespace CapabilityCompiler.Usage
open Foundation

/-- The bindings that a lifecycle names for handles. -/
def UsageActionLifecycle.handleBindingIds (lifecycle : UsageActionLifecycle) : List String :=
  [lifecycle.commitActionHandleBindingId, lifecycle.statusActionHandleBindingId] ++
    lifecycle.approveActionHandleBindingId.toList ++ lifecycle.approvalHandleBindingId.toList

namespace DomainUsageContract

/-- The step of the route has the capability. -/
def HasStep (route : UsageToolRoute) (stepId capabilityId : String) : Prop :=
  ∃ step ∈ route.steps, step.id = stepId ∧ step.capabilityId = capabilityId

/-- The objects that serve the route name its steps, and all that the route names is declared. -/
structure RouteClosed (contract : DomainUsageContract) (route : UsageToolRoute) : Prop where
  dependencies : ∀ step ∈ route.steps, ∀ stepId ∈ step.dependsOnStepIds, stepId ∈ route.stepIds
  result : route.resultStepId ∈ route.stepIds
  bindings : ∀ step ∈ route.steps, ∀ bindingId ∈ step.bindingIds,
    bindingId ∈ contract.inputBindings.map (·.id)
  consumer : ∀ binding ∈ contract.inputBindings,
    binding.id ∈ route.steps.flatMap (·.bindingIds) ↔ binding.consumerStepId ∈ route.stepIds
  producer : ∀ binding ∈ contract.inputBindings, binding.consumerStepId ∈ route.stepIds →
    ∀ stepId, binding.sourceStepId = some stepId → stepId ∈ route.stepIds
  defaults : ∀ default ∈ contract.defaults, default.stepId ∈ route.stepIds →
    HasStep route default.stepId default.capabilityId
  conditions : ∀ condition ∈ contract.conditions, condition.routeId = route.id →
    ∀ stepId, condition.stepId = some stepId → stepId ∈ route.stepIds
  options : ∀ option ∈ contract.optionSources, option.consumerStepId ∈ route.stepIds →
    ∀ stepId, option.producerStepId = some stepId → stepId ∈ route.stepIds
  related : ∀ related ∈ contract.relatedData, related.consumerStepId ∈ route.stepIds →
    related.producerStepId ∈ route.stepIds
  consumption : ∀ consumption ∈ contract.resultConsumption, consumption.stepId ∈ route.stepIds →
    HasStep route consumption.stepId consumption.capabilityId
  errors : ∀ branchId ∈ route.errorBranchIds, branchId ∈ contract.errorHandling.map (·.id)
  branches : ∀ branch ∈ contract.errorHandling, branch.id ∈ route.errorBranchIds →
    ∀ stepId ∈ branch.stepIds, stepId ∈ route.stepIds
  lifecycle : ∀ lifecycleId, route.actionLifecycleId = some lifecycleId →
    lifecycleId ∈ contract.actionLifecycles.map (·.id)
  phases : ∀ lifecycle ∈ contract.actionLifecycles, route.actionLifecycleId = some lifecycle.id →
    ∀ stepId ∈ lifecycle.phaseSteps, stepId ∈ route.stepIds
  handles : ∀ lifecycle ∈ contract.actionLifecycles, route.actionLifecycleId = some lifecycle.id →
    ∀ bindingId ∈ lifecycle.handleBindingIds, bindingId ∈ route.steps.flatMap (·.bindingIds)

section Closure
variable {contract : DomainUsageContract} {route : UsageToolRoute}

/-- Producers of what a step of the route consumes are steps of the route. -/
theorem mem_route_of_isAncestor (hnodup : (contract.steps.map (·.id)).Nodup)
    (hids : (contract.toolRoutes.map (·.id)).Nodup) (hroute : route ∈ contract.toolRoutes)
    {producerStepId consumerStepId : String} (hconsumer : consumerStepId ∈ route.stepIds)
    (h : contract.isAncestor producerStepId consumerStepId = true) :
    producerStepId ∈ route.stepIds := by
  unfold isAncestor at h
  rw [routeOf?_of_mem hnodup hroute hconsumer] at h
  cases hproducer : contract.routeOf? producerStepId with
  | none => simp [hproducer] at h
  | some owner =>
    simp only [hproducer, Bool.and_eq_true, decide_eq_true_eq] at h
    have howner : owner = route :=
      List.inj_on_of_nodup_map hids (List.mem_of_find?_eq_some hproducer) hroute h.1
    have hcontains : owner.stepIds.contains producerStepId = true :=
      List.find?_some (p := fun route : UsageToolRoute => route.stepIds.contains producerStepId)
        hproducer
    exact howner ▸ List.contains_iff_mem.mp hcontains

/-- A step with the capability is the one of the route, wherever it is looked for. -/
theorem hasStep_of_hasCapability (hnodup : (contract.steps.map (·.id)).Nodup)
    (hroute : route ∈ contract.toolRoutes) {stepId capabilityId : String}
    (hmem : stepId ∈ route.stepIds) (h : contract.hasCapability stepId capabilityId = true) :
    HasStep route stepId capabilityId := by
  obtain ⟨step, hstep, rfl⟩ := List.mem_map.mp hmem
  rw [hasCapability, step?_of_mem hnodup hroute hstep] at h
  exact ⟨step, hstep, rfl, by simpa using h⟩

/-- Every handle but that of the approval is required of a step. -/
theorem exists_requirement {lifecycle : UsageActionLifecycle}
    (happroval : lifecycle.validateApproval = .ok ()) {bindingId : String}
    (hmem : bindingId = lifecycle.commitActionHandleBindingId ∨
      bindingId = lifecycle.statusActionHandleBindingId ∨
      lifecycle.approveActionHandleBindingId = some bindingId) :
    ∃ stepId, (bindingId, stepId) ∈ actionHandleRequirements lifecycle := by
  suffices hsome : ((actionHandleRequirements lifecycle).get? bindingId).isSome = true by
    obtain ⟨stepId, hstepId⟩ := Option.isSome_iff_exists.mp hsome
    exact ⟨stepId, Table.mem_of_get? hstepId⟩
  have hsteps : lifecycle.approveActionHandleBindingId.isSome = true →
      lifecycle.approveStepId.isSome = true := by
    intro hsome
    by_cases hnever : lifecycle.approval = .never
    · simp only [UsageActionLifecycle.validateApproval, hnever, checked_bind, ensure_ok,
        Bool.and_eq_true, Option.isNone_iff_eq_none] at happroval
      simp [happroval.1.1.1.2] at hsome
    · exact approveStepId_of_validateApproval happroval hnever
  unfold actionHandleRequirements
  dsimp only
  split
  next approveId stepId happrove _ =>
    rw [Table.get?_put, Table.get?_put]
    split_ifs with hfirst hsecond
    · rfl
    · rfl
    rcases hmem with rfl | rfl | hmem
    · simp
    · exact absurd rfl hsecond
    · exact absurd (Option.some.inj (hmem.symm.trans happrove)) hfirst
  next hnot =>
    rw [Table.get?_put]
    split_ifs with hfirst
    · rfl
    rcases hmem with rfl | rfl | hmem
    · simp
    · exact absurd rfl hfirst
    · obtain ⟨stepId, hstepId⟩ := Option.isSome_iff_exists.mp (hsteps (by rw [hmem]; rfl))
      exact absurd hstepId (hnot bindingId stepId hmem)

/-- What a lifecycle of the route names is in the route. -/
theorem lifecycle_in_route (h : contract.validate = .ok ()) (hroute : route ∈ contract.toolRoutes)
    {lifecycle : UsageActionLifecycle} (hlifecycle : lifecycle ∈ contract.actionLifecycles)
    (hid : route.actionLifecycleId = some lifecycle.id) :
    (∀ stepId ∈ lifecycle.phaseSteps, stepId ∈ route.stepIds) ∧
      ∀ bindingId ∈ lifecycle.handleBindingIds, ∃ binding ∈ contract.inputBindings,
        binding.id = bindingId ∧ binding.consumerStepId ∈ route.stepIds := by
  obtain ⟨hparts, hfields, -, -, hroutes, -⟩ := validate_iff.mp h
  simp only [DomainUsageContract.validateParts, checked_bind, checkAll_ok] at hparts
  simp only [DomainUsageContract.validateFields, checked_bind] at hfields
  have happrovals := hparts.2.2.2.2.2.2.2.2.2.1 lifecycle hlifecycle
  have hids := sortedUnique_nodup hfields.2.2.2.2.2.2.2.2.2.2.2.1
  have hfound : contract.lifecycle? lifecycle.id = some lifecycle := find?_of_nodup hids hlifecycle
  have hchecked := hroutes route hroute
  simp only [DomainUsageContract.validateRoute, validateActions, hid, hfound,
    DomainUsageContract.validateLifecycle, checked_bind, ensure_ok, checkAll_ok,
    List.all_eq_true, List.contains_iff_mem] at hchecked
  obtain ⟨-, -, -, -, -, hsteps, -, -, -, -, hhandles, happroval⟩ := hchecked
  have hphases : (expectedPhases lifecycle).map Prod.fst = lifecycle.phaseSteps := by
    cases happrove : lifecycle.approveStepId <;>
      simp [expectedPhases, UsageActionLifecycle.phaseSteps, happrove]
  have hmember : ∀ stepId ∈ lifecycle.phaseSteps, stepId ∈ route.stepIds := by
    intro stepId hstepId
    rw [← hphases] at hstepId
    obtain ⟨entry, hentry, rfl⟩ := List.mem_map.mp hstepId
    exact hsteps entry hentry
  refine ⟨hmember, fun bindingId hmem => ?_⟩
  have hdeclared : ∀ {accepts : UsageStepBinding → Bool},
      (contract.binding? bindingId).any accepts = true →
      (∀ binding, accepts binding = true → binding.consumerStepId ∈ lifecycle.phaseSteps) →
      ∃ binding ∈ contract.inputBindings,
        binding.id = bindingId ∧ binding.consumerStepId ∈ route.stepIds := by
    intro accepts hany haccepts
    obtain ⟨binding, hbinding, haccepted⟩ := (Option.any_eq_true ..).mp hany
    have hname : binding.id = bindingId := by
      simpa using List.find?_some (p := fun b : UsageStepBinding => b.id = bindingId) hbinding
    exact ⟨binding, List.mem_of_find?_eq_some hbinding, hname,
      hmember _ (haccepts binding haccepted)⟩
  simp only [UsageActionLifecycle.handleBindingIds, List.mem_append, List.mem_cons,
    List.not_mem_nil, or_false, Option.mem_toList, or_assoc] at hmem
  by_cases happrovalHandle : lifecycle.approvalHandleBindingId = some bindingId
  · simp only [validateApprovalHandle, happrovalHandle, ensure_ok] at happroval
    refine hdeclared happroval fun binding haccepts => ?_
    simp only [Bool.and_eq_true, decide_eq_true_eq] at haccepts
    simp [UsageActionLifecycle.phaseSteps, ← haccepts.1.2]
  · have hrequired : ∃ stepId, (bindingId, stepId) ∈ actionHandleRequirements lifecycle :=
      exists_requirement happrovals (by tauto)
    obtain ⟨stepId, hentry⟩ := hrequired
    have hhandle := hhandles _ hentry
    rw [validateActionHandle, ensure_ok] at hhandle
    refine hdeclared hhandle fun binding haccepts => ?_
    simp only [Bool.and_eq_true, decide_eq_true_eq] at haccepts
    rw [haccepts.1.2, ← hphases]
    exact mem_actionHandleRequirements hentry

theorem routeClosed_of_validate (h : contract.validate = .ok ())
    (hroute : route ∈ contract.toolRoutes) : RouteClosed contract route := by
  obtain ⟨hparts, hfields, -, hnodup, hroutes, hreferences⟩ := validate_iff.mp h
  have hchecked := hroutes route hroute
  simp only [DomainUsageContract.validateParts, UsageToolRoute.validate,
    UsageToolRoute.validateRouteGraph, checked_bind, checkAll_ok, ensure_ok,
    List.all_eq_true, List.contains_iff_mem] at hparts
  simp only [DomainUsageContract.validateFields, checked_bind] at hfields
  simp only [DomainUsageContract.validateReferences, validateDefault, validateOption,
    validateConditionScope, checked_bind, checkAll_ok, ensure_ok] at hreferences
  simp only [DomainUsageContract.validateRoute, validateStepBinding, validateBranch, checked_bind,
    checkAll_ok, ensure_ok, List.all_eq_true, List.contains_iff_mem] at hchecked
  obtain ⟨-, hdefaults, hoptions, hrelated, hconsumption, hconditions, -⟩ := hreferences
  obtain ⟨-, hbindings, herrors, hattached, hbranches, hactions⟩ := hchecked
  have hids := sortedUnique_nodup hfields.2.2.1
  have hbindingIds := sortedUnique_nodup hfields.2.2.2.2.1
  have hbranchIds := sortedUnique_nodup hfields.2.2.2.2.2.2.2.2.2.2.1
  have hgraph := (hparts.2.1 route hroute).2.2.2.2
  have hancestor : ∀ {producerStepId consumerStepId : String}, consumerStepId ∈ route.stepIds →
      contract.isAncestor producerStepId consumerStepId = true → producerStepId ∈ route.stepIds :=
    fun hconsumer => mem_route_of_isAncestor hnodup hids hroute hconsumer
  have hattachedTo : ∀ binding ∈ contract.inputBindings,
      binding.id ∈ route.steps.flatMap (·.bindingIds) → binding.consumerStepId ∈ route.stepIds ∧
        binding.sourceStepId.all (contract.isAncestor · binding.consumerStepId) = true := by
    intro binding hbinding hmem
    obtain ⟨step, hstep, hmem⟩ := List.mem_flatMap.mp hmem
    have hchecked := hattached step hstep binding.id hmem
    have hfound : contract.binding? binding.id = some binding := find?_of_nodup hbindingIds hbinding
    simp only [hfound, checked_bind, ensure_ok, decide_eq_true_eq] at hchecked
    exact ⟨hchecked.1 ▸ List.mem_map_of_mem hstep, hchecked.2⟩
  have hused : ∀ binding ∈ contract.inputBindings, binding.consumerStepId ∈ route.stepIds →
      binding.id ∈ route.steps.flatMap (·.bindingIds) := fun binding hbinding hconsumer =>
    List.mem_flatMap.mpr (exists_step_of_consumer h hbinding hroute hconsumer)
  refine
    { dependencies := hgraph.2.1
      result := hgraph.1
      bindings := ?_
      consumer := fun binding hbinding =>
        ⟨fun hmem => (hattachedTo binding hbinding hmem).1, hused binding hbinding⟩
      producer := ?_
      defaults := fun default hdefault hmem =>
        hasStep_of_hasCapability hnodup hroute hmem (hdefaults default hdefault).1
      conditions := ?_
      options := ?_
      related := fun related hmem hconsumer => hancestor hconsumer (hrelated related hmem)
      consumption := fun consumption hmem hstep =>
        hasStep_of_hasCapability hnodup hroute hstep (hconsumption consumption hmem)
      errors := herrors
      branches := ?_
      lifecycle := ?_
      phases := fun lifecycle hlifecycle hid => (lifecycle_in_route h hroute hlifecycle hid).1
      handles := ?_ }
  · intro step hstep bindingId hmem
    exact hbindings bindingId (List.mem_flatMap.mpr ⟨step, hstep, hmem⟩)
  · intro binding hbinding hconsumer stepId hsource
    have hall := (hattachedTo binding hbinding (hused binding hbinding hconsumer)).2
    rw [hsource, Option.all_some] at hall
    exact hancestor hconsumer hall
  · intro condition hcondition hrouteId stepId hstepId
    have hscope := hconditions condition hcondition
    have hfound : contract.toolRoutes.find? (·.id = route.id) = some route :=
      find?_of_nodup hids hroute
    rw [hrouteId, hfound, Option.any_some, hstepId, Option.all_some] at hscope
    exact List.contains_iff_mem.mp hscope
  · intro option hoption hconsumer stepId hproducer
    have hall := (hoptions option hoption).2
    rw [hproducer, Option.all_some] at hall
    exact hancestor hconsumer hall
  · intro branch hbranch hmem
    have hchecked := hbranches branch.id hmem
    have hfound : contract.branch? branch.id = some branch := find?_of_nodup hbranchIds hbranch
    simp only [hfound, checked_bind, ensure_ok, List.all_eq_true, List.contains_iff_mem] at hchecked
    exact hchecked.1
  · intro lifecycleId hid
    simp only [validateActions, hid] at hactions
    cases hfound : contract.lifecycle? lifecycleId with
    | none => simp [hfound] at hactions
    | some lifecycle =>
      have hname : lifecycle.id = lifecycleId := by
        simpa using
          List.find?_some (p := fun l : UsageActionLifecycle => l.id = lifecycleId) hfound
      exact List.mem_map.mpr ⟨lifecycle, mem_of_find?_id hfound, hname⟩
  · intro lifecycle hlifecycle hid bindingId hmem
    obtain ⟨binding, hbinding, rfl, hconsumer⟩ :=
      (lifecycle_in_route h hroute hlifecycle hid).2 bindingId hmem
    exact hused binding hbinding hconsumer

end Closure
end DomainUsageContract
end CapabilityCompiler.Usage
