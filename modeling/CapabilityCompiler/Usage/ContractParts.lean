import CapabilityCompiler.Usage.Projection

/-! A part of a valid contract is valid if it has what it refers to. -/
namespace CapabilityCompiler.Usage.DomainUsageContract
open Foundation

/-- Every list of the part is taken from the contract. -/
structure PartOf (part contract : DomainUsageContract) : Prop where
  businessGoals : part.businessGoals.Sublist contract.businessGoals
  toolRoutes : part.toolRoutes.Sublist contract.toolRoutes
  inputBindings : part.inputBindings.Sublist contract.inputBindings
  defaults : part.defaults.Sublist contract.defaults
  conditions : part.conditions.Sublist contract.conditions
  optionSources : part.optionSources.Sublist contract.optionSources
  relatedData : part.relatedData.Sublist contract.relatedData
  resultConsumption : part.resultConsumption.Sublist contract.resultConsumption
  errorHandling : part.errorHandling.Sublist contract.errorHandling
  actionLifecycles : part.actionLifecycles.Sublist contract.actionLifecycles
  requiredScenarioIds : part.requiredScenarioIds.Sublist contract.requiredScenarioIds
  evidenceClaims : part.evidenceClaims.Sublist contract.evidenceClaims

/-- The lists that must have members have some. -/
structure Populated (part : DomainUsageContract) : Prop where
  businessGoals : part.businessGoals ≠ []
  toolRoutes : part.toolRoutes ≠ []
  resultConsumption : part.resultConsumption ≠ []
  evidenceClaims : part.evidenceClaims ≠ []
  requiredScenarioIds : part.requiredScenarioIds ≠ []

def stepIds (contract : DomainUsageContract) : List String := contract.steps.map (·.id)

/-- What the objects of the contract refer to is in it, and what serves routes is used by some. -/
structure Closed (part : DomainUsageContract) : Prop where
  goals : ∀ route ∈ part.toolRoutes, route.businessGoalId ∈ part.businessGoals.map (·.id)
  bindings : ∀ route ∈ part.toolRoutes, ∀ step ∈ route.steps, ∀ bindingId ∈ step.bindingIds,
    bindingId ∈ part.inputBindings.map (·.id)
  errors : ∀ route ∈ part.toolRoutes, ∀ branchId ∈ route.errorBranchIds,
    branchId ∈ part.errorHandling.map (·.id)
  lifecycles : ∀ route ∈ part.toolRoutes, ∀ lifecycleId, route.actionLifecycleId = some lifecycleId →
    lifecycleId ∈ part.actionLifecycles.map (·.id)
  used : ∀ binding ∈ part.inputBindings, ∃ route ∈ part.toolRoutes, ∃ step ∈ route.steps,
    binding.id ∈ step.bindingIds
  named : ∀ lifecycle ∈ part.actionLifecycles, ∃ route ∈ part.toolRoutes,
    route.actionLifecycleId = some lifecycle.id
  defaults : ∀ default ∈ part.defaults, default.stepId ∈ part.stepIds
  references : ∀ default ∈ part.defaults, ∀ bindingId, default.referenceBindingId = some bindingId →
    bindingId ∈ part.inputBindings.map (·.id)
  conditions : ∀ condition ∈ part.conditions, condition.routeId ∈ part.toolRoutes.map (·.id)
  options : ∀ option ∈ part.optionSources, option.consumerStepId ∈ part.stepIds
  related : ∀ related ∈ part.relatedData, related.consumerStepId ∈ part.stepIds
  consumption : ∀ consumption ∈ part.resultConsumption, consumption.stepId ∈ part.stepIds
  claims : ∀ claimIds ∈ part.semanticClaimIds, ∀ claimId ∈ claimIds,
    claimId ∈ part.evidenceClaims.map (·.id)
  targets : ∀ claim ∈ part.evidenceClaims,
    claim.target.targetId ∈ part.targetIds claim.target.targetKind

theorem validate_iff {contract : DomainUsageContract} :
    contract.validate = .ok () ↔ contract.validateParts = .ok () ∧ contract.validateFields = .ok () ∧
      contract.validateEvidence = .ok () ∧ (contract.steps.map (·.id)).Nodup ∧
      (∀ route ∈ contract.toolRoutes, contract.validateRoute route = .ok ()) ∧
      contract.validateReferences = .ok () := by
  simp only [validate, validateContractClosure, checked_bind, ensure_ok, decide_eq_true_eq,
    checkAll_ok]

section Parts
variable {part contract : DomainUsageContract}

/-- The objects of a part pass their own checks. -/
theorem PartOf.validateParts (hpart : PartOf part contract)
    (h : contract.validateParts = .ok ()) : part.validateParts = .ok () := by
  simp only [DomainUsageContract.validateParts, checked_bind, checkAll_ok] at h ⊢
  obtain ⟨hgoals, hroutes, hbindings, hdefaults, hconditions, hoptions, hrelated, hconsumption,
    herrors, hlifecycles, hclaims⟩ := h
  exact ⟨fun x hx => hgoals x (hpart.businessGoals.subset hx),
    fun x hx => hroutes x (hpart.toolRoutes.subset hx),
    fun x hx => hbindings x (hpart.inputBindings.subset hx),
    fun x hx => hdefaults x (hpart.defaults.subset hx),
    fun x hx => hconditions x (hpart.conditions.subset hx),
    fun x hx => hoptions x (hpart.optionSources.subset hx),
    fun x hx => hrelated x (hpart.relatedData.subset hx),
    fun x hx => hconsumption x (hpart.resultConsumption.subset hx),
    fun x hx => herrors x (hpart.errorHandling.subset hx),
    fun x hx => hlifecycles x (hpart.actionLifecycles.subset hx),
    fun x hx => hclaims x (hpart.evidenceClaims.subset hx)⟩

/-- Its lists are sorted as those of the contract. -/
theorem PartOf.validateFields (hpart : PartOf part contract) (hpopulated : Populated part)
    (h : contract.validateFields = .ok ()) : part.validateFields = .ok () := by
  simp only [DomainUsageContract.validateFields, validateListed, checked_bind, ensure_ok] at h ⊢
  obtain ⟨-, ⟨-, hscenarios⟩, hroutes, hgoals, hbindings, hdefaults, hconditions, hoptions, hrelated,
    hconsumption, herrors, hlifecycles, hclaims⟩ := h
  refine ⟨by simp [hpopulated.businessGoals, hpopulated.toolRoutes, hpopulated.resultConsumption,
      hpopulated.evidenceClaims],
    ⟨by simp [hpopulated.requiredScenarioIds],
      sortedUnique_of_sublist hpart.requiredScenarioIds hscenarios⟩,
    sortedUnique_of_sublist (hpart.toolRoutes.map _) hroutes,
    sortedUnique_of_sublist (hpart.businessGoals.map _) hgoals,
    sortedUnique_of_sublist (hpart.inputBindings.map _) hbindings,
    sortedUnique_of_sublist (hpart.defaults.map _) hdefaults,
    sortedUnique_of_sublist (hpart.conditions.map _) hconditions,
    sortedUnique_of_sublist (hpart.optionSources.map _) hoptions,
    sortedUnique_of_sublist (hpart.relatedData.map _) hrelated,
    sortedUnique_of_sublist (hpart.resultConsumption.map _) hconsumption,
    sortedUnique_of_sublist (hpart.errorHandling.map _) herrors,
    sortedUnique_of_sublist (hpart.actionLifecycles.map _) hlifecycles,
    sortedUnique_of_sublist (hpart.evidenceClaims.map _) hclaims⟩

theorem PartOf.steps (hpart : PartOf part contract) : part.steps.Sublist contract.steps :=
  hpart.toolRoutes.flatMap _

theorem PartOf.steps_nodup (hpart : PartOf part contract)
    (hnodup : (contract.steps.map (·.id)).Nodup) : (part.steps.map (·.id)).Nodup :=
  (hpart.steps.map _).nodup hnodup

theorem mem_stepIds {stepId : String} :
    stepId ∈ contract.stepIds ↔ ∃ route ∈ contract.toolRoutes, stepId ∈ route.stepIds := by
  simp only [stepIds, DomainUsageContract.steps, List.map_flatMap, List.mem_flatMap,
    UsageToolRoute.stepIds]

/-! Objects are found in a part as in the contract. -/

section Lookups
variable (hpart : PartOf part contract) (hfields : contract.validateFields = .ok ())
include hpart hfields

theorem PartOf.binding?_eq {bindingId : String} (hmem : bindingId ∈ part.inputBindings.map (·.id)) :
    part.binding? bindingId = contract.binding? bindingId := by
  obtain ⟨binding, hbinding, rfl⟩ := List.mem_map.mp hmem
  refine find?_of_sublist hpart.inputBindings ?_ hbinding
  simp only [DomainUsageContract.validateFields, checked_bind] at hfields
  exact sortedUnique_nodup hfields.2.2.2.2.1

theorem PartOf.branch?_eq {branchId : String} (hmem : branchId ∈ part.errorHandling.map (·.id)) :
    part.branch? branchId = contract.branch? branchId := by
  obtain ⟨branch, hbranch, rfl⟩ := List.mem_map.mp hmem
  refine find?_of_sublist hpart.errorHandling ?_ hbranch
  simp only [DomainUsageContract.validateFields, checked_bind] at hfields
  exact sortedUnique_nodup hfields.2.2.2.2.2.2.2.2.2.2.1

theorem PartOf.lifecycle?_eq {lifecycleId : String}
    (hmem : lifecycleId ∈ part.actionLifecycles.map (·.id)) :
    part.lifecycle? lifecycleId = contract.lifecycle? lifecycleId := by
  obtain ⟨lifecycle, hlifecycle, rfl⟩ := List.mem_map.mp hmem
  refine find?_of_sublist hpart.actionLifecycles ?_ hlifecycle
  simp only [DomainUsageContract.validateFields, checked_bind] at hfields
  exact sortedUnique_nodup hfields.2.2.2.2.2.2.2.2.2.2.2.1

theorem PartOf.route?_eq {routeId : String} (hmem : routeId ∈ part.toolRoutes.map (·.id)) :
    part.toolRoutes.find? (·.id = routeId) = contract.toolRoutes.find? (·.id = routeId) := by
  obtain ⟨route, hroute, rfl⟩ := List.mem_map.mp hmem
  refine find?_of_sublist hpart.toolRoutes ?_ hroute
  simp only [DomainUsageContract.validateFields, checked_bind] at hfields
  exact sortedUnique_nodup hfields.2.2.1

end Lookups

theorem PartOf.targets_sublist (hpart : PartOf part contract) (kind : TargetKind) :
    (part.targets kind).Sublist (contract.targets kind) := by
  cases kind with
  | businessGoal => exact hpart.businessGoals.map _
  | toolRoute => exact hpart.toolRoutes.map _
  | inputBinding => exact hpart.inputBindings.map _
  | default => exact hpart.defaults.map _
  | condition => exact hpart.conditions.map _
  | optionSource => exact hpart.optionSources.map _
  | relatedData => exact hpart.relatedData.map _
  | resultConsumption => exact hpart.resultConsumption.map _
  | errorBranch => exact hpart.errorHandling.map _
  | actionLifecycle => exact hpart.actionLifecycles.map _

theorem targetIds_nodup (hfields : contract.validateFields = .ok ()) (kind : TargetKind) :
    (contract.targetIds kind).Nodup := by
  simp only [DomainUsageContract.validateFields, checked_bind] at hfields
  obtain ⟨-, -, hroutes, hgoals, hbindings, hdefaults, hconditions, hoptions, hrelated, hconsumption,
    herrors, hlifecycles, -⟩ := hfields
  cases kind <;> rw [targetIds, targets, List.map_map]
  · exact sortedUnique_nodup hgoals
  · exact sortedUnique_nodup hroutes
  · exact sortedUnique_nodup hbindings
  · exact sortedUnique_nodup hdefaults
  · exact sortedUnique_nodup hconditions
  · exact sortedUnique_nodup hoptions
  · exact sortedUnique_nodup hrelated
  · exact sortedUnique_nodup hconsumption
  · exact sortedUnique_nodup herrors
  · exact sortedUnique_nodup hlifecycles

theorem PartOf.step?_eq (hpart : PartOf part contract) (hnodup : (contract.steps.map (·.id)).Nodup)
    {stepId : String} (hmem : stepId ∈ part.stepIds) : part.step? stepId = contract.step? stepId := by
  obtain ⟨step, hstep, rfl⟩ := List.mem_map.mp hmem
  exact find?_of_sublist hpart.steps hnodup hstep

/-- A step belongs to one route. -/
theorem route_unique (hnodup : (contract.steps.map (·.id)).Nodup) {route other : UsageToolRoute}
    (hroute : route ∈ contract.toolRoutes) (hother : other ∈ contract.toolRoutes) {stepId : String}
    (hmem : stepId ∈ route.stepIds) (hmem' : stepId ∈ other.stepIds) : route = other := by
  rw [DomainUsageContract.steps, List.map_flatMap, List.nodup_flatMap] at hnodup
  have hdisjoint : contract.toolRoutes.Pairwise fun a b => a.stepIds.Disjoint b.stepIds := hnodup.2
  have hsymm : Std.Symm fun a b : UsageToolRoute => a.stepIds.Disjoint b.stepIds :=
    ⟨fun _ _ h => h.symm⟩
  by_contra hne
  exact hdisjoint.forall hroute hother hne hmem hmem'

theorem routeOf?_of_mem (hnodup : (contract.steps.map (·.id)).Nodup) {route : UsageToolRoute}
    (hroute : route ∈ contract.toolRoutes) {stepId : String} (hstepId : stepId ∈ route.stepIds) :
    contract.routeOf? stepId = some route := by
  unfold routeOf?
  cases hfound : contract.toolRoutes.find? (·.stepIds.contains stepId) with
  | none =>
    have hnot := List.find?_eq_none.mp hfound route hroute
    exact absurd (List.contains_iff_mem.mpr hstepId) hnot
  | some other =>
    have hmem : other.stepIds.contains stepId = true :=
      List.find?_some (p := fun route : UsageToolRoute => route.stepIds.contains stepId) hfound
    rw [route_unique hnodup hroute (List.mem_of_find?_eq_some hfound) hstepId
      (List.contains_iff_mem.mp hmem)]

/-- An ancestor of a step of the part is one in the part. -/
theorem PartOf.isAncestor (hpart : PartOf part contract)
    (hparts : contract.validateParts = .ok ()) (hfields : contract.validateFields = .ok ())
    (hnodup : (contract.steps.map (·.id)).Nodup) {producerStepId consumerStepId : String}
    (hmem : consumerStepId ∈ part.stepIds)
    (h : contract.isAncestor producerStepId consumerStepId = true) :
    part.isAncestor producerStepId consumerStepId = true ∧ producerStepId ∈ part.stepIds := by
  obtain ⟨route, hroute, hconsumer⟩ := mem_stepIds.mp hmem
  have hroute' := hpart.toolRoutes.subset hroute
  have hok : RouteOk route := by
    simp only [DomainUsageContract.validateParts, checked_bind, checkAll_ok] at hparts
    exact routeOk_of_validate (hparts.2.1 route hroute')
  have hnodup' := hpart.steps_nodup hnodup
  unfold DomainUsageContract.isAncestor at h ⊢
  rw [routeOf?_of_mem hnodup hroute' hconsumer] at h
  cases hproducer : contract.routeOf? producerStepId with
  | none => simp [hproducer] at h
  | some owner =>
    simp only [hproducer, Bool.and_eq_true, decide_eq_true_eq] at h
    have howner : owner ∈ contract.toolRoutes := List.mem_of_find?_eq_some hproducer
    have hnodupRoutes : (contract.toolRoutes.map (·.id)).Nodup := by
      simp only [DomainUsageContract.validateFields, checked_bind] at hfields
      exact sortedUnique_nodup hfields.2.2.1
    obtain rfl : owner = route := List.inj_on_of_nodup_map hnodupRoutes howner hroute' h.1
    have hcontains : owner.stepIds.contains producerStepId = true :=
      List.find?_some (p := fun route : UsageToolRoute => route.stepIds.contains producerStepId) hproducer
    have hproducerMem : producerStepId ∈ owner.stepIds := List.contains_iff_mem.mp hcontains
    rw [routeOf?_of_mem hnodup' hroute hproducerMem, routeOf?_of_mem hnodup' hroute hconsumer]
    simp only [Bool.and_eq_true, decide_eq_true_eq, true_and]
    rw [← ancestors_eq hok hnodup hroute' hnodup' hroute hconsumer]
    exact ⟨h.2, mem_stepIds.mpr ⟨owner, hroute, hproducerMem⟩⟩

theorem PartOf.hasCapability (hpart : PartOf part contract)
    (hnodup : (contract.steps.map (·.id)).Nodup) {stepId : String} (hmem : stepId ∈ part.stepIds)
    (capabilityId : String) :
    part.hasCapability stepId capabilityId = contract.hasCapability stepId capabilityId := by
  rw [DomainUsageContract.hasCapability, DomainUsageContract.hasCapability,
    hpart.step?_eq hnodup hmem]

/-- A binding of the part is used by one of its routes, and by no other. -/
theorem Closed.routesUsing (hclosed : Closed part) (hpart : PartOf part contract)
    {binding : UsageStepBinding} (hbinding : binding ∈ part.inputBindings)
    (hone : (contract.routesUsing binding.id).length = 1) :
    (part.routesUsing binding.id).length = 1 := by
  obtain ⟨route, hroute, step, hstep, hmem⟩ := hclosed.used binding hbinding
  have hsub : (part.routesUsing binding.id).Sublist (contract.routesUsing binding.id) :=
    hpart.toolRoutes.filter _
  have hpos : 0 < (part.routesUsing binding.id).length := by
    refine List.length_pos_of_mem (List.mem_filter.mpr ⟨hroute, ?_⟩)
    exact List.any_eq_true.mpr ⟨step, hstep, List.contains_iff_mem.mpr hmem⟩
  have hle := hsub.length_le
  omega

/-! The checks of the closure. -/

/-- The bindings of the Action handle are for steps that have phases. -/
theorem mem_actionHandleRequirements {lifecycle : UsageActionLifecycle} {entry : String × String}
    (hentry : entry ∈ actionHandleRequirements lifecycle) :
    entry.2 ∈ (expectedPhases lifecycle).map Prod.fst := by
  have htwo : ∀ entry ∈ Table.put lifecycle.statusActionHandleBindingId lifecycle.statusStepId
      [(lifecycle.commitActionHandleBindingId, lifecycle.commitStepId)],
      entry.2 ∈ (expectedPhases lifecycle).map Prod.fst := by
    intro entry hentry
    rcases Table.mem_put hentry with hmem | rfl
    · obtain rfl := List.mem_singleton.mp hmem
      simp [expectedPhases]
    · simp [expectedPhases]
  unfold actionHandleRequirements at hentry
  split at hentry
  · rename_i stepId _ happrove
    rcases Table.mem_put hentry with hmem | rfl
    · exact htwo entry hmem
    · simp [expectedPhases, happrove]
  · exact htwo entry hentry

/-- A binding is attached to the step that consumes it, in the one route that uses it. -/
theorem exists_step_of_consumer (h : contract.validate = .ok ()) {binding : UsageStepBinding}
    (hbinding : binding ∈ contract.inputBindings) {route : UsageToolRoute}
    (hroute : route ∈ contract.toolRoutes) (hconsumer : binding.consumerStepId ∈ route.stepIds) :
    ∃ step ∈ route.steps, binding.id ∈ step.bindingIds := by
  obtain ⟨-, hfields, -, hnodup, hroutes, hreferences⟩ := validate_iff.mp h
  simp only [DomainUsageContract.validateReferences, checked_bind, ensure_ok, List.all_eq_true,
    decide_eq_true_eq] at hreferences
  have hone := hreferences.1 binding hbinding
  obtain ⟨user, huser⟩ := List.exists_mem_of_length_pos (by rw [hone]; exact Nat.one_pos)
  rw [DomainUsageContract.routesUsing, List.mem_filter, List.any_eq_true] at huser
  obtain ⟨huser, step, hstep, hmem⟩ := huser
  have hmem := List.contains_iff_mem.mp hmem
  have hchecked := hroutes user huser
  simp only [DomainUsageContract.validateRoute, checked_bind, checkAll_ok] at hchecked
  have hattached := hchecked.2.2.2.1 step hstep binding.id hmem
  have hfound : contract.binding? binding.id = some binding := by
    refine find?_of_nodup ?_ hbinding
    simp only [DomainUsageContract.validateFields, checked_bind] at hfields
    exact sortedUnique_nodup hfields.2.2.2.2.1
  simp only [validateStepBinding, hfound, checked_bind, ensure_ok, decide_eq_true_eq] at hattached
  rw [hattached.1] at hconsumer
  have hsame : user = route :=
    route_unique hnodup huser hroute (List.mem_map_of_mem hstep) hconsumer
  exact ⟨step, hsame ▸ hstep, hmem⟩

section Closure
variable (hpart : PartOf part contract) (hclosed : Closed part) (h : contract.validate = .ok ())
include hpart hclosed h

/-- A binding whose consumer is a step of a route of the part is in the part. -/
theorem Closed.binding_mem {binding : UsageStepBinding} (hbinding : binding ∈ contract.inputBindings)
    {route : UsageToolRoute} (hroute : route ∈ part.toolRoutes)
    (hconsumer : binding.consumerStepId ∈ route.stepIds) :
    binding.id ∈ part.inputBindings.map (·.id) := by
  obtain ⟨step, hstep, hmem⟩ :=
    exists_step_of_consumer h hbinding (hpart.toolRoutes.subset hroute) hconsumer
  exact hclosed.bindings route hroute step hstep binding.id hmem

theorem Closed.validateEvidence : part.validateEvidence = .ok () := by
  obtain ⟨-, hfields, hevidence, -⟩ := validate_iff.mp h
  simp only [DomainUsageContract.validateEvidence, checked_bind, checkAll_ok, ensure_ok,
    List.all_eq_true, List.contains_iff_mem] at hevidence ⊢
  refine ⟨hclosed.claims, fun claim hclaim => ?_⟩
  have hchecked := hevidence.2 claim (hpart.evidenceClaims.subset hclaim)
  have htarget := hclosed.targets claim hclaim
  unfold validateClaim at hchecked ⊢
  have hsame : (part.targets claim.target.targetKind).find? (·.1 = claim.target.targetId) =
      (contract.targets claim.target.targetKind).find? (·.1 = claim.target.targetId) := by
    obtain ⟨target, hmem, hid⟩ := List.mem_map.mp htarget
    rw [← hid]
    exact find?_of_sublist (hpart.targets_sublist _) (targetIds_nodup hfields _) hmem
  rw [hsame]
  exact hchecked

/-- A binding that a lifecycle needs for a step of its route is found in the part. -/
theorem Closed.binding?_of_consumer {route : UsageToolRoute} (hroute : route ∈ part.toolRoutes)
    {bindingId : String} {accepts : UsageStepBinding → Bool}
    (haccepts : ∀ binding, accepts binding = true → binding.consumerStepId ∈ route.stepIds)
    (hfound : (contract.binding? bindingId).any accepts = true) :
    (part.binding? bindingId).any accepts = true := by
  obtain ⟨-, hfields, -⟩ := validate_iff.mp h
  cases hbinding : contract.binding? bindingId with
  | none => simp [hbinding] at hfound
  | some binding =>
    have hid : binding.id = bindingId := by
      simpa using List.find?_some (p := fun b : UsageStepBinding => b.id = bindingId) hbinding
    have hmem : binding.id ∈ part.inputBindings.map (·.id) := by
      refine hclosed.binding_mem hpart h (List.mem_of_find?_eq_some hbinding) hroute ?_
      rw [hbinding] at hfound
      exact haccepts binding hfound
    rw [hpart.binding?_eq hfields (hid ▸ hmem)]
    exact hfound

theorem Closed.validateLifecycle {route : UsageToolRoute} (hroute : route ∈ part.toolRoutes)
    {lifecycle : UsageActionLifecycle} (hchecked : contract.validateLifecycle route lifecycle = .ok ()) :
    part.validateLifecycle route lifecycle = .ok () := by
  simp only [DomainUsageContract.validateLifecycle, checked_bind, ensure_ok, checkAll_ok] at hchecked ⊢
  obtain ⟨hsteps, hphases, happrove, hcommit, hstatus, hhandles, happroval⟩ := hchecked
  have hmember : ∀ stepId ∈ (expectedPhases lifecycle).map Prod.fst, stepId ∈ route.stepIds := by
    intro stepId hstepId
    obtain ⟨entry, hentry, rfl⟩ := List.mem_map.mp hstepId
    exact List.contains_iff_mem.mp (List.all_eq_true.mp hsteps entry hentry)
  refine ⟨hsteps, hphases, happrove, hcommit, hstatus, fun entry hentry => ?_, ?_⟩
  · have hhandle := hhandles entry hentry
    rw [validateActionHandle, ensure_ok] at hhandle ⊢
    refine hclosed.binding?_of_consumer hpart h hroute (fun binding haccepts => ?_) hhandle
    simp only [Bool.and_eq_true, decide_eq_true_eq] at haccepts
    rw [haccepts.1.2]
    exact hmember _ (mem_actionHandleRequirements hentry)
  · unfold validateApprovalHandle at happroval ⊢
    split at happroval
    · rfl
    · rw [ensure_ok] at happroval ⊢
      refine hclosed.binding?_of_consumer hpart h hroute (fun binding haccepts => ?_) happroval
      simp only [Bool.and_eq_true, decide_eq_true_eq] at haccepts
      refine hmember _ ?_
      simp [expectedPhases, ← haccepts.1.2]

theorem Closed.validateRoute {route : UsageToolRoute} (hroute : route ∈ part.toolRoutes) :
    part.validateRoute route = .ok () := by
  obtain ⟨hparts, hfields, -, hnodup, hroutes, -⟩ := validate_iff.mp h
  have hchecked := hroutes route (hpart.toolRoutes.subset hroute)
  simp only [DomainUsageContract.validateRoute, checked_bind, ensure_ok, checkAll_ok,
    List.contains_iff_mem, List.all_eq_true, List.mem_flatMap] at hchecked ⊢
  obtain ⟨-, -, -, hbindings, hbranches, hactions⟩ := hchecked
  refine ⟨hclosed.goals route hroute, ?_, hclosed.errors route hroute, ?_, ?_, ?_⟩
  · rintro bindingId ⟨step, hstep, hmem⟩
    exact hclosed.bindings route hroute step hstep bindingId hmem
  · intro step hstep bindingId hmem
    have hattached := hbindings step hstep bindingId hmem
    unfold validateStepBinding at hattached ⊢
    rw [hpart.binding?_eq hfields (hclosed.bindings route hroute step hstep bindingId hmem)]
    split at hattached
    · rfl
    · rename_i binding _
      simp only [checked_bind, ensure_ok, decide_eq_true_eq, Option.all_eq_true_iff_get] at hattached ⊢
      have hconsumer : binding.consumerStepId ∈ part.stepIds := by
        rw [hattached.1]
        exact mem_stepIds.mpr ⟨route, hroute, List.mem_map_of_mem hstep⟩
      exact ⟨hattached.1, fun hsome =>
        (hpart.isAncestor hparts hfields hnodup hconsumer (hattached.2 hsome)).1⟩
  · intro branchId hmem
    have hbranch := hbranches branchId hmem
    unfold validateBranch at hbranch ⊢
    rw [hpart.branch?_eq hfields (hclosed.errors route hroute branchId hmem)]
    split at hbranch
    · rfl
    · rename_i branch _
      simp only [checked_bind, ensure_ok, List.all_eq_true, List.contains_iff_mem] at hbranch ⊢
      have hphases : part.phasesOf branch.stepIds = contract.phasesOf branch.stepIds := by
        refine List.map_congr_left fun stepId hstepId => ?_
        rw [hpart.step?_eq hnodup (mem_stepIds.mpr ⟨route, hroute, hbranch.1 stepId hstepId⟩)]
      rw [hphases]
      exact hbranch
  · unfold validateActions at hactions ⊢
    cases hid : route.actionLifecycleId with
    | none =>
      rw [hid] at hactions
      exact hactions
    | some lifecycleId =>
      rw [hid] at hactions
      simp only at hactions ⊢
      rw [hpart.lifecycle?_eq hfields (hclosed.lifecycles route hroute lifecycleId hid)]
      cases hfound : contract.lifecycle? lifecycleId with
      | none => simp [hfound] at hactions
      | some lifecycle =>
        rw [hfound] at hactions
        exact hclosed.validateLifecycle hpart h hroute hactions

theorem Closed.validateReferences : part.validateReferences = .ok () := by
  obtain ⟨hparts, hfields, -, hnodup, -, hreferences⟩ := validate_iff.mp h
  simp only [DomainUsageContract.validateReferences, validateDefault, validateOption,
    validateConditionScope, checked_bind, checkAll_ok, ensure_ok, List.all_eq_true,
    decide_eq_true_eq, Option.all_eq_true_iff_get] at hreferences ⊢
  obtain ⟨hbindings, hdefaults, hoptions, hrelated, hconsumption, hconditions, hlifecycles⟩ :=
    hreferences
  refine ⟨?_, ?_, ?_, ?_, ?_, ?_, ?_⟩
  · intro binding hbinding
    exact hclosed.routesUsing hpart hbinding
      (hbindings binding (hpart.inputBindings.subset hbinding))
  · intro default hdefault
    have hstep := hclosed.defaults default hdefault
    rw [hpart.hasCapability hnodup hstep]
    refine ⟨(hdefaults default (hpart.defaults.subset hdefault)).1, fun hsome => ?_⟩
    exact List.contains_iff_mem.mpr
      (hclosed.references default hdefault _ (Option.some_get hsome).symm)
  · intro option hoption
    have hstep := hclosed.options option hoption
    rw [hpart.hasCapability hnodup hstep]
    have hchecked := hoptions option (hpart.optionSources.subset hoption)
    exact ⟨hchecked.1, fun hsome =>
      (hpart.isAncestor hparts hfields hnodup hstep (hchecked.2 hsome)).1⟩
  · intro related hrelatedMem
    exact (hpart.isAncestor hparts hfields hnodup (hclosed.related related hrelatedMem)
      (hrelated related (hpart.relatedData.subset hrelatedMem))).1
  · intro consumption hmem
    rw [hpart.hasCapability hnodup (hclosed.consumption consumption hmem)]
    exact hconsumption consumption (hpart.resultConsumption.subset hmem)
  · intro condition hcondition
    rw [hpart.route?_eq hfields (hclosed.conditions condition hcondition)]
    exact hconditions condition (hpart.conditions.subset hcondition)
  · intro lifecycle hlifecycle
    obtain ⟨route, hroute, hnamed⟩ := hclosed.named lifecycle hlifecycle
    exact List.contains_iff_mem.mpr (List.mem_filterMap.mpr ⟨route, hroute, hnamed⟩)

/-- A part that has what it refers to is valid. -/
theorem Closed.validate (hpopulated : Populated part) : part.validate = .ok () := by
  obtain ⟨hparts, hfields, -, hnodup, -, -⟩ := validate_iff.mp h
  exact validate_iff.mpr ⟨hpart.validateParts hparts, hpart.validateFields hpopulated hfields,
    hclosed.validateEvidence hpart h, hpart.steps_nodup hnodup,
    fun route hroute => hclosed.validateRoute hpart h hroute, hclosed.validateReferences hpart h⟩

end Closure
end Parts
end CapabilityCompiler.Usage.DomainUsageContract
