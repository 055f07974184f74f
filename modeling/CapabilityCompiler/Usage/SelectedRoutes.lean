import CapabilityCompiler.Usage.ContractParts

/-! What is packaged of a contract: the selected routes, and what belongs to them. -/
namespace CapabilityCompiler.Usage.DomainUsageContract
open Foundation

section Selection
variable (contract : DomainUsageContract) (decision : UsageDomainDecision)
  (release : AgentUsageRelease)

/-- Some routes of a valid contract are selected with exactly their goals; a result of them is
consumed, and a scenario of the contract is released. -/
structure Selects : Prop where
  valid : contract.validate = .ok ()
  nonempty : decision.includedRouteIds ≠ []
  routes : ∀ routeId ∈ decision.includedRouteIds, routeId ∈ contract.toolRoutes.map (·.id)
  goals : ∀ goalId, goalId ∈ decision.businessGoalIds ↔
    ∃ route ∈ contract.selectedRoutes decision, route.businessGoalId = goalId
  consumption : ∃ consumption ∈ contract.resultConsumption,
    consumption.stepId ∈ contract.selectedStepIds decision
  scenario : ∃ scenarioId ∈ contract.requiredScenarioIds, scenarioId ∈ release.scenarioIds

/-- Nothing of the route is left. -/
structure Foreign (result : DomainUsageContract) (route : UsageToolRoute) : Prop where
  steps : ∀ stepId ∈ route.stepIds, stepId ∉ result.stepIds
  bindings : ∀ step ∈ route.steps, ∀ bindingId ∈ step.bindingIds,
    bindingId ∉ result.inputBindings.map (·.id)
  defaults : ∀ default ∈ result.defaults, default.stepId ∉ route.stepIds
  conditions : ∀ condition ∈ result.conditions, condition.routeId ≠ route.id
  lifecycles : ∀ lifecycle ∈ result.actionLifecycles, route.actionLifecycleId ≠ some lifecycle.id

/-- The result is a valid contract of the objects in the scope of the selected routes, all as they
are, and selecting the same of it changes nothing. -/
structure Faithful (result : DomainUsageContract) : Prop where
  valid : result.validate = .ok ()
  businessGoals : result.businessGoals = contract.businessGoals.filter fun goal =>
    (contract.selectedRoutes decision).any (·.businessGoalId = goal.id)
  toolRoutes : result.toolRoutes = contract.selectedRoutes decision
  inputBindings : result.inputBindings = contract.inputBindings.filter fun binding =>
    (contract.selectedRoutes decision).any fun route =>
      route.steps.any (·.bindingIds.contains binding.id)
  defaults : result.defaults =
    contract.defaults.filter (·.stepId ∈ contract.selectedStepIds decision)
  conditions : result.conditions =
    contract.conditions.filter (·.routeId ∈ decision.includedRouteIds)
  optionSources : result.optionSources =
    contract.optionSources.filter (·.consumerStepId ∈ contract.selectedStepIds decision)
  relatedData : result.relatedData =
    contract.relatedData.filter (·.consumerStepId ∈ contract.selectedStepIds decision)
  resultConsumption : result.resultConsumption =
    contract.resultConsumption.filter (·.stepId ∈ contract.selectedStepIds decision)
  errorHandling : result.errorHandling = contract.errorHandling.filter fun branch =>
    (contract.selectedRoutes decision).any (·.errorBranchIds.contains branch.id)
  actionLifecycles : result.actionLifecycles = contract.actionLifecycles.filter fun lifecycle =>
    (contract.selectedRoutes decision).any (·.actionLifecycleId = some lifecycle.id)
  requiredScenarioIds :
    result.requiredScenarioIds = contract.requiredScenarioIds.filter (· ∈ release.scenarioIds)
  evidenceClaims : result.evidenceClaims = contract.evidenceClaims.filter result.bears
  foreign : ∀ route ∈ contract.toolRoutes, route.id ∉ decision.includedRouteIds →
    Foreign result route
  again : result.selectedContractProjection decision release = .ok result

/-- The defaults of selected steps are literal, and the claims that selected objects refer to have
selected targets. -/
structure Packable : Prop where
  defaults : ∀ default ∈ contract.defaults, default.stepId ∈ contract.selectedStepIds decision →
    default.source = .literal
  claims : ∀ claim ∈ contract.evidenceClaims,
    claim.id ∈ (contract.routeClosure decision release).semanticClaimIds.flatten →
    claim.target.targetId ∈
      (contract.routeClosure decision release).targetIds claim.target.targetKind

end Selection

section Projected
variable {contract : DomainUsageContract} {decision : UsageDomainDecision}
  {release : AgentUsageRelease}

theorem projected_partOf : PartOf (contract.projected decision release) contract where
  businessGoals := List.filter_sublist
  toolRoutes := List.filter_sublist
  inputBindings := List.filter_sublist
  defaults := List.filter_sublist
  conditions := List.filter_sublist
  optionSources := List.filter_sublist
  relatedData := List.filter_sublist
  resultConsumption := List.filter_sublist
  errorHandling := List.filter_sublist
  actionLifecycles := List.filter_sublist
  requiredScenarioIds := List.filter_sublist
  evidenceClaims := List.filter_sublist

theorem stepIds_projected :
    (contract.projected decision release).stepIds = contract.selectedStepIds decision := by
  rw [stepIds, selectedStepIds, DomainUsageContract.steps, List.map_flatMap]
  rfl

theorem PartOf.semanticClaimIds {part : DomainUsageContract} (hpart : PartOf part contract) :
    part.semanticClaimIds ⊆ contract.semanticClaimIds := by
  unfold DomainUsageContract.semanticClaimIds
  refine List.Sublist.subset ?_
  exact ((((((hpart.businessGoals.map _).append (hpart.defaults.map _)).append
    (hpart.conditions.map _)).append (hpart.optionSources.map _)).append
    (hpart.relatedData.map _)).append (hpart.resultConsumption.map _)).append
    (hpart.errorHandling.map _)

/-- A claim that an object of the closure refers to is kept. -/
theorem claim_mem (h : contract.validate = .ok ()) {claimId : String}
    (hmem : claimId ∈ (contract.projected decision release).semanticClaimIds.flatten) :
    claimId ∈ (contract.projected decision release).evidenceClaims.map (·.id) := by
  obtain ⟨-, -, hevidence, -⟩ := validate_iff.mp h
  simp only [DomainUsageContract.validateEvidence, checked_bind, checkAll_ok, ensure_ok,
    List.all_eq_true, List.contains_iff_mem] at hevidence
  obtain ⟨claimIds, hclaimIds, hclaimId⟩ := List.mem_flatten.mp hmem
  obtain ⟨claim, hclaim, rfl⟩ := List.mem_map.mp
    (hevidence.1 claimIds (projected_partOf.semanticClaimIds hclaimIds) claimId hclaimId)
  refine List.mem_map_of_mem (List.mem_filter.mpr ⟨hclaim, ?_⟩)
  rw [bears, Bool.or_eq_true, decide_eq_true_eq, decide_eq_true_eq]
  exact .inl hmem

theorem Packable.closed (hpackable : Packable contract decision release)
    (hselects : Selects contract decision release) :
    Closed (contract.projected decision release) := by
  obtain ⟨hparts, -, -, -, hroutes, hreferences⟩ := validate_iff.mp hselects.valid
  simp only [DomainUsageContract.validateReferences, validateConditionScope, checked_bind,
    checkAll_ok, ensure_ok] at hreferences
  have hchecked : ∀ route ∈ contract.selectedRoutes decision, contract.validateRoute route = .ok () :=
    fun route hroute => hroutes route (mem_selectedRoutes.mp hroute).1
  simp only [DomainUsageContract.validateRoute, checked_bind, ensure_ok, List.all_eq_true,
    List.contains_iff_mem] at hchecked
  constructor
  · intro route hroute
    obtain ⟨goal, hgoal, hid⟩ := List.mem_map.mp (hchecked route hroute).1
    refine List.mem_map.mpr ⟨goal, List.mem_filter.mpr ⟨hgoal, ?_⟩, hid⟩
    rw [decide_eq_true_eq, hid]
    exact (hselects.goals _).mpr ⟨route, hroute, rfl⟩
  · intro route hroute step hstep bindingId hmem
    have hroutes := List.mem_flatMap.mpr ⟨step, hstep, hmem⟩
    obtain ⟨binding, hbinding, rfl⟩ := List.mem_map.mp ((hchecked route hroute).2.1 _ hroutes)
    refine List.mem_map_of_mem (List.mem_filter.mpr ⟨hbinding, ?_⟩)
    rw [decide_eq_true_eq]
    exact List.mem_flatMap.mpr ⟨route, hroute, hroutes⟩
  · intro route hroute branchId hmem
    obtain ⟨branch, hbranch, rfl⟩ := List.mem_map.mp ((hchecked route hroute).2.2.1 _ hmem)
    refine List.mem_map_of_mem (List.mem_filter.mpr ⟨hbranch, ?_⟩)
    rw [decide_eq_true_eq]
    exact List.mem_flatMap.mpr ⟨route, hroute, hmem⟩
  · intro route hroute lifecycleId hid
    have hactions := (hchecked route hroute).2.2.2.2.2
    unfold validateActions at hactions
    simp only [hid] at hactions
    cases hfound : contract.lifecycle? lifecycleId with
    | none => simp [hfound] at hactions
    | some lifecycle =>
      have hname : lifecycle.id = lifecycleId := by
        simpa using List.find?_some (p := fun l : UsageActionLifecycle => l.id = lifecycleId) hfound
      refine List.mem_map.mpr ⟨lifecycle, List.mem_filter.mpr
        ⟨List.mem_of_find?_eq_some hfound, ?_⟩, hname⟩
      rw [decide_eq_true_eq, hname]
      exact List.mem_filterMap.mpr ⟨route, hroute, hid⟩
  · intro binding hbinding
    have hused := (List.mem_filter.mp hbinding).2
    rw [decide_eq_true_eq] at hused
    obtain ⟨route, hroute, hmem⟩ := List.mem_flatMap.mp hused
    obtain ⟨step, hstep, hmem⟩ := List.mem_flatMap.mp hmem
    exact ⟨route, hroute, step, hstep, hmem⟩
  · intro lifecycle hlifecycle
    have hnamed := (List.mem_filter.mp hlifecycle).2
    rw [decide_eq_true_eq] at hnamed
    exact List.mem_filterMap.mp hnamed
  · intro default hdefault
    rw [stepIds_projected]
    exact decide_eq_true_iff.mp (List.mem_filter.mp hdefault).2
  · intro default hdefault bindingId hreference
    obtain ⟨hdefault, hstep⟩ := List.mem_filter.mp hdefault
    have hliteral := hpackable.defaults default hdefault (decide_eq_true_iff.mp hstep)
    simp only [DomainUsageContract.validateParts, UsageDefaultRef.validateSource, checked_bind,
      checkAll_ok, ensure_ok] at hparts
    have hsource := (hparts.2.2.2.1 default hdefault).2.1
    simp [hliteral, hreference] at hsource
  · intro condition hcondition
    obtain ⟨hcondition, hkept⟩ := List.mem_filter.mp hcondition
    rw [Bool.and_eq_true, decide_eq_true_eq] at hkept
    have hscope := hreferences.2.2.2.2.2.1 condition hcondition
    cases hfound : contract.toolRoutes.find? (·.id = condition.routeId) with
    | none => simp [hfound] at hscope
    | some route =>
      have hname : route.id = condition.routeId := by
        simpa using
          List.find?_some (p := fun r : UsageToolRoute => r.id = condition.routeId) hfound
      refine List.mem_map.mpr ⟨route, mem_selectedRoutes.mpr
        ⟨List.mem_of_find?_eq_some hfound, ?_⟩, hname⟩
      rw [hname]
      exact hkept.1
  · intro option hoption
    have hkept := (List.mem_filter.mp hoption).2
    rw [Bool.and_eq_true, decide_eq_true_eq] at hkept
    rw [stepIds_projected]
    exact hkept.1
  · intro related hrelated
    have hkept := (List.mem_filter.mp hrelated).2
    rw [Bool.and_eq_true, decide_eq_true_eq] at hkept
    rw [stepIds_projected]
    exact hkept.1
  · intro consumption hconsumption
    rw [stepIds_projected]
    exact decide_eq_true_iff.mp (List.mem_filter.mp hconsumption).2
  · intro claimIds hclaimIds claimId hclaimId
    exact claim_mem hselects.valid (List.mem_flatten.mpr ⟨claimIds, hclaimIds, hclaimId⟩)
  · intro claim hclaim
    obtain ⟨hclaim, hbears⟩ := List.mem_filter.mp hclaim
    rw [bears, Bool.or_eq_true, decide_eq_true_eq, decide_eq_true_eq] at hbears
    exact hbears.elim (hpackable.claims claim hclaim) id

theorem projected_populated (hselects : Selects contract decision release) :
    Populated (contract.projected decision release) := by
  obtain ⟨hparts, -, -, -, hroutes, -⟩ := validate_iff.mp hselects.valid
  simp only [DomainUsageContract.validateParts, validateListed, checked_bind, checkAll_ok,
    ensure_ok] at hparts
  obtain ⟨routeId, hrouteId⟩ := List.exists_mem_of_ne_nil _ hselects.nonempty
  obtain ⟨route, hroute, rfl⟩ := List.mem_map.mp (hselects.routes routeId hrouteId)
  have hselected : route ∈ contract.selectedRoutes decision := mem_selectedRoutes.mpr ⟨hroute, hrouteId⟩
  have hchecked := hroutes route hroute
  simp only [DomainUsageContract.validateRoute, checked_bind, ensure_ok,
    List.contains_iff_mem] at hchecked
  obtain ⟨goal, hgoal, hid⟩ := List.mem_map.mp hchecked.1
  have hkept : goal ∈ (contract.projected decision release).businessGoals := by
    refine List.mem_filter.mpr ⟨hgoal, ?_⟩
    rw [decide_eq_true_eq, hid]
    exact (hselects.goals _).mpr ⟨route, hselected, rfl⟩
  obtain ⟨consumption, hconsumption, hstep⟩ := hselects.consumption
  obtain ⟨scenarioId, hscenario, hreleased⟩ := hselects.scenario
  refine ⟨List.ne_nil_of_mem hkept, List.ne_nil_of_mem hselected, ?_, ?_, ?_⟩
  · exact List.ne_nil_of_mem (List.mem_filter.mpr ⟨hconsumption, by simpa using hstep⟩)
  · have hclaims : goal.evidenceClaimIds ≠ [] := by
      simpa using (hparts.1 goal hgoal).1
    obtain ⟨claimId, hclaimId⟩ := List.exists_mem_of_ne_nil _ hclaims
    have hsemantic : goal.evidenceClaimIds ∈
        (contract.projected decision release).semanticClaimIds := by
      simp only [semanticClaimIds, List.append_assoc, List.mem_append]
      exact .inl (List.mem_map_of_mem hkept)
    have hmem := claim_mem hselects.valid (List.mem_flatten.mpr ⟨_, hsemantic, hclaimId⟩)
    obtain ⟨claim, hclaim, -⟩ := List.mem_map.mp hmem
    exact List.ne_nil_of_mem hclaim
  · exact List.ne_nil_of_mem (List.mem_filter.mpr ⟨hscenario, by simpa using hreleased⟩)

/-! Reading back. -/

theorem readBack_eq (h : ∀ default ∈ contract.defaults, default.hasValue = true) :
    contract.readBack = contract := by
  have hsame : (contract.defaults.map fun default => { default with hasValue := true }) =
      contract.defaults := by
    refine (List.map_congr_left fun default hdefault => ?_).trans (List.map_id _)
    cases default
    simpa using (h _ hdefault).symm
  rw [readBack, hsame]

theorem targetIds_readBack (kind : TargetKind) :
    contract.readBack.targetIds kind = contract.targetIds kind := by
  cases kind <;> simp [targetIds, targets, readBack]

/-- The defaults that are read back as valid ones are literal. -/
theorem literal_of_readBack (h : contract.readBack.validate = .ok ()) {default : UsageDefaultRef}
    (hdefault : default ∈ contract.defaults) : default.source = .literal := by
  obtain ⟨hparts, -⟩ := validate_iff.mp h
  simp only [DomainUsageContract.validateParts, UsageDefaultRef.validateSource, checked_bind,
    checkAll_ok, ensure_ok] at hparts
  have hsource := (hparts.2.2.2.1 _ (List.mem_map_of_mem hdefault)).2
  cases hcase : default.source with
  | literal => rfl
  | binding => simp [hcase] at hsource
  | sourceDefault => simp [hcase] at hsource

theorem target_of_readBack (h : contract.readBack.validate = .ok ()) {claim : UsageEvidenceClaim}
    (hclaim : claim ∈ contract.evidenceClaims) :
    claim.target.targetId ∈ contract.targetIds claim.target.targetKind := by
  obtain ⟨-, -, hevidence, -⟩ := validate_iff.mp h
  simp only [DomainUsageContract.validateEvidence, checked_bind, checkAll_ok] at hevidence
  have hchecked := hevidence.2 claim hclaim
  unfold validateClaim at hchecked
  rw [← targetIds_readBack]
  cases hfound : (contract.readBack.targets claim.target.targetKind).find?
      (·.1 = claim.target.targetId) with
  | none => simp [hfound] at hchecked
  | some target =>
    have hname : target.1 = claim.target.targetId := by
      simpa using
        List.find?_some (p := fun t : String × Json => t.1 = claim.target.targetId) hfound
    exact List.mem_map.mpr ⟨target, List.mem_of_find?_eq_some hfound, hname⟩

theorem selectedContractProjection_eq_ok {result : DomainUsageContract} :
    contract.selectedContractProjection decision release = .ok result ↔
      result = (contract.projected decision release).readBack ∧ result.validate = .ok () ∧
      (result.businessGoals.map (·.id)).toFinset = decision.businessGoalIds.toFinset ∧
      (result.toolRoutes.map (·.id)).toFinset = decision.includedRouteIds.toFinset := by
  unfold selectedContractProjection
  constructor
  · intro h
    simp only at h
    split at h
    · rename_i hvalid
      split at h
      · rename_i hcomplete
        obtain rfl := Except.ok.inj h
        exact ⟨rfl, hvalid, hcomplete⟩
      · exact absurd h (by simp)
    · exact absurd h (by simp)
  · rintro ⟨rfl, hvalid, hcomplete⟩
    simp only [if_pos hvalid, if_pos hcomplete]

/-! What is kept is what is in the scope of the selected routes. -/

theorem conditions_projected (h : contract.validate = .ok ()) :
    (contract.projected decision release).conditions =
      contract.conditions.filter (·.routeId ∈ decision.includedRouteIds) := by
  obtain ⟨-, -, -, -, -, hreferences⟩ := validate_iff.mp h
  simp only [DomainUsageContract.validateReferences, validateConditionScope, checked_bind,
    checkAll_ok, ensure_ok] at hreferences
  refine List.filter_congr fun condition hcondition => ?_
  by_cases hrouteId : condition.routeId ∈ decision.includedRouteIds
  · have hscope := hreferences.2.2.2.2.2.1 condition hcondition
    cases hfound : contract.toolRoutes.find? (·.id = condition.routeId) with
    | none => simp [hfound] at hscope
    | some route =>
      have hname : route.id = condition.routeId := by
        simpa using
          List.find?_some (p := fun r : UsageToolRoute => r.id = condition.routeId) hfound
      have hroute : route ∈ contract.selectedRoutes decision :=
        mem_selectedRoutes.mpr ⟨List.mem_of_find?_eq_some hfound, hname ▸ hrouteId⟩
      rw [hfound, Option.any_some, Option.all_eq_true_iff_get] at hscope
      have hsteps : condition.stepId.all (decide <| · ∈ contract.selectedStepIds decision) = true := by
        refine (Option.all_eq_true_iff_get _ _).mpr fun hsome => decide_eq_true_iff.mpr ?_
        exact mem_selectedStepIds.mpr ⟨route, hroute, List.contains_iff_mem.mp (hscope hsome)⟩
      rw [hsteps, Bool.and_true]
  · simp [hrouteId]

/-- Producers of what the steps of selected routes consume are such steps. -/
theorem producer_mem (h : contract.validate = .ok ()) {producerStepId consumerStepId : String}
    (hmem : consumerStepId ∈ contract.selectedStepIds decision)
    (hancestor : contract.isAncestor producerStepId consumerStepId = true) :
    producerStepId ∈ contract.selectedStepIds decision := by
  obtain ⟨hparts, hfields, -, hnodup, -⟩ := validate_iff.mp h
  have hpart : PartOf (contract.projected decision ⟨[]⟩) contract := projected_partOf
  have hsteps : (contract.projected decision ⟨[]⟩).stepIds = contract.selectedStepIds decision :=
    stepIds_projected
  rw [← hsteps] at hmem ⊢
  exact (hpart.isAncestor hparts hfields hnodup hmem hancestor).2

theorem optionSources_projected (h : contract.validate = .ok ()) :
    (contract.projected decision release).optionSources = contract.optionSources.filter
      (·.consumerStepId ∈ contract.selectedStepIds decision) := by
  obtain ⟨-, -, -, -, -, hreferences⟩ := validate_iff.mp h
  simp only [DomainUsageContract.validateReferences, validateOption, checked_bind, checkAll_ok,
    ensure_ok, Option.all_eq_true_iff_get] at hreferences
  refine List.filter_congr fun option hoption => ?_
  by_cases hconsumer : option.consumerStepId ∈ contract.selectedStepIds decision
  · have hproducer : option.producerStepId.all
        (decide <| · ∈ contract.selectedStepIds decision) = true := by
      refine (Option.all_eq_true_iff_get _ _).mpr fun hsome => decide_eq_true_iff.mpr ?_
      exact producer_mem h hconsumer ((hreferences.2.2.1 option hoption).2 hsome)
    rw [hproducer, Bool.and_true]
  · simp [hconsumer]

theorem relatedData_projected (h : contract.validate = .ok ()) :
    (contract.projected decision release).relatedData = contract.relatedData.filter
      (·.consumerStepId ∈ contract.selectedStepIds decision) := by
  obtain ⟨-, -, -, -, -, hreferences⟩ := validate_iff.mp h
  simp only [DomainUsageContract.validateReferences, checked_bind, checkAll_ok,
    ensure_ok] at hreferences
  refine List.filter_congr fun related hrelated => ?_
  by_cases hconsumer : related.consumerStepId ∈ contract.selectedStepIds decision
  · have hproducer := producer_mem h hconsumer (hreferences.2.2.2.1 related hrelated)
    simp [hconsumer, hproducer]
  · simp [hconsumer]

theorem businessGoals_projected (hselects : Selects contract decision release) :
    (contract.projected decision release).businessGoals = contract.businessGoals.filter fun goal =>
      (contract.selectedRoutes decision).any (·.businessGoalId = goal.id) := by
  refine List.filter_congr fun goal _ => ?_
  rw [Bool.eq_iff_iff, decide_eq_true_eq, List.any_eq_true, hselects.goals]
  simp only [decide_eq_true_eq]

theorem inputBindings_projected :
    (contract.projected decision release).inputBindings =
      contract.inputBindings.filter fun binding => (contract.selectedRoutes decision).any fun route =>
        route.steps.any (·.bindingIds.contains binding.id) := by
  refine List.filter_congr fun binding _ => ?_
  rw [Bool.eq_iff_iff, decide_eq_true_eq]
  simp only [selectedBindingIds, List.mem_flatMap, List.any_eq_true, List.contains_iff_mem]

theorem errorHandling_projected :
    (contract.projected decision release).errorHandling = contract.errorHandling.filter fun branch =>
      (contract.selectedRoutes decision).any (·.errorBranchIds.contains branch.id) := by
  refine List.filter_congr fun branch _ => ?_
  rw [Bool.eq_iff_iff, decide_eq_true_eq]
  simp only [selectedErrorIds, List.mem_flatMap, List.any_eq_true, List.contains_iff_mem]

theorem actionLifecycles_projected :
    (contract.projected decision release).actionLifecycles =
      contract.actionLifecycles.filter fun lifecycle =>
        (contract.selectedRoutes decision).any (·.actionLifecycleId = some lifecycle.id) := by
  refine List.filter_congr fun lifecycle _ => ?_
  rw [Bool.eq_iff_iff, decide_eq_true_eq]
  simp only [selectedLifecycleIds, List.mem_filterMap, List.any_eq_true, decide_eq_true_eq]

/-- Selecting the same of the selected part keeps all of it. -/
theorem projected_projected :
    (contract.projected decision release).projected decision release =
      contract.projected decision release := by
  have hroutes : (contract.projected decision release).selectedRoutes decision =
      contract.selectedRoutes decision := by
    simp [selectedRoutes, projected, routeClosure, List.filter_filter]
  have hclosure : (contract.projected decision release).routeClosure decision release =
      contract.projected decision release := by
    simp only [routeClosure, selectedStepIds, selectedBindingIds, selectedErrorIds,
      selectedLifecycleIds, hroutes]
    simp [projected, routeClosure, selectedStepIds, selectedBindingIds, selectedErrorIds,
      selectedLifecycleIds, List.filter_filter]
  have hclaims : (contract.projected decision release).evidenceClaims.filter
      (contract.projected decision release).bears =
      (contract.projected decision release).evidenceClaims := by
    have hbears : (contract.projected decision release).bears =
        (contract.routeClosure decision release).bears := rfl
    rw [hbears]
    simp [projected, List.filter_filter]
  rw [projected, hclosure, hclaims]

/-- The steps of a route that is not selected are none of the selected ones. -/
theorem not_mem_selectedStepIds (hnodup : (contract.steps.map (·.id)).Nodup)
    {route : UsageToolRoute} (hroute : route ∈ contract.toolRoutes)
    (hunselected : route.id ∉ decision.includedRouteIds) {stepId : String}
    (hstepId : stepId ∈ route.stepIds) : stepId ∉ contract.selectedStepIds decision := by
  intro hmem
  obtain ⟨other, hother, hstepId'⟩ := mem_selectedStepIds.mp hmem
  obtain ⟨hother, hselected⟩ := mem_selectedRoutes.mp hother
  obtain rfl := route_unique hnodup hroute hother hstepId hstepId'
  exact hunselected hselected

/-- Two routes with the same lifecycle have its steps, and are one. -/
theorem route_of_lifecycle (h : contract.validate = .ok ()) {route other : UsageToolRoute}
    (hroute : route ∈ contract.toolRoutes) (hother : other ∈ contract.toolRoutes)
    {lifecycleId : String} (hid : route.actionLifecycleId = some lifecycleId)
    (hid' : other.actionLifecycleId = some lifecycleId) : route = other := by
  obtain ⟨-, -, -, hnodup, hroutes, -⟩ := validate_iff.mp h
  have hsteps : ∀ user ∈ contract.toolRoutes, user.actionLifecycleId = some lifecycleId →
      ∃ lifecycle, contract.lifecycle? lifecycleId = some lifecycle ∧
        lifecycle.prepareStepId ∈ user.stepIds := by
    intro user huser hnamed
    have hchecked := hroutes user huser
    simp only [DomainUsageContract.validateRoute, checked_bind] at hchecked
    have hactions := hchecked.2.2.2.2.2
    unfold validateActions at hactions
    simp only [hnamed] at hactions
    cases hfound : contract.lifecycle? lifecycleId with
    | none => simp [hfound] at hactions
    | some lifecycle =>
      simp only [hfound, DomainUsageContract.validateLifecycle, checked_bind, ensure_ok] at hactions
      refine ⟨lifecycle, rfl, List.contains_iff_mem.mp ?_⟩
      exact List.all_eq_true.mp hactions.1 (lifecycle.prepareStepId, .prepare) List.mem_cons_self
  obtain ⟨lifecycle, hfound, hmem⟩ := hsteps route hroute hid
  obtain ⟨found, hfound', hmem'⟩ := hsteps other hother hid'
  obtain rfl := Option.some.inj (hfound.symm.trans hfound')
  exact route_unique hnodup hroute hother hmem hmem'

theorem foreign_projected (h : contract.validate = .ok ()) {route : UsageToolRoute}
    (hroute : route ∈ contract.toolRoutes) (hunselected : route.id ∉ decision.includedRouteIds) :
    Foreign (contract.projected decision release) route := by
  obtain ⟨-, hfields, -, hnodup, -, hreferences⟩ := validate_iff.mp h
  have hother : ∀ other ∈ contract.selectedRoutes decision, other ∈ contract.toolRoutes ∧
      route ≠ other := by
    intro other hother
    obtain ⟨hmem, hselected⟩ := mem_selectedRoutes.mp hother
    exact ⟨hmem, fun heq => hunselected (heq ▸ hselected)⟩
  constructor
  · intro stepId hstepId
    rw [stepIds_projected]
    exact not_mem_selectedStepIds hnodup hroute hunselected hstepId
  · intro step hstep bindingId hmem hkept
    obtain ⟨binding, hbinding, rfl⟩ := List.mem_map.mp hkept
    obtain ⟨hbinding, hused⟩ := List.mem_filter.mp hbinding
    rw [decide_eq_true_eq] at hused
    obtain ⟨other, hotherMem, hused⟩ := List.mem_flatMap.mp hused
    obtain ⟨user, huser, hused⟩ := List.mem_flatMap.mp hused
    simp only [DomainUsageContract.validateReferences, checked_bind, ensure_ok, List.all_eq_true,
      decide_eq_true_eq] at hreferences
    obtain ⟨only, honly⟩ := List.length_eq_one_iff.mp (hreferences.1 binding hbinding)
    have hfirst : route ∈ contract.routesUsing binding.id := List.mem_filter.mpr ⟨hroute,
      List.any_eq_true.mpr ⟨step, hstep, List.contains_iff_mem.mpr hmem⟩⟩
    have hsecond : other ∈ contract.routesUsing binding.id := List.mem_filter.mpr
      ⟨(hother other hotherMem).1, List.any_eq_true.mpr ⟨user, huser, List.contains_iff_mem.mpr hused⟩⟩
    rw [honly, List.mem_singleton] at hfirst hsecond
    exact (hother other hotherMem).2 (hfirst.trans hsecond.symm)
  · intro default hdefault hstepId
    have hkept := decide_eq_true_iff.mp (List.mem_filter.mp hdefault).2
    exact not_mem_selectedStepIds hnodup hroute hunselected hstepId hkept
  · intro condition hcondition heq
    have hkept := (List.mem_filter.mp hcondition).2
    rw [Bool.and_eq_true, decide_eq_true_eq, heq] at hkept
    exact hunselected hkept.1
  · intro lifecycle hlifecycle hid
    have hkept := decide_eq_true_iff.mp (List.mem_filter.mp hlifecycle).2
    obtain ⟨other, hotherMem, hid'⟩ := List.mem_filterMap.mp hkept
    obtain ⟨hmem, hne⟩ := hother other hotherMem
    exact hne (route_of_lifecycle h hroute hmem hid hid')

/-- The part that is selected of a packable contract is read back as it is. -/
theorem Packable.projection_eq (hpackable : Packable contract decision release)
    (hselects : Selects contract decision release) :
    contract.selectedContractProjection decision release =
      .ok (contract.projected decision release) := by
  obtain ⟨hparts, -, -, -, hroutes, -⟩ := validate_iff.mp hselects.valid
  have hread : (contract.projected decision release).readBack =
      contract.projected decision release := by
    refine readBack_eq fun default hdefault => ?_
    obtain ⟨hdefault, hstep⟩ := List.mem_filter.mp hdefault
    have hliteral := hpackable.defaults default hdefault (decide_eq_true_iff.mp hstep)
    simp only [DomainUsageContract.validateParts, UsageDefaultRef.validateSource, checked_bind,
      checkAll_ok, ensure_ok] at hparts
    have hsource := (hparts.2.2.2.1 default hdefault).2.1
    simp only [hliteral] at hsource
    cases hvalue : default.hasValue with
    | true => rfl
    | false => simp [hvalue] at hsource
  rw [selectedContractProjection_eq_ok]
  refine ⟨hread.symm, ?_, ?_, ?_⟩
  · exact (hpackable.closed hselects).validate projected_partOf hselects.valid
      (projected_populated hselects)
  · ext goalId
    rw [List.mem_toFinset, List.mem_toFinset]
    constructor
    · intro hmem
      obtain ⟨goal, hgoal, rfl⟩ := List.mem_map.mp hmem
      exact decide_eq_true_iff.mp (List.mem_filter.mp hgoal).2
    · intro hmem
      obtain ⟨route, hroute, rfl⟩ := (hselects.goals goalId).mp hmem
      exact (hpackable.closed hselects).goals route hroute
  · ext routeId
    rw [List.mem_toFinset, List.mem_toFinset]
    constructor
    · intro hmem
      obtain ⟨route, hroute, rfl⟩ := List.mem_map.mp hmem
      exact (mem_selectedRoutes.mp hroute).2
    · intro hmem
      obtain ⟨route, hroute, rfl⟩ := List.mem_map.mp (hselects.routes routeId hmem)
      exact List.mem_map_of_mem (mem_selectedRoutes.mpr ⟨hroute, hmem⟩)

theorem Packable.faithful (hpackable : Packable contract decision release)
    (hselects : Selects contract decision release) :
    Faithful contract decision release (contract.projected decision release) := by
  have hprojection := hpackable.projection_eq hselects
  have hresult := selectedContractProjection_eq_ok.mp hprojection
  exact
    { valid := hresult.2.1
      businessGoals := businessGoals_projected hselects
      toolRoutes := rfl
      inputBindings := inputBindings_projected
      defaults := rfl
      conditions := conditions_projected hselects.valid
      optionSources := optionSources_projected hselects.valid
      relatedData := relatedData_projected hselects.valid
      resultConsumption := rfl
      errorHandling := errorHandling_projected
      actionLifecycles := actionLifecycles_projected
      requiredScenarioIds := rfl
      evidenceClaims := rfl
      foreign := fun route hroute hunselected => foreign_projected hselects.valid hroute hunselected
      again := by
        rw [selectedContractProjection_eq_ok, projected_projected]
        exact hresult }

/-- The projection succeeds with what belongs to the selected routes exactly if the selection can be
packed. -/
theorem projection_faithful_iff (hselects : Selects contract decision release) :
    (∃ result, contract.selectedContractProjection decision release = .ok result ∧
      Faithful contract decision release result) ↔ Packable contract decision release := by
  constructor
  · rintro ⟨result, hresult, -⟩
    obtain ⟨rfl, hvalid, -⟩ := selectedContractProjection_eq_ok.mp hresult
    constructor
    · intro default hdefault hstep
      exact literal_of_readBack hvalid (List.mem_filter.mpr ⟨hdefault, by simpa using hstep⟩)
    · intro claim hclaim hreferred
      refine target_of_readBack hvalid (List.mem_filter.mpr ⟨hclaim, ?_⟩)
      rw [bears, Bool.or_eq_true, decide_eq_true_eq]
      exact .inl hreferred
  · intro hpackable
    exact ⟨_, hpackable.projection_eq hselects, hpackable.faithful hselects⟩

end Projected

/-! Two routes of one step, of which one is selected; its step has a default. -/

section Example

private def searchStep (id : String) : UsageToolStep :=
  { id, capabilityId := "catalog", dependsOnStepIds := [], bindingIds := [], condition := none
    retry := .safe, actionPhase := none }

private def searchRoute (id stepId : String) : UsageToolRoute :=
  { id, businessGoalId := "browse", steps := [searchStep stepId], errorBranchIds := []
    resultStepId := stepId, actionLifecycleId := none, dump := .obj [("id", .str id)] }

private def searchDefault (source : DefaultSource) (hasValue : Bool) : UsageDefaultRef :=
  { id := "size", capabilityId := "catalog", stepId := "find", evidenceClaimIds := ["claim"], source
    hasValue, referenceBindingId := none, dump := .obj [("id", .str "size")] }

private def searchContract (default : UsageDefaultRef) : DomainUsageContract :=
  { businessGoals := [{ id := "browse", evidenceClaimIds := ["claim"]
                        dump := .obj [("id", .str "browse")] }]
    toolRoutes := [searchRoute "by-name" "find", searchRoute "by-tag" "scan"]
    inputBindings := [], defaults := [default], conditions := [], optionSources := []
    relatedData := []
    resultConsumption := [{ id := "return", capabilityId := "catalog", stepId := "find"
                            fieldPointers := ["/items"], evidenceClaimIds := ["claim"]
                            dump := .obj [("id", .str "return")] }]
    errorHandling := [], actionLifecycles := [], requiredScenarioIds := ["scenario"]
    evidenceClaims := [{ id := "claim", target := ⟨.businessGoal, "browse", ""⟩
                         sourceIds := ["source"] }] }

private theorem searchContract_selects {source : DefaultSource} {hasValue : Bool}
    (h : (searchContract (searchDefault source hasValue)).validate = .ok ()) :
    Selects (searchContract (searchDefault source hasValue)) ⟨["browse"], ["by-name"]⟩
      ⟨["scenario"]⟩ where
  valid := h
  nonempty := by simp
  routes := by
    intro routeId hrouteId
    obtain rfl := List.mem_singleton.mp hrouteId
    exact List.mem_cons_self
  goals := by
    intro goalId
    have hroutes : (searchContract (searchDefault source hasValue)).selectedRoutes
        ⟨["browse"], ["by-name"]⟩ = [searchRoute "by-name" "find"] := rfl
    rw [hroutes]
    simp [searchRoute, eq_comm]
  consumption := ⟨_, List.mem_singleton_self _, List.mem_singleton_self _⟩
  scenario := ⟨_, List.mem_singleton_self _, List.mem_singleton_self _⟩

theorem projection_faithful_search :
    ∃ result, (searchContract (searchDefault .literal true)).selectedContractProjection
        ⟨["browse"], ["by-name"]⟩ ⟨["scenario"]⟩ = .ok result ∧
      Faithful (searchContract (searchDefault .literal true)) ⟨["browse"], ["by-name"]⟩
        ⟨["scenario"]⟩ result := by
  refine (projection_faithful_iff (searchContract_selects rfl)).mpr ⟨?_, ?_⟩
  · intro default hdefault _
    obtain rfl := List.mem_singleton.mp hdefault
    rfl
  · intro claim hclaim _
    obtain rfl := List.mem_singleton.mp hclaim
    exact List.mem_singleton_self _

/-- A default of the source is dumped with a value of null, and is not accepted again. -/
theorem source_default_not_packaged :
    Selects (searchContract (searchDefault .sourceDefault false)) ⟨["browse"], ["by-name"]⟩
        ⟨["scenario"]⟩ ∧
      ¬ ∃ result, (searchContract (searchDefault .sourceDefault false)).selectedContractProjection
          ⟨["browse"], ["by-name"]⟩ ⟨["scenario"]⟩ = .ok result ∧
        Faithful (searchContract (searchDefault .sourceDefault false)) ⟨["browse"], ["by-name"]⟩
          ⟨["scenario"]⟩ result := by
  refine ⟨searchContract_selects rfl, ?_⟩
  rintro ⟨result, hresult, -⟩
  obtain ⟨rfl, hvalid, -⟩ := selectedContractProjection_eq_ok.mp hresult
  have hliteral := literal_of_readBack hvalid (List.mem_singleton_self _)
  exact absurd hliteral (by decide)

end Example
end CapabilityCompiler.Usage.DomainUsageContract
