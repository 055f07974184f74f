import CapabilityCompiler.Usage.ActionOrder
import Mathlib.Algebra.Order.BigOperators.Group.List
import Mathlib.Data.List.Flatten

/-! The part of a contract that a decision selects by its routes. -/
namespace CapabilityCompiler.Usage
open Foundation

structure UsageDomainDecision where
  businessGoalIds : List String
  includedRouteIds : List String

structure AgentUsageRelease where
  scenarioIds : List String

namespace DomainUsageContract
variable (contract : DomainUsageContract) (decision : UsageDomainDecision)
  (release : AgentUsageRelease)

def selectedRoutes : List UsageToolRoute :=
  contract.toolRoutes.filter (·.id ∈ decision.includedRouteIds)

/-- The identifiers of the steps of the selected routes. -/
def selectedStepIds : List String :=
  (contract.selectedRoutes decision).flatMap (·.stepIds)

def selectedBindingIds : List String :=
  (contract.selectedRoutes decision).flatMap fun route => route.steps.flatMap (·.bindingIds)

def selectedErrorIds : List String :=
  (contract.selectedRoutes decision).flatMap (·.errorBranchIds)

def selectedLifecycleIds : List String :=
  (contract.selectedRoutes decision).filterMap (·.actionLifecycleId)

/-- The objects that belong to the selected routes, next to all evidence claims. -/
def routeClosure : DomainUsageContract :=
  let stepIds := contract.selectedStepIds decision
  { businessGoals := contract.businessGoals.filter (·.id ∈ decision.businessGoalIds)
    toolRoutes := contract.selectedRoutes decision
    inputBindings := contract.inputBindings.filter (·.id ∈ contract.selectedBindingIds decision)
    defaults := contract.defaults.filter (·.stepId ∈ stepIds)
    conditions := contract.conditions.filter fun item =>
      decide (item.routeId ∈ decision.includedRouteIds) && item.stepId.all (decide <| · ∈ stepIds)
    optionSources := contract.optionSources.filter fun item =>
      decide (item.consumerStepId ∈ stepIds) && item.producerStepId.all (decide <| · ∈ stepIds)
    relatedData := contract.relatedData.filter fun item =>
      decide (item.consumerStepId ∈ stepIds) && decide (item.producerStepId ∈ stepIds)
    resultConsumption := contract.resultConsumption.filter (·.stepId ∈ stepIds)
    errorHandling := contract.errorHandling.filter (·.id ∈ contract.selectedErrorIds decision)
    actionLifecycles :=
      contract.actionLifecycles.filter (·.id ∈ contract.selectedLifecycleIds decision)
    requiredScenarioIds := contract.requiredScenarioIds.filter (· ∈ release.scenarioIds)
    evidenceClaims := contract.evidenceClaims }

/-- The identifiers of the objects of a kind. -/
def targetIds (kind : TargetKind) : List String := (contract.targets kind).map Prod.fst

/-- An object refers to the claim, or it is the target of the claim. -/
def bears (claim : UsageEvidenceClaim) : Bool :=
  decide (claim.id ∈ contract.semanticClaimIds.flatten) ||
    decide (claim.target.targetId ∈ contract.targetIds claim.target.targetKind)

def projected : DomainUsageContract :=
  { contract.routeClosure decision release with
    evidenceClaims := contract.evidenceClaims.filter (contract.routeClosure decision release).bears }

/-- What is read back from the dump of a contract: a dump names every field of a default, also the
value that it was not given. -/
def readBack : DomainUsageContract :=
  { contract with defaults := contract.defaults.map fun default => { default with hasValue := true } }

def selectedContractProjection : Except String DomainUsageContract :=
  let selected := (contract.projected decision release).readBack
  if selected.validate = .ok () then
    if (selected.businessGoals.map (·.id)).toFinset = decision.businessGoalIds.toFinset ∧
        (selected.toolRoutes.map (·.id)).toFinset = decision.includedRouteIds.toFinset then
      .ok selected
    else .error "selected Usage route closure is incomplete"
  else .error "selected Usage route closure cannot be packaged safely"

end DomainUsageContract

/-! Parts of a list whose members are known by their names. -/

section Named
variable {α : Type} {items others : List α} {name : α → String}

theorem find?_of_sublist (hsub : others.Sublist items) (hnodup : (items.map name).Nodup) {item : α}
    (hitem : item ∈ others) :
    others.find? (fun other => decide (name other = name item)) =
      items.find? fun other => decide (name other = name item) := by
  rw [find?_of_nodup ((hsub.map name).nodup hnodup) hitem,
    find?_of_nodup hnodup (hsub.subset hitem)]

theorem sortedUnique_iff {values : List String} {fieldName : String} :
    sortedUnique values fieldName = .ok () ↔ values.Pairwise (· < ·) := by
  rw [sortedUnique, ensure_ok, beq_iff_eq]
  constructor
  · intro h
    have hsorted : (Text.sortedSet values).Pairwise (· ≤ ·) :=
      List.pairwise_insertionSort (· ≤ ·) values.dedup
    rw [← h] at hsorted
    have hnodup : values.Nodup := by
      rw [h]
      exact Text.nodup_sortedSet values
    exact hsorted.imp₂ (fun a b hle hne => lt_of_le_of_ne hle hne) hnodup
  · intro h
    have hnodup : values.Nodup := h.imp fun hlt => ne_of_lt hlt
    rw [Text.sortedSet, hnodup.dedup]
    exact (h.imp fun hlt => le_of_lt hlt).insertionSort_eq.symm

theorem sortedUnique_of_sublist {values kept : List String} {fieldName : String}
    (hsub : kept.Sublist values) (h : sortedUnique values fieldName = .ok ()) :
    sortedUnique kept fieldName = .ok () :=
  sortedUnique_iff.mpr ((sortedUnique_iff.mp h).sublist hsub)

end Named

/-! Steps of the selected routes have the same dependencies and ancestors as before. -/

namespace DomainUsageContract

section Steps
variable {contract other : DomainUsageContract} {decision : UsageDomainDecision}
  {route : UsageToolRoute} {stepId : String}

theorem mem_selectedRoutes :
    route ∈ contract.selectedRoutes decision ↔
      route ∈ contract.toolRoutes ∧ route.id ∈ decision.includedRouteIds := by
  rw [selectedRoutes, List.mem_filter, decide_eq_true_eq]

theorem mem_selectedStepIds :
    stepId ∈ contract.selectedStepIds decision ↔
      ∃ route ∈ contract.selectedRoutes decision, stepId ∈ route.stepIds := by
  rw [selectedStepIds, List.mem_flatMap]

theorem selectedSteps_sublist :
    ((contract.selectedRoutes decision).flatMap (·.steps)).Sublist contract.steps :=
  List.filter_sublist.flatMap _

theorem steps_nodup (h : contract.validate = .ok ()) : (contract.steps.map (·.id)).Nodup := by
  simp only [validate, validateContractClosure, checked_bind, ensure_ok, decide_eq_true_eq] at h
  exact h.2.2.2.1

/-- The steps of a selected route are found among those of all routes. -/
theorem step?_of_mem (hnodup : (contract.steps.map (·.id)).Nodup) (hroute : route ∈ contract.toolRoutes)
    {step : UsageToolStep} (hstep : step ∈ route.steps) : contract.step? step.id = some step :=
  find?_of_nodup hnodup (List.mem_flatMap.mpr ⟨route, hroute, hstep⟩)

theorem dependencies_of_mem (hnodup : (contract.steps.map (·.id)).Nodup)
    (hroute : route ∈ contract.toolRoutes) {step : UsageToolStep} (hstep : step ∈ route.steps) :
    contract.dependencies step.id = step.dependsOnStepIds :=
  dependenciesIn_of_mem hnodup (List.mem_flatMap.mpr ⟨route, hroute, hstep⟩)

/-- How many keys can still be put in wait, at most: one for every dependency of the steps of the
route that are not yet ancestors. -/
def awaited (route : UsageToolRoute) (ancestors : List String) : ℕ :=
  ((route.steps.filter (·.id ∉ ancestors)).map (·.dependsOnStepIds.length)).sum

theorem awaited_cons {steps : List UsageToolStep} (hnodup : (steps.map (·.id)).Nodup)
    {ancestors : List String} {step : UsageToolStep} (hstep : step ∈ steps)
    (hfresh : step.id ∉ ancestors) :
    ((steps.filter (·.id ∉ step.id :: ancestors)).map (·.dependsOnStepIds.length)).sum +
        step.dependsOnStepIds.length =
      ((steps.filter (·.id ∉ ancestors)).map (·.dependsOnStepIds.length)).sum := by
  induction steps with
  | nil => exact absurd hstep List.not_mem_nil
  | cons first rest ih =>
    obtain ⟨hnew, hrest⟩ := List.nodup_cons.mp hnodup
    rcases List.mem_cons.mp hstep with rfl | hmem
    · have hsame : rest.filter (·.id ∉ step.id :: ancestors) = rest.filter (·.id ∉ ancestors) := by
        refine List.filter_congr fun other hother => ?_
        have hne : other.id ≠ step.id := fun heq => hnew (List.mem_map.mpr ⟨other, hother, heq⟩)
        simp [hne]
      rw [List.filter_cons_of_neg (by simp), List.filter_cons_of_pos (by simpa using hfresh), hsame,
        List.map_cons, List.sum_cons, Nat.add_comm]
    · have hne : first.id ≠ step.id := fun heq => hnew (List.mem_map.mpr ⟨step, hmem, heq.symm⟩)
      by_cases hfirst : first.id ∈ ancestors
      · rw [List.filter_cons_of_neg (by simp [hfirst]), List.filter_cons_of_neg (by simp [hfirst])]
        exact ih hrest hmem
      · rw [List.filter_cons_of_pos (by simp [hfirst, hne]),
          List.filter_cons_of_pos (by simpa using hfirst), List.map_cons, List.map_cons,
          List.sum_cons, List.sum_cons, ← ih hrest hmem]
        omega

/-- Two contracts that have the route, and whose steps have one name each, find the same ancestors
in it. -/
theorem collectAncestors_eq (hok : RouteOk route)
    (hnodup : (contract.steps.map (·.id)).Nodup) (hroute : route ∈ contract.toolRoutes)
    (hnodup' : (other.steps.map (·.id)).Nodup) (hroute' : route ∈ other.toolRoutes)
    {fuel fuel' : ℕ} {ancestors pending : List String} (hpending : ∀ key ∈ pending, key ∈ route.stepIds)
    (hfuel : pending.length + awaited route ancestors ≤ fuel)
    (hfuel' : pending.length + awaited route ancestors ≤ fuel') :
    contract.collectAncestors fuel ancestors pending =
      other.collectAncestors fuel' ancestors pending := by
  induction fuel generalizing fuel' ancestors pending with
  | zero =>
    have hnil : pending = [] := List.eq_nil_of_length_eq_zero (by omega)
    subst hnil
    cases fuel' <;> rfl
  | succ fuel ih =>
    cases pending with
    | nil => cases fuel' <;> rfl
    | cons key rest =>
      rw [List.length_cons] at hfuel hfuel'
      obtain ⟨fuel', rfl⟩ : ∃ n, fuel' = n + 1 := ⟨fuel' - 1, by omega⟩
      have hrest : ∀ k ∈ rest, k ∈ route.stepIds := fun k hk => hpending k (List.mem_cons_of_mem _ hk)
      unfold collectAncestors
      by_cases hmem : key ∈ ancestors
      · rw [if_pos hmem, if_pos hmem]
        exact ih hrest (by omega) (by omega)
      · rw [if_neg hmem, if_neg hmem]
        obtain ⟨step, hstep, rfl⟩ := List.mem_map.mp (hpending key List.mem_cons_self)
        rw [dependencies_of_mem hnodup hroute hstep, dependencies_of_mem hnodup' hroute' hstep]
        have hsum : awaited route (step.id :: ancestors) + step.dependsOnStepIds.length =
          awaited route ancestors := awaited_cons hok.nodup hstep hmem
        refine ih ?_ ?_ ?_
        · intro k hk
          rcases List.mem_append.mp hk with hk | hk
          · refine hok.closed step.id (List.mem_map_of_mem hstep) k ?_
            rw [dependenciesIn_of_mem hok.nodup hstep]
            exact List.mem_reverse.mp hk
          · exact hrest k hk
        · rw [List.length_append, List.length_reverse]
          omega
        · rw [List.length_append, List.length_reverse]
          omega

/-- Every route can wait for at most as many keys as there are dependencies. -/
theorem awaited_le (hroute : route ∈ contract.toolRoutes) :
    awaited route [] ≤ (contract.steps.map (·.dependsOnStepIds.length)).sum := by
  have hsub : route.steps.Sublist contract.steps :=
    List.sublist_flatten_of_mem (List.mem_map_of_mem hroute)
  exact ((List.filter_sublist.trans hsub).map _).sum_le_sum fun _ _ => Nat.zero_le _

theorem ancestors_eq (hok : RouteOk route)
    (hnodup : (contract.steps.map (·.id)).Nodup) (hroute : route ∈ contract.toolRoutes)
    (hnodup' : (other.steps.map (·.id)).Nodup) (hroute' : route ∈ other.toolRoutes)
    (hstepId : stepId ∈ route.stepIds) :
    contract.ancestors stepId = other.ancestors stepId := by
  obtain ⟨step, hstep, rfl⟩ := List.mem_map.mp hstepId
  unfold ancestors
  rw [dependencies_of_mem hnodup hroute hstep, dependencies_of_mem hnodup' hroute' hstep]
  refine collectAncestors_eq hok hnodup hroute hnodup' hroute' ?_
    (Nat.add_le_add_left (awaited_le hroute) _) (Nat.add_le_add_left (awaited_le hroute') _)
  intro key hkey
  refine hok.closed step.id hstepId key ?_
  rw [dependenciesIn_of_mem hok.nodup hstep]
  exact List.mem_reverse.mp hkey

end Steps
end DomainUsageContract
end CapabilityCompiler.Usage
