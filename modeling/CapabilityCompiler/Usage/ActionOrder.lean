import CapabilityCompiler.Usage.Closure

/-! The order of the Action phases in the runs of a route. -/
namespace CapabilityCompiler.Usage
open Foundation

/-! What an accepted contract promises. -/

@[simp] theorem ensure_ok {condition : Bool} {message : String} :
    ensure condition message = .ok () ↔ condition = true := by
  cases condition <;> simp [ensure]

@[simp] theorem checked_bind {first : Except String Unit} {next : Unit → Except String Unit} :
    (first >>= next) = .ok () ↔ first = .ok () ∧ next () = .ok () := by
  cases first <;> simp [bind, Except.bind]

@[simp] theorem checkAll_ok {α : Type} {check : α → Except String Unit} {items : List α} :
    checkAll check items = .ok () ↔ ∀ item ∈ items, check item = .ok () := by
  induction items with
  | nil => simp [checkAll]
  | cons item rest ih =>
    have hbind := @checked_bind (check item) fun _ => checkAll check rest
    rw [checkAll]
    exact hbind.trans (by simp [ih])

theorem sortedUnique_nodup {values : List String} {fieldName : String}
    (h : sortedUnique values fieldName = .ok ()) : values.Nodup := by
  rw [sortedUnique, ensure_ok, beq_iff_eq] at h
  rw [h]
  exact Text.nodup_sortedSet values

theorem find?_of_nodup {α : Type} {items : List α} {name : α → String}
    (hnodup : (items.map name).Nodup) {item : α} (hitem : item ∈ items) :
    items.find? (fun other => decide (name other = name item)) = some item := by
  induction items with
  | nil => exact absurd hitem List.not_mem_nil
  | cons first rest ih =>
    rw [List.map_cons] at hnodup
    obtain ⟨hfresh, hrest⟩ := List.nodup_cons.mp hnodup
    rcases List.mem_cons.mp hitem with rfl | hitem
    · simp
    · have hne : name first ≠ name item := fun heq =>
        hfresh (heq ▸ List.mem_map_of_mem hitem)
      rw [List.find?_cons_of_neg (by simpa using hne)]
      exact ih hrest hitem

theorem dependenciesIn_of_mem {steps : List UsageToolStep} (hnodup : (steps.map (·.id)).Nodup)
    {step : UsageToolStep} (hstep : step ∈ steps) :
    dependenciesIn steps step.id = step.dependsOnStepIds := by
  rw [dependenciesIn, find?_of_nodup hnodup hstep]
  rfl

/-- What a route has that passes its own checks. -/
structure RouteOk (route : UsageToolRoute) : Prop where
  nodup : route.stepIds.Nodup
  closed : ∀ stepId ∈ route.stepIds, ∀ dependencyId ∈ dependenciesIn route.steps stepId,
    dependencyId ∈ route.stepIds
  acyclic : (Precedence.visitKeys (dependenciesIn route.steps) route.stepIds).isSome = true

theorem routeOk_of_validate {route : UsageToolRoute} (h : route.validate = .ok ()) :
    RouteOk route := by
  simp only [UsageToolRoute.validate, UsageToolRoute.validateRouteGraph, checked_bind, ensure_ok,
    checkAll_ok] at h
  obtain ⟨-, -, -, hsorted, -, hdependencies, hacyclic⟩ := h
  have hnodup := sortedUnique_nodup hsorted
  refine ⟨hnodup, ?_, hacyclic⟩
  intro stepId hstepId dependencyId hdependency
  obtain ⟨step, hstep, rfl⟩ := List.mem_map.mp hstepId
  rw [dependenciesIn_of_mem hnodup hstep] at hdependency
  have hall := List.all_eq_true.mp (hdependencies step hstep) dependencyId hdependency
  exact List.contains_iff_mem.mp hall

/-- The route graphs that pass are the acyclic ones that are closed under dependencies. -/
theorem validateRouteGraph_ok_iff {route : UsageToolRoute} (hnodup : route.stepIds.Nodup) :
    route.validateRouteGraph = .ok () ↔ route.resultStepId ∈ route.stepIds ∧
      (∀ step ∈ route.steps, step.dependsOnStepIds ⊆ route.stepIds) ∧
      ∃ rank : String → ℕ, ∀ step ∈ route.steps, ∀ dependencyId ∈ step.dependsOnStepIds,
        rank dependencyId < rank step.id := by
  simp only [UsageToolRoute.validateRouteGraph, checked_bind, ensure_ok, checkAll_ok,
    List.contains_iff_mem, List.all_eq_true]
  refine and_congr_right fun _ => and_congr_right fun hdependencies => ?_
  have hclosed : ∀ stepId ∈ route.stepIds, ∀ dependencyId ∈ dependenciesIn route.steps stepId,
      dependencyId ∈ route.stepIds := by
    intro stepId hstepId dependencyId hdependency
    obtain ⟨step, hstep, rfl⟩ := List.mem_map.mp hstepId
    rw [dependenciesIn_of_mem hnodup hstep] at hdependency
    exact hdependencies step hstep dependencyId hdependency
  rw [Precedence.visitKeys_isSome_iff hclosed]
  refine exists_congr fun rank => ?_
  constructor
  · intro hrank step hstep dependencyId hdependency
    rw [← dependenciesIn_of_mem hnodup hstep] at hdependency
    exact hrank step.id (List.mem_map_of_mem hstep) dependencyId hdependency
  · intro hrank stepId hstepId dependencyId hdependency
    obtain ⟨step, hstep, rfl⟩ := List.mem_map.mp hstepId
    rw [dependenciesIn_of_mem hnodup hstep] at hdependency
    exact hrank step hstep dependencyId hdependency

namespace DomainUsageContract
variable (contract : DomainUsageContract) (route : UsageToolRoute)

/-! Runs of a route. -/

/-- A retry of the step is declared by the step itself or by an error branch of its route. -/
def mayRepeat (stepId : String) : Prop :=
  (∃ step ∈ route.steps, step.id = stepId ∧
    (step.retry = .safe ∨ step.retry = .statusOnly ∧ step.actionPhase = some .status)) ∨
  ∃ branchId ∈ route.errorBranchIds, ∃ branch, contract.branch? branchId = some branch ∧
    (branch.behavior = .retry ∨ branch.behavior = .queryStatus) ∧ stepId ∈ branch.stepIds

/-- The steps executed so far: every step after its dependencies, and again only as declared. -/
def RouteRun (run : List String) : Prop :=
  Precedence.Run (dependenciesIn route.steps) route.stepIds (contract.mayRepeat route) run

def lifecycleOf? : Option UsageActionLifecycle :=
  route.actionLifecycleId.bind contract.lifecycle?

/-- The step that the lifecycle of the route names for a phase. -/
def namedStep? (phase : ActionPhase) : Option String :=
  (contract.lifecycleOf? route).bind fun lifecycle => match phase with
    | .prepare => some lifecycle.prepareStepId
    | .approve => lifecycle.approveStepId
    | .commit => some lifecycle.commitStepId
    | .status => some lifecycle.statusStepId

/-- The order of the phases in a run. -/
structure PhasesKept (run : List String) : Prop where
  commit_after : ∀ step ∈ route.steps, step.actionPhase = some .commit → ∀ before after,
    run = before ++ step.id :: after → ∃ lifecycle, contract.lifecycleOf? route = some lifecycle ∧
      lifecycle.prepareStepId ∈ before ∧ (lifecycle.approval ≠ .never →
        ∃ approveStepId ∈ before, lifecycle.approveStepId = some approveStepId)
  named : ∀ step ∈ route.steps, step.id ∈ run → ∀ phase, step.actionPhase = some phase →
    contract.namedStep? route phase = some step.id
  once : ∀ step ∈ route.steps, step.actionPhase = some .approve ∨ step.actionPhase = some .commit →
    run.count step.id ≤ 1

/-- Every step with a phase is the one that the lifecycle names for it, and no approve or commit
step declares itself safe to retry. -/
def PhasesDeclared : Prop :=
  ∀ step ∈ route.steps, ∀ phase, step.actionPhase = some phase →
    contract.namedStep? route phase = some step.id ∧
    (phase = .approve ∨ phase = .commit → step.retry ≠ .safe)

variable {contract route}

/-- What the closure of a contract says of the lifecycle of a route. -/
structure LifecycleOk (contract : DomainUsageContract) (route : UsageToolRoute)
    (lifecycle : UsageActionLifecycle) : Prop where
  commit_prepare : lifecycle.prepareStepId ∈ dependenciesIn route.steps lifecycle.commitStepId
  commit_approve : ∀ approveStepId, lifecycle.approveStepId = some approveStepId →
    approveStepId ∈ dependenciesIn route.steps lifecycle.commitStepId
  approval : lifecycle.approval ≠ .never → lifecycle.approveStepId.isSome = true

theorem approveStepId_of_validateApproval {lifecycle : UsageActionLifecycle}
    (h : lifecycle.validateApproval = .ok ()) (hne : lifecycle.approval ≠ .never) :
    lifecycle.approveStepId.isSome = true := by
  unfold UsageActionLifecycle.validateApproval at h
  cases happroval : lifecycle.approval with
  | never => exact absurd happroval hne
  | always =>
    rw [happroval] at h
    simp only [checked_bind, ensure_ok, Bool.and_eq_true] at h
    exact h.1.1.1.1
  | conditional =>
    rw [happroval] at h
    simp only [checked_bind, ensure_ok, Bool.and_eq_true] at h
    exact h.1.1.1.2

theorem mem_of_find?_id {lifecycleId : String} {lifecycle : UsageActionLifecycle}
    (h : contract.lifecycle? lifecycleId = some lifecycle) :
    lifecycle ∈ contract.actionLifecycles :=
  List.mem_of_find?_eq_some h

/-- What an accepted contract says of one of its routes. -/
structure RouteAccepted (contract : DomainUsageContract) (route : UsageToolRoute) : Prop where
  mem : route ∈ contract.toolRoutes
  unique : (contract.steps.map (·.id)).Nodup
  graph : RouteOk route
  lifecycle : ∀ lifecycle, contract.lifecycleOf? route = some lifecycle →
    LifecycleOk contract route lifecycle
  branch : ∀ branchId ∈ route.errorBranchIds, contract.validateBranch route branchId = .ok ()

theorem routeAccepted_of_validate (h : contract.validate = .ok ())
    (hroute : route ∈ contract.toolRoutes) : RouteAccepted contract route := by
  simp only [validate, validateParts, validateContractClosure, checked_bind, checkAll_ok,
    ensure_ok, decide_eq_true_eq] at h
  obtain ⟨hparts, -, -, hunique, hroutes, -⟩ := h
  obtain ⟨-, hrouteParts, -, -, -, -, -, -, -, hlifecycles, -⟩ := hparts
  have hchecked := hroutes route hroute
  simp only [validateRoute, checked_bind, checkAll_ok] at hchecked
  obtain ⟨-, -, -, -, hbranches, hactions⟩ := hchecked
  refine ⟨hroute, hunique, routeOk_of_validate (hrouteParts route hroute), ?_, hbranches⟩
  intro lifecycle hlifecycle
  obtain ⟨lifecycleId, hid, hfound⟩ := Option.bind_eq_some_iff.mp hlifecycle
  simp only [validateActions, hid, hfound, validateLifecycle, checked_bind, ensure_ok] at hactions
  obtain ⟨-, -, -, hcommit, -⟩ := hactions
  rw [List.all_cons, Bool.and_eq_true] at hcommit
  refine ⟨List.contains_iff_mem.mp hcommit.1, ?_, ?_⟩
  · intro approveStepId happrove
    have hmem : approveStepId ∈ lifecycle.approveStepId.toList := by
      rw [happrove]
      exact List.mem_singleton_self _
    exact List.contains_iff_mem.mp (List.all_eq_true.mp hcommit.2 approveStepId hmem)
  · exact approveStepId_of_validateApproval (hlifecycles lifecycle (mem_of_find?_id hfound))

theorem phase_of_step? (h : RouteAccepted contract route) {step : UsageToolStep}
    (hstep : step ∈ route.steps) : contract.step? step.id = some step := by
  have hmem : step ∈ contract.steps := List.mem_flatMap.mpr ⟨route, h.mem, hstep⟩
  exact find?_of_nodup h.unique hmem

/-- An error branch that lets steps be executed again names no approve or commit step. -/
theorem branch_phase (h : RouteAccepted contract route) {branchId : String}
    (hbranchId : branchId ∈ route.errorBranchIds) {branch : UsageErrorBranch}
    (hfound : contract.branch? branchId = some branch)
    (hbehavior : branch.behavior = .retry ∨ branch.behavior = .queryStatus) {step : UsageToolStep}
    (hstep : step ∈ route.steps) (hmem : step.id ∈ branch.stepIds) :
    step.actionPhase = none ∨ step.actionPhase = some .status := by
  have hchecked := h.branch branchId hbranchId
  simp only [validateBranch, hfound, checked_bind, ensure_ok, Bool.not_eq_true'] at hchecked
  obtain ⟨-, hretry, hquery⟩ := hchecked
  have hphase : step.actionPhase ∈ contract.phasesOf branch.stepIds := by
    refine List.mem_map.mpr ⟨step.id, hmem, ?_⟩
    rw [phase_of_step? h hstep]
    rfl
  rcases hbehavior with hbehavior | hbehavior
  · left
    simp only [hbehavior, decide_true, Bool.true_and, List.any_eq_false] at hretry
    simpa using hretry _ hphase
  · right
    simp only [hbehavior, decide_true, Bool.true_and, List.any_eq_false] at hquery
    simpa using hquery _ hphase

/-- Under the declared phases no approve or commit step may be repeated. -/
theorem not_mayRepeat (h : RouteAccepted contract route) (hdeclared : contract.PhasesDeclared route)
    {step : UsageToolStep} (hstep : step ∈ route.steps)
    (hphase : step.actionPhase = some .approve ∨ step.actionPhase = some .commit) :
    ¬ contract.mayRepeat route step.id := by
  rintro (⟨other, hother, hid, hretry⟩ | ⟨branchId, hbranchId, branch, hfound, hbehavior, hmem⟩)
  · obtain rfl : other = step := List.inj_on_of_nodup_map h.graph.nodup hother hstep hid
    have hsafe : other.retry ≠ .safe := by
      rcases hphase with hphase | hphase
      · exact (hdeclared other hstep _ hphase).2 (Or.inl rfl)
      · exact (hdeclared other hstep _ hphase).2 (Or.inr rfl)
    rcases hretry with hretry | ⟨-, hstatus⟩
    · exact hsafe hretry
    · rcases hphase with hphase | hphase <;> rw [hphase] at hstatus <;>
        exact absurd hstatus (by decide)
  · have hnone := branch_phase h hbranchId hfound hbehavior hstep hmem
    rcases hphase with hphase | hphase <;> rw [hphase] at hnone <;>
      exact absurd hnone (by decide)

/-- There is a run that executes every step of the route. -/
theorem exists_full_run (contract : DomainUsageContract) (h : RouteOk route) :
    ∃ run, contract.RouteRun route run ∧ ∀ stepId, stepId ∈ run ↔ stepId ∈ route.stepIds := by
  obtain ⟨order, horder⟩ := Option.isSome_iff_exists.mp h.acyclic
  obtain ⟨hordered, hmem⟩ := Precedence.ordered_of_visitKeys h.closed horder
  refine ⟨order.reverse, hordered.run fun stepId hstepId => (hmem stepId).mp hstepId, ?_⟩
  intro stepId
  rw [List.mem_reverse, hmem]

/-- Every run of a route of an accepted contract keeps the order of the phases if and only if the
phases are declared. -/
theorem phases_kept_iff (haccepted : contract.validate = .ok ())
    (hroute : route ∈ contract.toolRoutes) :
    (∀ run, contract.RouteRun route run → contract.PhasesKept route run) ↔
      contract.PhasesDeclared route := by
  have h := routeAccepted_of_validate haccepted hroute
  constructor
  · intro hkept step hstep phase hphase
    obtain ⟨run, hrun, hmem⟩ := exists_full_run contract h.graph
    have hexecuted : step.id ∈ run := (hmem step.id).mpr (List.mem_map_of_mem hstep)
    refine ⟨(hkept run hrun).named step hstep hexecuted phase hphase, fun hmutates hsafe => ?_⟩
    have hagain : contract.RouteRun route (run ++ [step.id]) :=
      .again hrun hexecuted (Or.inl ⟨step, hstep, rfl, Or.inl hsafe⟩)
    have honce := (hkept _ hagain).once step hstep (by
      rw [hphase]
      exact hmutates.imp (congrArg some) (congrArg some))
    have hcount : 0 < run.count step.id := List.count_pos_iff.mpr hexecuted
    rw [List.count_append, List.count_singleton_self] at honce
    omega
  · intro hdeclared run hrun
    refine ⟨?_, ?_, ?_⟩
    · intro step hstep hphase before after heq
      have hnamed := (hdeclared step hstep .commit hphase).1
      obtain ⟨lifecycle, hlifecycle, hcommit⟩ := Option.bind_eq_some_iff.mp hnamed
      have hcommitId : lifecycle.commitStepId = step.id := Option.some.inj hcommit
      have hok := h.lifecycle lifecycle hlifecycle
      rw [heq, ← hcommitId] at hrun
      have hbefore := Precedence.Run.deps_before hrun
      refine ⟨lifecycle, hlifecycle, hbefore _ hok.commit_prepare, fun hne => ?_⟩
      obtain ⟨approveStepId, happrove⟩ := Option.isSome_iff_exists.mp (hok.approval hne)
      exact ⟨approveStepId, hbefore _ (hok.commit_approve _ happrove), happrove⟩
    · exact fun step hstep hexecuted phase hphase => (hdeclared step hstep phase hphase).1
    · exact fun step hstep hphase => hrun.count_le_one (not_mayRepeat h hdeclared hstep hphase)

/-! A contract whose commit step says that it is safe to retry. -/

private def idDump (id : String) : Json := .obj [("id", .str id)]

private def paymentStep (id : String) (dependencies bindings : List String) (retry : StepRetry)
    (phase : ActionPhase) : UsageToolStep :=
  { id, capabilityId := "payment", dependsOnStepIds := dependencies, bindingIds := bindings
    condition := none, retry, actionPhase := some phase }

private def paymentBinding (id consumerStepId : String) : UsageStepBinding :=
  { id, sourceKind := .priorStepOutput, sourceStepId := some "prepare", consumerStepId
    valueKind := .actionHandle, dump := idDump id }

private def paymentRoute (retry : StepRetry) : UsageToolRoute :=
  { id := "pay-route", businessGoalId := "pay"
    steps := [paymentStep "commit" ["prepare"] ["bind-commit"] retry .commit,
      paymentStep "prepare" [] [] .never .prepare,
      paymentStep "status" ["prepare"] ["bind-status"] .statusOnly .status]
    errorBranchIds := [], resultStepId := "commit", actionLifecycleId := some "payment"
    dump := idDump "pay-route" }

private def paymentLifecycle : UsageActionLifecycle :=
  { id := "payment", prepareStepId := "prepare", approveActionHandleBindingId := none
    commitActionHandleBindingId := "bind-commit", statusActionHandleBindingId := "bind-status"
    approval := .never, approvalCondition := none, approveStepId := none
    approvalHandleBindingId := none, commitStepId := "commit", statusStepId := "status"
    dump := idDump "payment" }

private def paymentContract (retry : StepRetry) : DomainUsageContract :=
  { businessGoals := [{ id := "pay", evidenceClaimIds := ["claim"], dump := idDump "pay" }]
    toolRoutes := [paymentRoute retry]
    inputBindings := [paymentBinding "bind-commit" "commit", paymentBinding "bind-status" "status"]
    defaults := [], conditions := [], optionSources := [], relatedData := []
    resultConsumption := [{ id := "return", capabilityId := "payment", stepId := "commit"
                            fieldPointers := ["/result"], evidenceClaimIds := ["claim"]
                            dump := idDump "return" }]
    errorHandling := [], actionLifecycles := [paymentLifecycle]
    requiredScenarioIds := ["scenario"]
    evidenceClaims := [{ id := "claim", target := ⟨.businessGoal, "pay", ""⟩
                         sourceIds := ["source"] }] }

private theorem paymentContract_accepted (retry : StepRetry) :
    (paymentContract retry).validate = .ok () := by
  cases retry <;> rfl

private theorem paymentRoute_run (retry : StepRetry) :
    (paymentContract retry).RouteRun (paymentRoute retry) ["prepare", "commit"] := by
  have hprepare : (paymentContract retry).RouteRun (paymentRoute retry) ["prepare"] :=
    .first .nil (by cases retry <;> decide) List.not_mem_nil
      (by
        intro dependencyId hdependency
        have hnone : dependenciesIn (paymentRoute retry).steps "prepare" = [] := rfl
        rw [hnone] at hdependency
        exact absurd hdependency List.not_mem_nil)
  refine .first hprepare (by cases retry <;> decide) (by decide) ?_
  intro dependencyId hdependency
  have hone : dependenciesIn (paymentRoute retry).steps "commit" = ["prepare"] := rfl
  rw [hone] at hdependency
  exact hdependency

theorem phases_kept_payment :
    (paymentContract .never).PhasesKept (paymentRoute .never) ["prepare", "commit"] := by
  refine (phases_kept_iff (paymentContract_accepted .never)
    (List.mem_singleton_self _)).mpr ?_ _ (paymentRoute_run .never)
  intro step hstep phase hphase
  have hsteps : step = paymentStep "commit" ["prepare"] ["bind-commit"] .never .commit ∨
      step = paymentStep "prepare" [] [] .never .prepare ∨
      step = paymentStep "status" ["prepare"] ["bind-status"] .statusOnly .status := by
    simpa [paymentRoute] using hstep
  rcases hsteps with rfl | rfl | rfl <;> obtain rfl := Option.some.inj hphase <;>
    exact ⟨rfl, fun _ hsafe => absurd hsafe (by decide)⟩

/-- A commit step that declares itself safe to retry is accepted, and executed twice. -/
theorem commit_repeated :
    (paymentContract .safe).validate = .ok () ∧
    (paymentContract .safe).RouteRun (paymentRoute .safe) ["prepare", "commit", "commit"] ∧
    ¬ (paymentContract .safe).PhasesKept (paymentRoute .safe) ["prepare", "commit", "commit"] := by
  refine ⟨paymentContract_accepted .safe, ?_, ?_⟩
  · refine .again (paymentRoute_run .safe) (by decide) (Or.inl ⟨_, List.mem_cons_self, rfl, ?_⟩)
    exact Or.inl rfl
  · intro hkept
    have honce := hkept.once _ List.mem_cons_self (Or.inr rfl)
    exact absurd honce (by decide)

end DomainUsageContract
end CapabilityCompiler.Usage
