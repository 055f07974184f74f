import CapabilityCompiler.Actions.Authorization
import CapabilityCompiler.Actions.CompiledReferences
import CapabilityCompiler.Scope.Completion

/-! The callability of compiled capabilities is exact for the paths of reads; actions need every
scope of their proof. -/
namespace CapabilityCompiler.Scope
open Foundation Models Execution

/-! The compiled requirements. -/

/-- The requirements of a capability whose paths are these. -/
structure CapabilityScopeRequirements.Describe (requirements : CapabilityScopeRequirements)
    (paths : Set ScopeSet) : Prop where
  describes : Alternatives.Describes requirements.completionAlternatives
    requirements.alwaysRequired (requirements.alwaysRequired ∪ requirements.conditionallyRequired)
    paths
  policy_subset : requirements.policyAlwaysRequired ⊆ requirements.alwaysRequired
  disjoint : Disjoint requirements.alwaysRequired requirements.conditionallyRequired
  feasible_subset : requirements.alwaysRequired ∪ requirements.conditionallyRequired ⊆
    requirements.allReferenced

theorem describe_requirementsOf {workflow : PathRequirements} {F : Set ScopeSet}
    (h : workflow.Describe F) (id : String) (policyScopes : ScopeSet) :
    (requirementsOf id policyScopes workflow).Describe (Alternatives.joined F {policyScopes}) := by
  have hjoined := describes_minimalAntichain (h.describes.join (.single policyScopes))
  have halternatives : (workflow.alternatives.flatMap fun s => [policyScopes].map (s ∪ ·)) =
      workflow.alternatives.map (· ∪ policyScopes) := by
    simp only [List.map_cons, List.map_nil]
    exact (List.map_eq_flatMap ..).symm
  have hfeasible : workflow.always ∪ policyScopes ∪
      ((workflow.feasibleUnion ∪ policyScopes) \ (workflow.always ∪ policyScopes)) =
      workflow.feasibleUnion ∪ policyScopes :=
    Finset.union_sdiff_of_subset hjoined.always_subset_union
  rw [halternatives] at hjoined
  refine ⟨?_, Finset.subset_union_right, Finset.disjoint_sdiff, ?_⟩
  · simp only [requirementsOf, hfeasible]
    exact hjoined
  · simp only [requirementsOf, hfeasible]
    exact Finset.union_subset_union_left h.feasible_subset

theorem describe_analyzeWorkflows {operations : Operations} {capability : Capability}
    {policy : Policies.Policy} {requirements : CapabilityScopeRequirements}
    (h : analyzeCapabilityScopeRequirements capability policy operations = .ok requirements) :
    requirements.Describe (capabilityPaths policy operations capability) := by
  unfold analyzeCapabilityScopeRequirements at h
  cases hworkflow : analyzeWorkflows operations capability with
  | error message => simp [hworkflow, Except.map] at h
  | ok workflow =>
    simp only [hworkflow, Except.map, Except.ok.injEq] at h
    subst h
    cases capability with
    | read capability =>
      have hsteps := describe_analyzeSteps capability.workflow describe_emptyPath hworkflow
      rw [Alternatives.empty_joined] at hsteps
      exact describe_requirementsOf hsteps _ _
    | action capability =>
      rw [analyzeWorkflows] at hworkflow
      cases hpreview : analyzeSteps operations emptyPath capability.previewWorkflow with
      | error message => simp [hpreview, Except.bind] at hworkflow
      | ok preview =>
        cases hcommit : analyzeSteps operations emptyPath capability.commitWorkflow with
        | error message => simp [hpreview, hcommit, Except.bind, Except.map] at hworkflow
        | ok commit =>
          simp only [hpreview, hcommit, Except.bind, Except.map, Except.ok.injEq] at hworkflow
          subst hworkflow
          have hfirst := describe_analyzeSteps capability.previewWorkflow describe_emptyPath hpreview
          have hsecond := describe_analyzeSteps capability.commitWorkflow describe_emptyPath hcommit
          rw [Alternatives.empty_joined] at hfirst hsecond
          exact describe_requirementsOf (describe_combineRequired hfirst hsecond) _ _

/-- Requirements that describe a family of paths pass the validation of the runtime. -/
theorem CapabilityScopeRequirements.Describe.valid {requirements : CapabilityScopeRequirements}
    {paths : Set ScopeSet} (h : requirements.Describe paths) :
    requirementInvalid requirements = false := by
  have hsome := h.describes.alternatives_ne_nil
  have hcontained : ∀ s ∈ requirements.completionAlternatives, requirements.alwaysRequired ⊆ s :=
    fun s hs x hx => (h.describes.mem_always_iff x).mp hx s hs
  have hinter : requirements.alwaysRequired ∩ requirements.conditionallyRequired = ∅ :=
    Finset.disjoint_iff_inter_eq_empty.mp h.disjoint
  simp only [requirementInvalid, h.policy_subset, h.feasible_subset, hinter, Bool.or_eq_false_iff,
    decide_eq_false_iff_not, not_true_eq_false, not_false_eq_true, ne_eq, and_true,
    List.any_eq_false, decide_eq_true_eq, not_not, List.isEmpty_eq_false_iff]
  exact ⟨hsome, hcontained⟩

/-- The status tells the paths within the granted scopes apart. -/
theorem CapabilityScopeRequirements.Describe.status {requirements : CapabilityScopeRequirements}
    {paths : Set ScopeSet} (h : requirements.Describe paths) (S : ScopeSet) :
    ((dimension requirements (some S)).status = .callable ↔ ∀ path ∈ paths, path ⊆ S) ∧
      ((dimension requirements (some S)).status = .denied ↔ ¬ ∃ path ∈ paths, path ⊆ S) ∧
      ((dimension requirements (some S)).status = .conditional ↔
        ¬ (∀ path ∈ paths, path ⊆ S) ∧ ∃ path ∈ paths, path ⊆ S) := by
  have hall := h.describes.union_subset_iff S
  have hany := h.describes.exists_subset_iff S
  have halternative : requirements.completionAlternatives.any (· ⊆ S) = true ↔
      ∃ path ∈ paths, path ⊆ S := by
    rw [← hany]
    simp only [List.any_eq_true, decide_eq_true_eq]
  obtain ⟨first, hfirst⟩ := h.describes.nonempty
  simp only [dimension]
  by_cases hcallable : requirements.alwaysRequired ∪ requirements.conditionallyRequired ⊆ S
  · have hpaths := hall.mp hcallable
    have hsome : ∃ path ∈ paths, path ⊆ S := ⟨first, hfirst, hpaths first hfirst⟩
    rw [if_pos hcallable]
    exact ⟨iff_of_true rfl hpaths, iff_of_false nofun (not_not.mpr hsome),
      iff_of_false nofun fun hboth => hboth.1 hpaths⟩
  · have hpaths : ¬ ∀ path ∈ paths, path ⊆ S := fun hp => hcallable (hall.mpr hp)
    rw [if_neg hcallable]
    by_cases hconditional : requirements.completionAlternatives.any (· ⊆ S) = true
    · have hsome := halternative.mp hconditional
      rw [if_pos hconditional]
      exact ⟨iff_of_false nofun hpaths, iff_of_false nofun (not_not.mpr hsome),
        iff_of_true rfl ⟨hpaths, hsome⟩⟩
    · have hnone : ¬ ∃ path ∈ paths, path ⊆ S := fun hsome => hconditional (halternative.mpr hsome)
      rw [if_neg hconditional]
      exact ⟨iff_of_false nofun hpaths, iff_of_true rfl hnone,
        iff_of_false nofun fun hboth => hnone hboth.2⟩

/-! Scopes are declared by operations or by the policy. -/

/-- No declared scope is the empty text. -/
structure ScopesNamed (policy : Policies.Policy) (operations : Operations) : Prop where
  policy : "" ∉ policy.requiredScopes
  operations : ∀ operation ∈ operations.map Prod.snd, "" ∉ operation.http.scopes

theorem mem_of_operation? {operations : Operations} {id : String} {operation : Operation}
    (h : operation? id operations = some operation) : operation ∈ operations.map Prod.snd := by
  obtain ⟨entry, hfound, rfl⟩ := Option.map_eq_some_iff.mp h
  exact List.mem_map_of_mem (List.mem_of_find?_eq_some hfound)

section Named
variable {operations : Operations}

mutual

theorem named_analyzeStep
    (hnamed : ∀ operation ∈ operations.map Prod.snd, "" ∉ operation.http.scopes)
    (step : WorkflowStep) {requirements : PathRequirements}
    (h : analyzeStep operations step = .ok requirements) : "" ∉ requirements.structuralUnion := by
  cases step with
  | call id operation arguments =>
    simp only [analyzeStep] at h
    cases hfound : operation? operation operations with
    | none => simp [hfound] at h
    | some found =>
      simp only [hfound, Except.ok.injEq] at h
      subst h
      exact fun hmem => hnamed found (mem_of_operation? hfound) (List.mem_toFinset.mp hmem)
  | branch id condition thenSteps elseSteps =>
    simp only [analyzeStep] at h
    cases hthen : analyzeSteps operations emptyPath thenSteps with
    | error message => simp [hthen, Except.bind] at h
    | ok first =>
      cases helse : analyzeSteps operations emptyPath elseSteps with
      | error message => simp [hthen, helse, Except.bind, Except.map] at h
      | ok second =>
        simp only [hthen, helse, Except.bind, Except.map, Except.ok.injEq] at h
        subst h
        have hfirst := named_analyzeSteps hnamed thenSteps (Finset.notMem_empty _) hthen
        have hsecond := named_analyzeSteps hnamed elseSteps (Finset.notMem_empty _) helse
        exact fun hmem => (Finset.mem_union.mp hmem).elim hfirst hsecond
  | parallel id children => exact named_analyzeSteps hnamed children (Finset.notMem_empty _) h
  | «foreach» id items itemName maxItems workflow =>
    simp only [analyzeStep] at h
    cases hbody : analyzeSteps operations emptyPath workflow with
    | error message => simp [hbody, Except.map] at h
    | ok body =>
      simp only [hbody, Except.map, Except.ok.injEq] at h
      subst h
      have hnot := named_analyzeSteps hnamed workflow (Finset.notMem_empty _) hbody
      unfold foreachRequirements
      split
      · exact hnot
      · exact hnot
      · exact hnot
  | _ =>
    simp only [analyzeStep, Except.ok.injEq] at h
    subst h
    exact Finset.notMem_empty _

theorem named_analyzeSteps
    (hnamed : ∀ operation ∈ operations.map Prod.snd, "" ∉ operation.http.scopes)
    (steps : List WorkflowStep) {result requirements : PathRequirements}
    (hresult : "" ∉ result.structuralUnion)
    (h : analyzeSteps operations result steps = .ok requirements) :
    "" ∉ requirements.structuralUnion := by
  cases steps with
  | nil =>
    simp only [analyzeSteps, Except.ok.injEq] at h
    exact h ▸ hresult
  | cons step rest =>
    simp only [analyzeSteps] at h
    cases hstep : analyzeStep operations step with
    | error message => simp [hstep, Except.bind] at h
    | ok first =>
      simp only [hstep, Except.bind] at h
      have hfirst := named_analyzeStep hnamed step hstep
      exact named_analyzeSteps hnamed rest
        (fun hmem => (Finset.mem_union.mp hmem).elim hresult hfirst) h

end

end Named

/-- Every scope of the requirements is a referenced one. -/
theorem CapabilityScopeRequirements.Describe.nonEmptyScopes
    {requirements : CapabilityScopeRequirements} {paths : Set ScopeSet}
    (h : requirements.Describe paths) (hnamed : "" ∉ requirements.allReferenced) :
    NonEmptyScopes requirements := by
  have hfeasible : "" ∉ requirements.alwaysRequired ∪ requirements.conditionallyRequired :=
    fun hmem => hnamed (h.feasible_subset hmem)
  have halways : "" ∉ requirements.alwaysRequired :=
    fun hmem => hfeasible (Finset.mem_union_left _ hmem)
  refine ⟨hnamed, fun hmem => halways (h.policy_subset hmem), halways,
    fun hmem => hfeasible (Finset.mem_union_right _ hmem), fun s hs hmem => ?_⟩
  exact hfeasible ((h.describes.union "").mpr ⟨s, h.describes.attained s hs, hmem⟩)

/-- The requirements stored for an action: one set for every lifecycle. -/
theorem describe_action {id : String} {policyScopes actionScopes : ScopeSet}
    (h : policyScopes ⊆ actionScopes) :
    (⟨id, policyScopes, actionScopes, ∅, actionScopes, [actionScopes]⟩ :
      CapabilityScopeRequirements).Describe {actionScopes} where
  describes := by
    simp only [Finset.union_empty]
    exact .single actionScopes
  policy_subset := h
  disjoint := Finset.disjoint_empty_right _
  feasible_subset := by simp

/-! Exactness. -/

section Exactness
variable (isValid : Json → Json → Bool) (policy : Policies.Policy) (operations : Operations)
  (actionSemantics : List (String × ActionSemantics))

def actionProof (action : ActionCapability) : Compiler.ActionProof :=
  Compiler.proveActionCapability isValid s!"capabilities/{action.id}.yaml" action operations
    actionSemantics (some policy)

/-- The scopes an action needs at once. -/
def actionScopes (action : ActionCapability) : ScopeSet :=
  (actionProof isValid policy operations actionSemantics action).requiredScopes.toFinset ∪
    policy.requiredScopes.toFinset

/-- The paths the status of a compiled capability is about. -/
def compiledPaths : Capability → Set ScopeSet
  | .read capability => capabilityPaths policy operations (.read capability)
  | .action action => {actionScopes isValid policy operations actionSemantics action}

/-- Nothing lets the capability run to its end with these scopes: a call of a read does not
complete; an action is not authorized, or each of its operations is refused. -/
def Refused (S : ScopeSet) : Capability → Prop
  | .read capability => ∀ runtime : GenericRuntime, runtime.operations = operations →
      runtime.policy? capability.policy = some policy →
      runtime.principalContext.effectiveScopes.toFinset = S → ∀ maxOutputBytes arguments,
      ¬ (runtime.executeCall capability maxOutputBytes arguments).Completes
  | .action action => ∀ context : Actions.PrincipalContext, context.effectiveScopes.toFinset = S →
      (∀ deployment (definition : Actions.CompiledActionDefinition),
        definition.proof = actionProof isValid policy operations actionSemantics action →
        ∃ error, Actions.authorize deployment definition context = .error error) ∨
      ∀ caller : Actions.ActionOperationCaller, caller.policy = policy →
        caller.principalContext = context →
        ∀ call, ∃ error, caller.request call = .error error

end Exactness

section Compiled
variable {isValid : Json → Json → Bool} {capability : Capability} {policy : Policies.Policy}
  {operations : Operations} {actionSemantics : List (String × ActionSemantics)}
  {requirements : CapabilityScopeRequirements}

theorem describe_compiledScopeRequirements
    (h : compiledScopeRequirements isValid capability policy operations actionSemantics =
      .ok requirements) :
    requirements.Describe (compiledPaths isValid policy operations actionSemantics capability) := by
  cases capability with
  | read capability => exact describe_analyzeWorkflows h
  | action action =>
    rw [compiledScopeRequirements, Except.ok.injEq] at h
    exact h ▸ describe_action Finset.subset_union_right

theorem named_actionScopes (hnamed : ScopesNamed policy operations) (action : ActionCapability) :
    "" ∉ actionScopes isValid policy operations actionSemantics action := by
  intro hmem
  rcases Finset.mem_union.mp hmem with hproof | hpolicy
  · have hsites := Text.mem_sortedSet.mp (List.mem_toFinset.mp hproof)
    obtain ⟨operation, hoperation, hscope⟩ := List.mem_flatMap.mp hsites
    obtain ⟨id, -, hfound⟩ := List.mem_filterMap.mp hoperation
    exact hnamed.operations operation (mem_of_operation? hfound) hscope
  · exact hnamed.policy (List.mem_toFinset.mp hpolicy)

theorem named_compiledScopeRequirements (hnamed : ScopesNamed policy operations)
    (h : compiledScopeRequirements isValid capability policy operations actionSemantics =
      .ok requirements) : "" ∉ requirements.allReferenced := by
  cases capability with
  | read capability =>
    simp only [compiledScopeRequirements, analyzeCapabilityScopeRequirements, analyzeWorkflows] at h
    cases hworkflow : analyzeSteps operations emptyPath capability.workflow with
    | error message => simp [hworkflow, Except.map] at h
    | ok workflow =>
      simp only [hworkflow, Except.map, Except.ok.injEq] at h
      subst h
      have hsteps := named_analyzeSteps hnamed.operations capability.workflow
        (Finset.notMem_empty _) hworkflow
      exact fun hmem => (Finset.mem_union.mp hmem).elim hsteps
        fun hpolicy => hnamed.policy (List.mem_toFinset.mp hpolicy)
  | action action =>
    rw [compiledScopeRequirements, Except.ok.injEq] at h
    exact h ▸ named_actionScopes hnamed action

theorem refused_of_not_granted {S : ScopeSet}
    (h : ¬ ∃ path ∈ compiledPaths isValid policy operations actionSemantics capability, path ⊆ S) :
    Refused isValid policy operations actionSemantics S capability := by
  cases capability with
  | read capability =>
    rintro runtime rfl hpolicy rfl maxOutputBytes arguments hcompletes
    obtain ⟨path, hpath, hgranted⟩ := granted_executeCall hpolicy hcompletes
    exact h ⟨path, hpath, fun scope hscope => List.mem_toFinset.mpr (hgranted scope hscope)⟩
  | action action =>
    rintro context rfl
    by_cases hpolicy : policy.requiredScopes ⊆ context.effectiveScopes
    · refine .inl fun deployment definition hproof => ?_
      cases hauthorized : Actions.authorize deployment definition context with
      | error error => exact ⟨error, rfl⟩
      | ok _ =>
        have hrequired := Actions.requiredScopes_of_authorize hauthorized
        rw [hproof] at hrequired
        refine absurd ⟨_, rfl, fun scope hscope => List.mem_toFinset.mpr ?_⟩ h
        rcases Finset.mem_union.mp hscope with hscope | hscope
        · exact hrequired (List.mem_toFinset.mp hscope)
        · exact hpolicy (List.mem_toFinset.mp hscope)
    · refine .inr fun caller hcaller hcontext call => ?_
      cases hrequest : caller.request call with
      | error error => exact ⟨error, rfl⟩
      | ok asked =>
        have hgranted := Actions.ActionOperationCaller.granted_of_request hrequest
        rw [hcaller, hcontext] at hgranted
        exact absurd hgranted hpolicy

/-- The stored requirements are read back, their common part is the one of the alternatives, and
the status tells exactly which paths the scopes allow. -/
theorem compiled_callability_exact (hnamed : ScopesNamed policy operations)
    (h : compiledScopeRequirements isValid capability policy operations actionSemantics =
      .ok requirements) :
    requirementsFromMapping requirements.capabilityId (some (scopeRequirementsJson requirements)) =
        .ok requirements ∧
      (∀ scope, scope ∈ requirements.alwaysRequired ↔
        ∀ alternative ∈ requirements.completionAlternatives, scope ∈ alternative) ∧
      ∀ S : ScopeSet,
        let paths := compiledPaths isValid policy operations actionSemantics capability
        let status := (dimension requirements (some S)).status
        (status = .callable ↔ ∀ path ∈ paths, path ⊆ S) ∧
          (status = .denied ↔ ¬ ∃ path ∈ paths, path ⊆ S) ∧
          (status = .conditional ↔ ¬ (∀ path ∈ paths, path ⊆ S) ∧ ∃ path ∈ paths, path ⊆ S) ∧
          (status = .denied → Refused isValid policy operations actionSemantics S capability) := by
  have hdescribe := describe_compiledScopeRequirements h
  have hscopes := hdescribe.nonEmptyScopes (named_compiledScopeRequirements hnamed h)
  refine ⟨requirementsFromMapping_scopeRequirementsJson hdescribe.valid hscopes,
    hdescribe.describes.mem_always_iff, fun S => ?_⟩
  obtain ⟨hcallable, hdenied, hconditional⟩ := hdescribe.status S
  exact ⟨hcallable, hdenied, hconditional, fun hstatus =>
    refused_of_not_granted (hdenied.mp hstatus)⟩

end Compiled

theorem compiled_callability_exact_order :
    Refused (fun _ _ => true) Actions.orderPolicy Actions.orderOperations [] ∅
      (.read Actions.showOrder) :=
  ((@compiled_callability_exact (fun _ _ => true) (.read Actions.showOrder) Actions.orderPolicy
    Actions.orderOperations [] _ ⟨by decide, by decide⟩ rfl).2.2 ∅).2.2.2 (by decide)

/-! An action that reads different operations on the two sides of a branch. -/

def readArchive : Operation where
  kind := .read
  id := "read-archive"
  inputSchema := [("type", .str "object")]
  outputSchema := [("type", .str "object")]
  http :=
    { method := "GET"
      scopes := ["archive.read"]
      safety := ⟨.read, .low, .reversible, .never, .unsupported, .notSupported⟩ }
  contextBindings := []
  evidence := []
  effect_read := read_effect_read

def archiveOperations : Operations := ("read-archive", readArchive) :: Actions.orderOperations

def copyArchivedOrder : ActionCapability :=
  { Actions.copyOrderCapability with
    id := "copy-archived-order"
    previewWorkflow :=
      [.branch none (.reference "$.input.archived")
          [.call (some "archived") "read-archive" [("id", .str "$.input.id")]]
          [.call (some "order") "read-order" [("id", .str "$.input.id")]],
        .emit none (.str "$.input.id")] }

/-- With the scopes of one side of the branch the action is denied all the same. -/
theorem branching_action_denied :
    errorFree (Compiler.compileActionCapability (fun _ _ => true) copyArchivedOrder
        archiveOperations [] [("orders", Actions.orderPolicy)] []).2 = true ∧
      ∃ requirements, compiledScopeRequirements (fun _ _ => true) (.action copyArchivedOrder)
          Actions.orderPolicy archiveOperations [] = .ok requirements ∧
        let S : ScopeSet := {"orders.read", "orders.write"}
        ¬ ((dimension requirements (some S)).status = .denied ↔
          ¬ ∃ path ∈ capabilityPaths Actions.orderPolicy archiveOperations
            (.action copyArchivedOrder), path ⊆ S) := by
  refine ⟨by decide, _, rfl, fun hiff => ?_⟩
  have hdenied : (dimension ⟨"copy-archived-order", ∅, {"archive.read", "orders.read", "orders.write"},
      ∅, {"archive.read", "orders.read", "orders.write"},
      [{"archive.read", "orders.read", "orders.write"}]⟩
      (some {"orders.read", "orders.write"})).status = .denied := by decide
  refine hiff.mp hdenied ?_
  have hanalyzed : ∃ requirements, analyzeCapabilityScopeRequirements (.action copyArchivedOrder)
      Actions.orderPolicy archiveOperations = .ok requirements ∧
      ({"orders.read", "orders.write"} : ScopeSet) ∈ requirements.completionAlternatives :=
    ⟨_, rfl, by decide⟩
  obtain ⟨requirements, hok, halternative⟩ := hanalyzed
  exact ⟨_, (describe_analyzeWorkflows hok).describes.attained _ halternative,
    Finset.Subset.refl _⟩

end CapabilityCompiler.Scope
