import CapabilityCompiler.Compiler.ActionProof
import CapabilityCompiler.Foundation.Alternatives
import Mathlib.Data.List.Lex
import Mathlib.Data.Prod.Lex

/-! Path-sensitive scope requirements of capabilities. -/
namespace CapabilityCompiler.Scope
open Foundation Models

abbrev ScopeSet := Finset String

/-- `sorted(scopes)` -/
def sortedScopes (scopes : ScopeSet) : List String :=
  Quot.liftOn scopes.val (fun items => items.insertionSort (· ≤ ·)) fun _ _ hperm =>
    ((List.perm_insertionSort _ _).trans (hperm.trans (List.perm_insertionSort _ _).symm)).eq_of_pairwise'
      (List.pairwise_insertionSort _ _) (List.pairwise_insertionSort _ _)

theorem mem_sortedScopes {scopes : ScopeSet} {scope : String} :
    scope ∈ sortedScopes scopes ↔ scope ∈ scopes := by
  obtain ⟨⟨items⟩, hnodup⟩ := scopes
  exact List.mem_insertionSort _

theorem toFinset_sortedScopes (scopes : ScopeSet) : (sortedScopes scopes).toFinset = scopes := by
  ext scope
  rw [List.mem_toFinset, mem_sortedScopes]

/-- Deterministic scope facts for all successful workflow paths. -/
structure CapabilityScopeRequirements where
  capabilityId : String
  policyAlwaysRequired : ScopeSet
  alwaysRequired : ScopeSet
  conditionallyRequired : ScopeSet
  allReferenced : ScopeSet
  completionAlternatives : List ScopeSet
deriving DecidableEq

structure PathRequirements where
  alternatives : List ScopeSet
  always : ScopeSet
  feasibleUnion : ScopeSet
  structuralUnion : ScopeSet

def emptyPath : PathRequirements := ⟨[∅], ∅, ∅, ∅⟩

/-- Smaller sets come first, sets of one size in the order of their sorted members. -/
def scopeKey (scopes : ScopeSet) : ℕ ×ₗ List String := toLex (scopes.card, sortedScopes scopes)

def minimalAntichain (candidates : List ScopeSet) : List ScopeSet :=
  Alternatives.absorb [] (candidates.dedup.insertionSort fun s t => scopeKey s ≤ scopeKey t)

def combineRequired (left right : PathRequirements) : PathRequirements where
  alternatives := minimalAntichain
    (left.alternatives.flatMap fun first => right.alternatives.map (first ∪ ·))
  always := left.always ∪ right.always
  feasibleUnion := left.feasibleUnion ∪ right.feasibleUnion
  structuralUnion := left.structuralUnion ∪ right.structuralUnion

/-- A literal list without items needs nothing, one with items what its body needs, and any other
collection may turn out to be empty. -/
def foreachRequirements (items : Json) (body : PathRequirements) : PathRequirements :=
  match items with
  | .arr [] => ⟨[∅], ∅, ∅, body.structuralUnion⟩
  | .arr (_ :: _) => body
  | _ => ⟨minimalAntichain (∅ :: body.alternatives), ∅, body.feasibleUnion, body.structuralUnion⟩

section Analysis
variable (operations : Operations)

mutual

/-- An operation that is not declared is an error. -/
def analyzeStep : WorkflowStep → Except String PathRequirements
  | .call _ operation _ =>
    match operation? operation operations with
    | none => .error s!"scope analysis references an unknown operation: {operation}"
    | some operation =>
      let scopes := operation.http.scopes.toFinset
      .ok ⟨[scopes], scopes, scopes, scopes⟩
  | .branch _ _ thenSteps elseSteps =>
    (analyzeSteps emptyPath thenSteps).bind fun thenRequirements =>
      (analyzeSteps emptyPath elseSteps).map fun elseRequirements =>
        { alternatives := minimalAntichain
            (thenRequirements.alternatives ++ elseRequirements.alternatives)
          always := thenRequirements.always ∩ elseRequirements.always
          feasibleUnion := thenRequirements.feasibleUnion ∪ elseRequirements.feasibleUnion
          structuralUnion := thenRequirements.structuralUnion ∪ elseRequirements.structuralUnion }
  | .parallel _ children => analyzeSteps emptyPath children
  | .foreach _ items _ _ workflow =>
    (analyzeSteps emptyPath workflow).map (foreachRequirements items)
  | _ => .ok emptyPath

def analyzeSteps (result : PathRequirements) : List WorkflowStep → Except String PathRequirements
  | [] => .ok result
  | step :: rest =>
    (analyzeStep step).bind fun requirements => analyzeSteps (combineRequired result requirements) rest

end

end Analysis

inductive Capability where
  | read (capability : ReadCapability)
  | action (capability : ActionCapability)

def Capability.id : Capability → String
  | read capability => capability.id
  | action capability => capability.id

/-- The requirements of the workflow of a read, or of the preview and the commit of an action. -/
def analyzeWorkflows (operations : Operations) : Capability → Except String PathRequirements
  | .read capability => analyzeSteps operations emptyPath capability.workflow
  | .action capability =>
    (analyzeSteps operations emptyPath capability.previewWorkflow).bind fun preview =>
      (analyzeSteps operations emptyPath capability.commitWorkflow).map fun commit =>
        combineRequired preview commit

def requirementsOf (capabilityId : String) (policyScopes : ScopeSet) (workflow : PathRequirements) :
    CapabilityScopeRequirements :=
  let always := workflow.always ∪ policyScopes
  let feasibleUnion := workflow.feasibleUnion ∪ policyScopes
  { capabilityId := capabilityId
    policyAlwaysRequired := policyScopes
    alwaysRequired := always
    conditionallyRequired := feasibleUnion \ always
    allReferenced := workflow.structuralUnion ∪ policyScopes
    completionAlternatives := minimalAntichain (workflow.alternatives.map (· ∪ policyScopes)) }

def analyzeCapabilityScopeRequirements (capability : Capability) (policy : Policies.Policy)
    (operations : Operations) : Except String CapabilityScopeRequirements :=
  (analyzeWorkflows operations capability).map
    (requirementsOf capability.id policy.requiredScopes.toFinset)

/-- What the compiler stores. An action needs every scope of its proof at once. -/
def compiledScopeRequirements (isValid : Json → Json → Bool) (capability : Capability)
    (policy : Policies.Policy) (operations : Operations)
    (actionSemantics : List (String × ActionSemantics)) :
    Except String CapabilityScopeRequirements :=
  match capability with
  | .read _ => analyzeCapabilityScopeRequirements capability policy operations
  | .action action =>
    let proof := Compiler.proveActionCapability isValid s!"capabilities/{action.id}.yaml" action
      operations actionSemantics (some policy)
    let policyScopes := policy.requiredScopes.toFinset
    let actionScopes := proof.requiredScopes.toFinset ∪ policyScopes
    .ok ⟨action.id, policyScopes, actionScopes, ∅, actionScopes, [actionScopes]⟩

/-! Minimal antichains. -/

private theorem card_le_of_scopeKey {s t : ScopeSet} (h : scopeKey s ≤ scopeKey t) :
    s.card ≤ t.card := by
  rcases Prod.Lex.le_iff.mp h with hlt | ⟨heq, -⟩
  · exact Nat.le_of_lt hlt
  · exact Nat.le_of_eq heq

section Minimal
variable {candidates : List ScopeSet} {s : ScopeSet}

theorem mem_minimalAntichain (h : s ∈ minimalAntichain candidates) : s ∈ candidates := by
  have hsorted := (Alternatives.mem_absorb h).resolve_left List.not_mem_nil
  rw [(List.perm_insertionSort _ _).mem_iff, List.mem_dedup] at hsorted
  exact hsorted

theorem exists_minimalAntichain_subset (h : s ∈ candidates) :
    ∃ t ∈ minimalAntichain candidates, t ⊆ s := by
  refine Alternatives.exists_absorb_subset ?_
  rwa [(List.perm_insertionSort _ _).mem_iff, List.mem_dedup]

/-- No alternative contains another. -/
theorem pairwise_minimalAntichain (candidates : List ScopeSet) :
    (minimalAntichain candidates).Pairwise fun s t => ¬ s ⊆ t ∧ ¬ t ⊆ s := by
  have : Std.Total fun s t : ScopeSet => scopeKey s ≤ scopeKey t := ⟨fun s t => le_total _ _⟩
  have : IsTrans ScopeSet fun s t => scopeKey s ≤ scopeKey t := ⟨fun s t u => le_trans⟩
  refine Alternatives.pairwise_absorb List.Pairwise.nil ?_ ?_ ?_ ?_
  · exact fun s hs => absurd hs List.not_mem_nil
  · exact fun s _ => List.not_mem_nil
  · exact (List.pairwise_insertionSort _ _).imp card_le_of_scopeKey
  · exact (List.perm_insertionSort _ _).nodup_iff.mpr (List.nodup_dedup _)

end Minimal

/-! The paths of a workflow. -/

/-- A literal list is gone through item by item, another collection up to its bound. -/
def foreachPaths (items : Json) (maxItems : ItemBound) (body : Set ScopeSet) : Set ScopeSet :=
  match items with
  | .arr items => Alternatives.repeated body items.length
  | _ => {path | ∃ n ≤ maxItems.value, path ∈ Alternatives.repeated body n}

section Paths
variable (requires : String → ScopeSet)

mutual

/-- The scopes of every way through a step: a side of each branch, and a way of its own for every
item. -/
def stepPaths : WorkflowStep → Set ScopeSet
  | .call _ operation _ => {requires operation}
  | .branch _ _ thenSteps elseSteps => workflowPaths thenSteps ∪ workflowPaths elseSteps
  | .parallel _ children => workflowPaths children
  | .foreach _ items _ maxItems workflow =>
    foreachPaths items maxItems (workflowPaths workflow)
  | _ => {∅}

def workflowPaths : List WorkflowStep → Set ScopeSet
  | [] => {∅}
  | step :: rest => Alternatives.joined (stepPaths step) (workflowPaths rest)

end

end Paths

/-- The scopes an operation declares. -/
def operationScopes (operations : Operations) (id : String) : ScopeSet :=
  match operation? id operations with
  | some operation => operation.http.scopes.toFinset
  | none => ∅

/-- The scopes of the paths of a capability, with those of its policy. An action is previewed and
committed. -/
def capabilityPaths (policy : Policies.Policy) (operations : Operations) :
    Capability → Set ScopeSet
  | .read capability => Alternatives.joined
      (workflowPaths (operationScopes operations) capability.workflow)
      {policy.requiredScopes.toFinset}
  | .action capability => Alternatives.joined
      (Alternatives.joined (workflowPaths (operationScopes operations) capability.previewWorkflow)
        (workflowPaths (operationScopes operations) capability.commitWorkflow))
      {policy.requiredScopes.toFinset}

/-! The analysis describes the paths. -/

/-- What the requirements say of a family of paths. -/
structure PathRequirements.Describe (requirements : PathRequirements) (paths : Set ScopeSet) :
    Prop where
  describes : Alternatives.Describes requirements.alternatives requirements.always
    requirements.feasibleUnion paths
  feasible_subset : requirements.feasibleUnion ⊆ requirements.structuralUnion

theorem describes_minimalAntichain {candidates : List ScopeSet} {always union : ScopeSet}
    {paths : Set ScopeSet} (h : Alternatives.Describes candidates always union paths) :
    Alternatives.Describes (minimalAntichain candidates) always union paths :=
  h.reduce (fun _ => mem_minimalAntichain) fun _ => exists_minimalAntichain_subset

theorem describe_emptyPath : emptyPath.Describe {∅} :=
  ⟨.single ∅, Finset.Subset.refl _⟩

theorem describe_combineRequired {left right : PathRequirements} {F G : Set ScopeSet}
    (hleft : left.Describe F) (hright : right.Describe G) :
    (combineRequired left right).Describe (Alternatives.joined F G) where
  describes := describes_minimalAntichain (hleft.describes.join hright.describes)
  feasible_subset := Finset.union_subset_union hleft.feasible_subset hright.feasible_subset

private theorem describe_foreach {body : PathRequirements} {F : Set ScopeSet} (items : Json)
    (maxItems : ItemBound) (h : body.Describe F) :
    (foreachRequirements items body).Describe (foreachPaths items maxItems F) := by
  have hoptional := describes_minimalAntichain (h.describes.optional maxItems.pos)
  cases items with
  | arr items =>
    cases items with
    | nil => exact ⟨.single ∅, Finset.empty_subset _⟩
    | cons first rest => exact ⟨h.describes.repeat rest.length, h.feasible_subset⟩
  | _ => exact ⟨hoptional, h.feasible_subset⟩

section Describe
variable {operations : Operations}

mutual

theorem describe_analyzeStep (step : WorkflowStep) {requirements : PathRequirements}
    (h : analyzeStep operations step = .ok requirements) :
    requirements.Describe (stepPaths (operationScopes operations) step) := by
  cases step with
  | call id operation arguments =>
    simp only [analyzeStep] at h
    cases hfound : operation? operation operations with
    | none => simp [hfound] at h
    | some found =>
      simp only [hfound, Except.ok.injEq] at h
      subst h
      have hscopes : operationScopes operations operation = found.http.scopes.toFinset := by
        simp only [operationScopes, hfound]
      simp only [stepPaths, hscopes]
      exact ⟨.single _, Finset.Subset.refl _⟩
  | branch id condition thenSteps elseSteps =>
    simp only [analyzeStep] at h
    cases hthen : analyzeSteps operations emptyPath thenSteps with
    | error message => simp [hthen, Except.bind] at h
    | ok first =>
      cases helse : analyzeSteps operations emptyPath elseSteps with
      | error message => simp [hthen, helse, Except.bind, Except.map] at h
      | ok second =>
        simp only [hthen, helse, Except.bind, Except.map, Except.ok.injEq] at h
        subst h
        have hfirst := describe_analyzeSteps thenSteps describe_emptyPath hthen
        have hsecond := describe_analyzeSteps elseSteps describe_emptyPath helse
        rw [Alternatives.empty_joined] at hfirst hsecond
        exact ⟨describes_minimalAntichain (hfirst.describes.choice hsecond.describes),
          Finset.union_subset_union hfirst.feasible_subset hsecond.feasible_subset⟩
  | parallel id children =>
    have hchildren := describe_analyzeSteps children describe_emptyPath h
    rwa [Alternatives.empty_joined] at hchildren
  | «foreach» id items itemName maxItems workflow =>
    simp only [analyzeStep] at h
    cases hbody : analyzeSteps operations emptyPath workflow with
    | error message => simp [hbody, Except.map] at h
    | ok body =>
      simp only [hbody, Except.map, Except.ok.injEq] at h
      subst h
      have hworkflow := describe_analyzeSteps workflow describe_emptyPath hbody
      rw [Alternatives.empty_joined] at hworkflow
      exact describe_foreach items maxItems hworkflow
  | _ =>
    simp only [analyzeStep, Except.ok.injEq] at h
    subst h
    exact describe_emptyPath

theorem describe_analyzeSteps (steps : List WorkflowStep) {result requirements : PathRequirements}
    {F : Set ScopeSet} (hresult : result.Describe F)
    (h : analyzeSteps operations result steps = .ok requirements) :
    requirements.Describe
      (Alternatives.joined F (workflowPaths (operationScopes operations) steps)) := by
  cases steps with
  | nil =>
    simp only [analyzeSteps, Except.ok.injEq] at h
    subst h
    simpa only [workflowPaths, Alternatives.joined_empty] using hresult
  | cons step rest =>
    simp only [analyzeSteps] at h
    cases hstep : analyzeStep operations step with
    | error message => simp [hstep, Except.bind] at h
    | ok first =>
      simp only [hstep, Except.bind] at h
      have hfirst := describe_combineRequired hresult (describe_analyzeStep step hstep)
      have hrest := describe_analyzeSteps rest hfirst h
      rwa [Alternatives.joined_assoc] at hrest

end

end Describe
end CapabilityCompiler.Scope
