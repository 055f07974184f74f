import CapabilityCompiler.Execution.CallPositions
import CapabilityCompiler.Scope.Callability

/-! A run that completes has gone through a path whose scopes were all granted. -/
namespace CapabilityCompiler.Scope
open Foundation Models Execution

/-! Completed runs. -/

/-- A path within the granted scopes. -/
def Granted (S : List String) (paths : Set ScopeSet) : Prop :=
  ∃ path ∈ paths, ∀ scope ∈ path, scope ∈ S

section Granted
variable {S : List String}

theorem granted_empty : Granted S {∅} := ⟨∅, rfl, fun _ h => absurd h (Finset.notMem_empty _)⟩

theorem Granted.joined {F G : Set ScopeSet} (hF : Granted S F) (hG : Granted S G) :
    Granted S (Alternatives.joined F G) := by
  obtain ⟨p, hp, hpS⟩ := hF
  obtain ⟨q, hq, hqS⟩ := hG
  refine ⟨p ∪ q, ⟨p, hp, q, hq, rfl⟩, fun scope hscope => ?_⟩
  exact (Finset.mem_union.mp hscope).elim (hpS scope) (hqS scope)

theorem granted_repeated {F : Set ScopeSet} {n : ℕ} (h : 1 ≤ n → Granted S F) :
    Granted S (Alternatives.repeated F n) := by
  induction n with
  | zero => exact granted_empty
  | succ n ih =>
    have hF := h (Nat.succ_le_succ (Nat.zero_le n))
    exact hF.joined (ih fun _ => hF)

end Granted

section Runs
variable {Q R : Type} {engine : Engine Q R} {S : List String}

/-- A call that completes was granted the scopes of its operation. -/
def Guards (engine : Engine Q R) (S : List String) : Prop :=
  ∀ call next, (∀ error, ¬ (next (.stableError error)).Completes) →
    (engine.perform call next).Completes → ∀ scope ∈ call.operation.http.scopes, scope ∈ S

theorem completes_of_gatherList {children : List (Process Q R Failure Json)}
    (h : (gatherList children).Completes) : ∀ child ∈ children, child.Completes := by
  intro child hchild
  obtain ⟨i, rfl⟩ := List.mem_iff_get.mp hchild
  exact Process.Completes.of_gather h i

theorem granted_runCall (hguards : Guards engine S) {context : Context} {position : List ℕ}
    {id : Option String} {operationId : String} {arguments : Fields}
    (h : (runCall engine context position id operationId arguments).Completes) :
    Granted S {operationScopes engine.operations operationId} := by
  unfold runCall at h
  cases hprepared : prepareCall engine context position id operationId arguments with
  | error error =>
    rw [hprepared] at h
    exact absurd h (Process.not_completes_failed _)
  | ok call =>
    rw [hprepared] at h
    obtain ⟨-, hoperation, -⟩ := prepareCall_eq_ok hprepared
    have hgranted := hguards call _ (fun error => Process.not_completes_failed _) h
    refine ⟨_, rfl, fun scope hscope => hgranted scope ?_⟩
    rw [operationScopes, hoperation] at hscope
    exact List.mem_toFinset.mp hscope

theorem length_resolveItems {context : Context} {details : Fields} {items values : List Json}
    (h : resolveItems context details items = .ok values) : values.length = items.length := by
  induction items generalizing values with
  | nil =>
    rw [resolveItems, Except.ok.injEq] at h
    exact h ▸ rfl
  | cons item rest ih =>
    rw [resolveItems] at h
    cases hitem : resolveValue context details item with
    | error error => simp [hitem, Except.bind] at h
    | ok value =>
      cases hrest : resolveItems context details rest with
      | error error => simp [hitem, hrest, Except.bind, Except.map] at h
      | ok others =>
        simp only [hitem, hrest, Except.bind, Except.map, Except.ok.injEq] at h
        subst h
        rw [List.length_cons, List.length_cons, ih hrest]

theorem granted_foreach {context : Context} {details : Fields} {items : Json}
    {maxItems : ItemBound} {sequence : List Json} {F : Set ScopeSet}
    (hsequence : resolveItemsBounded context details items maxItems = .ok sequence)
    (h : ∀ item ∈ sequence, Granted S F) : Granted S (foreachPaths items maxItems F) := by
  have hsome : 1 ≤ sequence.length → Granted S F := fun hlength =>
    h _ (List.getElem_mem hlength)
  unfold resolveItemsBounded at hsequence
  cases hvalue : resolveValue context details items with
  | error error => simp [hvalue, bind, Except.bind] at hsequence
  | ok value =>
    simp only [hvalue, bind, Except.bind] at hsequence
    have hbounded : value = .arr sequence ∧ sequence.length ≤ maxItems.value := by
      unfold boundedItems at hsequence
      split at hsequence
      · split at hsequence
        · exact absurd hsequence (by simp)
        · rename_i hle
          rw [Except.ok.injEq] at hsequence
          subst hsequence
          exact ⟨rfl, Nat.le_of_not_lt hle⟩
      · exact absurd hsequence (by simp)
    obtain ⟨rfl, hle⟩ := hbounded
    unfold foreachPaths
    split
    next literals =>
      rw [resolveValue] at hvalue
      cases hliterals : resolveItems context details literals with
      | error error => simp [hliterals, Except.map] at hvalue
      | ok values =>
        simp only [hliterals, Except.map, Except.ok.injEq, Json.arr.injEq] at hvalue
        subst hvalue
        rw [← length_resolveItems hliterals]
        exact granted_repeated hsome
    next =>
      obtain ⟨path, hpath, hgranted⟩ := granted_repeated hsome
      exact ⟨path, ⟨_, hle, hpath⟩, hgranted⟩

mutual

theorem granted_runStep (hguards : Guards engine S) (step : WorkflowStep) {context : Context}
    {position : List ℕ} (h : (runStep engine context position step).Completes) :
    Granted S (stepPaths (operationScopes engine.operations) step) := by
  cases step with
  | call id operation arguments => exact granted_runCall hguards h
  | branch id condition thenSteps elseSteps =>
    rw [runStep] at h
    split at h
    · exact absurd h (Process.not_completes_failed _)
    · obtain ⟨path, hpath, hgranted⟩ := granted_runWorkflow hguards thenSteps h
      exact ⟨path, .inl hpath, hgranted⟩
    · obtain ⟨path, hpath, hgranted⟩ := granted_runWorkflow hguards elseSteps h
      exact ⟨path, .inr hpath, hgranted⟩
  | parallel id children =>
    rw [runStep] at h
    split at h
    · exact granted_runChildren hguards children (completes_of_gatherList h)
    · exact absurd h (Process.not_completes_failed _)
  | «foreach» id items itemName maxItems workflow =>
    rw [runStep] at h
    split at h
    · exact absurd h (Process.not_completes_failed _)
    next sequence hsequence =>
      have hchildren := completes_of_gatherList h
      refine granted_foreach hsequence fun item hitem => ?_
      exact granted_runWorkflow hguards workflow (hchildren _ (List.mem_map_of_mem hitem))
  | _ => exact granted_empty

theorem granted_runWorkflow (hguards : Guards engine S) (steps : List WorkflowStep)
    {context : Context} {position : List ℕ} {index : ℕ} {result : Json}
    (h : (runWorkflow engine context position index result steps).Completes) :
    Granted S (workflowPaths (operationScopes engine.operations) steps) := by
  cases steps with
  | nil => exact granted_empty
  | cons step rest =>
    rw [runWorkflow] at h
    obtain ⟨hstep, value, hrest⟩ := h.of_bind
    exact (granted_runStep hguards step hstep).joined (granted_runWorkflow hguards rest hrest)

theorem granted_runChildren (hguards : Guards engine S) (children : List WorkflowStep)
    {context : Context} {position : List ℕ} {index : ℕ}
    (h : ∀ child ∈ runChildren engine context position index children, child.Completes) :
    Granted S (workflowPaths (operationScopes engine.operations) children) := by
  cases children with
  | nil => exact granted_empty
  | cons child rest =>
    rw [runChildren] at h
    have hchild := granted_runStep hguards child (h _ List.mem_cons_self)
    exact hchild.joined (granted_runChildren hguards rest fun p hp =>
      h p (List.mem_cons_of_mem _ hp))

end

theorem granted_execute (hguards : Guards engine S) {definition : CapabilityDefinition}
    {input : Json} (h : (execute engine definition input).Completes) :
    Granted S (workflowPaths (operationScopes engine.operations) definition.workflow) := by
  unfold execute at h
  split at h
  · exact absurd h (Process.not_completes_failed _)
  · split at h
    · exact granted_runWorkflow hguards _ h.of_bind.1
    · exact absurd h (Process.not_completes_failed _)

end Runs

theorem guards_engine (runtime : GenericRuntime) (policy : Policies.Policy)
    (capabilityId : String) :
    Guards (runtime.engine policy capabilityId) runtime.principalContext.effectiveScopes := by
  intro call next hnext h scope hscope
  have hperform : (PolicyOperationCaller.perform ⟨runtime.host, policy, runtime.principalContext,
      runtime.contextBindingAllowlist⟩ call next).Completes := h
  unfold PolicyOperationCaller.perform at hperform
  split at hperform
  · exact absurd hperform (hnext _)
  next asked hasked =>
    exact PolicyOperationCaller.granted_of_request hasked (List.mem_append_right _ hscope)

/-- A call of a read that completes was granted the scopes of a path and of the policy. -/
theorem granted_executeCall {runtime : GenericRuntime} {capability : ReadCapability}
    {policy : Policies.Policy} (hpolicy : runtime.policy? capability.policy = some policy)
    {maxOutputBytes : Option ℕ} {arguments : Fields}
    (h : (runtime.executeCall capability maxOutputBytes arguments).Completes) :
    Granted runtime.principalContext.effectiveScopes
      (capabilityPaths policy runtime.operations (.read capability)) := by
  unfold GenericRuntime.executeCall at h
  rw [hpolicy] at h
  simp only at h
  split at h
  · exact absurd h (Process.not_completes_failed _)
  next hauthorized =>
    have hpath := granted_execute (guards_engine runtime policy capability.id) h.of_bind.1
    refine hpath.joined ⟨_, rfl, fun scope hscope => ?_⟩
    exact Policies.requiredScopes_of_authorize hauthorized (List.mem_toFinset.mp hscope)

end CapabilityCompiler.Scope
