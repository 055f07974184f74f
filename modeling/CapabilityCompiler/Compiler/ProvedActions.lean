import CapabilityCompiler.Compiler.Acceptance

/-! What an action proof without errors and an accepted capability say about their workflows. -/
namespace CapabilityCompiler.Compiler
open Foundation Models

theorem errorFree_diagnosed {α : Type} {test : α → Bool} {diagnostic : α → Diagnostic}
    {sites : List α} (hseverity : ∀ a, (diagnostic a).severity = .error)
    (h : errorFree (diagnosed test diagnostic sites) = true) : ∀ a ∈ sites, test a = false := by
  intro a ha
  by_contra htest
  have hreported : [diagnostic a] ⊆ diagnosed test diagnostic sites := by
    intro d hd
    obtain rfl := List.mem_singleton.mp hd
    exact List.mem_map_of_mem (List.mem_filter.mpr ⟨ha, by simpa using htest⟩)
  have hfree := errorFree_of_subset hreported h
  rw [errorFree_singleton (hseverity a)] at hfree
  exact Bool.false_ne_true hfree

theorem errorFree_flatMap {α : Type} {f : α → List Diagnostic} {sites : List α}
    (h : errorFree (sites.flatMap f) = true) : ∀ a ∈ sites, errorFree (f a) = true := fun a ha =>
  errorFree_of_subset (fun _ hd => List.mem_flatMap.mpr ⟨a, ha, hd⟩) h

theorem errorFree_ite {c : Prop} [Decidable c] {d : Diagnostic} (hseverity : d.severity = .error)
    (h : errorFree (if c then [d] else []) = true) : ¬c := by
  intro hc
  rw [if_pos hc, errorFree_singleton hseverity] at h
  exact Bool.false_ne_true h

/-- What the proof establishes about the workflows of an action. -/
structure WorkflowsProved (capability : ActionCapability) (operations : Operations) : Prop where
  declared : ∀ site ∈ previewSites capability ++ commitSites capability,
    (operation? site.operationId operations).isNone = false
  previewReads : ∀ site ∈ previewSites capability, isAction operations site.operationId = false
  uncontained : ∀ site ∈ mutationSites capability operations, site.containers = []
  single : ∀ count ∈ mutationPathCounts operations capability.commitWorkflow, count = 1
  commitPrepared : ∀ text ∈ textsOfItems (dumpWorkflow capability.commitWorkflow),
    mentionsPrepared text = true → isPreparedReference text = true
  sealed : ∀ site ∈ mutationSites capability operations, ∀ text ∈ texts (.obj site.arguments),
    isDirectInputReference text = false ∧ isFreshStepReference text = false

section Proof
variable {isValid : Json → Json → Bool} {path : String} {capability : ActionCapability}
  {operations : Operations}

theorem sealed_of_errorFree {site : CallSite}
    (h : errorFree (sealedArgumentDiagnostics path site) = true) :
    ∀ text ∈ texts (.obj site.arguments),
      isDirectInputReference text = false ∧ isFreshStepReference text = false := by
  intro text htext
  rw [← walkStrings_fst (site.pointer ++ "/arguments")] at htext
  obtain ⟨⟨text, pointer⟩, hfound, rfl⟩ := List.mem_map.mp htext
  obtain ⟨hinput, hstep⟩ := errorFree_append.mp (errorFree_flatMap h _ hfound)
  have hdirect := errorFree_ite rfl hinput
  have hfresh := errorFree_ite rfl hstep
  exact ⟨by simpa using hdirect, by simpa using hfresh⟩

theorem single_of_errorFree
    (h : errorFree (executionModeDiagnostics path capability operations) = true) :
    ∀ count ∈ mutationPathCounts operations capability.commitWorkflow, count = 1 := by
  unfold executionModeDiagnostics at h
  split_ifs at h with hmode hsingle
  · rw [errorFree_singleton rfl] at h
    exact absurd h Bool.false_ne_true
  · simpa using hsingle
  · rw [errorFree_singleton rfl] at h
    exact absurd h Bool.false_ne_true

theorem containers_eq_nil {containers : List Container} (hparallel : .parallel ∉ containers)
    (hforeach : .foreach ∉ containers) : containers = [] := by
  rw [List.eq_nil_iff_forall_not_mem]
  intro container
  cases container with
  | parallel => exact hparallel
  | «foreach» => exact hforeach

theorem workflowsProved_of_errorFree
    (h : errorFree (workflowDiagnostics path capability operations) = true) :
    WorkflowsProved capability operations := by
  unfold workflowDiagnostics at h
  simp only [errorFree_append] at h
  obtain ⟨⟨⟨⟨⟨⟨hdeclared, hpreview⟩, hcontained⟩, hsingle⟩, -⟩, hprepared⟩, hsealed⟩ := h
  refine ⟨errorFree_diagnosed (fun _ => rfl) hdeclared, errorFree_diagnosed (fun _ => rfl) hpreview,
    fun site hsite => ?_, single_of_errorFree hsingle, fun text htext hmentions => ?_,
    fun site hsite => sealed_of_errorFree (errorFree_flatMap hsealed site hsite)⟩
  · obtain ⟨hparallel, hforeach⟩ := errorFree_append.mp (errorFree_flatMap hcontained site hsite)
    exact containers_eq_nil (errorFree_ite rfl hparallel) (errorFree_ite rfl hforeach)
  · have hwalk : (workflowStrings "/commit_workflow" capability.commitWorkflow).map Prod.fst =
        textsOfItems (dumpWorkflow capability.commitWorkflow) := walkItems_fst _ _ _
    rw [← hwalk] at htext
    obtain ⟨found, hfound, rfl⟩ := List.mem_map.mp htext
    have hinvalid := errorFree_diagnosed (fun _ => rfl) hprepared found hfound
    simpa [hmentions] using hinvalid

theorem workflowsProved_of_ok {actionSemantics : List (String × ActionSemantics)}
    {policy : Option Policies.Policy}
    (h : (proveActionCapability isValid path capability operations actionSemantics policy).ok =
      true) : WorkflowsProved capability operations := by
  have hfree : errorFree (workflowDiagnostics path capability operations) = true :=
    errorFree_of_subset (fun _ hd => List.mem_append_left _ (List.mem_append_left _
      (List.mem_append_left _ hd))) h
  exact workflowsProved_of_errorFree hfree

end Proof

/-! Accepted capabilities. -/

theorem accepted_of_compileCapability {capability : ReadCapability} {catalog : Catalog}
    {policies : List String} {targets : List (String × String)}
    (h : errorFree (compileCapability capability catalog policies targets).2 = true) :
    AllAccepted true false (workflowOccurrences [] false capability.workflow) := by
  unfold compileCapability at h
  simp only [errorFree_append] at h
  exact accepted_of_validateWorkflow capability.workflow h.1.1.2

/-- The three things an accepted action has been checked for. -/
theorem accepted_of_compileActionCapability {isValid : Json → Json → Bool}
    {capability : ActionCapability} {operations : Operations}
    {actionSemantics : List (String × ActionSemantics)}
    {policies : List (String × Policies.Policy)} {targets : List (String × String)}
    (h : errorFree (compileActionCapability isValid capability operations actionSemantics policies
      targets).2 = true) :
    WorkflowsProved capability operations ∧
      AllAccepted true false (workflowOccurrences [] false capability.previewWorkflow) ∧
      AllAccepted false true (workflowOccurrences [] false capability.commitWorkflow) := by
  unfold compileActionCapability at h
  simp only [errorFree_append] at h
  obtain ⟨⟨⟨⟨⟨-, hproof⟩, hpreview⟩, hcommit⟩, -⟩, -⟩ := h
  exact ⟨workflowsProved_of_ok hproof, accepted_of_validateWorkflow _ hpreview,
    accepted_of_validateWorkflow _ hcommit⟩

end CapabilityCompiler.Compiler
