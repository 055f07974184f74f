import CapabilityCompiler.Compiler.Acceptance
import CapabilityCompiler.Execution.Executor

/-! The call step behind every call of an execution. -/
namespace CapabilityCompiler.Execution
open Foundation Models Compiler

/-- The operation and the arguments a call step declares. -/
structure DeclaredCall where
  operationId : String
  arguments : Fields

mutual

/-- The call step at a position below the steps: indices of steps and of the parts of a step. -/
def callAt : List WorkflowStep → List ℕ → Option DeclaredCall
  | _, [] => none
  | [], _ => none
  | step :: _, 0 :: position => stepCallAt step position
  | _ :: rest, (index + 1) :: position => callAt rest (index :: position)

def stepCallAt : WorkflowStep → List ℕ → Option DeclaredCall
  | .call _ operation arguments, [] => some ⟨operation, arguments⟩
  | .branch _ _ thenSteps _, 0 :: position => callAt thenSteps position
  | .branch _ _ _ elseSteps, 1 :: position => callAt elseSteps position
  | .parallel _ children, position => callAt children position
  | .foreach _ _ _ _ workflow, 0 :: position => callAt workflow position
  | _, _ => none

end

/-- What the static analysis says about a declared call. Outside of a `foreach` its texts are
resolved with the item the whole workflow has. -/
structure Listed (containers : List Container) (declared : DeclaredCall)
    (occurrences : List String → Bool → List Occurrence) (site : CallSite) : Prop where
  operation : site.operationId = declared.operationId
  arguments : site.arguments = declared.arguments
  outer : containers ⊆ site.containers
  occurs : .foreach ∉ site.containers → ∀ available item, ∃ inner,
    ∀ text ∈ texts (.obj declared.arguments), ⟨text, false, inner, item⟩ ∈ occurrences available item

/-- The occurrences of a part are among those of the whole. -/
theorem Listed.mono {containers : List Container} {declared : DeclaredCall}
    {occurrences wider : List String → Bool → List Occurrence} {site : CallSite}
    (h : Listed containers declared occurrences site)
    (hwider : ∀ available item, ∃ between, occurrences between item ⊆ wider available item) :
    Listed containers declared wider site where
  operation := h.operation
  arguments := h.arguments
  outer := h.outer
  occurs hforeach available item := by
    obtain ⟨between, hsubset⟩ := hwider available item
    obtain ⟨inner, hinner⟩ := h.occurs hforeach between item
    exact ⟨inner, fun text htext => hsubset (hinner text htext)⟩

mutual

/-- The static analysis lists the call step of every position. -/
theorem exists_callSite {position : List ℕ} {declared : DeclaredCall} (steps : List WorkflowStep)
    (h : callAt steps position = some declared) (pointer : String) (containers : List Container)
    (index : ℕ) : ∃ site ∈ callSites pointer containers index steps,
      Listed containers declared (workflowOccurrences · · steps) site := by
  cases steps with
  | nil => cases position <;> simp [callAt] at h
  | cons step rest =>
    match position with
    | [] => simp [callAt] at h
    | 0 :: below =>
      obtain ⟨site, hsite, hlisted⟩ :=
        exists_stepCallSite step h (childAt pointer index) containers
      exact ⟨site, List.mem_append_left _ hsite, hlisted.mono fun available _ =>
        ⟨available, List.subset_append_left _ _⟩⟩
    | (offset + 1) :: below =>
      obtain ⟨site, hsite, hlisted⟩ := exists_callSite rest h pointer containers (index + 1)
      exact ⟨site, List.mem_append_right _ hsite, hlisted.mono fun available _ =>
        ⟨step.id.toList ++ available, List.subset_append_right _ _⟩⟩

theorem exists_stepCallSite {position : List ℕ} {declared : DeclaredCall} (step : WorkflowStep)
    (h : stepCallAt step position = some declared) (pointer : String)
    (containers : List Container) : ∃ site ∈ stepCallSites pointer containers step,
      Listed containers declared (stepOccurrences · · step) site := by
  cases step with
  | call id operation arguments =>
    cases position with
    | nil =>
      obtain rfl : DeclaredCall.mk operation arguments = declared := by simpa [stepCallAt] using h
      refine ⟨_, List.mem_singleton_self _, rfl, rfl, fun _ hc => hc, fun _ available item =>
        ⟨available, fun text htext => ?_⟩⟩
      exact List.mem_map.mpr ⟨text, htext, rfl⟩
    | cons index below => simp [stepCallAt] at h
  | branch id condition thenSteps elseSteps =>
    match position with
    | 0 :: below =>
      obtain ⟨site, hsite, hlisted⟩ := exists_callSite thenSteps (by simpa [stepCallAt] using h)
        (pointer ++ "/branch/then") containers 0
      exact ⟨site, List.mem_append_left _ hsite, hlisted.mono fun available _ => ⟨available,
        fun _ hx => List.mem_append_right _ (List.mem_append_left _ hx)⟩⟩
    | 1 :: below =>
      obtain ⟨site, hsite, hlisted⟩ := exists_callSite elseSteps (by simpa [stepCallAt] using h)
        (pointer ++ "/branch/else") containers 0
      exact ⟨site, List.mem_append_right _ hsite, hlisted.mono fun available _ => ⟨available,
        fun _ hx => List.mem_append_right _ (List.mem_append_right _ hx)⟩⟩
    | [] | (index + 2) :: below => simp [stepCallAt] at h
  | parallel id children =>
    obtain ⟨site, hsite, hlisted⟩ := exists_parallelCallSite children
      (by simpa [stepCallAt] using h) (pointer ++ "/parallel") (containers ++ [.parallel]) 0
    exact ⟨site, hsite, hlisted.operation, hlisted.arguments,
      fun _ hc => hlisted.outer (List.mem_append_left _ hc), hlisted.occurs⟩
  | «foreach» id items itemName maxItems workflow =>
    match position with
    | 0 :: below =>
      obtain ⟨site, hsite, hlisted⟩ := exists_callSite workflow (by simpa [stepCallAt] using h)
        (pointer ++ "/foreach/workflow") (containers ++ [.foreach]) 0
      have hinside : Container.foreach ∈ site.containers := hlisted.outer (by simp)
      exact ⟨site, hsite, hlisted.operation, hlisted.arguments,
        fun _ hc => hlisted.outer (List.mem_append_left _ hc), fun hnot => absurd hinside hnot⟩
    | [] | (index + 1) :: below => simp [stepCallAt] at h
  | _ => cases position <;> simp [stepCallAt] at h

theorem exists_parallelCallSite {position : List ℕ} {declared : DeclaredCall}
    (children : List WorkflowStep) (h : callAt children position = some declared)
    (pointer : String) (containers : List Container) (index : ℕ) :
    ∃ site ∈ parallelCallSites pointer containers index children,
      Listed containers declared (childrenOccurrences · · children) site := by
  cases children with
  | nil => cases position <;> simp [callAt] at h
  | cons child rest =>
    match position with
    | [] => simp [callAt] at h
    | 0 :: below =>
      obtain ⟨site, hsite, hlisted⟩ := exists_stepCallSite child h
        (childAt (childAt pointer index) 0) containers
      exact ⟨site, List.mem_append_left _ hsite, hlisted.mono fun available _ =>
        ⟨available, List.subset_append_left _ _⟩⟩
    | (offset + 1) :: below =>
      obtain ⟨site, hsite, hlisted⟩ := exists_parallelCallSite rest h pointer containers (index + 1)
      exact ⟨site, List.mem_append_right _ hsite, hlisted.mono fun available _ =>
        ⟨available, List.subset_append_right _ _⟩⟩

end

/-- The steps stand in the workflow from an index below the position on. -/
def Stands (root : Workflow) (position : List ℕ) (index : ℕ) (steps : List WorkflowStep) : Prop :=
  ∀ offset below, callAt root (position ++ (index + offset) :: below) =
    callAt steps (offset :: below)

/-- The step stands in the workflow at the position. -/
def StandsAt (root : Workflow) (position : List ℕ) (step : WorkflowStep) : Prop :=
  ∀ below, callAt root (position ++ below) = stepCallAt step below

theorem stands_root (root : Workflow) : Stands root [] 0 root := by
  intro offset below
  simp

section Stands
variable {root : Workflow} {position : List ℕ} {index : ℕ}

theorem Stands.head {step : WorkflowStep} {rest : List WorkflowStep}
    (h : Stands root position index (step :: rest)) :
    StandsAt root (position ++ [index]) step := by
  intro below
  have hcall := h 0 below
  simpa [callAt] using hcall

theorem Stands.tail {step : WorkflowStep} {rest : List WorkflowStep}
    (h : Stands root position index (step :: rest)) : Stands root position (index + 1) rest := by
  intro offset below
  have hcall := h (offset + 1) below
  have hindex : index + 1 + offset = index + (offset + 1) := by omega
  rw [hindex, hcall, callAt]

/-- A part of a step stands below it. -/
theorem StandsAt.part {step : WorkflowStep} (h : StandsAt root position step)
    (inner : List WorkflowStep) (parts : List ℕ)
    (hinner : ∀ offset below,
      stepCallAt step (parts ++ offset :: below) = callAt inner (offset :: below)) :
    Stands root (position ++ parts) 0 inner := by
  intro offset below
  rw [List.append_assoc, h, Nat.zero_add, hinner]

end Stands

/-! Every call of a run is the one declared at its position. -/

/-- The call has the operation and the resolved arguments of the step at its position. -/
def Placed (root : Workflow) (operations : Operations) (input : Json) (call : CallRequest) :
    Prop :=
  ∃ declared context details, callAt root call.position = some declared ∧
    operation? declared.operationId operations = some call.operation ∧
    context.input = input ∧ resolveFields context details declared.arguments = .ok call.arguments

section Runs
variable {Q R : Type} {engine : Engine Q R} {allowed : Q → Prop} {root : Workflow} {input : Json}

/-- Every request is allowed. -/
abbrev Sends (allowed : Q → Prop) : Process Q R Failure Json → Prop :=
  Process.Obeys allowed fun _ => True

/-- A call placed in the workflow is performed with allowed requests. -/
def Performs (engine : Engine Q R) (root : Workflow) (input : Json) (allowed : Q → Prop) : Prop :=
  ∀ call (next : Reply → Process Q R Failure Json), Placed root engine.operations input call →
    (∀ reply, Sends allowed (next reply)) → Sends allowed (engine.perform call next)

theorem sends_ofResult (x : Except ExecutionError Json) :
    Sends allowed (ofResult x : Process Q R Failure Json) := by
  cases x with
  | ok value => exact .done value
  | error e => exact .failed trivial

theorem sends_receive (id : Option String) (operationId : String) (operation : Operation)
    (reply : Reply) : Sends allowed (receive engine id operationId operation reply) := by
  unfold receive
  split
  · exact .failed trivial
  · exact .failed trivial
  · exact .failed trivial
  · split
    · exact .done _
    · exact .failed trivial

/-- A prepared call has the declared operation and the arguments resolved. -/
theorem prepareCall_eq_ok {context : Context} {position : List ℕ} {id : Option String}
    {operationId : String} {arguments : Fields} {call : CallRequest}
    (h : prepareCall engine context position id operationId arguments = .ok call) :
    call.position = position ∧ operation? operationId engine.operations = some call.operation ∧
      ∃ details, resolveFields context details arguments = .ok call.arguments := by
  unfold prepareCall at h
  split at h
  · simp at h
  · cases hoperation : operation? operationId engine.operations with
    | none => simp [hoperation] at h
    | some operation =>
      rw [hoperation] at h
      cases hresolved : resolveFields context
          (callDetails engine.capabilityId id operationId) arguments with
      | error e => simp [hresolved, bind, Except.bind] at h
      | ok resolved =>
        have hcall : call = ⟨operation, resolved, position⟩ := by
          simp only [hresolved, bind, Except.bind] at h
          split at h
          · split at h
            · simp at h
            · simpa [pure, Except.pure, eq_comm] using h
          · simpa [pure, Except.pure, eq_comm] using h
        subst hcall
        exact ⟨rfl, rfl, _, hresolved⟩

theorem sends_runCall (hperform : Performs engine root input allowed) {context : Context}
    (hinput : context.input = input) {position : List ℕ} {id : Option String}
    {operationId : String} {arguments : Fields}
    (hstands : StandsAt root position (.call id operationId arguments)) :
    Sends allowed (runCall engine context position id operationId arguments) := by
  unfold runCall
  cases hcall : prepareCall engine context position id operationId arguments with
  | error e => exact .failed trivial
  | ok call =>
    obtain ⟨rfl, hoperation, details, hresolved⟩ := prepareCall_eq_ok hcall
    have hdeclared : callAt root call.position = some ⟨operationId, arguments⟩ := by
      simpa [stepCallAt] using hstands []
    exact hperform call _ ⟨_, context, details, hdeclared, hoperation, hinput, hresolved⟩
      fun reply => sends_receive id operationId _ reply

theorem sends_gatherList {children : List (Process Q R Failure Json)}
    (h : ∀ child ∈ children, Sends allowed child) : Sends allowed (gatherList children) :=
  .gather (fun i => h _ (List.get_mem children i)) fun _ => .done _

mutual

theorem sends_runStep (hperform : Performs engine root input allowed) {context : Context}
    (hinput : context.input = input) {position : List ℕ} (step : WorkflowStep)
    (hstands : StandsAt root position step) :
    Sends allowed (runStep engine context position step) := by
  cases step with
  | call id operation arguments => exact sends_runCall hperform hinput hstands
  | branch id condition thenSteps elseSteps =>
    unfold runStep
    split
    · exact .failed trivial
    · exact sends_runWorkflow hperform hinput thenSteps
        (hstands.part thenSteps [0] fun _ _ => by simp [stepCallAt])
    · exact sends_runWorkflow hperform hinput elseSteps
        (hstands.part elseSteps [1] fun _ _ => by simp [stepCallAt])
  | parallel id children =>
    unfold runStep
    split
    · have hchildren := hstands.part children [] fun _ _ => by simp [stepCallAt]
      rw [List.append_nil] at hchildren
      exact sends_gatherList (sends_runChildren hperform hinput children hchildren)
    · exact .failed trivial
  | «foreach» id items itemName maxItems workflow =>
    unfold runStep
    split
    · exact .failed trivial
    · refine sends_gatherList fun child hchild => ?_
      obtain ⟨value, -, rfl⟩ := List.mem_map.mp hchild
      have hworkflow := hstands.part workflow [0] fun _ _ => by simp [stepCallAt]
      have hitem : ({ context with item := some value } : Context).input = input := hinput
      exact sends_runWorkflow hperform hitem workflow hworkflow
  | _ => exact sends_ofResult _

theorem sends_runWorkflow (hperform : Performs engine root input allowed) {context : Context}
    (hinput : context.input = input) {position : List ℕ} {index : ℕ} {result : Json}
    (steps : List WorkflowStep) (hstands : Stands root position index steps) :
    Sends allowed (runWorkflow engine context position index result steps) := by
  cases steps with
  | nil => exact .done result
  | cons step rest =>
    have hstep := sends_runStep hperform hinput step hstands.head
    refine hstep.bind fun result => sends_runWorkflow hperform ?_ rest hstands.tail
    cases step.id <;> exact hinput

theorem sends_runChildren (hperform : Performs engine root input allowed) {context : Context}
    (hinput : context.input = input) {position : List ℕ} {index : ℕ}
    (children : List WorkflowStep) (hstands : Stands root position index children) :
    ∀ child ∈ runChildren engine context position index children, Sends allowed child := by
  cases children with
  | nil =>
    intro child hchild
    exact absurd hchild List.not_mem_nil
  | cons first rest =>
    have hfirst := sends_runStep hperform hinput first hstands.head
    have hrest := sends_runChildren hperform hinput rest hstands.tail
    intro child hchild
    exact (List.mem_cons.mp hchild).elim (fun heq => heq ▸ hfirst) (hrest child)

end

theorem sends_execute (definition : CapabilityDefinition)
    (hperform : Performs engine definition.workflow input allowed) :
    Sends allowed (execute engine definition input) := by
  unfold execute
  split
  · exact .failed trivial
  · split
    · refine Process.Obeys.bind (sends_runWorkflow hperform rfl definition.workflow
        (stands_root _)) fun result => ?_
      unfold checkOutput
      split
      · split
        · exact .done _
        · exact .failed trivial
      · exact .done _
    · exact .failed trivial

end Runs

theorem performs_workflowExecutor (schemas : SchemaChecker) (settings : Settings)
    (operations : Operations) (capabilityId : String) (root : Workflow) (input : Json) :
    Performs (workflowExecutor schemas settings operations capabilityId) root input
      (Placed root operations input) :=
  fun _ _ hplaced hnext => .request hplaced hnext

end CapabilityCompiler.Execution
