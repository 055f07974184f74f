import CapabilityCompiler.Actions.CompiledReferences
import CapabilityCompiler.Execution.CallPositions

/-! The mutations that executions of a proved action send. -/
namespace CapabilityCompiler.Actions
open Foundation Models Compiler Execution

/-! Path counts that are all the same. -/

theorem sumCounts_eq {left right : List ℕ} {n : ℕ} (hleft : left ≠ []) (hright : right ≠ [])
    (h : ∀ count ∈ sumCounts left right, count = n) :
    ∃ a b, (∀ count ∈ left, count = a) ∧ (∀ count ∈ right, count = b) ∧ a + b = n := by
  obtain ⟨a, lefts, rfl⟩ := List.exists_cons_of_ne_nil hleft
  obtain ⟨b, rights, rfl⟩ := List.exists_cons_of_ne_nil hright
  have hsum : ∀ x ∈ a :: lefts, ∀ y ∈ b :: rights, x + y = n := fun x hx y hy =>
    h _ (List.mem_flatMap.mpr ⟨x, hx, List.mem_map.mpr ⟨y, hy, rfl⟩⟩)
  have hfirst : a + b = n := hsum a List.mem_cons_self b List.mem_cons_self
  refine ⟨a, b, fun x hx => ?_, fun y hy => ?_, hfirst⟩
  · have hx := hsum x hx b List.mem_cons_self
    omega
  · have hy := hsum a List.mem_cons_self y hy
    omega

theorem sumCounts_ne_nil {left right : List ℕ} (hleft : left ≠ []) (hright : right ≠ []) :
    sumCounts left right ≠ [] := by
  obtain ⟨a, lefts, rfl⟩ := List.exists_cons_of_ne_nil hleft
  obtain ⟨b, rights, rfl⟩ := List.exists_cons_of_ne_nil hright
  simp [sumCounts]

section Counts
variable (operations : Operations)

mutual

theorem stepMutationCounts_ne_nil (step : WorkflowStep) :
    stepMutationCounts operations step ≠ [] := by
  cases step with
  | call id operation arguments =>
    unfold stepMutationCounts
    split <;> simp
  | branch id condition thenSteps elseSteps =>
    have hthen := mutationPathCounts_ne_nil thenSteps
    unfold stepMutationCounts
    exact fun hnil => hthen (List.append_eq_nil_iff.mp hnil).1
  | parallel id children => exact parallelMutationCounts_ne_nil children
  | «foreach» id items itemName maxItems workflow => simp [stepMutationCounts]
  | _ => simp [stepMutationCounts]

theorem mutationPathCounts_ne_nil (steps : List WorkflowStep) :
    mutationPathCounts operations steps ≠ [] := by
  cases steps with
  | nil => simp [mutationPathCounts]
  | cons step rest =>
    exact sumCounts_ne_nil (stepMutationCounts_ne_nil step) (mutationPathCounts_ne_nil rest)

theorem parallelMutationCounts_ne_nil (children : List WorkflowStep) :
    parallelMutationCounts operations children ≠ [] := by
  cases children with
  | nil => simp [parallelMutationCounts]
  | cons child rest =>
    exact sumCounts_ne_nil (stepMutationCounts_ne_nil child) (parallelMutationCounts_ne_nil rest)

end

end Counts

/-! Mutations by the call steps they are declared at. -/

/-- The call step at the position of a call declares a mutation. -/
def declaredMutation (operations : Operations) (root : Workflow) (call : CallRequest) : ℕ :=
  match callAt root call.position with
  | some declared => if isAction operations declared.operationId then 1 else 0
  | none => 0

section Tallies
variable {schemas : SchemaChecker} {settings : Settings} {operations : Operations}
  {capabilityId : String} {root : Workflow} (f : String → String)

theorem tally_ofResult {w : CallRequest → ℕ} (n : ℕ) (hn : n = 0) (x : Except ExecutionError Json) :
    Process.Tally w n (ofResult x : Process CallRequest Reply Failure Json) := by
  subst hn
  cases x with
  | ok value => exact .done value
  | error e => exact .failed 0 _

theorem tally_receive {w : CallRequest → ℕ} (engine : Engine CallRequest Reply)
    (id : Option String) (operationId : String) (operation : Operation) (reply : Reply) :
    Process.Tally w 0 (receive engine id operationId operation reply) := by
  unfold receive
  split
  · exact .failed 0 _
  · exact .failed 0 _
  · exact .failed 0 _
  · split
    · exact .done _
    · exact .failed 0 _

theorem tally_runCall {context : Context} {position : List ℕ} {id : Option String}
    {operationId : String} {arguments : Fields} {n : ℕ}
    (hstands : StandsAt root position (.call id operationId arguments))
    (h : ∀ count ∈ stepMutationCounts operations (.call id operationId arguments), count = n) :
    Process.Tally (declaredMutation operations root) n
      (runStep (workflowExecutor schemas settings operations capabilityId) context position
        (mapStep f (.call id operationId arguments))) := by
  have hweight : (if isAction operations operationId then 1 else 0) = n := by
    unfold stepMutationCounts at h
    split at h <;> simp_all
  simp only [mapStep]
  unfold runStep runCall
  split
  · exact .failed n _
  next call hcall =>
    obtain ⟨hposition, -⟩ := prepareCall_eq_ok hcall
    have hdeclared : callAt root call.position = some ⟨operationId, arguments⟩ := by
      have hstep := hstands []
      rw [List.append_nil, stepCallAt] at hstep
      rw [hposition, hstep]
    have hcount : declaredMutation operations root call = n := by
      simp only [declaredMutation, hdeclared, hweight]
    rw [← hcount]
    exact .request fun reply => tally_receive _ _ _ _ reply

mutual

/-- A step whose paths all declare the same number of mutations sends that many. -/
theorem tally_runStep {context : Context} {position : List ℕ} {n : ℕ} (step : WorkflowStep)
    (hstands : StandsAt root position step)
    (h : ∀ count ∈ stepMutationCounts operations step, count = n) :
    Process.Tally (declaredMutation operations root) n
      (runStep (workflowExecutor schemas settings operations capabilityId) context position
        (mapStep f step)) := by
  cases step with
  | call id operation arguments => exact tally_runCall f hstands h
  | branch id condition thenSteps elseSteps =>
    simp only [stepMutationCounts, List.mem_append] at h
    simp only [mapStep]
    unfold runStep
    split
    · exact .failed n _
    · exact tally_runWorkflow thenSteps
        (hstands.part thenSteps [0] fun _ _ => by simp [stepCallAt]) fun c hc => h c (.inl hc)
    · exact tally_runWorkflow elseSteps
        (hstands.part elseSteps [1] fun _ _ => by simp [stepCallAt]) fun c hc => h c (.inr hc)
  | parallel id children =>
    have hchildren := hstands.part children [] fun _ _ => by simp [stepCallAt]
    rw [List.append_nil] at hchildren
    simp only [mapStep]
    unfold runStep
    split
    · obtain ⟨counts, htallies, hsum⟩ := tally_runChildren context children hchildren h
      have hgathered := Process.Tally.gather_list (fun results => .done (Json.arr results)) htallies
        fun results => Process.Tally.done (Json.arr results)
      rwa [hsum, Nat.add_zero] at hgathered
    · exact .failed n _
  | «foreach» id items itemName maxItems workflow =>
    have hworkflow := hstands.part workflow [0] fun _ _ => by simp [stepCallAt]
    have hzero : n = 0 := (h 0 List.mem_cons_self).symm
    have hnone : ∀ count ∈ mutationPathCounts operations workflow, count = 0 := fun count hcount =>
      hzero ▸ h count (List.mem_cons_of_mem _ (List.mem_flatMap.mpr ⟨count, hcount, by simp⟩))
    subst hzero
    simp only [mapStep]
    unfold runStep
    split
    · exact .failed 0 _
    next sequence _ =>
      have htallies : ∀ values : List Json, List.Forall₂
          (Process.Tally (declaredMutation operations root)) (values.map fun _ => 0)
          (values.map fun value => runWorkflow
            (workflowExecutor schemas settings operations capabilityId)
            { context with item := some value } (position ++ [0]) 0 .null
            (mapSteps f workflow)) := by
        intro values
        induction values with
        | nil => exact .nil
        | cons value rest ih => exact .cons (tally_runWorkflow workflow hworkflow hnone) ih
      have hgathered := Process.Tally.gather_list (fun results => .done (Json.arr results))
        (htallies sequence) fun results => Process.Tally.done (Json.arr results)
      have hsum : (sequence.map fun _ => 0).sum = 0 := by simp
      rwa [hsum, Nat.add_zero] at hgathered
  | _ =>
    have hzero : n = 0 := (h 0 (by simp [stepMutationCounts])).symm
    exact tally_ofResult n hzero _

theorem tally_runWorkflow {context : Context} {position : List ℕ} {index : ℕ} {result : Json}
    {n : ℕ} (steps : List WorkflowStep) (hstands : Stands root position index steps)
    (h : ∀ count ∈ mutationPathCounts operations steps, count = n) :
    Process.Tally (declaredMutation operations root) n
      (runWorkflow (workflowExecutor schemas settings operations capabilityId) context position
        index result (mapSteps f steps)) := by
  cases steps with
  | nil =>
    have hzero : n = 0 := (h 0 (by simp [mutationPathCounts])).symm
    subst hzero
    exact .done result
  | cons step rest =>
    obtain ⟨a, b, hstep, hrest, rfl⟩ := sumCounts_eq (stepMutationCounts_ne_nil operations step)
      (mutationPathCounts_ne_nil operations rest) h
    exact (tally_runStep step hstands.head hstep).bind fun result =>
      tally_runWorkflow rest hstands.tail hrest

theorem tally_runChildren (context : Context) {position : List ℕ} {index n : ℕ}
    (children : List WorkflowStep) (hstands : Stands root position index children)
    (h : ∀ count ∈ parallelMutationCounts operations children, count = n) :
    ∃ counts, List.Forall₂ (Process.Tally (declaredMutation operations root)) counts
      (runChildren (workflowExecutor schemas settings operations capabilityId) context position
        index (mapSteps f children)) ∧ counts.sum = n := by
  cases children with
  | nil => exact ⟨[], .nil, h 0 (by simp [parallelMutationCounts])⟩
  | cons child rest =>
    obtain ⟨a, b, hchild, hrest, rfl⟩ := sumCounts_eq (stepMutationCounts_ne_nil operations child)
      (parallelMutationCounts_ne_nil operations rest) h
    obtain ⟨counts, htallies, rfl⟩ := tally_runChildren context rest hstands.tail hrest
    exact ⟨a :: counts, .cons (tally_runStep child hstands.head hchild) htallies, rfl⟩

end

theorem tally_execute {definition : CapabilityDefinition} {n : ℕ} {input : Json}
    (hworkflow : definition.workflow = mapSteps f root)
    (h : ∀ count ∈ mutationPathCounts operations root, count = n) :
    Process.Tally (declaredMutation operations root) n
      (execute (workflowExecutor schemas settings operations capabilityId) definition input) := by
  unfold execute
  split
  · exact .failed n _
  · split
    · rw [hworkflow, ← Nat.add_zero n]
      refine Process.Tally.bind (tally_runWorkflow f root (stands_root root) h) fun result => ?_
      unfold checkOutput
      split
      · split
        · exact .done _
        · exact .failed 0 _
      · exact .done _
    · exact .failed n _

end Tallies

/-! The claims about runs. -/

/-- The call mutates. -/
def mutation (call : CallRequest) : ℕ := if call.operation.kind = .action then 1 else 0

/-- Every call of the run is a mutation exactly if its declared operation is. -/
def KeepsKinds (operations : Operations) (workflow : Workflow)
    (events : List (Process.Event CallRequest Reply)) : Prop :=
  ∀ call, Process.Event.sent call ∈ events → mutation call = declaredMutation operations workflow call

section Kinds
variable (f : String → String)

def mapDeclared (declared : DeclaredCall) : DeclaredCall :=
  ⟨f declared.operationId, mapTextFields f declared.arguments⟩

mutual

theorem callAt_mapSteps (steps : List WorkflowStep) (position : List ℕ) :
    callAt (mapSteps f steps) position = (callAt steps position).map (mapDeclared f) := by
  cases steps with
  | nil => cases position <;> simp [mapSteps, callAt]
  | cons step rest =>
    match position with
    | [] => simp [mapSteps, callAt]
    | 0 :: below => exact stepCallAt_mapStep step below
    | (offset + 1) :: below => exact callAt_mapSteps rest (offset :: below)

theorem stepCallAt_mapStep (step : WorkflowStep) (position : List ℕ) :
    stepCallAt (mapStep f step) position = (stepCallAt step position).map (mapDeclared f) := by
  cases step with
  | call id operation arguments => cases position <;> simp [mapStep, stepCallAt, mapDeclared]
  | branch id condition thenSteps elseSteps =>
    match position with
    | 0 :: below => simpa [mapStep, stepCallAt] using callAt_mapSteps thenSteps below
    | 1 :: below => simpa [mapStep, stepCallAt] using callAt_mapSteps elseSteps below
    | [] | (index + 2) :: below => simp [mapStep, stepCallAt]
  | parallel id children => simpa [mapStep, stepCallAt] using callAt_mapSteps children position
  | «foreach» id items itemName maxItems workflow =>
    match position with
    | 0 :: below => simpa [mapStep, stepCallAt] using callAt_mapSteps workflow below
    | [] | (index + 1) :: below => simp [mapStep, stepCallAt]
  | _ => cases position <;> simp [mapStep, stepCallAt]

end

end Kinds

section Proved
variable {isValid : Json → Json → Bool} {path : String} {capability : ActionCapability}
  {operations : Operations} {actionSemantics : List (String × ActionSemantics)}
  {policy : Option Policies.Policy}

/-- What every call of a run of the commit workflow is, before and after rewriting. -/
theorem placed_of_commit {schemas : SchemaChecker} {settings : Settings} {input : Json}
    {events : List (Process.Event CallRequest Reply)}
    {reached : Process CallRequest Reply Failure Json}
    (hrun : Process.Run (execute (workflowExecutor schemas settings operations capability.id)
      (commitDefinition capability) input) events reached) {call : CallRequest}
    (hcall : Process.Event.sent call ∈ events) :
    ∃ declared, callAt capability.commitWorkflow call.position = some declared ∧
      operation? (rewriteText declared.operationId) operations = some call.operation := by
  have hsends := sends_execute (commitDefinition capability) (performs_workflowExecutor schemas
    settings operations capability.id (commitDefinition capability).workflow input)
  obtain ⟨rewritten, context, details, hrewritten, hoperation, -⟩ := (hsends.run hrun).2 call hcall
  have hmapped : (callAt capability.commitWorkflow call.position).map (mapDeclared rewriteText) =
      some rewritten := by
    rw [← callAt_mapSteps]
    exact hrewritten
  obtain ⟨declared, hdeclared, rfl⟩ := Option.map_eq_some_iff.mp hmapped
  exact ⟨declared, hdeclared, hoperation⟩

theorem mutation_eq_isAction {id : String} {call : CallRequest}
    (h : operation? id operations = some call.operation) :
    mutation call = if isAction operations id then 1 else 0 := by
  simp [mutation, isAction, h]

/-- Rewriting the identifiers of the called operations keeps the kinds of all calls. -/
theorem keepsKinds_of_rewritten {schemas : SchemaChecker} {settings : Settings} {input : Json}
    {events : List (Process.Event CallRequest Reply)}
    {reached : Process CallRequest Reply Failure Json}
    (hkinds : ∀ site ∈ commitSites capability,
      isAction operations (rewriteText site.operationId) = isAction operations site.operationId)
    (hrun : Process.Run (execute (workflowExecutor schemas settings operations capability.id)
      (commitDefinition capability) input) events reached) :
    KeepsKinds operations capability.commitWorkflow events := by
  intro call hcall
  obtain ⟨declared, hdeclared, hoperation⟩ := placed_of_commit hrun hcall
  obtain ⟨site, hsite, hlisted⟩ := exists_callSite capability.commitWorkflow hdeclared
    "/commit_workflow" [] 0
  have hkind := hkinds site hsite
  rw [hlisted.operation] at hkind
  rw [mutation_eq_isAction hoperation, hkind]
  simp only [declaredMutation, hdeclared]

/-- A commit whose calls keep their kinds mutates at most once, and once if it completes. -/
theorem commit_mutations (hproved : WorkflowsProved capability operations)
    {schemas : SchemaChecker} {settings : Settings} {input : Json}
    {events : List (Process.Event CallRequest Reply)}
    {reached : Process CallRequest Reply Failure Json}
    (hrun : Process.Run (execute (workflowExecutor schemas settings operations capability.id)
      (commitDefinition capability) input) events reached)
    (hkinds : KeepsKinds operations capability.commitWorkflow events) :
    Process.weight mutation events ≤ 1 ∧
      ∀ result, reached = .done result → Process.weight mutation events = 1 := by
  have htally : Process.Tally (declaredMutation operations capability.commitWorkflow) 1
      (execute (workflowExecutor schemas settings operations capability.id)
        (commitDefinition capability) input) := tally_execute rewriteText rfl hproved.single
  rw [Process.weight_congr hkinds]
  exact ⟨htally.le hrun, fun result hdone => htally.eq_of_done (hdone ▸ hrun)⟩

theorem preview_mutations (hproved : WorkflowsProved capability operations)
    {schemas : SchemaChecker} {settings : Settings} {input : Json}
    {events : List (Process.Event CallRequest Reply)}
    {reached : Process CallRequest Reply Failure Json}
    (hrun : Process.Run (execute (workflowExecutor schemas settings operations capability.id)
      (previewDefinition capability) input) events reached) :
    Process.weight mutation events = 0 := by
  have hsends := sends_execute (previewDefinition capability) (performs_workflowExecutor schemas
    settings operations capability.id capability.previewWorkflow input)
  refine Process.weight_eq_zero fun call hcall => ?_
  obtain ⟨declared, context, details, hdeclared, hoperation, -⟩ := (hsends.run hrun).2 call hcall
  obtain ⟨site, hsite, hlisted⟩ := exists_callSite capability.previewWorkflow hdeclared
    "/preview_workflow" [] 0
  have hread := hproved.previewReads site hsite
  rw [hlisted.operation] at hread
  simp [mutation_eq_isAction hoperation, hread]

/-- A proved action never mutates in its preview. In a commit it mutates at most once, and once if
the commit completes, unless rewriting turns a called operation into one of the other kind. -/
theorem single_mutation_of_proved (isValid : Json → Json → Bool) (path : String)
    (capability : ActionCapability) (operations : Operations)
    (actionSemantics : List (String × ActionSemantics)) (policy : Option Policies.Policy)
    (hok : (proveActionCapability isValid path capability operations actionSemantics policy).ok =
      true)
    (hkinds : ∀ site ∈ commitSites capability,
      isAction operations (rewriteText site.operationId) = isAction operations site.operationId)
    (schemas : SchemaChecker) (settings : Settings) (input : Json)
    (events : List (Process.Event CallRequest Reply))
    (reached : Process CallRequest Reply Failure Json) :
    (Process.Run (execute (workflowExecutor schemas settings operations capability.id)
        (previewDefinition capability) input) events reached →
      Process.weight mutation events = 0) ∧
    (Process.Run (execute (workflowExecutor schemas settings operations capability.id)
        (commitDefinition capability) input) events reached →
      Process.weight mutation events ≤ 1 ∧
        ∀ result, reached = .done result → Process.weight mutation events = 1) := by
  have hproved := workflowsProved_of_ok hok
  exact ⟨preview_mutations hproved,
    fun hrun => commit_mutations hproved hrun (keepsKinds_of_rewritten hkinds hrun)⟩

end Proved

def anySchema : SchemaChecker := ⟨fun _ => true, fun _ _ => true⟩

def copyCommit : Process CallRequest Reply Failure Json :=
  execute (workflowExecutor anySchema ⟨false, false⟩ orderOperations "copy-order")
    (commitDefinition copyOrderCapability)
    (.obj [("prepared", .obj [("input", .obj [("id", .int 7)]), ("preview", .obj [])])])

theorem single_mutation_of_proved_order :
    Process.weight mutation
      (Process.replay (fun _ => Reply.value (.obj [])) copyCommit).1 = 1 := by
  obtain ⟨reached, hrun, hsettled⟩ :=
    Process.replay_run (fun _ => Reply.value (.obj [])) copyCommit
  have houtcome : (Process.replay (fun _ => Reply.value (.obj [])) copyCommit).2 =
      .ok (.obj []) := by rfl
  rw [houtcome] at hsettled
  have hdone : reached = .done (.obj []) := hsettled
  exact ((single_mutation_of_proved (fun _ _ => true) "" copyOrderCapability orderOperations []
    (some orderPolicy) (by decide) (by decide) anySchema ⟨false, false⟩ _ _ reached).2 hrun).2
    _ hdone

/-! Rewriting also reaches operation identifiers. -/

/-- A read operation next to a mutation that has its rewritten identifier. -/
def shadowedOperations : Operations :=
  orderOperations ++
    [("$.prepared.input.audit", { readOrder with id := "$.prepared.input.audit" }),
      ("$.input.prepared.input.audit", { copyOrder with id := "$.input.prepared.input.audit" })]

/-- The copy is followed by a read. -/
def auditedCapability : ActionCapability :=
  { copyOrderCapability with
    commitWorkflow :=
      [.call (some "copy") "copy-order" [("id", .str "$.prepared.input.id")],
        .call none "$.prepared.input.audit" [],
        .emit none (.str "$.steps.copy")] }

def auditedCommit : Process CallRequest Reply Failure Json :=
  execute (workflowExecutor anySchema ⟨false, false⟩ shadowedOperations "copy-order")
    (commitDefinition auditedCapability)
    (.obj [("prepared", .obj [("input", .obj [("id", .int 7)]), ("preview", .obj [])])])

/-- The proof accepts the capability, and its commit completes with two mutations. -/
theorem two_mutations_of_proved :
    (proveActionCapability (fun _ _ => true) "" auditedCapability shadowedOperations []
      (some orderPolicy)).ok = true ∧
    ∃ events result, Process.Run auditedCommit events (.done result) ∧
      Process.weight mutation events = 2 := by
  refine ⟨by decide, ?_⟩
  obtain ⟨reached, hrun, hsettled⟩ :=
    Process.replay_run (fun _ => Reply.value (.obj [])) auditedCommit
  have houtcome : (Process.replay (fun _ => Reply.value (.obj [])) auditedCommit).2 =
      .ok (.obj []) := by rfl
  have hcount : Process.weight mutation
      (Process.replay (fun _ => Reply.value (.obj [])) auditedCommit).1 = 2 := by rfl
  rw [houtcome] at hsettled
  have hdone : reached = .done (.obj []) := hsettled
  exact ⟨_, _, hdone ▸ hrun, hcount⟩

end CapabilityCompiler.Actions
