import CapabilityCompiler.Actions.LedgerRecovery
import CapabilityCompiler.Compiler.ProvedActions

/-! Commits of actions whose target was already in a terminal state when they were prepared. -/
namespace CapabilityCompiler.Actions
open Foundation Models Compiler Execution

section Loaded
variable {isValid : Json → Json → Bool} (host : Host) (loaded : LoadedAction isValid)

def requiresOptimisticToken : Bool := loaded.mutations.any ActionOperationCaller.requiresToken

/-- The fresh preview, from what its workflow has returned and the headers of its reads. -/
def previewed (rawPreview : Json) (responseHeaders : List (List (String × String))) :
    Except RuntimeError ActionPreviewExecution := do
  let idempotentTerminal ← validateServerSerializedPreview loaded rawPreview
  let token ← captureConcurrencyToken host loaded rawPreview responseHeaders
  let publicPreview := Policies.filterOutput host.digest loaded.policy rawPreview
  validateLocalDevelopmentPreview loaded publicPreview
  return {
    value := publicPreview
    concurrencyToken := token
    concurrencyTokenRequired := some (requiresOptimisticToken loaded)
    idempotentTerminal := idempotentTerminal
    idempotentResult := if idempotentTerminal then publicPreview else .null }

/-- The value of a preview is the value of the fresh preview of what its workflow returns. -/
theorem preview_eq_previewed (arguments : Json) (principalContext : PrincipalContext) :
    preview host loaded arguments principalContext =
      (execute (actionEngine (loaded.caller host principalContext .preview) loaded.capability.id)
        ⟨loaded.capability.inputSchema, loaded.capability.outputSchema,
          loaded.capability.previewWorkflow⟩ arguments).bind fun rawPreview =>
        withRecorded fun responseHeaders _ =>
          checked (previewed host loaded rawPreview responseHeaders) fun fresh =>
            .done fresh.value := by
  unfold preview
  congr 1
  funext rawPreview
  congr 1
  funext responseHeaders ids
  unfold previewed
  cases validateServerSerializedPreview loaded rawPreview with
  | error error => rfl
  | ok terminal =>
    cases captureConcurrencyToken host loaded rawPreview responseHeaders with
    | error error => rfl
    | ok token =>
      cases hlocal : validateLocalDevelopmentPreview loaded
          (Policies.filterOutput host.digest loaded.policy rawPreview) with
      | error error => simp only [checked, hlocal, bind, Except.bind]
      | ok _ => simp only [checked, hlocal, bind, Except.bind, pure, Except.pure]

variable {host loaded}

/-! What a terminal preview says about the action. -/

/-- Only a server-serialized mutation is classified. -/
theorem serialized_of_classifyPreview {preview : Json} {operations : List Operation}
    {classes : List Bool} (h : classifyPreview preview operations = .ok classes)
    (hclasses : classes ≠ []) :
    ∃ operation ∈ operations, ∃ read pointer allowed,
      operation.http.safety.concurrency = .serverSerializedStatePredicate read pointer allowed := by
  induction operations with
  | nil =>
    obtain rfl := Except.ok.inj h
    exact absurd rfl hclasses
  | cons operation rest ih =>
    cases hconcurrency : operation.http.safety.concurrency with
    | serverSerializedStatePredicate read pointer allowed =>
      exact ⟨operation, List.mem_cons_self, read, pointer, allowed, hconcurrency⟩
    | _ =>
      simp only [classifyPreview, hconcurrency] at h
      obtain ⟨found, hfound, hserialized⟩ := ih h
      exact ⟨found, List.mem_cons_of_mem _ hfound, hserialized⟩

theorem serialized_of_terminal {rawPreview : Json}
    (h : validateServerSerializedPreview loaded rawPreview = .ok true) :
    ∃ operation ∈ loaded.mutations, ∃ read pointer allowed,
      operation.http.safety.concurrency = .serverSerializedStatePredicate read pointer allowed := by
  unfold validateServerSerializedPreview at h
  cases hclasses : classifyPreview rawPreview loaded.mutations with
  | error error =>
    rw [hclasses] at h
    exact absurd h (by simp [bind, Except.bind])
  | ok classes =>
    refine serialized_of_classifyPreview hclasses ?_
    rintro rfl
    rw [hclasses] at h
    exact absurd h (by simp [bind, Except.bind, pure, Except.pure])

/-- The safety of every mutation has been proved. -/
theorem safety_of_proved {operation : Operation} (h : operation ∈ loaded.mutations) :
    errorFree (safetyDiagnostics isValid "" loaded.capability loaded.operations
      (some loaded.policy) loaded.semantics operation) = true := by
  have hproved : errorFree ((mutationOperations loaded.capability loaded.operations).flatMap
      (safetyDiagnostics isValid "" loaded.capability loaded.operations (some loaded.policy)
        loaded.semantics)) = true := by
    refine errorFree_of_subset (fun d hd => ?_) loaded.proved
    exact List.mem_append_left _ (List.mem_append_right _ hd)
  exact errorFree_flatMap hproved operation h

/-- A guard of local development supports no server-serialized mutation. -/
theorem unguarded_of_serialized {operation : Operation} (h : operation ∈ loaded.mutations)
    {read pointer : String} {allowed : List Json}
    (hserialized : operation.http.safety.concurrency =
      .serverSerializedStatePredicate read pointer allowed) :
    loaded.capability.action.localDevelopmentStateGuard = none := by
  have hsafety := safety_of_proved h
  simp only [safetyDiagnostics, errorFree_append] at hsafety
  have hguarded := errorFree_ite rfl hsafety.1.2
  have hunused : usesLocalDevelopmentGuard (guardValid "" loaded.capability loaded.operations
      (some loaded.policy)) operation.http.safety = false := by
    simp [usesLocalDevelopmentGuard, hserialized]
  rw [hunused] at hguarded
  simpa using hguarded

/-! The commit of a terminal preview. -/

/-- The parts of a fresh terminal preview. -/
theorem terminal_of_previewed {rawPreview : Json}
    {responseHeaders : List (List (String × String))} {fresh : ActionPreviewExecution}
    (h : previewed host loaded rawPreview responseHeaders = .ok fresh)
    (hterminal : fresh.idempotentTerminal = true) :
    validateServerSerializedPreview loaded rawPreview = .ok true ∧
      fresh.value = Policies.filterOutput host.digest loaded.policy rawPreview ∧
      fresh.idempotentResult = fresh.value := by
  unfold previewed at h
  cases hvalid : validateServerSerializedPreview loaded rawPreview with
  | error error => simp [hvalid, bind, Except.bind] at h
  | ok terminal =>
    cases htoken : captureConcurrencyToken host loaded rawPreview responseHeaders with
    | error error => simp [hvalid, htoken, bind, Except.bind] at h
    | ok token =>
      cases hlocal : validateLocalDevelopmentPreview loaded
          (Policies.filterOutput host.digest loaded.policy rawPreview) with
      | error error => simp [hvalid, htoken, hlocal, bind, Except.bind] at h
      | ok _ =>
        simp only [hvalid, htoken, hlocal, bind, Except.bind, pure, Except.pure,
          Except.ok.injEq] at h
        subst h
        obtain rfl : terminal = true := hterminal
        exact ⟨rfl, rfl, rfl⟩

/-- The commit of a terminal preview ends at once. -/
theorem commit_of_terminal (hguard : loaded.capability.action.localDevelopmentStateGuard = none)
    {execution : ActionCommitExecution} (hterminal : execution.idempotentTerminal = true)
    (principalContext : PrincipalContext) :
    commit host loaded execution principalContext =
      if principalContext.targetSystemId = loaded.projectId ∧
          isTerminalResult loaded execution.idempotentResult = true ∧
          outputValid host loaded execution.idempotentResult = true
        then .done execution.idempotentResult
      else fail (configurationInvalid
        (if principalContext.targetSystemId = loaded.projectId then
          "Prepared Action idempotent result is invalid"
        else "Compiled Action IR failed runtime validation")) := by
  unfold commit
  by_cases htarget : principalContext.targetSystemId = loaded.projectId
  · simp only [htarget, ne_eq, not_true_eq_false, if_false, hguard, commitLoaded, hterminal,
      if_true, true_and, Bool.and_eq_true]
  · simp only [htarget, ne_eq, not_false_eq_true, if_true, false_and, if_false]

/-- What an ended process is recorded as by the coordinator. -/
theorem committedRecord_done {packs : Packs} {coordinator : Coordinator packs}
    {definition : CompiledActionDefinition} {handle : String} {context : CallerContext}
    {execution : ActionCommitExecution} (result : Json) :
    committedRecord coordinator definition handle context execution (.done result) =
      (.succeeded, result) := rfl

theorem committedRecord_fail {packs : Packs} {coordinator : Coordinator packs}
    {definition : CompiledActionDefinition} {handle : String} {context : CallerContext}
    {execution : ActionCommitExecution} (error : RuntimeError) :
    committedRecord coordinator definition handle context execution (fail error) =
      (.outcomeUnknown, .null) := rfl

end Loaded

/-- The commit of an action that was prepared in a terminal state asks for nothing. It ends with
the sealed preview, recorded as succeeded, exactly if the preview that the policy has filtered
still shows every terminal state and matches the output schema. -/
theorem terminal_replay {isValid : Json → Json → Bool} (host : Host)
    (loaded : LoadedAction isValid) {packs : Packs} (coordinator : Coordinator packs)
    (definition : CompiledActionDefinition) (handle : String) (rawPreview : Json)
    (responseHeaders : List (List (String × String))) (fresh : ActionPreviewExecution)
    (hfresh : previewed host loaded rawPreview responseHeaders = .ok fresh)
    (hterminal : fresh.idempotentTerminal = true) (generatedKey : Option String) (sealed : Json)
    (hsealed : Coordinator.sealedValue definition fresh generatedKey = .ok sealed)
    (state : PreparedActionState) (hstate : state.previewValue = sealed)
    (committer : CallerContext) :
    ∃ execution, unsealPreview state = .ok execution ∧
      let committed := commit host loaded execution committer.toPrincipalContext
      let publicPreview := Policies.filterOutput host.digest loaded.policy rawPreview
      (∀ events reached, Process.Run committed events reached →
        ∀ asked, Process.Event.sent asked ∉ events) ∧
      (committed = .done fresh.value ∧
          committedRecord coordinator definition handle committer execution committed =
            (.succeeded, fresh.value) ↔
        committer.targetSystemId = loaded.projectId ∧
          isTerminalResult loaded publicPreview = true ∧
          outputValid host loaded publicPreview = true) := by
  obtain ⟨hvalid, hvalue, hresult⟩ := terminal_of_previewed hfresh hterminal
  obtain ⟨operation, hmutation, read, pointer, allowed, hserialized⟩ := serialized_of_terminal hvalid
  have hguard := unguarded_of_serialized hmutation hserialized
  obtain ⟨key, hunsealed⟩ := unsealed_of_sealedValue hsealed hstate
  refine ⟨_, hunsealed, ?_⟩
  simp only [hresult, ← hvalue]
  rw [commit_of_terminal hguard hterminal]
  split
  · rename_i hshown
    refine ⟨fun events reached hrun asked hsent => ?_, fun _ => hshown,
      fun _ => ⟨rfl, committedRecord_done _⟩⟩
    obtain ⟨rfl, -⟩ := hrun.of_ended rfl
    exact absurd hsent List.not_mem_nil
  · rename_i hhidden
    refine ⟨fun events reached hrun asked hsent => ?_, fun h => ?_, fun h => absurd h hhidden⟩
    · obtain ⟨rfl, -⟩ := hrun.of_ended rfl
      exact absurd hsent List.not_mem_nil
    · exact absurd h.1 (by simp [fail])

/-! Withdrawing an order is serialized by the source; its policy may mask the state. -/

def sourceEvidence : Evidence := ⟨[]⟩

def withdrawOrder : Operation where
  kind := .action
  id := "withdraw-order"
  inputSchema := [("type", .str "object")]
  outputSchema := [("type", .str "object")]
  http :=
    { method := "POST"
      scopes := ["orders.write"]
      safety := ⟨.transition, .low, .reversible, .never,
        .stateIdempotent "/state" [.str "withdrawn"],
        .serverSerializedStatePredicate "read-order" "/state" [.str "open"]⟩ }
  contextBindings := []
  evidence := [sourceEvidence]
  effect_read := by decide

def withdrawOperations : Operations :=
  [("read-order", readOrder), ("read-ledger", readLedger), ("withdraw-order", withdrawOrder)]

/-- The fields of the source semantics that a serialized mutation needs evidence for. -/
def provedFields : List ActionSemanticsProvenance :=
  [.conflictControl, .idempotency, .outcomeResolution].map fun field =>
    ⟨field, sourceEvidence, .implementation⟩

def withdrawSemantics : ActionSemantics where
  method := "POST"
  safety := withdrawOrder.http.safety
  outcomeResolution := some (.statusQuery ⟨"read-ledger", [], none, none⟩)
  evidence := sourceEvidence
  provenance := provedFields

def withdrawCapability : ActionCapability :=
  { copyOrderCapability with
    id := "withdraw-order"
    action := ⟨.single, .required, none⟩
    commitWorkflow :=
      [.call (some "withdraw") "withdraw-order" [("id", .str "$.prepared.input.id")],
        .emit none (.str "$.steps.withdraw")] }

/-- The policy shows this field of an order. -/
def showing (field : String) : Policies.Policy :=
  { orderPolicy with readableFields := ["$." ++ field] }

theorem withdraw_proved (field : String) :
    (proveActionCapability (fun _ _ => true) "" withdrawCapability withdrawOperations
      [("withdraw-order", withdrawSemantics)] (some (showing field))).ok = true := by
  rfl

def loadedWithdraw (field : String) : LoadedAction (fun _ _ => true) where
  capability := withdrawCapability
  operations := withdrawOperations
  policy := showing field
  semantics := [("withdraw-order", withdrawSemantics)]
  projectId := "orders"
  contextBindingAllowlist := []
  proved := withdraw_proved field

def withdrawnOrder : Json := .obj [("id", .int 7), ("state", .str "withdrawn")]

/-- The fresh preview of a withdrawn order of which the policy shows this. -/
def withdrawnPreview (shown : Json) : ActionPreviewExecution where
  value := shown
  concurrencyTokenRequired := some false
  idempotentTerminal := true
  idempotentResult := shown

def withdrawDefinition : CompiledActionDefinition :=
  { orderDefinition true with
    capability := withdrawCapability
    approval := fun _ => rfl }

/-- What is sealed of the preview, and the commit of it by the operator. -/
def withdrawState (shown : Json) : PreparedActionState :=
  { copyState with
    inputValue := .obj [("id", .int 7)]
    previewValue := sealPreview shown .null "key" true shown }

def withdrawExecution (shown : Json) : ActionCommitExecution :=
  ⟨.obj [("id", .int 7)], shown, .null, "key", true, shown⟩

def withdrawCommit (field : String) (shown : Json) : ActionProcess :=
  commit exampleHost (loadedWithdraw field) (withdrawExecution shown)
    operatorCaller.toPrincipalContext

theorem terminal_replay_shown :
    withdrawCommit "state" (.obj [("state", .str "withdrawn")]) =
      .done (.obj [("state", .str "withdrawn")]) := by
  obtain ⟨execution, hunsealed, -, hreplayed⟩ := terminal_replay exampleHost
    (loadedWithdraw "state") (orderCoordinator true) withdrawDefinition "handle" withdrawnOrder []
    (withdrawnPreview (.obj [("state", .str "withdrawn")])) (by rfl) rfl (some "key")
    (sealPreview (.obj [("state", .str "withdrawn")]) .null "key" true
      (.obj [("state", .str "withdrawn")])) (by rfl)
    (withdrawState (.obj [("state", .str "withdrawn")])) rfl operatorCaller
  obtain rfl : withdrawExecution (.obj [("state", .str "withdrawn")]) = execution :=
    Except.ok.inj (Eq.trans (by rfl) hunsealed)
  exact (hreplayed.mpr ⟨rfl, by rfl, rfl⟩).1

/-- The order is prepared in its terminal state, and its commit is recorded as unknown because the
policy does not show the state. -/
theorem masked_terminal_state :
    previewed exampleHost (loadedWithdraw "id") withdrawnOrder [] =
        .ok (withdrawnPreview (.obj [("id", .int 7)])) ∧
      Coordinator.sealedValue withdrawDefinition (withdrawnPreview (.obj [("id", .int 7)]))
        (some "key") = .ok (withdrawState (.obj [("id", .int 7)])).previewValue ∧
      unsealPreview (withdrawState (.obj [("id", .int 7)])) =
        .ok (withdrawExecution (.obj [("id", .int 7)])) ∧
      withdrawCommit "id" (.obj [("id", .int 7)]) =
        fail (configurationInvalid "Prepared Action idempotent result is invalid") ∧
      committedRecord (orderCoordinator true) withdrawDefinition "handle" operatorCaller
        (withdrawExecution (.obj [("id", .int 7)]))
        (withdrawCommit "id" (.obj [("id", .int 7)])) = (.outcomeUnknown, .null) :=
  ⟨by rfl, by rfl, by rfl, by rfl, by rfl⟩

end CapabilityCompiler.Actions
