import CapabilityCompiler.Actions.CoordinatorPool
import CapabilityCompiler.Actions.SealedArguments
import CapabilityCompiler.Policies.Refiltering

/-! What a commit and a later recovery record of the same answer of the source's ledger. -/
namespace CapabilityCompiler.Actions
open Foundation Models Compiler Execution

/-- The result of an attempt to recover an outcome. -/
inductive ActionOutcomeRecovery where
  | unresolved
  | resolved (result : Json)
deriving DecidableEq

/-- A loaded action for which exactly the mutations of its proof have attested semantics. -/
structure AttestedAction (isValid : Json → Json → Bool) extends LoadedAction isValid where
  attested : ∀ id, (semantics? semantics id).isSome = true ↔
    id ∈ toLoadedAction.mutationOperationIds

abbrev RecoveryProcess := Process ActionRequest ActionReply Failure ActionOutcomeRecovery

/-- A call outside of a workflow, with what follows on its reply. -/
def ActionOperationCaller.ask {V : Type} (caller : ActionOperationCaller) (call : CallRequest)
    (next : Reply → Process ActionRequest ActionReply Failure V) :
    Process ActionRequest ActionReply Failure V :=
  match caller.request call with
  | .error error => next (.stableError error)
  | .ok asked => .request asked fun answer => next (reply call.operation answer)

section Loaded
variable {isValid : Json → Json → Bool} (host : Host) (loaded : LoadedAction isValid)

/-- What a status query makes of the reply to it. -/
def ledgerOutcome (semantics : ActionSemantics) (query : StatusQueryOutcomeResolution) :
    Reply → Except Failure Json
  | .value value => match statusQueryOutcome semantics query value with
    | .ok _ => .ok (Policies.filterOutput host.digest loaded.policy value)
    | .error error => .error (.caller error)
  | .stableError error => .error (.caller error)
  | _ => .error .exception

/-- The status query, with what follows on its result or on what it raises. -/
def queryLedger {V : Type} (semantics : ActionSemantics) (query : StatusQueryOutcomeResolution)
    (execution : ActionCommitExecution) (publicPreview : Json)
    (principalContext : PrincipalContext)
    (next : Except Failure Json → Process ActionRequest ActionReply Failure V) :
    Process ActionRequest ActionReply Failure V :=
  match statusOperation? loaded.operations query, execution.inputValue with
  | some operation, .obj _ =>
    match (Json.field? "required" operation.inputSchema).getD (.arr []) with
    | .arr required =>
      match statusQueryArguments operation execution publicPreview
        (statusQueryBindings (requiredInputs operation required) query) [] with
      | .ok arguments => (loaded.caller host principalContext .status).ask
          ⟨operation, arguments, []⟩ fun answer =>
            next (ledgerOutcome host loaded semantics query answer)
      | .error error => next (.error (.caller error))
    | _ => next (.error (.caller statusQueryInvalid))
  | _, _ => next (.error (.caller statusQueryInvalid))

/-- The commit raises what its status query raises, and goes on with its result. -/
theorem resolveStatusQuery_eq_queryLedger (semantics : ActionSemantics)
    (query : StatusQueryOutcomeResolution) (execution : ActionCommitExecution)
    (publicPreview : Json) (principalContext : PrincipalContext) :
    resolveStatusQuery host loaded semantics query execution publicPreview principalContext =
      queryLedger host loaded semantics query execution publicPreview principalContext
        Process.ofExcept := by
  have hnext : received (fun value => checked (statusQueryOutcome semantics query value)
      fun _ => .done (Policies.filterOutput host.digest loaded.policy value)) =
      fun answer => Process.ofExcept (ledgerOutcome host loaded semantics query answer) := by
    funext answer
    cases answer with
    | value value =>
      simp only [received, ledgerOutcome]
      cases statusQueryOutcome semantics query value <;> rfl
    | _ => rfl
  unfold resolveStatusQuery queryLedger
  rw [hnext]
  cases statusOperation? loaded.operations query with
  | none => rfl
  | some operation =>
    cases execution.inputValue with
    | obj fields =>
      cases hrequired : (Json.field? "required" operation.inputSchema).getD (.arr []) with
      | arr required =>
        simp only [hrequired]
        cases statusQueryArguments operation execution publicPreview
          (statusQueryBindings (requiredInputs operation required) query) [] <;> rfl
      | _ =>
        simp only [hrequired]
        rfl
    | _ => rfl

/-- The status query that an unknown outcome is recovered by. -/
def LoadedAction.ledger? : Option (ActionSemantics × StatusQueryOutcomeResolution) :=
  match loaded.mutationOperationIds with
  | [operationId] => (semantics? loaded.semantics operationId).bind fun found =>
    match found.safety.idempotency, found.outcomeResolution with
    | .sourceKey _, some (.statusQuery query) => some (found, query)
    | _, _ => none
  | _ => none

/-- The end of a recovery: a state conflict leaves the outcome unknown. -/
def concludeRecovery : Except Failure Json → RecoveryProcess
  | .ok result =>
    if outputValid host loaded result then .done (.resolved result)
    else .failed (.execution
      { code := "ACC_RUNTIME_OUTPUT_INVALID"
        message := "Policy-filtered Action output does not match its schema."
        details := [("capability_id", .str loaded.capability.id)] })
  | .error (.caller error) =>
    if error.code = "ACC_RUNTIME_ACTION_STATE_CONFLICT" then .done .unresolved
    else .failed (.caller error)
  | .error failure => .failed failure

/-- Read the ledger of the source without ever replaying the mutation. -/
def resolveUnknownOutcome (execution : ActionCommitExecution)
    (principalContext : PrincipalContext) : RecoveryProcess :=
  if principalContext.targetSystemId ≠ loaded.projectId then
    .failed (.caller (configurationInvalid "Compiled Action IR failed runtime validation"))
  else if loaded.mutationOperationIds.length ≠ 1 then
    .failed (.caller (configurationInvalid "Compiled Action outcome recovery is invalid"))
  else match loaded.ledger? with
    | none => .done .unresolved
    | some (found, query) => queryLedger host loaded found query execution
        (Policies.filterOutput host.digest loaded.policy execution.previewValue) principalContext
        (concludeRecovery host loaded)

/-- The end of a commit: its result is filtered and validated. -/
def concludeCommit (result : Json) : ActionProcess :=
  let publicResult := Policies.filterOutput host.digest loaded.policy result
  validateActionOutput host loaded publicResult (.done publicResult)

/-! Where a commit and a recovery wait for the ledger. -/

/-- The status query stands at no position of a workflow. -/
def atWorkflow : ActionRequest → Prop
  | .read call => call.position ≠ []
  | _ => True

theorem performs_atWorkflow {caller : ActionOperationCaller} {capabilityId : String}
    {root : Workflow} {input : Json} :
    Performs (actionEngine caller capabilityId) root input atWorkflow := by
  refine performs_actionEngine fun call asked hplaced hrequest => ?_
  obtain ⟨declared, context, details, hdeclared, -⟩ := hplaced
  obtain ⟨enriched, -, rfl | ⟨-, -, key, rfl⟩⟩ := request_eq_ok hrequest
  · rintro (hposition : call.position = [])
    rw [hposition] at hdeclared
    cases root <;> exact absurd hdeclared (by simp [callAt])
  · trivial

theorem sends_preview_atWorkflow (arguments : Json) (principalContext : PrincipalContext) :
    Execution.Sends atWorkflow (preview host loaded arguments principalContext) :=
  sends_preview host loaded performs_atWorkflow trivial

section Waiting
variable {host loaded} {V : Type} {t : List (Process.Event ActionRequest ActionReply)}
  {call : CallRequest}

theorem waiting_of_ask {caller : ActionOperationCaller} {asked : CallRequest}
    {next : Reply → Process ActionRequest ActionReply Failure V}
    {q : ActionRequest} {resume : ActionReply → Process ActionRequest ActionReply Failure V}
    (hnext : ∀ answer, (next answer).ended = true)
    (h : Process.Run (caller.ask asked next) t (.waiting q resume)) :
    resume = fun answer => next (ActionOperationCaller.reply asked.operation answer) := by
  unfold ActionOperationCaller.ask at h
  split at h
  · exact absurd h (Process.Run.not_waiting_of_ended (hnext _))
  · rcases h.waiting_of_request with ⟨-, hresume⟩ | ⟨answer, t', hrun⟩
    · exact hresume
    · exact absurd hrun (Process.Run.not_waiting_of_ended (hnext _))

/-- Who waits for the ledger goes on with what the query makes of its answer. -/
theorem waiting_of_queryLedger {semantics : ActionSemantics}
    {query : StatusQueryOutcomeResolution} {execution : ActionCommitExecution}
    {publicPreview : Json} {principalContext : PrincipalContext}
    {next : Except Failure Json → Process ActionRequest ActionReply Failure V}
    {q : ActionRequest} {resume : ActionReply → Process ActionRequest ActionReply Failure V}
    (hnext : ∀ outcome, (next outcome).ended = true)
    (h : Process.Run (queryLedger host loaded semantics query execution publicPreview
      principalContext next) t (.waiting q resume)) :
    ∃ operation : Operation, operation.kind = .read ∧
      resume = fun answer => next (ledgerOutcome host loaded semantics query
        (ActionOperationCaller.reply operation answer)) := by
  have hended : ∀ outcome, ¬ Process.Run (next outcome) t (.waiting q resume) :=
    fun outcome => Process.Run.not_waiting_of_ended (hnext outcome)
  unfold queryLedger at h
  split at h
  · rename_i operation _ hoperation _
    split at h
    · split at h
      · refine ⟨operation, ?_, waiting_of_ask (fun answer => hnext _) h⟩
        unfold statusOperation? at hoperation
        split at hoperation
        · split at hoperation
          · rename_i hkind
            rwa [Option.some.inj hoperation] at hkind
          · exact absurd hoperation (by simp)
        · exact absurd hoperation (by simp)
      · exact absurd h (hended _)
    · exact absurd h (hended _)
  · exact absurd h (hended _)

theorem ended_ofExcept (outcome : Except Failure Json) :
    (Process.ofExcept outcome : ActionProcess).ended = true := by
  cases outcome <;> rfl

theorem ended_concludeRecovery (outcome : Except Failure Json) :
    (concludeRecovery host loaded outcome).ended = true := by
  unfold concludeRecovery
  split
  · split <;> rfl
  · split <;> rfl
  · rfl

theorem ended_concludeCommit (result : Json) :
    (concludeCommit host loaded result).ended = true := by
  simp only [concludeCommit, validateActionOutput]
  split <;> rfl

/-- A recovery that waits for the ledger concludes with what it answers. -/
theorem waiting_of_resolveUnknownOutcome {execution : ActionCommitExecution}
    {principalContext : PrincipalContext} {q : ActionRequest}
    {resume : ActionReply → RecoveryProcess}
    (h : Process.Run (resolveUnknownOutcome host loaded execution principalContext) t
      (.waiting q resume)) :
    ∃ found query, loaded.ledger? = some (found, query) ∧
      ∃ operation : Operation, operation.kind = .read ∧
        resume = fun answer => concludeRecovery host loaded
          (ledgerOutcome host loaded found query (ActionOperationCaller.reply operation answer)) := by
  unfold resolveUnknownOutcome at h
  split at h
  · exact absurd h (Process.Run.not_waiting_of_ended rfl)
  · split at h
    · exact absurd h (Process.Run.not_waiting_of_ended rfl)
    · split at h
      · exact absurd h (Process.Run.not_waiting_of_ended rfl)
      · rename_i found query hledger
        exact ⟨found, query, hledger, waiting_of_queryLedger ended_concludeRecovery h⟩

/-- What goes on after a status query goes on after its outcome. -/
theorem queryLedger_bind {semantics : ActionSemantics} {query : StatusQueryOutcomeResolution}
    {execution : ActionCommitExecution} {publicPreview : Json}
    {principalContext : PrincipalContext} {next : Except Failure Json → ActionProcess}
    (f : Json → ActionProcess) :
    (queryLedger host loaded semantics query execution publicPreview principalContext next).bind f =
      queryLedger host loaded semantics query execution publicPreview principalContext
        fun outcome => (next outcome).bind f := by
  unfold queryLedger
  split
  · split
    · split
      · unfold ActionOperationCaller.ask
        split <;> rfl
      · rfl
    · rfl
  · rfl

/-- Where a commit goes on after its ledger. -/
def LedgerResumed (host : Host) (loaded : LoadedAction isValid)
    (resume : ActionReply → ActionProcess) : Prop :=
  ∃ operationId found query, semantics? loaded.semantics operationId = some found ∧
    found.outcomeResolution = some (.statusQuery query) ∧
    ∃ operation : Operation, operation.kind = .read ∧
      resume = fun answer => (Process.ofExcept (ledgerOutcome host loaded found query
        (ActionOperationCaller.reply operation answer))).bind (concludeCommit host loaded)

theorem waiting_of_settle {execution : ActionCommitExecution}
    {principalContext : PrincipalContext} {rawResult : Json} {ids : List String}
    {q : ActionRequest} {resume : ActionReply → ActionProcess}
    (h : Process.Run ((settle host loaded execution principalContext rawResult ids).bind
      (concludeCommit host loaded)) t (.waiting q resume)) :
    LedgerResumed host loaded resume := by
  have hdone : ¬ Process.Run (concludeCommit host loaded rawResult) t (.waiting q resume) :=
    Process.Run.not_waiting_of_ended (ended_concludeCommit rawResult)
  unfold settle at h
  split at h
  · rename_i operationId
    split at h
    · exact absurd h hdone
    · rename_i found hfound
      split at h
      · rename_i query hquery
        rw [resolveStatusQuery_eq_queryLedger, queryLedger_bind] at h
        have hended : ∀ outcome : Except Failure Json,
            ((Process.ofExcept outcome).bind (concludeCommit host loaded)).ended = true := by
          intro outcome
          cases outcome with
          | ok result => exact ended_concludeCommit result
          | error failure => rfl
        obtain ⟨operation, hkind, hresume⟩ := waiting_of_queryLedger hended h
        exact ⟨operationId, found, query, hfound, hquery, operation, hkind, hresume⟩
      · exact absurd h hdone
  · exact absurd h (Process.Run.not_waiting_of_ended rfl)

theorem waiting_of_commitLoaded {execution : ActionCommitExecution}
    {principalContext : PrincipalContext} {resume : ActionReply → ActionProcess}
    (hposition : call.position = [])
    (h : Process.Run (commitLoaded host loaded execution principalContext) t
      (.waiting (.read call) resume)) :
    LedgerResumed host loaded resume := by
  have hquery : ¬ atWorkflow (.read call) := fun hcall => hcall hposition
  unfold commitLoaded at h
  split at h
  · split at h
    · exact absurd h (Process.Run.not_waiting_of_ended rfl)
    · exact absurd h (Process.Run.not_waiting_of_ended rfl)
  · obtain ⟨rawResult, t', hrecorded⟩ :=
      h.waiting_of_bind (sends_execute _ performs_atWorkflow) hquery
    rcases hrecorded.waiting_of_request with ⟨hsame, -⟩ | ⟨answer, t'', hsettled⟩
    · exact absurd hsame (by simp)
    · split at hsettled
      · exact waiting_of_settle hsettled
      · exact absurd hsettled (Process.Run.not_waiting_of_ended rfl)

/-- A commit that waits for the ledger concludes with what it answers. -/
theorem waiting_of_commit {execution : ActionCommitExecution}
    {principalContext : PrincipalContext} {resume : ActionReply → ActionProcess}
    (hposition : call.position = [])
    (h : Process.Run (commit host loaded execution principalContext) t
      (.waiting (.read call) resume)) :
    LedgerResumed host loaded resume := by
  have hquery : ¬ atWorkflow (.read call) := fun hcall => hcall hposition
  unfold commit at h
  split at h
  · exact absurd h (Process.Run.not_waiting_of_ended rfl)
  · split at h
    · exact waiting_of_commitLoaded hposition h
    · split at h
      · split at h
        · exact absurd h (Process.Run.not_waiting_of_ended rfl)
        · rcases h.waiting_of_request with ⟨hsame, -⟩ | ⟨answer, t', hheld⟩
          · exact absurd hsame (by simp)
          · split at hheld
            · -- The guarded commit reads its preview again before it goes on.
              obtain ⟨fresh, t'', hchecked⟩ :=
                hheld.waiting_of_bind (sends_preview_atWorkflow host loaded _ _) hquery
              unfold checked at hchecked
              split at hchecked
              · rename_i terminal _
                cases terminal with
                | true =>
                  refine absurd hchecked (Process.Run.not_waiting_of_ended ?_)
                  simp only [if_true, validateActionOutput]
                  split <;> rfl
                | false =>
                  simp only [Bool.false_eq_true, if_false] at hchecked
                  exact waiting_of_commitLoaded hposition hchecked
              · exact absurd hchecked (Process.Run.not_waiting_of_ended rfl)
            · exact absurd hheld (Process.Run.not_waiting_of_ended rfl)
            · exact absurd hheld (Process.Run.not_waiting_of_ended rfl)
      · exact absurd h (Process.Run.not_waiting_of_ended rfl)

end Waiting
end Loaded

/-! What is recorded. -/

/-- What a coordinator asks the store to record next of an action whose outcome is open. -/
def recorded : CoordinatorProcess → PreparedActionStatus × Json
  | .request (.store (.transition _ _ _ target resultValue) _) _ => (target, resultValue)
  | _ => (.outcomeUnknown, .null)

/-- A coordinator whose request is replied to. -/
def replied : CoordinatorProcess → CoordinatorReply → CoordinatorProcess
  | .request _ resume, r => resume r
  | p, _ => p

/-- What a coordinator is told of a commit that has ended. -/
def commitReply : ActionProcess → CoordinatorReply
  | .done result => .committed result
  | .failed (.caller error) => .raised (.runtime error)
  | _ => .exception

def recoveryReply : RecoveryProcess → CoordinatorReply
  | .done (.resolved result) => .recovered result
  | .done .unresolved => .unresolved
  | .failed (.caller error) => .raised (.runtime error)
  | _ => .exception

section Records
variable {packs : Packs} (coordinator : Coordinator packs) (definition : CompiledActionDefinition)
  (handle : String) (context : CallerContext)

/-- What a coordinator records of a commit. -/
def committedRecord (execution : ActionCommitExecution) (ended : ActionProcess) :
    PreparedActionStatus × Json :=
  recorded (replied (coordinator.performCommit definition handle execution context
    fun _ => raise .cancelled) (commitReply ended))

/-- What a coordinator records of a recovery. -/
def recoveredRecord (state : PreparedActionState) (ended : RecoveryProcess) :
    PreparedActionStatus × Json :=
  recorded (replied (coordinator.recoverOutcome definition handle state context
    fun _ => raise .cancelled) (recoveryReply ended))

variable {coordinator definition handle context} {isValid : Json → Json → Bool} {host : Host}
  {loaded : LoadedAction isValid}

/-- An ended commit is recorded with its result, or as unknown. -/
theorem committedRecord_concludeCommit (execution : ActionCommitExecution)
    (outcome : Except Failure Json) :
    committedRecord coordinator definition handle context execution
        ((Process.ofExcept outcome).bind (concludeCommit host loaded)) =
      match outcome with
      | .ok result =>
        let publicResult := Policies.filterOutput host.digest loaded.policy result
        if outputValid host loaded publicResult then (.succeeded, publicResult)
        else (.outcomeUnknown, .null)
      | .error _ => (.outcomeUnknown, .null) := by
  cases outcome with
  | ok result =>
    simp only [Process.ofExcept, Process.bind, concludeCommit, validateActionOutput]
    split <;> rfl
  | error failure =>
    cases failure with
    | caller error => rfl
    | execution error => rfl
    | exception => rfl

/-- An ended recovery is recorded with its result, or the outcome stays unknown. -/
theorem recoveredRecord_concludeRecovery {state : PreparedActionState}
    {execution : ActionCommitExecution} (hsealed : unsealPreview state = .ok execution)
    (hdefinition : definition.capability = loaded.capability)
    (hschemas : coordinator.schemas = host.schemas) (outcome : Except Failure Json) :
    recoveredRecord coordinator definition handle context state
        (concludeRecovery host loaded outcome) =
      match outcome with
      | .ok result =>
        if outputValid host loaded result then (.succeeded, result) else (.outcomeUnknown, .null)
      | .error _ => (.outcomeUnknown, .null) := by
  unfold recoveredRecord Coordinator.recoverOutcome
  rw [hsealed]
  cases outcome with
  | ok result =>
    by_cases hvalid : outputValid host loaded result = true
    · have hstored : coordinator.schemas.valid definition.capability.outputSchema result = true := by
        rw [hdefinition, hschemas]
        exact hvalid
      simp only [concludeRecovery, hvalid, if_true, assured, replied, recoveryReply,
        Coordinator.storeRecovery, hstored]
      rfl
    · simp only [concludeRecovery, hvalid, Bool.false_eq_true, if_false]
      rfl
  | error failure =>
    cases failure with
    | caller error =>
      simp only [concludeRecovery]
      split <;> rfl
    | execution error => rfl
    | exception => rfl

end Records

/-- A ledger answer that a second filtering leaves as it is, or whose filtered forms both fail the
output schema. -/
def FiltersOnce {isValid : Json → Json → Bool} (host : Host) (loaded : LoadedAction isValid)
    (value : Json) : Prop :=
  let filter := Policies.filterOutput host.digest loaded.policy
  (∀ hashed ∈ Policies.hashedAt loaded.policy.rules [] value,
      Policies.Rehashes host.digest hashed) ∨
    outputValid host loaded (filter value) = false ∧
      outputValid host loaded (filter (filter value)) = false

/-- The ledger shows that the action has succeeded. -/
def ShowsSuccess {isValid : Json → Json → Bool} (loaded : LoadedAction isValid) (value : Json) :
    Prop :=
  ∃ found query, loaded.ledger? = some (found, query) ∧
    statusQueryOutcome found query value = .ok ()

/-- The ledger that a commit asks is the one a recovery asks. -/
theorem ledger_of_semantics {isValid : Json → Json → Bool} (loaded : AttestedAction isValid)
    {operationId : String} {found found' : ActionSemantics}
    {query query' : StatusQueryOutcomeResolution}
    (hledger : loaded.ledger? = some (found', query'))
    (hfound : semantics? loaded.semantics operationId = some found)
    (hquery : found.outcomeResolution = some (.statusQuery query)) :
    found = found' ∧ query = query' := by
  have hmutation : operationId ∈ loaded.mutationOperationIds :=
    (loaded.attested operationId).mp (by simp [hfound])
  unfold LoadedAction.ledger? at hledger
  split at hledger
  · rename_i only honly
    obtain rfl : operationId = only := by simpa [honly] using hmutation
    rw [hfound, Option.bind_some] at hledger
    split at hledger
    · rename_i hquery'
      obtain ⟨rfl, rfl⟩ := Prod.mk.inj (Option.some.inj hledger)
      rw [hquery] at hquery'
      exact ⟨rfl, (OutcomeResolutionContract.statusQuery.inj (Option.some.inj hquery'))⟩
    · exact absurd hledger (by simp)
  · exact absurd hledger (by simp)

section Answers
variable {isValid : Json → Json → Bool} {host : Host} {loaded : LoadedAction isValid}

/-- A status query that succeeds has been replied to with a value that shows the success. -/
theorem ledgerOutcome_eq_ok {semantics : ActionSemantics} {query : StatusQueryOutcomeResolution}
    {answer : Reply} {result : Json}
    (h : ledgerOutcome host loaded semantics query answer = .ok result) :
    ∃ value, answer = .value value ∧ statusQueryOutcome semantics query value = .ok () ∧
      result = Policies.filterOutput host.digest loaded.policy value := by
  unfold ledgerOutcome at h
  split at h
  · rename_i value
    split at h
    · rename_i hsuccess
      exact ⟨value, rfl, hsuccess, (Except.ok.inj h).symm⟩
    · exact absurd h (by simp)
  · exact absurd h (by simp)
  · exact absurd h (by simp)

/-- A read operation has a value for its reply only with valid headers. -/
theorem read_of_reply {operation : Operation} {answer : ActionReply} {value : Json}
    (hkind : operation.kind = .read)
    (h : ActionOperationCaller.reply operation answer = .value value) :
    ∃ headers, answer = .readResult value headers ∧
      ActionOperationCaller.headersValid headers = true := by
  cases answer with
  | readResult found headers =>
    by_cases hheaders : ActionOperationCaller.headersValid headers = true
    · simp only [ActionOperationCaller.reply, hkind, reduceCtorEq, if_false, hheaders, if_true,
        Reply.value.injEq] at h
      exact ⟨headers, by rw [h], hheaders⟩
    · simp [ActionOperationCaller.reply, hkind, hheaders] at h
  | _ => simp [ActionOperationCaller.reply, hkind] at h

/-- The result of a success filtered twice is recorded as the one filtered once is. -/
theorem record_twice_iff (value : Json) :
    ((if outputValid host loaded (Policies.filterOutput host.digest loaded.policy
          (Policies.filterOutput host.digest loaded.policy value)) = true
        then (PreparedActionStatus.succeeded, Policies.filterOutput host.digest loaded.policy
          (Policies.filterOutput host.digest loaded.policy value))
        else (.outcomeUnknown, .null)) =
      if outputValid host loaded (Policies.filterOutput host.digest loaded.policy value) = true
        then (.succeeded, Policies.filterOutput host.digest loaded.policy value)
        else (.outcomeUnknown, .null)) ↔
      FiltersOnce host loaded value := by
  simp only [FiltersOnce, ← Policies.filterOutput_twice]
  generalize Policies.filterOutput host.digest loaded.policy
    (Policies.filterOutput host.digest loaded.policy value) = twice
  generalize Policies.filterOutput host.digest loaded.policy value = once
  by_cases hsame : twice = once
  · simp [hsame]
  · by_cases htwice : outputValid host loaded twice = true
    · by_cases honce : outputValid host loaded once = true
      · simp [hsame, htwice, honce]
      · simp [hsame, htwice, honce]
    · by_cases honce : outputValid host loaded once = true
      · simp [hsame, htwice, honce]
      · simp [htwice, honce]

end Answers

/-- A commit and a later recovery record the same of an answer of the ledger exactly if a success
it shows is not changed by filtering it twice. -/
theorem ledger_agreement {packs : Packs} {isValid : Json → Json → Bool} (host : Host)
    (loaded : AttestedAction isValid) (coordinator : Coordinator packs)
    (definition : CompiledActionDefinition) (hdefinition : definition.capability = loaded.capability)
    (hschemas : coordinator.schemas = host.schemas) (handle : String)
    (committer recoverer : CallerContext) (execution sealed : ActionCommitExecution)
    (state : PreparedActionState) (hsealed : unsealPreview state = .ok sealed)
    {committed recovered : List (Process.Event ActionRequest ActionReply)}
    {asked askedAgain : CallRequest} {resume : ActionReply → ActionProcess}
    {resumeAgain : ActionReply → RecoveryProcess}
    (hcommit : Process.Run (commit host loaded.toLoadedAction execution committer.toPrincipalContext)
      committed (.waiting (.read asked) resume)) (hledger : asked.position = [])
    (hrecovery : Process.Run (resolveUnknownOutcome host loaded.toLoadedAction sealed
      recoverer.toPrincipalContext) recovered (.waiting (.read askedAgain) resumeAgain))
    (answer : ActionReply) :
    committedRecord coordinator definition handle committer execution (resume answer) =
        recoveredRecord coordinator definition handle recoverer state (resumeAgain answer) ↔
      ∀ value headers, answer = .readResult value headers →
        ActionOperationCaller.headersValid headers = true →
        ShowsSuccess loaded.toLoadedAction value → FiltersOnce host loaded.toLoadedAction value := by
  obtain ⟨operationId, found, query, hfound, hquery, operation, hkind, rfl⟩ :=
    waiting_of_commit hledger hcommit
  obtain ⟨found', query', hshared, operation', hkind', rfl⟩ :=
    waiting_of_resolveUnknownOutcome hrecovery
  obtain ⟨rfl, rfl⟩ := ledger_of_semantics loaded hshared hfound hquery
  -- Both take the answer for a reply of a read operation.
  have hreply : ActionOperationCaller.reply operation answer =
      ActionOperationCaller.reply operation' answer := by
    cases answer <;> simp [ActionOperationCaller.reply, hkind, hkind']
  simp only [committedRecord_concludeCommit,
    recoveredRecord_concludeRecovery hsealed hdefinition hschemas, hreply]
  cases houtcome : ledgerOutcome host loaded.toLoadedAction found query
      (ActionOperationCaller.reply operation' answer) with
  | error failure =>
    simp only [true_iff]
    rintro value headers rfl hheaders ⟨found', query', hshown, hsuccess⟩
    obtain ⟨rfl, rfl⟩ := Prod.mk.inj (Option.some.inj (hshared.symm.trans hshown))
    simp [ActionOperationCaller.reply, hkind', hheaders, ledgerOutcome, hsuccess] at houtcome
  | ok result =>
    obtain ⟨value, hvalue, hsuccess, rfl⟩ := ledgerOutcome_eq_ok houtcome
    simp only [record_twice_iff]
    constructor
    · rintro honce again headers rfl hheaders -
      obtain rfl : again = value := by
        simpa [ActionOperationCaller.reply, hkind', hheaders] using hvalue
      exact honce
    · intro hall
      obtain ⟨headers, hread, hheaders⟩ := read_of_reply hkind' hvalue
      exact hall value headers hread hheaders ⟨found, query, hshared, hsuccess⟩

/-! A copying action with a ledger, of which the policy hashes the token. -/

def readLedger : Operation where
  kind := .read
  id := "read-ledger"
  inputSchema := [("type", .str "object"), ("properties", .obj [])]
  outputSchema := [("type", .str "object"),
    ("properties", .obj [("state", .obj [("type", .str "string")])]),
    ("required", .arr [.str "state"])]
  http :=
    { method := "GET"
      scopes := ["orders.read"]
      safety := ⟨.read, .low, .reversible, .never, .unsupported, .notSupported⟩ }
  contextBindings := []
  evidence := []
  effect_read := read_effect_read

def tokenPolicy : Policies.Policy :=
  { orderPolicy with
    readableFields := ["$.state", "$.token"]
    redactionRules := [⟨"$.token", .hash⟩] }

def copySemantics : ActionSemantics where
  method := "POST"
  safety := copyOrder.http.safety
  outcomeResolution :=
    some (.statusQuery ⟨"read-ledger", [], some "/state", some [.str "copied"]⟩)
  evidence := ⟨[]⟩
  provenance := []

def loadedLedger : AttestedAction (fun _ _ => true) where
  capability := copyOrderCapability
  operations := ("read-ledger", readLedger) :: orderOperations
  policy := tokenPolicy
  semantics := [("copy-order", copySemantics)]
  projectId := "orders"
  contextBindingAllowlist := []
  proved := by decide
  attested := by
    intro id
    have honly : LoadedAction.mutationOperationIds
        (⟨copyOrderCapability, ("read-ledger", readLedger) :: orderOperations, tokenPolicy,
          [("copy-order", copySemantics)], "orders", [], by decide⟩ :
            LoadedAction (fun _ _ => true)) = ["copy-order"] := by
      rfl
    rw [honly, List.mem_singleton]
    by_cases hid : "copy-order" = id
    · simp [semantics?, hid]
    · simp [semantics?, hid, Ne.symm hid]

def copyDefinition : CompiledActionDefinition :=
  { orderDefinition false with
    capability := copyOrderCapability
    approval := fun h => absurd h (by decide) }

def copyCoordinator : Coordinator (orderPacks false) :=
  { orderCoordinator false with schemas := anySchema }

/-- The copying action once its outcome is unknown. -/
def copyState : PreparedActionState where
  record := ⟨"handle", "copy-order", "alice", none, "pack", "", "", 0, 60, .outcomeUnknown,
    minute_pos⟩
  inputValue := preparedCopy.inputValue
  previewValue := sealPreview preparedCopy.previewValue .null preparedCopy.idempotencyKey false .null

def operatorCaller : CallerContext := { operator with gatewaySessionId := none }

/-- The commit of the copying action up to its ledger. -/
def commitToLedger : List (Process.Event ActionRequest ActionReply) × ActionProcess :=
  Process.feed [.value (.obj []), .recorded [] ["copy-order"]]
    (commit exampleHost loadedLedger.toLoadedAction preparedCopy operatorCaller.toPrincipalContext)

def recoverToLedger : List (Process.Event ActionRequest ActionReply) × RecoveryProcess :=
  Process.feed []
    (resolveUnknownOutcome exampleHost loadedLedger.toLoadedAction preparedCopy
      operatorCaller.toPrincipalContext)

def ledgerCall : CallRequest := ⟨readLedger, [], []⟩

/-- The ledger shows a success together with this field. -/
def ledgerReply (name : String) : ActionReply :=
  .readResult (.obj [("state", .str "copied"), (name, .str "secret")]) []

/-- What the commit and the recovery of the copying action record of an answer of the ledger. -/
def copyRecords (resume : ActionReply → ActionProcess) (resumeAgain : ActionReply → RecoveryProcess)
    (answer : ActionReply) : (PreparedActionStatus × Json) × (PreparedActionStatus × Json) :=
  (committedRecord copyCoordinator copyDefinition "handle" operatorCaller preparedCopy (resume answer),
    recoveredRecord copyCoordinator copyDefinition "handle" operatorCaller copyState
      (resumeAgain answer))

/-- Of a token the commit records another hash than the recovery does. -/
theorem ledger_rehashed :
    ∃ resume resumeAgain,
      Process.Run (commit exampleHost loadedLedger.toLoadedAction preparedCopy
        operatorCaller.toPrincipalContext) commitToLedger.1 (.waiting (.read ledgerCall) resume) ∧
      Process.Run (resolveUnknownOutcome exampleHost loadedLedger.toLoadedAction preparedCopy
        operatorCaller.toPrincipalContext) recoverToLedger.1
          (.waiting (.read ledgerCall) resumeAgain) ∧
      (copyRecords resume resumeAgain (ledgerReply "token")).1 ≠
        (copyRecords resume resumeAgain (ledgerReply "token")).2 := by
  refine ⟨_, _, Process.feed_run _ _, Process.feed_run _ _, ?_⟩
  decide

theorem ledger_agreement_copied :
    ∃ resume resumeAgain,
      (copyRecords resume resumeAgain (ledgerReply "id")).1 =
        (copyRecords resume resumeAgain (ledgerReply "id")).2 := by
  have hcommit : ∃ resume, Process.Run (commit exampleHost loadedLedger.toLoadedAction preparedCopy
      operatorCaller.toPrincipalContext) commitToLedger.1 (.waiting (.read ledgerCall) resume) :=
    ⟨_, Process.feed_run _ _⟩
  have hrecovery : ∃ resume, Process.Run (resolveUnknownOutcome exampleHost
      loadedLedger.toLoadedAction preparedCopy operatorCaller.toPrincipalContext) recoverToLedger.1
        (.waiting (.read ledgerCall) resume) :=
    ⟨_, Process.feed_run _ _⟩
  obtain ⟨resume, hcommit⟩ := hcommit
  obtain ⟨resumeAgain, hrecovery⟩ := hrecovery
  refine ⟨resume, resumeAgain, (ledger_agreement exampleHost loadedLedger copyCoordinator
    copyDefinition rfl rfl "handle" operatorCaller operatorCaller preparedCopy preparedCopy copyState
    rfl hcommit rfl hrecovery (ledgerReply "id")).mpr ?_⟩
  rintro value headers hreply - -
  obtain ⟨rfl, -⟩ := ActionReply.readResult.inj hreply
  have hunhashed : Policies.hashedAt tokenPolicy.rules []
      (.obj [("state", .str "copied"), ("id", .str "secret")]) = [] := by
    rfl
  left
  intro hashed hmem
  rw [show loadedLedger.policy = tokenPolicy from rfl, hunhashed] at hmem
  exact absurd hmem List.not_mem_nil

end CapabilityCompiler.Actions
