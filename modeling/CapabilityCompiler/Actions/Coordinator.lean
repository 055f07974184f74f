import CapabilityCompiler.Actions.ActionStore
import CapabilityCompiler.Actions.ApprovalAuthority
import CapabilityCompiler.Actions.Authorization

/-! Prepare, approve, commit and status, as processes over a store, an approval authority, an
executor and an audit sink. -/
namespace CapabilityCompiler.Actions
open Foundation Models Compiler Execution

/-- The preview of an action with the captured concurrency token. -/
structure ActionPreviewExecution where
  value : Json
  concurrencyToken : Json := .null
  concurrencyTokenRequired : Option Bool := none
  idempotentTerminal : Bool := false
  idempotentResult : Json := .null

structure CallerContext extends PrincipalContext where
  gatewaySessionId : Option String

/-! Audit events. -/

inductive ActionAuditLifecycle where
  | prepare
  | approve
  | commit
  | status
deriving DecidableEq

inductive ActionAuditResultCategory where
  | started
  | success
  | replayed
  | denied
  | invalid
  | internal
  | cancelled
  | outcomeUnknown
deriving DecidableEq

structure ActionAuditEvent where
  lifecycle : ActionAuditLifecycle
  capabilityId : String
  status : Option PreparedActionStatus
  resultCategory : ActionAuditResultCategory
  packDigest : String
  principalDigest : String
  sessionDigest : Option String
  actionDigest : Option String
  approvalDecisionId : Option String := none
deriving DecidableEq

/-! What a coordinator asks, and what it is told. -/

inductive CoordinatorRequest where
  /-- A shielded call is not dropped with its caller. -/
  | store (call : StoreCall) (shielded : Bool := false)
  | verify (approvalHandle : String) (expected : ApprovalBinding)
  | preview (capabilityId : String) (arguments : Json) (context : CallerContext)
  | commit (capabilityId : String) (execution : ActionCommitExecution) (context : CallerContext)
  | recover (capabilityId : String) (execution : ActionCommitExecution) (context : CallerContext)
  | emit (event : ActionAuditEvent)

inductive CoordinatorReply where
  | stored (answer : StoreAnswer)
  | granted (grant : ApprovalGrant)
  | previewed (preview : ActionPreviewExecution)
  | committed (result : Json)
  | recovered (result : Json)
  | unresolved
  | emitted
  | notJson
  | invalid
  | raised (error : ActionError)
  | exception
  | cancelled

inductive CoordinatorFailure where
  | error (error : ActionError)
  | exception
  | cancelled
deriving DecidableEq

structure PreparedActionPublic where
  actionHandle : String
  capabilityId : String
  status : PreparedActionStatus
  preview : Json
  approvalRequired : Bool
  expiresAt : ℚ
deriving DecidableEq

structure ActionStatusPublic where
  capabilityId : String
  status : PreparedActionStatus
  result : Json := .null
deriving DecidableEq

structure ActionCommitResult where
  capabilityId : String
  status : PreparedActionStatus
  result : Json
  replayed : Bool
deriving DecidableEq

inductive CoordinatorReport where
  | prepared (shown : PreparedActionPublic)
  | status (shown : ActionStatusPublic)
  | committed (result : ActionCommitResult)
deriving DecidableEq

abbrev CoordinatorProcess :=
  Process CoordinatorRequest CoordinatorReply CoordinatorFailure CoordinatorReport

/-! The parts a coordinator is put together from. -/

/-- The compiled definitions of each pack, under its digest. -/
structure Packs where
  definitions : String → Table String CompiledActionDefinition
  keyed : ∀ digest id definition, Table.get? id (definitions digest) = some definition →
    definition.capability.id = id

/-- The audit sink, as far as a coordinator knows it: its keyed identity digests. -/
structure AuditIdentity where
  digest : String → String → String

structure Coordinator (packs : Packs) where
  packDigest : String
  deployment : DeploymentPolicy
  schemas : SchemaChecker
  sha256 : String → String
  /-- Whether the executor can resolve unknown outcomes. -/
  resolvesOutcomes : Bool
  audit : Option AuditIdentity
  audited : deployment.actionAuditMode = .required → audit.isSome = true

def actionError (code : String) (status : ℕ) (message : String) : ActionError :=
  .runtime { code := code, status := status, message := message }

def previewInvalid (message : String) : ActionError :=
  actionError "ACC_RUNTIME_ACTION_PREVIEW_INVALID" 502 message

def inputInvalid : ActionError :=
  actionError "ACC_RUNTIME_ACTION_INPUT_INVALID" 400 "Action input does not match its schema"

def capabilityNotFound : ActionError :=
  actionError "ACC_RUNTIME_ACTION_CAPABILITY_NOT_FOUND" 404 "Action capability was not found"

def auditUnavailable (message : String) : ActionError :=
  actionError "ACC_RUNTIME_ACTION_AUDIT_UNAVAILABLE" 503 message

def outcomeUnknownError : ActionError := conflict "Action commit outcome is unknown"

def failed (error : ActionError) : CoordinatorProcess := .failed (.error error)

def raise (failure : CoordinatorFailure) : CoordinatorProcess := .failed failure

/-- Continue with the result of a check. -/
def assured {α : Type} (result : Except ActionError α) (next : α → CoordinatorProcess)
    (refuse : CoordinatorFailure → CoordinatorProcess) : CoordinatorProcess :=
  match result with
  | .ok value => next value
  | .error error => refuse (.error error)

/-! Sealed previews. -/

def sealedVersion : String := "acc.action.prepared.v1"

def sealPreview (preview token : Json) (idempotencyKey : String) (idempotentTerminal : Bool)
    (idempotentResult : Json) : Json :=
  .obj [("version", .str sealedVersion), ("preview", preview), ("concurrency_token", token),
    ("idempotency_key", .str idempotencyKey), ("idempotent_terminal", .bool idempotentTerminal),
    ("idempotent_result", idempotentResult)]

def stateInvalid : ActionError := conflict "Prepared Action state is invalid"

/-- The trusted inputs of a commit from a stored state. -/
def unsealPreview (state : PreparedActionState) : Except ActionError ActionCommitExecution :=
  match state.previewValue with
  | .obj fields =>
    let idempotentResult := (Json.field? "idempotent_result" fields).getD .null
    match Json.field? "version" fields, Json.field? "idempotency_key" fields,
        (Json.field? "idempotent_terminal" fields).getD (.bool false) with
    | some (.str version), some (.str key), .bool terminal =>
      if version ≠ sealedVersion ∨ key = "" then .error stateInvalid
      else if terminal = false ∧ idempotentResult ≠ .null then .error stateInvalid
      else .ok
        { inputValue := state.inputValue
          previewValue := (Json.field? "preview" fields).getD .null
          concurrencyToken := (Json.field? "concurrency_token" fields).getD .null
          idempotencyKey := key
          idempotentTerminal := terminal
          idempotentResult := idempotentResult }
    | _, _, _ => .error stateInvalid
  | _ => .error stateInvalid

/-! The store. -/

/-- What an awaited call of the store gives: a state, or what it raises. -/
def awaited : CoordinatorReply → Except CoordinatorFailure PreparedActionState
  | .stored (.state state) => .ok state
  | .stored (.raised error) => .error (.error error)
  | .cancelled => .error .cancelled
  | _ => .error .exception

/-- Ask the store and continue with what it gives. -/
def askStore (call : StoreCall)
    (next : Except CoordinatorFailure PreparedActionState → CoordinatorProcess) :
    CoordinatorProcess :=
  .request (.store call) fun answer => next (awaited answer)

namespace Coordinator
variable {packs : Packs} (coordinator : Coordinator packs)

def owner (context : CallerContext) : Owner where
  principalId := context.principalId
  sessionId := context.gatewaySessionId
  packDigest := coordinator.packDigest

def definition (capabilityId : String) : Except ActionError CompiledActionDefinition :=
  match Table.get? capabilityId (packs.definitions coordinator.packDigest) with
  | some definition => .ok definition
  | none => .error capabilityNotFound

/-- The definition of a capability the caller is authorized for. -/
def authorized (capabilityId : String) (context : CallerContext) :
    Except ActionError CompiledActionDefinition := do
  let definition ← coordinator.definition capabilityId
  match authorize coordinator.deployment definition context.toPrincipalContext with
  | .ok _ => return definition
  | .error error => .error (.runtime error)

def resolve (handle : String) (context : CallerContext)
    (next : Except CoordinatorFailure PreparedActionState → CoordinatorProcess) :
    CoordinatorProcess :=
  askStore (.resolve handle (coordinator.owner context)) next

def transition (handle : String) (context : CallerContext)
    (expected target : PreparedActionStatus) (resultValue : Json)
    (next : Except CoordinatorFailure PreparedActionState → CoordinatorProcess) :
    CoordinatorProcess :=
  askStore (.transition handle (coordinator.owner context) expected target resultValue) next

/-- Whatever the store answers is swallowed. -/
def markOutcomeUnknown (handle : String) (context : CallerContext) (shielded : Bool)
    (next : CoordinatorProcess) : CoordinatorProcess :=
  .request (.store (.transition handle (coordinator.owner context) .committing .outcomeUnknown
    .null) shielded) fun _ => next

/-! Audit spans. -/

/-- A span that has started; `none` is the span that does nothing. -/
structure AuditSpan where
  lifecycle : ActionAuditLifecycle
  capabilityId : String
  principalDigest : String
  sessionDigest : Option String
  actionDigest : Option String

def spanEvent (span : AuditSpan) (status : Option PreparedActionStatus)
    (category : ActionAuditResultCategory) (actionDigest approvalDecisionId : Option String) :
    ActionAuditEvent where
  lifecycle := span.lifecycle
  capabilityId := span.capabilityId
  status := status
  resultCategory := category
  packDigest := coordinator.packDigest
  principalDigest := span.principalDigest
  sessionDigest := span.sessionDigest
  actionDigest := actionDigest.or span.actionDigest
  approvalDecisionId := approvalDecisionId

def auditRequired : Bool := decide (coordinator.deployment.actionAuditMode = .required)

/-- The span of a lifecycle whose identifiers are exact. -/
def auditSpan (identity : AuditIdentity) (lifecycle : ActionAuditLifecycle) (capabilityId : String)
    (context : CallerContext) (actionDigest : Option String) : Except ActionError AuditSpan := do
  let capability ← exactIdentifier capabilityId "capability_id"
  let principal ← exactIdentifier context.principalId "principal_id"
  let session ← exactIdentifier? context.gatewaySessionId "session_id"
  return {
    lifecycle := lifecycle
    capabilityId := capability
    principalDigest := identity.digest "action-audit-principal" principal
    sessionDigest := session.map (identity.digest "action-audit-session")
    actionDigest := actionDigest }

/-- Emit the start of a lifecycle before anything else. -/
def startAudit (lifecycle : ActionAuditLifecycle) (capabilityId : String) (context : CallerContext)
    (actionDigest : Option String) (next : Option AuditSpan → CoordinatorProcess) :
    CoordinatorProcess :=
  match coordinator.audit with
  | none => next none
  | some identity =>
    assured (auditSpan identity lifecycle capabilityId context actionDigest) (fun span =>
      .request (.emit (coordinator.spanEvent span none .started none none)) fun answer =>
        match answer with
        | .emitted => next (some span)
        | .cancelled => raise .cancelled
        | _ =>
          if coordinator.auditRequired then
            failed (auditUnavailable "Required Action audit could not be started")
          else next none) raise

/-- Emit the end of a lifecycle. -/
def finishAudit (span : Option AuditSpan) (status : Option PreparedActionStatus)
    (category : ActionAuditResultCategory) (actionDigest approvalDecisionId : Option String)
    (next : Except CoordinatorFailure Unit → CoordinatorProcess) : CoordinatorProcess :=
  match span with
  | none => next (.ok ())
  | some span =>
    .request (.emit (coordinator.spanEvent span status category actionDigest approvalDecisionId))
      fun answer => match answer with
        | .emitted => next (.ok ())
        | .cancelled => next (.error .cancelled)
        | _ =>
          if coordinator.auditRequired then
            next (.error (.error (auditUnavailable "Required Action audit could not be recorded")))
          else next (.ok ())

/-- A cancelled lifecycle ends as cancelled, whatever its audit does. -/
def finishCancelledAudit (span : Option AuditSpan) (status : Option PreparedActionStatus) :
    CoordinatorProcess :=
  coordinator.finishAudit span status .cancelled none none fun _ => raise .cancelled

def auditErrorCategory : CoordinatorFailure → ActionAuditResultCategory
  | .error (.runtime error) =>
    if error.code = "ACC_RUNTIME_ACTION_DEPLOYMENT_DENIED" ∨
        error.code = "ACC_RUNTIME_ACTION_SCOPE_DENIED" then .denied
    else .invalid
  | _ => .internal

/-- The end of a lifecycle that has failed or succeeded, with the status to report of a failure. -/
def concludeAudit (span : Option AuditSpan) (failureStatus : Option PreparedActionStatus)
    (outcome : Except CoordinatorFailure CoordinatorReport)
    (completion : CoordinatorReport → PreparedActionStatus × Option String × Option String) :
    CoordinatorProcess :=
  match outcome with
  | .error .cancelled => coordinator.finishCancelledAudit span failureStatus
  | .error failure =>
    coordinator.finishAudit span failureStatus (auditErrorCategory failure) none none fun
      | .ok _ => raise failure
      | .error error => raise error
  | .ok report =>
    let (status, actionDigest, decisionId) := completion report
    coordinator.finishAudit span (some status) .success actionDigest decisionId fun
      | .ok _ => .done report
      | .error error => raise error

/-! Prepare. -/

/-- The idempotency key; `none` when its generator has raised. -/
def newIdempotencyKey (generated : Option String) : Except ActionError String :=
  match generated with
  | none => .error (previewInvalid "Action idempotency key generation failed")
  | some key =>
    if (exactIdentifier key "idempotency_key").isOk && decide (key.utf8ByteSize ≤ 200) then .ok key
    else .error (previewInvalid "Action idempotency key generation failed")

/-- What is sealed with an action, from its preview. -/
def sealedValue (definition : CompiledActionDefinition) (preview : ActionPreviewExecution)
    (generatedKey : Option String) : Except ActionError Json :=
  if preview.idempotentTerminal = false ∧ preview.idempotentResult ≠ .null then
    .error (previewInvalid "Action preview result is invalid")
  else if preview.concurrencyTokenRequired.getD
      (definition.proof.effects.any (· ∈ ["update", "delete", "transition"])) ∧
      preview.concurrencyToken = .null then
    .error (previewInvalid "Action preview did not capture a required concurrency token")
  else do
    let key ← newIdempotencyKey generatedKey
    return sealPreview preview.value preview.concurrencyToken key preview.idempotentTerminal
      preview.idempotentResult

/-- The action is stored, and approved at once when it needs no approval. -/
def createAction (definition : CompiledActionDefinition) (arguments preview sealed : Json)
    (context : CallerContext) (generatedHandle : String)
    (next : Except CoordinatorFailure CoordinatorReport → CoordinatorProcess) :
    CoordinatorProcess :=
  let shown := fun (handle : String) (state : PreparedActionState) => CoordinatorReport.prepared
    { actionHandle := handle
      capabilityId := definition.capability.id
      status := state.record.status
      preview := preview
      approvalRequired := definition.proof.approvalRequired
      expiresAt := state.record.expiresAt }
  .request (.store (.create
      { capabilityId := definition.capability.id
        owner := coordinator.owner context
        inputValue := arguments
        previewValue := sealed
        expiresInSeconds := definition.expiresInSeconds } generatedHandle)) fun answer =>
    match answer with
    | .stored (.created handle state) =>
      if definition.proof.approvalRequired then next (.ok (shown handle state))
      else coordinator.transition handle context .prepared .approved .null fun approved =>
        next (approved.map (shown handle))
    | answer => next ((awaited answer).bind fun _ => .error .exception)

def prepareAction (capabilityId : String) (arguments : Fields) (context : CallerContext)
    (generatedKey : Option String) (generatedHandle : String)
    (next : Except CoordinatorFailure CoordinatorReport → CoordinatorProcess) :
    CoordinatorProcess :=
  assured (coordinator.authorized capabilityId context) (fun definition =>
    if coordinator.schemas.valid definition.capability.inputSchema (.obj arguments) then
      .request (.preview definition.capability.id (.obj arguments) context) fun answer =>
        match answer with
        | .previewed preview =>
          assured (sealedValue definition preview generatedKey) (fun sealed =>
            coordinator.createAction definition (.obj arguments) preview.value sealed context
              generatedHandle next) (fun failure => next (.error failure))
        | .cancelled => next (.error .cancelled)
        | .notJson => next (.error (.error (previewInvalid "Action value is not canonical JSON")))
        | .invalid => next (.error (.error (previewInvalid "Action preview result is invalid")))
        | _ => next (.error (.error (previewInvalid "Action preview failed")))
    else next (.error (.error inputInvalid))) fun failure => next (.error failure)

def prepare (capabilityId : String) (arguments : Fields) (context : CallerContext)
    (generatedKey : Option String) (generatedHandle : String) : CoordinatorProcess :=
  assured (coordinator.definition capabilityId) (fun definition =>
    coordinator.startAudit .prepare definition.capability.id context none fun span =>
      coordinator.prepareAction capabilityId arguments context generatedKey generatedHandle
        fun outcome => coordinator.concludeAudit span none outcome fun
          | .prepared shown =>
            (shown.status, some (coordinator.sha256 shown.actionHandle), none)
          | .status shown => (shown.status, none, none)
          | .committed result => (result.status, none, none)) raise

/-! Approve. -/

def publicStatus (state : PreparedActionState) (result : Json) : ActionStatusPublic where
  capabilityId := state.record.capabilityId
  status := state.record.status
  result := result

/-- The approval of a prepared action, with the identifier of the decision. -/
def approveAction (handle approvalHandle : String) (context : CallerContext)
    (next : Except CoordinatorFailure (CoordinatorReport × String) → CoordinatorProcess) :
    CoordinatorProcess :=
  coordinator.resolve handle context fun
    | .error failure => next (.error failure)
    | .ok state =>
      assured (coordinator.authorized state.record.capabilityId context) (fun definition =>
        if definition.proof.approvalRequired = false then
          next (.error (.error (conflict "Action does not require approval")))
        else if state.record.status ≠ .prepared then
          next (.error (.error (conflict "Action is not awaiting approval")))
        else .request (.verify approvalHandle (ApprovalBinding.fromRecord state.record))
          fun answer => match answer with
            | .granted grant =>
              coordinator.transition handle context .prepared .approved .null fun approved =>
                next (approved.map fun state => (.status (publicStatus state .null),
                  grant.decisionId.getD grant.approvalDigest))
            | .cancelled => next (.error .cancelled)
            | .raised error => next (.error (.error error))
            | _ => next (.error .exception)) fun failure => next (.error failure)

def approve (handle approvalHandle : String) (context : CallerContext) : CoordinatorProcess :=
  coordinator.resolve handle context fun
    | .error failure => raise failure
    | .ok existing =>
      coordinator.startAudit .approve existing.record.capabilityId context
        (some existing.record.handleDigest) fun span =>
          coordinator.approveAction handle approvalHandle context fun outcome =>
            coordinator.concludeAudit span (some existing.record.status) (outcome.map Prod.fst)
              fun
                | .status shown =>
                  (shown.status, none, (outcome.map Prod.snd).toOption)
                | .prepared shown => (shown.status, none, none)
                | .committed result => (result.status, none, none)

/-! Commit. -/

/-- The executor is asked once the action is committing. Whatever goes wrong from then on leaves
the outcome unknown. -/
def performCommit (definition : CompiledActionDefinition) (handle : String)
    (execution : ActionCommitExecution) (context : CallerContext)
    (next : Except CoordinatorFailure ActionCommitResult → CoordinatorProcess) :
    CoordinatorProcess :=
  let abandoned := coordinator.markOutcomeUnknown handle context true (next (.error .cancelled))
  let unknown := coordinator.markOutcomeUnknown handle context false
    (next (.error (.error outcomeUnknownError)))
  .request (.commit definition.capability.id execution context) fun answer => match answer with
    | .committed result =>
      coordinator.transition handle context .committing .succeeded result fun
        | .ok succeeded => next (.ok
            { capabilityId := succeeded.record.capabilityId
              status := succeeded.record.status
              result := succeeded.resultValue
              replayed := false })
        | .error .cancelled => abandoned
        | .error _ => unknown
    | .cancelled => abandoned
    | _ => unknown

def commitAction (handle : String) (context : CallerContext)
    (next : Except CoordinatorFailure ActionCommitResult → CoordinatorProcess) :
    CoordinatorProcess :=
  coordinator.resolve handle context fun
    | .error failure => next (.error failure)
    | .ok state =>
      assured (coordinator.authorized state.record.capabilityId context) (fun definition =>
        if state.record.status = .succeeded then next (.ok
          { capabilityId := state.record.capabilityId
            status := .succeeded
            result := state.resultValue
            replayed := true })
        else if state.record.status ≠ .approved then
          next (.error (.error (conflict "Action cannot be committed from its current state")))
        else coordinator.transition handle context .approved .committing .null fun
          | .error failure => next (.error failure)
          | .ok committing =>
            assured (unsealPreview committing) (fun execution =>
              coordinator.performCommit definition handle execution context next)
              fun failure => next (.error failure)) fun failure => next (.error failure)

/-- The status of an action for its audit, if it can be read. -/
def resolvedStatus (handle : String) (context : CallerContext)
    (next : Option PreparedActionStatus → CoordinatorProcess) : CoordinatorProcess :=
  coordinator.resolve handle context fun
    | .ok state => next (some state.record.status)
    | .error _ => next none

def commit (handle : String) (context : CallerContext) : CoordinatorProcess :=
  coordinator.resolve handle context fun
    | .error failure => raise failure
    | .ok existing =>
      coordinator.startAudit .commit existing.record.capabilityId context
        (some existing.record.handleDigest) fun span =>
          coordinator.commitAction handle context fun
            | .error .cancelled => coordinator.resolvedStatus handle context fun status =>
                coordinator.finishCancelledAudit span status
            | .error failure => coordinator.resolvedStatus handle context fun status =>
                coordinator.finishAudit span status
                  (if status = some .outcomeUnknown then .outcomeUnknown
                    else auditErrorCategory failure) none none fun
                  | .ok _ => raise failure
                  | .error error => raise error
            | .ok result => coordinator.finishAudit span (some result.status)
                (if result.replayed then .replayed else .success) none none fun
                | .ok _ => .done (.committed result)
                | .error (.error _) => failed
                    (conflict "Action commit completed but required audit was unavailable")
                | .error failure => raise failure

/-! Status and recovery. -/

def recoveryInvalid : ActionError := conflict "Action outcome recovery result is invalid"

/-- A recovered result is stored; whoever loses the race takes over what the winner has stored. -/
def storeRecovery (definition : CompiledActionDefinition) (handle : String) (result : Json)
    (context : CallerContext)
    (next : Except CoordinatorFailure PreparedActionState → CoordinatorProcess) :
    CoordinatorProcess :=
  if coordinator.schemas.valid definition.capability.outputSchema result then
    coordinator.transition handle context .outcomeUnknown .succeeded result fun
      | .ok state => next (.ok state)
      | .error (.error (.runtime lost)) =>
        if lost.code = "ACC_RUNTIME_ACTION_STATE_CONFLICT" then
          coordinator.resolve handle context fun
            | .ok state =>
              if state.record.status = .succeeded then next (.ok state)
              else next (.error (.error (.runtime lost)))
            | .error failure => next (.error failure)
        else next (.error (.error (.runtime lost)))
      | .error failure => next (.error failure)
  else next (.error (.error recoveryInvalid))

/-- An unknown outcome is looked up; without an answer the state stays what was read. -/
def recoverOutcome (definition : CompiledActionDefinition) (handle : String)
    (state : PreparedActionState) (context : CallerContext)
    (next : Except CoordinatorFailure PreparedActionState → CoordinatorProcess) :
    CoordinatorProcess :=
  assured (unsealPreview state) (fun execution =>
    .request (.recover definition.capability.id execution context) fun answer => match answer with
      | .recovered result => coordinator.storeRecovery definition handle result context next
      | .cancelled => next (.error .cancelled)
      | .invalid => next (.error (.error recoveryInvalid))
      | .notJson => next (.error (.error (conflict "Action value is not canonical JSON")))
      | _ => next (.ok state)) fun failure => next (.error failure)

def statusAction (handle : String) (context : CallerContext)
    (next : Except CoordinatorFailure CoordinatorReport → CoordinatorProcess) :
    CoordinatorProcess :=
  let report := fun (state : PreparedActionState) => CoordinatorReport.status (publicStatus state
    (if state.record.status = .succeeded then state.resultValue else .null))
  coordinator.resolve handle context fun
    | .error failure => next (.error failure)
    | .ok state =>
      assured (coordinator.authorized state.record.capabilityId context) (fun definition =>
        if state.record.status = .outcomeUnknown ∧ coordinator.resolvesOutcomes then
          coordinator.recoverOutcome definition handle state context fun outcome =>
            next (outcome.map report)
        else next (.ok (report state))) fun failure => next (.error failure)

def status (handle : String) (context : CallerContext) : CoordinatorProcess :=
  coordinator.resolve handle context fun
    | .error failure => raise failure
    | .ok existing =>
      coordinator.startAudit .status existing.record.capabilityId context
        (some existing.record.handleDigest) fun span =>
          coordinator.statusAction handle context fun outcome =>
            coordinator.concludeAudit span (some existing.record.status) outcome fun
              | .status shown => (shown.status, none, none)
              | .prepared shown => (shown.status, none, none)
              | .committed result => (result.status, none, none)

end Coordinator

/-! The calls of coordinators over the same packs. -/

/-- A call with what the generators give on its way. -/
inductive CoordinatorCall (packs : Packs) where
  | prepare (coordinator : Coordinator packs) (capabilityId : String) (arguments : Fields)
      (context : CallerContext) (generatedKey : Option String) (generatedHandle : String)
  | approve (coordinator : Coordinator packs) (handle approvalHandle : String)
      (context : CallerContext)
  | commit (coordinator : Coordinator packs) (handle : String) (context : CallerContext)
  | status (coordinator : Coordinator packs) (handle : String) (context : CallerContext)

namespace CoordinatorCall
variable {packs : Packs}

def coordinator : CoordinatorCall packs → Coordinator packs
  | .prepare coordinator _ _ _ _ _ => coordinator
  | .approve coordinator _ _ _ => coordinator
  | .commit coordinator _ _ => coordinator
  | .status coordinator _ _ => coordinator

def context : CoordinatorCall packs → CallerContext
  | .prepare _ _ _ context _ _ => context
  | .approve _ _ _ context => context
  | .commit _ _ context => context
  | .status _ _ context => context

def owner (call : CoordinatorCall packs) : Owner := call.coordinator.owner call.context

/-- The handle a call is about, if it is given one. -/
def handle? : CoordinatorCall packs → Option String
  | .prepare _ _ _ _ _ _ => none
  | .approve _ handle _ _ => some handle
  | .commit _ handle _ => some handle
  | .status _ handle _ => some handle

def process : CoordinatorCall packs → CoordinatorProcess
  | .prepare coordinator capabilityId arguments context generatedKey generatedHandle =>
    coordinator.prepare capabilityId arguments context generatedKey generatedHandle
  | .approve coordinator handle approvalHandle context =>
    coordinator.approve handle approvalHandle context
  | .commit coordinator handle context => coordinator.commit handle context
  | .status coordinator handle context => coordinator.status handle context

end CoordinatorCall
end CapabilityCompiler.Actions
