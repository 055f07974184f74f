import CapabilityCompiler.Actions.ActionModels
import CapabilityCompiler.Actions.RuntimeExecutor
import CapabilityCompiler.Foundation.Machine
import CapabilityCompiler.Foundation.Table

/-! The two stores of prepared actions: one in memory, one over a database. -/
namespace CapabilityCompiler.Actions
open Foundation

namespace PreparedActionStatus

/-- The transitions a store makes on request. -/
def allows : PreparedActionStatus → PreparedActionStatus → Bool
  | .prepared, .approved => true
  | .approved, .committing => true
  | .committing, .succeeded => true
  | .committing, .failed => true
  | .committing, .outcomeUnknown => true
  | .outcomeUnknown, .succeeded => true
  | _, _ => false

end PreparedActionStatus

/-- A record with its stored payloads. A payload is the value of its canonical text. -/
structure StoredAction where
  record : PreparedActionRecord
  inputValue : Json
  previewValue : Json
  resultValue : Option Json := none
deriving DecidableEq

namespace StoredAction
variable (stored : StoredAction)

def state : PreparedActionState where
  record := stored.record
  inputValue := stored.inputValue
  previewValue := stored.previewValue
  resultValue := stored.resultValue.getD .null

def withStatus (status : PreparedActionStatus) : StoredAction :=
  { stored with record := { stored.record with status := status } }

def isDue (now : ℚ) : Bool := decide (stored.record.expiresAt ≤ now)

def expireDue (now : ℚ) : StoredAction :=
  if stored.isDue now then stored.withStatus .expired else stored

/-- The action after a transition; only a success carries a result of its own. -/
def moved (target : PreparedActionStatus) (resultValue : Json) : StoredAction :=
  { stored.withStatus target with
    resultValue := if target = .succeeded then some resultValue else stored.resultValue }

end StoredAction

/-- Who asks for an action. -/
structure Owner where
  principalId : String
  sessionId : Option String
  packDigest : String
deriving DecidableEq

structure CreateRequest where
  capabilityId : String
  owner : Owner
  inputValue : Json
  previewValue : Json
  expiresInSeconds : ℤ

/-- The prepared actions under the digests of their handles. -/
structure ActionStore where
  actions : Table String StoredAction := []
  closed : Bool := false

/-- The host of a store, with its keyed digest of a namespace and a value. -/
structure StoreHost extends Clockwork where
  maxActions : ℕ
  bindingDigest : String → String → String

def handleInvalid : ActionError := .runtime
  { code := "ACC_RUNTIME_ACTION_HANDLE_INVALID", status := 404, message := "Action handle is invalid" }

def bindingMismatch : ActionError := .runtime
  { code := "ACC_RUNTIME_ACTION_BINDING_MISMATCH", status := 403
    message := "Action binding does not match" }

def actionExpired : ActionError := .runtime
  { code := "ACC_RUNTIME_ACTION_EXPIRED", status := 410, message := "Prepared Action has expired" }

def conflict (message : String) : ActionError := .runtime (stateConflict message)

def Owner.check (owner : Owner) : Except ActionError Unit := do
  let _ ← exactIdentifier owner.principalId "principal_id"
  let _ ← exactIdentifier? owner.sessionId "session_id"
  validatePackDigest owner.packDigest

/-- The checks both stores make before they create an action. -/
def CreateRequest.check (request : CreateRequest) (generated : String) :
    Except ActionError Unit := do
  let _ ← exactIdentifier request.capabilityId "capability_id"
  request.owner.check
  if request.expiresInSeconds < 1 ∨ 86400 < request.expiresInSeconds then
    .error (.valueError "expires_in_seconds must be between 1 and 86400")
  else if isHandle generated then return ()
  else .error (conflict "Action handle generation failed")

section Stores
variable (host : StoreHost)

def StoredAction.boundTo (stored : StoredAction) (owner : Owner) : Bool :=
  decide (stored.record.principalDigest = host.bindingDigest "principal" owner.principalId ∧
    stored.record.sessionDigest = owner.sessionId.map (host.bindingDigest "session") ∧
    stored.record.packDigest = owner.packDigest)

/-- A record must expire after it was created. -/
def newAction (request : CreateRequest) (handleDigest : String) (now : ℚ) :
    Except ActionError StoredAction :=
  let expiresAt := host.later now request.expiresInSeconds.toNat
  if h : now < expiresAt then .ok
    { record :=
        { handleDigest := handleDigest
          capabilityId := request.capabilityId
          principalDigest := host.bindingDigest "principal" request.owner.principalId
          sessionDigest := request.owner.sessionId.map (host.bindingDigest "session")
          packDigest := request.owner.packDigest
          inputDigest := host.jsonDigest request.inputValue
          previewDigest := host.jsonDigest request.previewValue
          createdAt := now
          expiresAt := expiresAt
          status := .prepared
          lifetime := h }
      inputValue := request.inputValue
      previewValue := request.previewValue }
  else .error (.valueError "expires_at must be later than created_at")

def transitionConflict : ActionError := conflict "Action state transition conflicts"

def resultConflict : ActionError := conflict "Only a successful Action can persist a result"

def creationConflict : ActionError := conflict "Action Store cannot create a new state"

/-- A result is given for a target that keeps none. -/
def misplaced (target : PreparedActionStatus) (resultValue : Json) : Bool :=
  decide (target ≠ .succeeded ∧ resultValue ≠ .null)

namespace InMemoryActionStore
variable (store : ActionStore)

def create (request : CreateRequest) (generated : String) (now : ℚ) :
    Except ActionError StoredAction × ActionStore :=
  match request.check generated with
  | .error error => (.error error, store)
  | .ok _ =>
    if store.closed then (.error handleInvalid, store)
    else
      let expired := { store with actions := Table.mapValues (·.expireDue now) store.actions }
      let digest := host.digest.sha256 generated
      if host.maxActions ≤ expired.actions.length ∨ (Table.get? digest expired.actions).isSome then
        (.error creationConflict, expired)
      else match newAction host request digest now with
        | .error error => (.error error, expired)
        | .ok stored =>
          (.ok stored, { expired with actions := Table.put digest stored expired.actions })

/-- The live action of its owner; a due one is marked on the way. -/
def resolveBound (handle : String) (owner : Owner) (now : ℚ) :
    Except ActionError StoredAction × ActionStore :=
  if store.closed then (.error handleInvalid, store)
  else if isHandle handle then
    let digest := host.digest.sha256 handle
    match Table.get? digest store.actions with
    | none => (.error handleInvalid, store)
    | some stored => match owner.check with
      | .error error => (.error error, store)
      | .ok _ =>
        if stored.boundTo host owner then
          if stored.isDue now || decide (stored.record.status = .expired) then
            (.error actionExpired, { store with
              actions := Table.put digest (stored.withStatus .expired) store.actions })
          else (.ok stored, store)
        else (.error bindingMismatch, store)
  else (.error handleInvalid, store)

def transition (handle : String) (owner : Owner) (expected target : PreparedActionStatus)
    (resultValue : Json) (now : ℚ) : Except ActionError StoredAction × ActionStore :=
  match resolveBound host store handle owner now with
  | (.error error, store') => (.error error, store')
  | (.ok stored, store') =>
    if stored.record.status ≠ expected ∨ ¬ expected.allows target then
      (.error transitionConflict, store')
    else if misplaced target resultValue then (.error resultConflict, store')
    else (.ok (stored.moved target resultValue), { store' with
      actions := Table.put (host.digest.sha256 handle) (stored.moved target resultValue)
        store'.actions })

end InMemoryActionStore

namespace SQLiteActionStore
variable (store : ActionStore)

/-- A transaction that fails is rolled back. -/
def create (request : CreateRequest) (generated : String) (now : ℚ) :
    Except ActionError StoredAction × ActionStore :=
  match request.check generated with
  | .error error => (.error error, store)
  | .ok _ =>
    if store.closed then (.error handleInvalid, store)
    else
      let digest := host.digest.sha256 generated
      match newAction host request digest now with
      | .error error => (.error error, store)
      | .ok stored =>
        let actions := Table.mapValues (·.expireDue now) store.actions
        if host.maxActions ≤ actions.length ∨ (Table.get? digest actions).isSome then
          (.error creationConflict, store)
        else (.ok stored, { store with actions := Table.put digest stored actions })

def boundRow (digest : String) (owner : Owner) : Except ActionError StoredAction :=
  match Table.get? digest store.actions with
  | none => .error handleInvalid
  | some stored => if stored.boundTo host owner then .ok stored else .error bindingMismatch

def ensureOpen : Except ActionError Unit :=
  if store.closed then .error handleInvalid else .ok ()

def handleDigest (handle : String) : Except ActionError String :=
  if isHandle handle then .ok (host.digest.sha256 handle) else .error handleInvalid

/-- What both kinds of access check before they go on with a live row. -/
def access (handle : String) (owner : Owner) (now : ℚ)
    (next : String → StoredAction → Except ActionError StoredAction × ActionStore) :
    Except ActionError StoredAction × ActionStore :=
  match handleDigest host handle with
  | .error error => (.error error, store)
  | .ok digest => match owner.check with
    | .error error => (.error error, store)
    | .ok _ => match ensureOpen store with
      | .error error => (.error error, store)
      | .ok _ => match boundRow host store digest owner with
        | .error error => (.error error, store)
        | .ok stored =>
          if stored.isDue now || decide (stored.record.status = .expired) then
            (.error actionExpired, { store with
              actions := Table.put digest (stored.withStatus .expired) store.actions })
          else next digest stored

def resolve (handle : String) (owner : Owner) (now : ℚ) :
    Except ActionError StoredAction × ActionStore :=
  access host store handle owner now fun _ stored => (.ok stored, store)

def transition (handle : String) (owner : Owner) (expected target : PreparedActionStatus)
    (resultValue : Json) (now : ℚ) : Except ActionError StoredAction × ActionStore :=
  if ¬ expected.allows target then (.error transitionConflict, store)
  else if misplaced target resultValue then (.error resultConflict, store)
  else access host store handle owner now fun digest stored =>
    if stored.record.status ≠ expected then (.error transitionConflict, store)
    else (.ok (stored.moved target resultValue), { store with
      actions := Table.put digest (stored.moved target resultValue) store.actions })

end SQLiteActionStore
end Stores

/-! The calls of a store, one after the other. -/

inductive StoreCall where
  | create (request : CreateRequest) (generated : String)
  | resolve (handle : String) (owner : Owner)
  | transition (handle : String) (owner : Owner) (expected target : PreparedActionStatus)
      (resultValue : Json)

inductive StoreAnswer where
  | created (handle : String) (state : PreparedActionState)
  | state (state : PreparedActionState)
  | raised (error : ActionError)
deriving DecidableEq

/-- The answer to a result of a store, and the store it leaves. -/
def respond (accepted : PreparedActionState → StoreAnswer)
    (result : Except ActionError StoredAction × ActionStore) : StoreAnswer × ActionStore :=
  match result.1 with
  | .ok stored => (accepted stored.state, result.2)
  | .error error => (.raised error, result.2)

inductive StoreKind where
  | memory
  | sqlite
deriving DecidableEq

/-- A call with the clock reading of its critical section. -/
def StoreKind.answer (kind : StoreKind) (host : StoreHost) (store : ActionStore)
    (call : StoreCall × ℚ) : StoreAnswer × ActionStore :=
  match kind, call.1 with
  | .memory, .create request generated =>
    respond (.created generated) (InMemoryActionStore.create host store request generated call.2)
  | .memory, .resolve handle owner =>
    respond .state (InMemoryActionStore.resolveBound host store handle owner call.2)
  | .memory, .transition handle owner expected target resultValue => respond .state
      (InMemoryActionStore.transition host store handle owner expected target resultValue call.2)
  | .sqlite, .create request generated =>
    respond (.created generated) (SQLiteActionStore.create host store request generated call.2)
  | .sqlite, .resolve handle owner =>
    respond .state (SQLiteActionStore.resolve host store handle owner call.2)
  | .sqlite, .transition handle owner expected target resultValue => respond .state
      (SQLiteActionStore.transition host store handle owner expected target resultValue call.2)

/-! What each method is asked by. -/
namespace StoreKind
variable (host : StoreHost) (store : ActionStore) (now : ℚ)

theorem answer_memory_create (request : CreateRequest) (generated : String) :
    memory.answer host store (.create request generated, now) =
      respond (.created generated) (InMemoryActionStore.create host store request generated now) :=
  rfl

theorem answer_memory_resolve (handle : String) (owner : Owner) :
    memory.answer host store (.resolve handle owner, now) =
      respond .state (InMemoryActionStore.resolveBound host store handle owner now) := rfl

theorem answer_memory_transition (handle : String) (owner : Owner)
    (expected target : PreparedActionStatus) (resultValue : Json) :
    memory.answer host store (.transition handle owner expected target resultValue, now) =
      respond .state (InMemoryActionStore.transition host store handle owner expected target
        resultValue now) := rfl

theorem answer_sqlite_create (request : CreateRequest) (generated : String) :
    sqlite.answer host store (.create request generated, now) =
      respond (.created generated) (SQLiteActionStore.create host store request generated now) :=
  rfl

theorem answer_sqlite_resolve (handle : String) (owner : Owner) :
    sqlite.answer host store (.resolve handle owner, now) =
      respond .state (SQLiteActionStore.resolve host store handle owner now) := rfl

theorem answer_sqlite_transition (handle : String) (owner : Owner)
    (expected target : PreparedActionStatus) (resultValue : Json) :
    sqlite.answer host store (.transition handle owner expected target resultValue, now) =
      respond .state (SQLiteActionStore.transition host store handle owner expected target
        resultValue now) := rfl

end StoreKind

end CapabilityCompiler.Actions
