import CapabilityCompiler.Models.Workflow

/-! Operations with their safety contracts, and the capabilities built from them. -/
namespace CapabilityCompiler.Models
open Foundation

inductive Effect where
  | read
  | create
  | update
  | delete
  | transition
  | execute
deriving DecidableEq

inductive Risk where
  | low
  | medium
  | high
  | critical
deriving DecidableEq

inductive Reversibility where
  | reversible
  | compensatable
  | irreversible
  | unknown
deriving DecidableEq

inductive RetryMode where
  | never
  | idempotentOnly
deriving DecidableEq

inductive RuntimeInjectionTarget where
  | header (name : String)
  | body (pointer : String)
deriving DecidableEq

inductive ConcurrencyTokenSource where
  | responseHeader (name : String)
  | body (pointer : String)
deriving DecidableEq

inductive IdempotencyContract where
  | unsupported
  | runtimeDeduplicate
  | sourceKey (target : RuntimeInjectionTarget)
  | stateIdempotent (statePointer : String) (terminalValues : List Json)
deriving DecidableEq

inductive ConcurrencyContract where
  | required (token : ConcurrencyTokenSource) (precondition : RuntimeInjectionTarget)
  | notSupported
  | serverSerializedStatePredicate (readOperationId statePointer : String)
      (allowedValues : List Json)
deriving DecidableEq

inductive BindingSource where
  | capabilityInput
  | preparedPreview
  | runtimeIdempotencyKey
deriving DecidableEq

structure StatusQueryRequestBinding where
  target : String
  source : BindingSource
  sourcePointer : Option String
deriving DecidableEq

structure StatusQueryOutcomeResolution where
  operationId : String
  requestBindings : List StatusQueryRequestBinding
  successPointer : Option String
  successValues : Option (List Json)
deriving DecidableEq

inductive OutcomeResolutionContract where
  | synchronousResult
  | statusQuery (query : StatusQueryOutcomeResolution)
  | outcomeUnknown
deriving DecidableEq

structure OperationSafety where
  effect : Effect
  risk : Risk
  reversibility : Reversibility
  retry : RetryMode
  idempotency : IdempotencyContract
  concurrency : ConcurrencyContract
deriving DecidableEq

structure HttpOperation where
  method : String
  scopes : List String
  safety : OperationSafety
deriving DecidableEq

/-- A locator of source evidence; evidence is only ever compared. -/
structure Evidence where
  document : Fields
deriving DecidableEq

inductive OperationKind where
  | read
  | action
deriving DecidableEq

/-- An operation; exactly a read operation has the read effect. -/
structure Operation where
  kind : OperationKind
  id : String
  inputSchema : Fields
  outputSchema : Fields
  http : HttpOperation
  contextBindings : List (String × String)
  evidence : List Evidence
  effect_read : kind = .read ↔ http.safety.effect = .read
deriving DecidableEq

/-- What makes an example of a read an operation. -/
theorem read_effect_read : OperationKind.read = .read ↔ Effect.read = .read := by decide

/-- Operations by their identifiers. -/
abbrev Operations := List (String × Operation)

def operation? (id : String) (operations : Operations) : Option Operation :=
  (operations.find? (·.1 = id)).map Prod.snd

/-- The operation is declared and mutates. -/
def isAction (operations : Operations) (id : String) : Bool :=
  match operation? id operations with
  | some operation => operation.kind = .action
  | none => false

inductive ProvenanceField where
  | conflictControl
  | effect
  | idempotency
  | outcomeResolution
  | reversibility
  | retry
  | risk
deriving DecidableEq

inductive Authority where
  | contract
  | implementation
  | test
deriving DecidableEq

structure ActionSemanticsProvenance where
  field : ProvenanceField
  evidence : Evidence
  authority : Authority
deriving DecidableEq

/-- Source semantics of one mutating operation. -/
structure ActionSemantics where
  method : String
  safety : OperationSafety
  outcomeResolution : Option OutcomeResolutionContract
  evidence : Evidence
  provenance : List ActionSemanticsProvenance
deriving DecidableEq

inductive ExecutionMode where
  | single
  | sourceTransaction
  | saga
deriving DecidableEq

inductive ApprovalMode where
  | required
  | notRequired
deriving DecidableEq

structure LocalDevelopmentStateGuard where
  resourceKeyPointer : String
  readOperationId : String
  statePointer : String
  allowedValues : List Json
  terminalValues : List Json
deriving DecidableEq

structure ActionContract where
  executionMode : ExecutionMode
  approval : ApprovalMode
  localDevelopmentStateGuard : Option LocalDevelopmentStateGuard

structure ReadCapability where
  id : String
  inputSchema : Fields
  outputSchema : Fields
  policy : String
  evals : List String
  workflow : Workflow

structure ActionCapability where
  id : String
  inputSchema : Fields
  outputSchema : Fields
  policy : String
  evals : List String
  action : ActionContract
  previewWorkflow : Workflow
  commitWorkflow : Workflow

end CapabilityCompiler.Models
