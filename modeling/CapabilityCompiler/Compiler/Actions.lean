import CapabilityCompiler.Compiler.SchemaPointers
import CapabilityCompiler.Models.Operations
import CapabilityCompiler.Models.Reference

/-! Pure safety proofs of action capabilities. -/
namespace CapabilityCompiler.Compiler
open Foundation Models

/-! Call sites and mutation counts. -/

inductive Container where
  | parallel
  | foreach
deriving DecidableEq

structure CallSite where
  operationId : String
  arguments : Fields
  pointer : String
  containers : List Container

/-- The pointer of an element of an array. -/
def childAt (pointer : String) (index : ℕ) : String := s!"{pointer}/{index}"

mutual

/-- The call steps of a workflow from the given index on. -/
def callSites (pointer : String) (containers : List Container) (index : ℕ) :
    Workflow → List CallSite
  | [] => []
  | step :: rest =>
    stepCallSites (childAt pointer index) containers step ++
      callSites pointer containers (index + 1) rest

def stepCallSites (pointer : String) (containers : List Container) : WorkflowStep → List CallSite
  | .call _ operation arguments => [⟨operation, arguments, pointer ++ "/call", containers⟩]
  | .branch _ _ thenSteps elseSteps =>
    callSites (pointer ++ "/branch/then") containers 0 thenSteps ++
      callSites (pointer ++ "/branch/else") containers 0 elseSteps
  | .parallel _ children =>
    parallelCallSites (pointer ++ "/parallel") (containers ++ [.parallel]) 0 children
  | .foreach _ _ _ _ workflow =>
    callSites (pointer ++ "/foreach/workflow") (containers ++ [.foreach]) 0 workflow
  | _ => []

/-- Every child is a workflow of its own. -/
def parallelCallSites (pointer : String) (containers : List Container) (index : ℕ) :
    List WorkflowStep → List CallSite
  | [] => []
  | child :: rest =>
    stepCallSites (childAt (childAt pointer index) 0) containers child ++
      parallelCallSites pointer containers (index + 1) rest

end

def sumCounts (left right : List ℕ) : List ℕ :=
  left.flatMap fun leftCount => right.map (leftCount + ·)

mutual

/-- The numbers of mutations on the paths through a workflow, as a set. -/
def mutationPathCounts (operations : Operations) : Workflow → List ℕ
  | [] => [0]
  | step :: rest =>
    sumCounts (stepMutationCounts operations step) (mutationPathCounts operations rest)

def stepMutationCounts (operations : Operations) : WorkflowStep → List ℕ
  | .call _ operation _ => if isAction operations operation then [1] else [0]
  | .branch _ _ thenSteps elseSteps =>
    mutationPathCounts operations thenSteps ++ mutationPathCounts operations elseSteps
  | .parallel _ children => parallelMutationCounts operations children
  | .foreach _ _ _ maxItems workflow =>
    0 :: (mutationPathCounts operations workflow).flatMap fun count => [count, count * maxItems.value]
  | _ => [0]

def parallelMutationCounts (operations : Operations) : List WorkflowStep → List ℕ
  | [] => [0]
  | child :: rest =>
    sumCounts (stepMutationCounts operations child) (parallelMutationCounts operations rest)

end

/-! The strings of a workflow. -/

mutual

def walkStrings (pointer : String) : Json → List (String × String)
  | .str value => [(value, pointer)]
  | .arr items => walkItems pointer 0 items
  | .obj fields => walkFields pointer fields
  | _ => []

def walkItems (pointer : String) (index : ℕ) : List Json → List (String × String)
  | [] => []
  | item :: rest => walkStrings (childAt pointer index) item ++ walkItems pointer (index + 1) rest

def walkFields (pointer : String) : Fields → List (String × String)
  | [] => []
  | (key, item) :: rest =>
    walkStrings s!"{pointer}/{Text.escapeToken key}" item ++ walkFields pointer rest

end

def workflowStrings (pointer : String) (workflow : Workflow) : List (String × String) :=
  walkItems pointer 0 (dumpWorkflow workflow)

/-- `$.prepared` or a text that starts like a path below it. -/
def mentionsPrepared (value : String) : Bool :=
  value = "$.prepared" || Text.hasPrefix "$.prepared." value

/-- `$.prepared.(input|preview)(.segment)*` -/
def isPreparedReference (value : String) : Bool :=
  match matchReference ["prepared"] value with
  | some (.root _ ("input" :: _)) | some (.root _ ("preview" :: _)) => true
  | _ => false

/-- `$.input(.segment)*` -/
def isDirectInputReference (value : String) : Bool :=
  match matchReference ["input"] value with
  | some (.root ..) => true
  | _ => false

/-- `$.steps.segment(.segment)*` -/
def isFreshStepReference (value : String) : Bool :=
  match matchReference [] value with
  | some (.step ..) => true
  | _ => false

/-! What the workflows of an action must look like. -/

def actionOperationNotFound (path : String) (site : CallSite) : Diagnostic where
  code := "ACC_COMPILE_ACTION_OPERATION_NOT_FOUND"
  message := s!"Action workflow references an unknown Operation: {site.operationId}"
  path := path
  pointer := site.pointer ++ "/operation"

def actionPreviewMutation (path : String) (site : CallSite) : Diagnostic where
  code := "ACC_COMPILE_ACTION_PREVIEW_MUTATION"
  message := "Action preview_workflow may call only read Operations."
  path := path
  pointer := site.pointer ++ "/operation"

def actionMutationInParallel (path : String) (site : CallSite) : Diagnostic where
  code := "ACC_COMPILE_ACTION_MUTATION_IN_PARALLEL"
  message := "A mutating Operation cannot execute inside a parallel Action step."
  path := path
  pointer := site.pointer ++ "/operation"

def actionMutationInForeach (path : String) (site : CallSite) : Diagnostic where
  code := "ACC_COMPILE_ACTION_MUTATION_IN_FOREACH"
  message := "A mutating Operation cannot execute inside an Action foreach step."
  path := path
  pointer := site.pointer ++ "/operation"

def actionExecutionModeUnsupported (path : String) : Diagnostic where
  code := "ACC_COMPILE_ACTION_EXECUTION_MODE_UNSUPPORTED"
  message := "Action execution mode is declared but not implemented by this compiler."
  path := path
  pointer := "/action/execution_mode"

def actionSingleMutationRequired (path : String) : Diagnostic where
  code := "ACC_COMPILE_ACTION_SINGLE_MUTATION_REQUIRED"
  message := "single Action mode requires exactly one mutation on every commit path."
  path := path
  pointer := "/commit_workflow"

def actionPreparedReferenceInPreview (path pointer : String) : Diagnostic where
  code := "ACC_COMPILE_ACTION_PREPARED_REFERENCE_IN_PREVIEW"
  message := "preview_workflow cannot reference commit-time prepared state."
  path := path
  pointer := pointer

def actionPreparedReferenceInvalid (path pointer : String) : Diagnostic where
  code := "ACC_COMPILE_ACTION_PREPARED_REFERENCE_INVALID"
  message := "commit prepared references must be rooted at $.prepared.input or $.prepared.preview."
  path := path
  pointer := pointer

def actionUnpreparedMutationInput (path pointer : String) : Diagnostic where
  code := "ACC_COMPILE_ACTION_UNPREPARED_MUTATION_INPUT"
  message := "A mutating Operation must consume the immutable prepared snapshot, not live Agent input."
  path := path
  pointer := pointer

def actionFreshStepMutationInput (path pointer : String) : Diagnostic where
  code := "ACC_COMPILE_ACTION_FRESH_STEP_MUTATION_INPUT"
  message := "A mutating Operation cannot consume a fresh commit-time step result; " ++
    "use only the immutable prepared snapshot or deterministic literals."
  path := path
  pointer := pointer

/-- The diagnostics at the sites a test singles out. -/
def diagnosed {α : Type} (test : α → Bool) (diagnostic : α → Diagnostic) (sites : List α) :
    List Diagnostic :=
  (sites.filter test).map diagnostic

def previewSites (capability : ActionCapability) : List CallSite :=
  callSites "/preview_workflow" [] 0 capability.previewWorkflow

def commitSites (capability : ActionCapability) : List CallSite :=
  callSites "/commit_workflow" [] 0 capability.commitWorkflow

def mutationSites (capability : ActionCapability) (operations : Operations) : List CallSite :=
  (commitSites capability).filter fun site => isAction operations site.operationId

/-- The diagnostics of the strings in the arguments of one mutation. -/
def sealedArgumentDiagnostics (path : String) (site : CallSite) : List Diagnostic :=
  (walkStrings (site.pointer ++ "/arguments") (.obj site.arguments)).flatMap fun (value, pointer) =>
    (if isDirectInputReference value then [actionUnpreparedMutationInput path pointer] else []) ++
      if isFreshStepReference value then [actionFreshStepMutationInput path pointer] else []

def executionModeDiagnostics (path : String) (capability : ActionCapability)
    (operations : Operations) : List Diagnostic :=
  if capability.action.executionMode ≠ .single then [actionExecutionModeUnsupported path]
  else if (mutationPathCounts operations capability.commitWorkflow).all (· = 1) then []
  else [actionSingleMutationRequired path]

def workflowDiagnostics (path : String) (capability : ActionCapability)
    (operations : Operations) : List Diagnostic :=
  let preview := previewSites capability
  let mutations := mutationSites capability operations
  diagnosed (fun site => (operation? site.operationId operations).isNone)
    (actionOperationNotFound path) (preview ++ commitSites capability) ++
  diagnosed (fun site => isAction operations site.operationId) (actionPreviewMutation path) preview ++
  mutations.flatMap (fun site =>
    (if .parallel ∈ site.containers then [actionMutationInParallel path site] else []) ++
      if .foreach ∈ site.containers then [actionMutationInForeach path site] else []) ++
  executionModeDiagnostics path capability operations ++
  diagnosed (fun found => mentionsPrepared found.1)
    (fun found => actionPreparedReferenceInPreview path found.2)
    (workflowStrings "/preview_workflow" capability.previewWorkflow) ++
  diagnosed (fun found => mentionsPrepared found.1 && !isPreparedReference found.1)
    (fun found => actionPreparedReferenceInvalid path found.2)
    (workflowStrings "/commit_workflow" capability.commitWorkflow) ++
  mutations.flatMap (sealedArgumentDiagnostics path)

end CapabilityCompiler.Compiler
