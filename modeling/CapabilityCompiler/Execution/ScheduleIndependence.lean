import CapabilityCompiler.Execution.Executor
import CapabilityCompiler.Foundation.Schedule

/-! The value of a workflow does not depend on how the children of its nodes are interleaved. -/
namespace CapabilityCompiler.Execution
open Foundation Models

section Nodes
variable {Q R : Type} {engine : Engine Q R} {context : Context} {position : List ℕ} {index : ℕ}
  {result : Json} {id : Option String} {rest : List WorkflowStep} {t : List (Process.Event Q R)}
  {p : Process Q R Failure Json}

/-- What follows a node in its workflow once the node has the results of its children. -/
def afterNode (engine : Engine Q R) (context : Context) (position : List ℕ) (index : ℕ)
    (id : Option String) (rest : List WorkflowStep) (results : List Json) :
    Process Q R Failure Json :=
  runWorkflow engine (context.store id (.arr results)) position (index + 1) (.arr results) rest

/-- The children of a parallel step run alone in the context of the step, and leave only its
result. -/
theorem gathered_of_parallel {children : List WorkflowStep}
    (hbound : 1 ≤ children.length ∧ children.length ≤ 8)
    (h : Process.Run
      (runWorkflow engine context position index result (.parallel id children :: rest)) t p) :
    Process.Gathered (runChildren engine context (position ++ [index]) 0 children)
      (afterNode engine context position index id rest) t p := by
  rw [runWorkflow, runStep, if_pos hbound, gatherList, Process.bind] at h
  exact h.gathered

/-- The iterations of a foreach step run alone, each with its own item, and leave only its
result. -/
theorem gathered_of_foreach {items : Json} {itemName : String} {maxItems : ItemBound}
    {workflow : List WorkflowStep} {sequence : List Json}
    (hitems : resolveItemsBounded context (stepDetails engine.capabilityId id) items maxItems =
      .ok sequence)
    (h : Process.Run (runWorkflow engine context position index result
      (.foreach id items itemName maxItems workflow :: rest)) t p) :
    Process.Gathered
      (sequence.map fun item => runWorkflow engine { context with item := some item }
        (position ++ [index] ++ [0]) 0 .null workflow)
      (afterNode engine context position index id rest) t p := by
  rw [runWorkflow, runStep] at h
  simp only [hitems] at h
  rw [gatherList, Process.bind] at h
  exact h.gathered

end Nodes

/-- A provider whose replies depend only on the operation and its arguments. -/
abbrev answerOf (provider : Operation → Fields → Reply) (call : CallRequest) : Reply :=
  provider call.operation call.arguments

/-- However the children of its nodes are interleaved, a workflow has the output of running them
one after the other. Every child runs alone in the context of its node, with its own item, and the
rest of the workflow sees only the result of the node. -/
theorem schedule_independent (schemas : SchemaChecker) (settings : Settings)
    (operations : Operations) (capabilityId : String) (definition : CapabilityDefinition)
    (input : Json) (provider : Operation → Fields → Reply) :
    let engine := workflowExecutor schemas settings operations capabilityId
    let process := execute engine definition input
    (∀ t v, Process.Run process t (.done v) → Process.Answered (answerOf provider) t →
      (Process.replay (answerOf provider) process).2 = .ok v) ∧
    (∀ t v p, (Process.replay (answerOf provider) process).2 = .ok v →
      Process.Run process t p → Process.Answered (answerOf provider) t →
      (∃ rest, Process.Run p rest (.done v)) ∧
        ((∀ u p', ¬ Process.Step p u p') → p = .done v)) ∧
    (∀ context position index result id children rest t p,
      1 ≤ children.length ∧ children.length ≤ 8 →
      Process.Run
        (runWorkflow engine context position index result (.parallel id children :: rest)) t p →
      Process.Gathered (runChildren engine context (position ++ [index]) 0 children)
        (afterNode engine context position index id rest) t p) ∧
    ∀ context position index result id items itemName maxItems workflow rest sequence t p,
      resolveItemsBounded context (stepDetails capabilityId id) items maxItems = .ok sequence →
      Process.Run (runWorkflow engine context position index result
        (.foreach id items itemName maxItems workflow :: rest)) t p →
      Process.Gathered
        (sequence.map fun item => runWorkflow engine { context with item := some item }
          (position ++ [index] ++ [0]) 0 .null workflow)
        (afterNode engine context position index id rest) t p := by
  intro engine process
  refine ⟨?_, ?_, ?_, ?_⟩
  · intro t v hrun hanswered
    exact Process.replay_of_done hrun hanswered
  · intro t v p hreplay hrun hanswered
    exact ⟨Process.done_of_replay hreplay hrun hanswered,
      Process.eq_done_of_replay hreplay hrun hanswered⟩
  · intro context position index result id children rest t p hbound hrun
    exact gathered_of_parallel hbound hrun
  · intro context position index result id items itemName maxItems workflow rest sequence t p hitems
      hrun
    exact gathered_of_foreach hitems hrun
/-! A workflow that looks several entries up at once. -/

def lookUp : Operation where
  kind := .read
  id := "look-up"
  inputSchema := [("type", .str "object")]
  outputSchema := []
  http :=
    { method := "GET"
      scopes := []
      safety := ⟨.read, .low, .reversible, .never, .unsupported, .notSupported⟩ }
  contextBindings := []
  evidence := []
  effect_read := read_effect_read

def lookUpAll : CapabilityDefinition where
  inputSchema := []
  outputSchema := []
  workflow :=
    [.foreach (some "entries") (.str "$.input.keys") "key" ⟨8, by decide, by decide⟩
        [.call (some "entry") "look-up" [("key", .str "$.item")]],
      .emit none (.str "$.steps.entries")]

def lookUpProcess : Process CallRequest Reply Failure Json :=
  execute (workflowExecutor ⟨fun _ => true, fun _ _ => true⟩ ⟨true, true⟩ [("look-up", lookUp)]
    "look-up-all") lookUpAll (.obj [("keys", .arr [.int 1, .int 2])])

/-- A provider that returns the arguments. -/
def echo (_ : Operation) (arguments : Fields) : Reply := .value (.obj arguments)

theorem schedule_independent_lookUp :
    (Process.replay (answerOf echo) lookUpProcess).2 =
        .ok (.arr [.obj [("key", .int 1)], .obj [("key", .int 2)]]) ∧
      ∃ rest, Process.Run lookUpProcess rest
        (.done (.arr [.obj [("key", .int 1)], .obj [("key", .int 2)]])) := by
  have hreplay : (Process.replay (answerOf echo) lookUpProcess).2 =
      .ok (.arr [.obj [("key", .int 1)], .obj [("key", .int 2)]]) := by
    decide +kernel
  have hindependent := schedule_independent ⟨fun _ => true, fun _ _ => true⟩ ⟨true, true⟩
    [("look-up", lookUp)] "look-up-all" lookUpAll (.obj [("keys", .arr [.int 1, .int 2])]) echo
  exact ⟨hreplay, (hindependent.2.1 [] _ lookUpProcess hreplay (.refl _) .nil).1⟩

end CapabilityCompiler.Execution
