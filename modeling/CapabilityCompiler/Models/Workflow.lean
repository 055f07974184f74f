import CapabilityCompiler.Foundation.Json

/-! Workflow steps and conditions, with their bounds, and the documents they are dumped as. -/
namespace CapabilityCompiler.Models
open Foundation

/-- The most items a collection step may take. -/
structure ItemBound where
  value : ℕ
  pos : 1 ≤ value
  le_hundred : value ≤ 100
deriving DecidableEq

/-! Conditions. -/

inductive WorkflowConditionOperand where
  | reference (value : String)
  | literal (value : Json)
deriving DecidableEq

inductive WorkflowCondition where
  | eq (left right : WorkflowConditionOperand)
  | isIn (item values : WorkflowConditionOperand)
  | all (conditions : List WorkflowCondition)
  | any (conditions : List WorkflowCondition)
  | not (condition : WorkflowCondition)

mutual

/-- The number of nodes of a condition and the depth of its deepest node. -/
def workflowConditionSize (depth : ℕ) : WorkflowCondition → ℕ × ℕ
  | .all conditions | .any conditions =>
    let sizes := workflowConditionSizes (depth + 1) conditions
    (1 + (sizes.map Prod.fst).sum, (sizes.map Prod.snd).foldr max 0)
  | .not condition =>
    let size := workflowConditionSize (depth + 1) condition
    (1 + size.1, size.2)
  | _ => (1, depth)

def workflowConditionSizes (depth : ℕ) : List WorkflowCondition → List (ℕ × ℕ)
  | [] => []
  | condition :: rest =>
    workflowConditionSize depth condition :: workflowConditionSizes depth rest

end

mutual

/-- Every `all` and `any` has between one and sixteen conditions. -/
def WorkflowCondition.fansOut : WorkflowCondition → Bool
  | .all conditions | .any conditions =>
    decide (1 ≤ conditions.length ∧ conditions.length ≤ 16) && fansOutAll conditions
  | .not condition => condition.fansOut
  | _ => true

def fansOutAll : List WorkflowCondition → Bool
  | [] => true
  | condition :: rest => condition.fansOut && fansOutAll rest

end

/-- A condition small enough for a branch. -/
structure BoundedCondition where
  condition : WorkflowCondition
  fansOut : condition.fansOut = true
  nodes : (workflowConditionSize 1 condition).1 ≤ 64
  depth : (workflowConditionSize 1 condition).2 ≤ 16

inductive BranchCondition where
  | reference (value : String)
  | structured (condition : BoundedCondition)

/-! Steps. -/

/-- A workflow step with the identifier its result is stored under. -/
inductive WorkflowStep where
  | call (id : Option String) (operation : String) (arguments : Fields)
  | pick (id : Option String) (value : Json) (fields : List String)
  | map (id : Option String) (items : Json) (expression : String) (maxItems : ItemBound)
  | filter (id : Option String) (items : Json) (condition : String) (maxItems : ItemBound)
  | assert (id : Option String) (condition message : String)
  | redact (id : Option String) (value : Json) (fields : List String)
  | branch (id : Option String) (condition : BranchCondition)
      (thenSteps elseSteps : List WorkflowStep)
  | parallel (id : Option String) (children : List WorkflowStep)
  | foreach (id : Option String) (items : Json) (itemName : String) (maxItems : ItemBound)
      (workflow : List WorkflowStep)
  | emit (id : Option String) (value : Json)

abbrev Workflow := List WorkflowStep

namespace WorkflowStep

def id : WorkflowStep → Option String
  | call id .. | pick id .. | map id .. | filter id .. | assert id .. | redact id ..
  | branch id .. | parallel id .. | foreach id .. | emit id .. => id

/-- The steps directly inside a step. -/
def nested : WorkflowStep → List WorkflowStep
  | branch _ _ thenSteps elseSteps => thenSteps ++ elseSteps
  | parallel _ children => children
  | foreach _ _ _ _ workflow => workflow
  | _ => []

/-- Induction with a hypothesis for each step directly inside. -/
theorem nested_induction {motive : WorkflowStep → Prop}
    (h : ∀ step, (∀ inner ∈ step.nested, motive inner) → motive step) (step : WorkflowStep) :
    motive step := by
  have hleaf : ∀ step : WorkflowStep, step.nested = [] → motive step := by
    intro step hnone
    refine h step fun inner hinner => ?_
    rw [hnone] at hinner
    exact absurd hinner List.not_mem_nil
  refine @WorkflowStep.rec motive (fun steps => ∀ step ∈ steps, motive step)
    (fun _ _ _ => hleaf _ rfl) (fun _ _ _ => hleaf _ rfl) (fun _ _ _ _ => hleaf _ rfl)
    (fun _ _ _ _ => hleaf _ rfl) (fun _ _ _ => hleaf _ rfl) (fun _ _ _ => hleaf _ rfl)
    ?_ ?_ ?_ (fun _ _ => hleaf _ rfl) ?_ ?_ step
  · intro _ _ thenSteps elseSteps hthen helse
    refine h _ fun inner hinner => ?_
    exact (List.mem_append.mp hinner).elim (hthen inner) (helse inner)
  · intro _ children hchildren
    exact h _ hchildren
  · intro _ _ _ _ workflow hworkflow
    exact h _ hworkflow
  · simp
  · intro first rest hfirst hrest inner hinner
    rcases List.mem_cons.mp hinner with rfl | hinner
    · exact hfirst
    · exact hrest inner hinner

def isEmit : WorkflowStep → Bool
  | emit .. => true
  | _ => false

end WorkflowStep

/-! The documents the models are dumped as. -/

def WorkflowConditionOperand.dump : WorkflowConditionOperand → Json
  | .reference value => .obj [("kind", .str "reference"), ("value", .str value)]
  | .literal value => .obj [("kind", .str "literal"), ("value", value)]

mutual

def WorkflowCondition.dump : WorkflowCondition → Json
  | .eq left right =>
    .obj [("operator", .str "eq"), ("left", left.dump), ("right", right.dump)]
  | .isIn item values =>
    .obj [("operator", .str "in"), ("item", item.dump), ("values", values.dump)]
  | .all conditions =>
    .obj [("operator", .str "all"), ("conditions", .arr (dumpConditions conditions))]
  | .any conditions =>
    .obj [("operator", .str "any"), ("conditions", .arr (dumpConditions conditions))]
  | .not condition => .obj [("operator", .str "not"), ("condition", condition.dump)]

def dumpConditions : List WorkflowCondition → List Json
  | [] => []
  | condition :: rest => condition.dump :: dumpConditions rest

end

def BranchCondition.dump : BranchCondition → Json
  | .reference value => .str value
  | .structured bounded => bounded.condition.dump

def dumpId : Option String → Json
  | none => .null
  | some id => .str id

mutual

def WorkflowStep.dump : WorkflowStep → Json
  | .call id operation arguments => .obj [("id", dumpId id),
      ("call", .obj [("operation", .str operation), ("arguments", .obj arguments)])]
  | .pick id value fields => .obj [("id", dumpId id),
      ("pick", .obj [("value", value), ("fields", .arr (fields.map .str))])]
  | .map id items expression maxItems => .obj [("id", dumpId id),
      ("map", .obj [("items", items), ("expression", .str expression),
        ("max_items", .int maxItems.value)])]
  | .filter id items condition maxItems => .obj [("id", dumpId id),
      ("filter", .obj [("items", items), ("condition", .str condition),
        ("max_items", .int maxItems.value)])]
  | .assert id condition message => .obj [("id", dumpId id),
      ("assert", .obj [("condition", .str condition), ("message", .str message)])]
  | .redact id value fields => .obj [("id", dumpId id),
      ("redact", .obj [("value", value), ("fields", .arr (fields.map .str))])]
  | .branch id condition thenSteps elseSteps => .obj [("id", dumpId id),
      ("branch", .obj [("condition", condition.dump), ("then", .arr (dumpWorkflow thenSteps)),
        ("else", .arr (dumpWorkflow elseSteps))])]
  | .parallel id children => .obj [("id", dumpId id), ("parallel", .arr (dumpWorkflow children))]
  | .foreach id items itemName maxItems workflow => .obj [("id", dumpId id),
      ("foreach", .obj [("items", items), ("item_name", .str itemName),
        ("max_items", .int maxItems.value), ("workflow", .arr (dumpWorkflow workflow))])]
  | .emit id value => .obj [("id", dumpId id), ("emit", .obj [("value", value)])]

def dumpWorkflow : List WorkflowStep → List Json
  | [] => []
  | step :: rest => step.dump :: dumpWorkflow rest

end

end CapabilityCompiler.Models
