import CapabilityCompiler.Models.Reference
import CapabilityCompiler.Models.Workflow
import CapabilityCompiler.Compiler.Actions

/-! The rewriting of prepared references that a commit workflow is executed under. -/
namespace CapabilityCompiler.Actions
open Foundation Models

/-- `$.prepared.rest` becomes `$.input.prepared.rest`. -/
def rewriteText (value : String) : String :=
  match Text.dropPrefix? "$.prepared.".toList value.toList with
  | some rest => String.ofList ("$.input.prepared.".toList ++ rest)
  | none => value

/-- What rewriting does to the tokens of a reference. -/
def rewriteTokens : List String → List String
  | "$" :: "prepared" :: first :: rest => "$" :: "input" :: "prepared" :: first :: rest
  | tokens => tokens

theorem splitChars_prepared (rest : List Char) :
    Text.splitChars '.' ("$.prepared.".toList ++ rest) =
      "$".toList :: "prepared".toList :: Text.splitChars '.' rest := by
  have hdots : "$.prepared.".toList ++ rest =
      "$".toList ++ '.' :: ("prepared".toList ++ '.' :: rest) := by simp
  rw [hdots, Text.splitChars_append, Text.splitChars_append]
  rfl

theorem hasPrefix_of_prepared {value first : String} {rest : List String}
    (h : Text.split '.' value = "$" :: "prepared" :: first :: rest) :
    "$.prepared.".toList.isPrefixOf value.toList = true := by
  rw [List.isPrefixOf_iff_prefix, Text.toList_of_split h, List.map_cons, List.map_cons,
    List.map_cons, Text.joinChars_cons_cons, Text.joinChars_cons_cons]
  exact ⟨Text.joinChars '.' (first.toList :: rest.map String.toList), by simp⟩

theorem split_rewriteText (value : String) :
    Text.split '.' (rewriteText value) = rewriteTokens (Text.split '.' value) := by
  by_cases hprefixed : "$.prepared.".toList.isPrefixOf value.toList = true
  · obtain ⟨rest, hrest⟩ := List.isPrefixOf_iff_prefix.mp hprefixed
    have hdrop : Text.dropPrefix? "$.prepared.".toList value.toList = some rest := by
      unfold Text.dropPrefix?
      rw [if_pos hprefixed, ← hrest, List.drop_left]
    have hinput : "$.input.prepared.".toList ++ rest =
        "$".toList ++ '.' :: ("input".toList ++ '.' :: ("prepared".toList ++ '.' :: rest)) := by
      simp
    have hrewritten : Text.splitChars '.' (rewriteText value).toList =
        "$".toList :: "input".toList :: "prepared".toList :: Text.splitChars '.' rest := by
      unfold rewriteText
      simp only [hdrop, String.toList_ofList]
      rw [hinput, Text.splitChars_append, Text.splitChars_append, Text.splitChars_append]
      rfl
    obtain ⟨first, others, hsplit⟩ :=
      List.exists_cons_of_ne_nil (Text.splitChars_ne_nil '.' rest)
    rw [Text.split, hrewritten, Text.split, ← hrest, splitChars_prepared, hsplit]
    rfl
  · have hsame : rewriteText value = value := by
      unfold rewriteText Text.dropPrefix?
      rw [if_neg hprefixed]
    rw [hsame]
    unfold rewriteTokens
    split
    next first rest htokens => exact absurd (hasPrefix_of_prepared htokens) hprefixed
    next => rfl

/-! Every text of a document is mapped, whatever it stands for; keys are not. -/

section MapTexts
variable (f : String → String)

mutual

def mapTexts : Json → Json
  | .str value => .str (f value)
  | .arr items => .arr (mapTextItems items)
  | .obj fields => .obj (mapTextFields fields)
  | value => value

def mapTextItems : List Json → List Json
  | [] => []
  | item :: rest => mapTexts item :: mapTextItems rest

def mapTextFields : Fields → Fields
  | [] => []
  | (key, item) :: rest => (key, mapTexts item) :: mapTextFields rest

end

def mapOperand : WorkflowConditionOperand → WorkflowConditionOperand
  | .reference value => .reference (f value)
  | .literal value => .literal (mapTexts f value)

mutual

def mapCondition : WorkflowCondition → WorkflowCondition
  | .eq left right => .eq (mapOperand f left) (mapOperand f right)
  | .isIn item values => .isIn (mapOperand f item) (mapOperand f values)
  | .all conditions => .all (mapConditions conditions)
  | .any conditions => .any (mapConditions conditions)
  | .not condition => .not (mapCondition condition)

def mapConditions : List WorkflowCondition → List WorkflowCondition
  | [] => []
  | condition :: rest => mapCondition condition :: mapConditions rest

end

mutual

theorem workflowConditionSize_map (depth : ℕ) (condition : WorkflowCondition) :
    workflowConditionSize depth (mapCondition f condition) =
      workflowConditionSize depth condition := by
  cases condition with
  | eq => rfl
  | isIn => rfl
  | all conditions => simp [mapCondition, workflowConditionSize, workflowConditionSizes_map]
  | any conditions => simp [mapCondition, workflowConditionSize, workflowConditionSizes_map]
  | not condition => simp [mapCondition, workflowConditionSize, workflowConditionSize_map]

theorem workflowConditionSizes_map (depth : ℕ) (conditions : List WorkflowCondition) :
    workflowConditionSizes depth (mapConditions f conditions) =
      workflowConditionSizes depth conditions := by
  cases conditions with
  | nil => rfl
  | cons condition rest =>
    simp [mapConditions, workflowConditionSizes, workflowConditionSize_map,
      workflowConditionSizes_map]

end

@[simp] theorem length_mapConditions (conditions : List WorkflowCondition) :
    (mapConditions f conditions).length = conditions.length := by
  induction conditions with
  | nil => rfl
  | cons condition rest ih => simp [mapConditions, ih]

mutual

theorem fansOut_map (condition : WorkflowCondition) :
    (mapCondition f condition).fansOut = condition.fansOut := by
  cases condition with
  | eq => rfl
  | isIn => rfl
  | all conditions => simp [mapCondition, WorkflowCondition.fansOut, fansOutAll_map]
  | any conditions => simp [mapCondition, WorkflowCondition.fansOut, fansOutAll_map]
  | not condition => simp [mapCondition, WorkflowCondition.fansOut, fansOut_map]

theorem fansOutAll_map (conditions : List WorkflowCondition) :
    fansOutAll (mapConditions f conditions) = fansOutAll conditions := by
  cases conditions with
  | nil => rfl
  | cons condition rest => simp [mapConditions, fansOutAll, fansOut_map, fansOutAll_map]

end

def mapBounded (bounded : BoundedCondition) : BoundedCondition where
  condition := mapCondition f bounded.condition
  fansOut := by rw [fansOut_map, bounded.fansOut]
  nodes := by rw [workflowConditionSize_map]; exact bounded.nodes
  depth := by rw [workflowConditionSize_map]; exact bounded.depth

def mapBranchCondition : BranchCondition → BranchCondition
  | .reference value => .reference (f value)
  | .structured bounded => .structured (mapBounded f bounded)

mutual

/-- Also identifiers, operations, messages and field names are texts. -/
def mapStep : WorkflowStep → WorkflowStep
  | .call id operation arguments => .call (id.map f) (f operation) (mapTextFields f arguments)
  | .pick id value fields => .pick (id.map f) (mapTexts f value) (fields.map f)
  | .map id items expression maxItems => .map (id.map f) (mapTexts f items) (f expression) maxItems
  | .filter id items condition maxItems =>
    .filter (id.map f) (mapTexts f items) (f condition) maxItems
  | .assert id condition message => .assert (id.map f) (f condition) (f message)
  | .redact id value fields => .redact (id.map f) (mapTexts f value) (fields.map f)
  | .branch id condition thenSteps elseSteps =>
    .branch (id.map f) (mapBranchCondition f condition) (mapSteps thenSteps) (mapSteps elseSteps)
  | .parallel id children => .parallel (id.map f) (mapSteps children)
  | .foreach id items itemName maxItems workflow =>
    .foreach (id.map f) (mapTexts f items) (f itemName) maxItems (mapSteps workflow)
  | .emit id value => .emit (id.map f) (mapTexts f value)

def mapSteps : List WorkflowStep → List WorkflowStep
  | [] => []
  | step :: rest => mapStep step :: mapSteps rest

end

@[simp] theorem mapStep_id (step : WorkflowStep) : (mapStep f step).id = step.id.map f := by
  cases step <;> rfl

@[simp] theorem length_mapSteps (steps : List WorkflowStep) :
    (mapSteps f steps).length = steps.length := by
  induction steps with
  | nil => rfl
  | cons step rest ih => simp [mapSteps, ih]

/-! Mapping the texts of a dumped workflow gives the dump of a workflow. -/

/-- The texts a dump has of its own. -/
def dumpTags : List String := ["reference", "literal", "eq", "in", "all", "any", "not"]

/-- A map of texts that leaves these alone. -/
def FixesTags : Prop := ∀ tag ∈ dumpTags, f tag = tag

variable {f}

theorem dump_mapOperand (hf : FixesTags f) (operand : WorkflowConditionOperand) :
    (mapOperand f operand).dump = mapTexts f operand.dump := by
  have hreference := hf "reference" (by decide)
  have hliteral := hf "literal" (by decide)
  cases operand <;>
    simp [mapOperand, WorkflowConditionOperand.dump, mapTexts, mapTextFields, hreference, hliteral]

mutual

theorem dump_mapCondition (hf : FixesTags f) (condition : WorkflowCondition) :
    (mapCondition f condition).dump = mapTexts f condition.dump := by
  cases condition with
  | eq left right =>
    simp [mapCondition, WorkflowCondition.dump, mapTexts, mapTextFields, dump_mapOperand hf,
      hf "eq" (by decide)]
  | isIn item values =>
    simp [mapCondition, WorkflowCondition.dump, mapTexts, mapTextFields, dump_mapOperand hf,
      hf "in" (by decide)]
  | all conditions =>
    simp [mapCondition, WorkflowCondition.dump, mapTexts, mapTextFields,
      dump_mapConditions hf conditions, hf "all" (by decide)]
  | any conditions =>
    simp [mapCondition, WorkflowCondition.dump, mapTexts, mapTextFields,
      dump_mapConditions hf conditions, hf "any" (by decide)]
  | not condition =>
    simp [mapCondition, WorkflowCondition.dump, mapTexts, mapTextFields,
      dump_mapCondition hf condition, hf "not" (by decide)]

theorem dump_mapConditions (hf : FixesTags f) (conditions : List WorkflowCondition) :
    dumpConditions (mapConditions f conditions) = mapTextItems f (dumpConditions conditions) := by
  cases conditions with
  | nil => rfl
  | cons condition rest =>
    simp [mapConditions, dumpConditions, mapTextItems, dump_mapCondition hf condition,
      dump_mapConditions hf rest]

end

theorem dump_mapBranchCondition (hf : FixesTags f) (condition : BranchCondition) :
    (mapBranchCondition f condition).dump = mapTexts f condition.dump := by
  cases condition with
  | reference value => rfl
  | structured bounded => exact dump_mapCondition hf bounded.condition

theorem dumpId_map (id : Option String) : dumpId (id.map f) = mapTexts f (dumpId id) := by
  cases id <;> rfl

theorem mapTextItems_texts (texts : List String) :
    mapTextItems f (texts.map .str) = (texts.map f).map .str := by
  induction texts with
  | nil => rfl
  | cons text rest ih => simp [mapTextItems, mapTexts, ih]

mutual

theorem dump_mapStep (hf : FixesTags f) (step : WorkflowStep) :
    (mapStep f step).dump = mapTexts f step.dump := by
  cases step with
  | branch id condition thenSteps elseSteps =>
    simp [mapStep, WorkflowStep.dump, mapTexts, mapTextFields, dumpId_map,
      dump_mapBranchCondition hf, dump_mapSteps hf thenSteps, dump_mapSteps hf elseSteps]
  | parallel id children =>
    simp [mapStep, WorkflowStep.dump, mapTexts, mapTextFields, dumpId_map,
      dump_mapSteps hf children]
  | «foreach» id items itemName maxItems workflow =>
    simp [mapStep, WorkflowStep.dump, mapTexts, mapTextFields, dumpId_map,
      dump_mapSteps hf workflow]
  | _ => simp [mapStep, WorkflowStep.dump, mapTexts, mapTextFields, dumpId_map, mapTextItems_texts]

theorem dump_mapSteps (hf : FixesTags f) (steps : List WorkflowStep) :
    dumpWorkflow (mapSteps f steps) = mapTextItems f (dumpWorkflow steps) := by
  cases steps with
  | nil => rfl
  | cons step rest =>
    simp [mapSteps, dumpWorkflow, mapTextItems, dump_mapStep hf step, dump_mapSteps hf rest]

end

end MapTexts

/-- The workflow a commit is executed with. -/
def rewritePrepared (workflow : Workflow) : Workflow := mapSteps rewriteText workflow

/-- The input of a prepared workflow is the sealed input with the preview. -/
def preparedInputSchema (inputSchema : Fields) : Fields :=
  [("type", .str "object"), ("additionalProperties", .bool false),
    ("properties", .obj [("prepared", .obj
      [("type", .str "object"), ("additionalProperties", .bool false),
        ("properties", .obj [("input", .obj inputSchema), ("preview", .obj [])]),
        ("required", .arr [.str "input", .str "preview"])])]),
    ("required", .arr [.str "prepared"])]

/-- It is the workflow of the rewritten document. -/
theorem dump_rewritePrepared (workflow : Workflow) :
    dumpWorkflow (rewritePrepared workflow) = mapTextItems rewriteText (dumpWorkflow workflow) :=
  dump_mapSteps (by simp only [FixesTags]; decide) workflow

end CapabilityCompiler.Actions
