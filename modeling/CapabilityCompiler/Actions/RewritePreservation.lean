import CapabilityCompiler.Actions.SealedArguments
import CapabilityCompiler.Execution.Resolution

/-! Executing a rewritten commit workflow is executing the workflow itself on the sealed record. -/
namespace CapabilityCompiler.Actions
open Foundation Models Compiler Execution

/-! The texts of a workflow that stand for themselves. -/

def operandLiterals : WorkflowConditionOperand → List String
  | .reference _ => []
  | .literal value => texts value

mutual

def conditionLiterals : WorkflowCondition → List String
  | .eq left right | .isIn left right => operandLiterals left ++ operandLiterals right
  | .all conditions | .any conditions => conditionsLiterals conditions
  | .not condition => conditionLiterals condition

def conditionsLiterals : List WorkflowCondition → List String
  | [] => []
  | condition :: rest => conditionLiterals condition ++ conditionsLiterals rest

end

def branchLiterals : BranchCondition → List String
  | .reference _ => []
  | .structured bounded => conditionLiterals bounded.condition

mutual

/-- Identifiers, operations, field names, messages and the literals of conditions. -/
def stepLiterals : WorkflowStep → List String
  | .call id operation _ => id.toList ++ [operation]
  | .pick id _ fields | .redact id _ fields => id.toList ++ fields
  | .map id .. | .filter id .. | .emit id .. => id.toList
  | .assert id _ message => id.toList ++ [message]
  | .branch id condition thenSteps elseSteps => id.toList ++ (branchLiterals condition ++
      (workflowLiterals thenSteps ++ workflowLiterals elseSteps))
  | .parallel id children => id.toList ++ workflowLiterals children
  | .foreach id _ itemName _ workflow => id.toList ++ itemName :: workflowLiterals workflow

def workflowLiterals : List WorkflowStep → List String
  | [] => []
  | step :: rest => stepLiterals step ++ workflowLiterals rest

end

mutual

/-- The conditions that a workflow branches on. -/
def stepBranches : WorkflowStep → List BranchCondition
  | .branch _ condition thenSteps elseSteps =>
    condition :: (workflowBranches thenSteps ++ workflowBranches elseSteps)
  | .parallel _ children => workflowBranches children
  | .foreach _ _ _ _ workflow => workflowBranches workflow
  | _ => []

def workflowBranches : List WorkflowStep → List BranchCondition
  | [] => []
  | step :: rest => stepBranches step ++ workflowBranches rest

end

/-! Mapping texts maps the literals. -/

section Literals
variable (f : String → String)

theorem operandLiterals_map (operand : WorkflowConditionOperand) :
    operandLiterals (mapOperand f operand) = (operandLiterals operand).map f := by
  cases operand with
  | reference value => rfl
  | literal value => exact texts_mapTexts f value

mutual

theorem conditionLiterals_map (condition : WorkflowCondition) :
    conditionLiterals (mapCondition f condition) = (conditionLiterals condition).map f := by
  cases condition with
  | eq left right | isIn left right =>
    simp [mapCondition, conditionLiterals, operandLiterals_map]
  | all conditions | any conditions => exact conditionsLiterals_map conditions
  | not condition => exact conditionLiterals_map condition

theorem conditionsLiterals_map (conditions : List WorkflowCondition) :
    conditionsLiterals (mapConditions f conditions) = (conditionsLiterals conditions).map f := by
  cases conditions with
  | nil => rfl
  | cons condition rest =>
    simp [mapConditions, conditionsLiterals, conditionLiterals_map condition,
      conditionsLiterals_map rest]

end

theorem branchLiterals_map (condition : BranchCondition) :
    branchLiterals (mapBranchCondition f condition) = (branchLiterals condition).map f := by
  cases condition with
  | reference value => rfl
  | structured bounded => exact conditionLiterals_map f bounded.condition

mutual

theorem stepLiterals_map (step : WorkflowStep) :
    stepLiterals (mapStep f step) = (stepLiterals step).map f := by
  have hid : ∀ id : Option String, (id.map f).toList = id.toList.map f := by
    intro id
    cases id <;> rfl
  cases step with
  | branch id condition thenSteps elseSteps =>
    simp [mapStep, stepLiterals, hid, branchLiterals_map, workflowLiterals_map thenSteps,
      workflowLiterals_map elseSteps]
  | parallel id children => simp [mapStep, stepLiterals, hid, workflowLiterals_map children]
  | «foreach» id items itemName maxItems workflow =>
    simp [mapStep, stepLiterals, hid, workflowLiterals_map workflow]
  | _ => simp [mapStep, stepLiterals, hid]

theorem workflowLiterals_map (steps : List WorkflowStep) :
    workflowLiterals (mapSteps f steps) = (workflowLiterals steps).map f := by
  cases steps with
  | nil => rfl
  | cons step rest =>
    simp [mapSteps, workflowLiterals, stepLiterals_map step, workflowLiterals_map rest]

end

variable {f}

/-! Where every text is fixed, nothing is mapped. -/

mutual

theorem mapTexts_of_fixed (value : Json) (h : ∀ text ∈ texts value, f text = text) :
    mapTexts f value = value := by
  cases value with
  | str text => simp [mapTexts, h text (by simp [texts])]
  | arr items => rw [mapTexts, mapTextItems_of_fixed items h]
  | obj fields => rw [mapTexts, mapTextFields_of_fixed fields h]
  | _ => rfl

theorem mapTextItems_of_fixed (items : List Json) (h : ∀ text ∈ textsOfItems items, f text = text) :
    mapTextItems f items = items := by
  cases items with
  | nil => rfl
  | cons item rest =>
    simp only [textsOfItems, List.forall_mem_append] at h
    rw [mapTextItems, mapTexts_of_fixed item h.1, mapTextItems_of_fixed rest h.2]

theorem mapTextFields_of_fixed (fields : Fields)
    (h : ∀ text ∈ textsOfFields fields, f text = text) : mapTextFields f fields = fields := by
  cases fields with
  | nil => rfl
  | cons field rest =>
    simp only [textsOfFields, List.forall_mem_append] at h
    rw [mapTextFields, mapTexts_of_fixed field.2 h.1, mapTextFields_of_fixed rest h.2]

end

end Literals

/-! Texts that are resolved alike before and after they are mapped. -/

/-- The executor resolves the mapped text as the resolver does the text itself. -/
def ResolvedAlike (f : String → String) (resolver : Resolver) (input : Json) (text : String) :
    Prop :=
  (∃ mapped reference, executorReference? (f text) = some mapped ∧
      resolver.reference? text = some reference ∧ ∀ context : Context, context.input = input →
        resolveReference context mapped = resolver.find context reference) ∨
    executorReference? (f text) = none ∧ resolver.reference? text = none ∧ f text = text

def AllAlike (f : String → String) (resolver : Resolver) (input : Json)
    (occurrences : List Occurrence) : Prop :=
  ∀ x ∈ occurrences, ResolvedAlike f resolver input x.text

section Alike
variable {f : String → String} {resolver : Resolver} {input : Json}

theorem allAlike_append {xs ys : List Occurrence} : AllAlike f resolver input (xs ++ ys) ↔
    AllAlike f resolver input xs ∧ AllAlike f resolver input ys :=
  List.forall_mem_append

theorem allAlike_cons {x : Occurrence} {xs : List Occurrence} :
    AllAlike f resolver input (x :: xs) ↔
      ResolvedAlike f resolver input x.text ∧ AllAlike f resolver input xs :=
  List.forall_mem_cons

theorem allAlike_valueOccurrences {available : List String} {item : Bool} {value : Json} :
    AllAlike f resolver input (valueOccurrences available item value) ↔
      ∀ text ∈ texts value, ResolvedAlike f resolver input text := by
  simp [AllAlike, valueOccurrences]

variable {context : Context} (details : Fields)

theorem resolveMatch_map {mapped reference : Reference}
    (h : resolveReference context mapped = resolver.find context reference) :
    resolveMatch context details mapped = resolver.resolveMatch context details reference := by
  unfold resolveMatch
  rw [h]
  rfl

theorem resolveRequiredReference_map (hinput : context.input = input) {text : String}
    (h : ResolvedAlike f resolver input text) :
    resolveRequiredReference context details (f text) =
      resolver.resolveRequiredReference context details text := by
  unfold resolveRequiredReference Resolver.resolveRequiredReference
  rcases h with ⟨mapped, reference, hmapped, hreference, hfind⟩ | ⟨hmapped, hreference, -⟩
  · rw [hmapped, hreference]
    exact resolveMatch_map details (hfind context hinput)
  · rw [hmapped, hreference]

mutual

theorem resolveValue_map (hinput : context.input = input) (value : Json)
    (h : ∀ text ∈ texts value, ResolvedAlike f resolver input text) :
    resolveValue context details (mapTexts f value) =
      resolver.resolveValue context details value := by
  cases value with
  | str text =>
    simp only [mapTexts, resolveValue, Resolver.resolveValue, Resolver.resolveText]
    rcases h text (by simp [texts]) with
      ⟨mapped, reference, hmapped, hreference, hfind⟩ | ⟨hmapped, hreference, hfixed⟩
    · rw [hmapped, hreference]
      exact resolveMatch_map details (hfind context hinput)
    · rw [hmapped, hreference, hfixed]
  | arr items => simp only [mapTexts, resolveValue, Resolver.resolveValue, resolveItems_map hinput items h]
  | obj fields =>
    simp only [mapTexts, resolveValue, Resolver.resolveValue, resolveFields_map hinput fields h]
  | _ => rfl

theorem resolveItems_map (hinput : context.input = input) (items : List Json)
    (h : ∀ text ∈ textsOfItems items, ResolvedAlike f resolver input text) :
    resolveItems context details (mapTextItems f items) =
      resolver.resolveItems context details items := by
  cases items with
  | nil => rfl
  | cons item rest =>
    simp only [textsOfItems, List.forall_mem_append] at h
    simp only [mapTextItems, resolveItems, Resolver.resolveItems, resolveValue_map hinput item h.1,
      resolveItems_map hinput rest h.2]

theorem resolveFields_map (hinput : context.input = input) (fields : Fields)
    (h : ∀ text ∈ textsOfFields fields, ResolvedAlike f resolver input text) :
    resolveFields context details (mapTextFields f fields) =
      resolver.resolveFields context details fields := by
  cases fields with
  | nil => rfl
  | cons field rest =>
    simp only [textsOfFields, List.forall_mem_append] at h
    simp only [mapTextFields, resolveFields, Resolver.resolveFields, resolveValue_map hinput field.2 h.1,
      resolveFields_map hinput rest h.2]

end

section Conditions
variable {available : List String} {item : Bool}

theorem resolveConditionOperand_map (hinput : context.input = input) (operand : WorkflowConditionOperand)
    (h : AllAlike f resolver input (operandOccurrences available item operand))
    (hliterals : ∀ text ∈ operandLiterals operand, f text = text) :
    resolveConditionOperand context details (mapOperand f operand) =
      resolver.resolveConditionOperand context details operand := by
  cases operand with
  | reference value =>
    exact resolveRequiredReference_map details hinput (h _ (List.mem_singleton_self _))
  | literal value =>
    simp only [mapOperand, resolveConditionOperand, Resolver.resolveConditionOperand,
      mapTexts_of_fixed value hliterals]

mutual

theorem evaluateCondition_map (hinput : context.input = input) (depth budget : ℕ)
    (condition : WorkflowCondition)
    (h : AllAlike f resolver input (conditionOccurrences available item condition))
    (hliterals : ∀ text ∈ conditionLiterals condition, f text = text) :
    evaluateCondition context details depth budget (mapCondition f condition) =
      resolver.evaluateCondition context details depth budget condition := by
  cases condition with
  | eq left right =>
    obtain ⟨hleft, hright⟩ := allAlike_append.mp h
    simp only [conditionLiterals, List.forall_mem_append] at hliterals
    simp only [mapCondition, evaluateCondition, Resolver.evaluateCondition,
      resolveConditionOperand_map details hinput left hleft hliterals.1,
      resolveConditionOperand_map details hinput right hright hliterals.2]
  | isIn left right =>
    obtain ⟨hleft, hright⟩ := allAlike_append.mp h
    simp only [conditionLiterals, List.forall_mem_append] at hliterals
    simp only [mapCondition, evaluateCondition,
      resolveConditionOperand_map details hinput left hleft hliterals.1,
      resolveConditionOperand_map details hinput right hright hliterals.2]
    rfl
  | all conditions | any conditions =>
    simp only [mapCondition, evaluateCondition, Resolver.evaluateCondition, length_mapConditions,
      fun budget => evaluateConditions_map hinput (depth + 1) budget conditions h hliterals]
  | not condition =>
    simp only [mapCondition, evaluateCondition, Resolver.evaluateCondition,
      fun budget => evaluateCondition_map hinput (depth + 1) budget condition h hliterals]

theorem evaluateConditions_map (hinput : context.input = input) (depth budget : ℕ)
    (conditions : List WorkflowCondition)
    (h : AllAlike f resolver input (conditionsOccurrences available item conditions))
    (hliterals : ∀ text ∈ conditionsLiterals conditions, f text = text) :
    evaluateConditions context details depth budget (mapConditions f conditions) =
      resolver.evaluateConditions context details depth budget conditions := by
  cases conditions with
  | nil => rfl
  | cons condition rest =>
    obtain ⟨hfirst, hrest⟩ := allAlike_append.mp h
    simp only [conditionsLiterals, List.forall_mem_append] at hliterals
    simp only [mapConditions, evaluateConditions, Resolver.evaluateConditions,
      fun budget => evaluateCondition_map hinput depth budget condition hfirst hliterals.1,
      fun budget => evaluateConditions_map hinput depth budget rest hrest hliterals.2]

end

theorem evaluateBranchCondition_map (hinput : context.input = input) (condition : BranchCondition)
    (h : AllAlike f resolver input (branchOccurrences available item condition))
    (hliterals : ∀ text ∈ branchLiterals condition, f text = text) :
    evaluateBranchCondition context details (mapBranchCondition f condition) =
      resolver.evaluateBranchCondition context details condition := by
  cases condition with
  | reference value =>
    have hvalue := resolveRequiredReference_map details hinput (h _ (List.mem_singleton_self _))
    simp only [mapBranchCondition, evaluateBranchCondition, Resolver.evaluateBranchCondition,
      hvalue]
  | structured bounded =>
    simp only [mapBranchCondition, mapBounded, evaluateBranchCondition,
      Resolver.evaluateBranchCondition,
      evaluateCondition_map details hinput _ _ bounded.condition h hliterals]

end Conditions

/-! Steps. -/

theorem mapItems_map (hinput : context.input = input) {expression : String}
    (h : ResolvedAlike f resolver input expression) (items : List Json) :
    mapItems context details (f expression) items =
      resolver.mapItems context details expression items := by
  induction items with
  | nil => rfl
  | cons item rest ih =>
    have hitem : ({ context with item := some item } : Context).input = input := hinput
    simp only [mapItems, Resolver.mapItems, resolveRequiredReference_map details hitem h, ih]

theorem filterItems_map (hinput : context.input = input) {condition : String}
    (h : ResolvedAlike f resolver input condition) (items : List Json) :
    filterItems context details (f condition) items =
      resolver.filterItems context details condition items := by
  induction items with
  | nil => rfl
  | cons item rest ih =>
    have hitem : ({ context with item := some item } : Context).input = input := hinput
    simp only [filterItems, Resolver.filterItems, resolveRequiredReference_map details hitem h, ih]

theorem map_of_fixed {id : Option String} (h : ∀ text ∈ id.toList, f text = text) :
    id.map f = id := by
  cases id with
  | none => rfl
  | some text => rw [Option.map_some, h text (by simp)]

theorem list_map_of_fixed {fields : List String} (h : ∀ text ∈ fields, f text = text) :
    fields.map f = fields := by
  rw [List.map_congr_left h, List.map_id']

end Alike

section Runs
variable {f : String → String} {resolver : Resolver} {input : Json} {Q R : Type}
  (engine : Engine Q R)

theorem runCall_map {context : Context} (hinput : context.input = input) (position : List ℕ)
    (id : Option String) (operation : String) (arguments : Fields)
    (h : ∀ text ∈ textsOfFields arguments, ResolvedAlike f resolver input text) :
    runCall engine context position id operation (mapTextFields f arguments) =
      resolver.runCall engine context position id operation arguments := by
  simp only [runCall, prepareCall, resolveFields_map _ hinput arguments h]
  rfl

mutual

/-- A mapped step runs as the step itself does, if the texts that stand for themselves are fixed
and all others are resolved alike. -/
theorem runStep_map {available : List String} {item : Bool} {context : Context}
    (hinput : context.input = input) (position : List ℕ) (step : WorkflowStep)
    (h : AllAlike f resolver input (stepOccurrences available item step))
    (hliterals : ∀ text ∈ stepLiterals step, f text = text) :
    runStep engine context position (mapStep f step) =
      resolver.runStep engine context position step := by
  cases step with
  | call id operation arguments =>
    simp only [stepLiterals, List.forall_mem_append, List.forall_mem_singleton] at hliterals
    simp only [mapStep, runStep, Resolver.runStep, map_of_fixed hliterals.1, hliterals.2]
    exact runCall_map engine hinput position id operation arguments
      (allAlike_valueOccurrences.mp h)
  | pick id value fields =>
    simp only [stepLiterals, List.forall_mem_append] at hliterals
    simp only [mapStep, runStep, Resolver.runStep, map_of_fixed hliterals.1,
      list_map_of_fixed hliterals.2, pick, Resolver.pick,
      resolveValue_map _ hinput value (allAlike_valueOccurrences.mp h)]
  | map id items expression maxItems =>
    obtain ⟨hexpression, hitems⟩ := allAlike_cons.mp h
    simp only [mapStep, runStep, Resolver.runStep, map_of_fixed hliterals, resolveItemsBounded,
      Resolver.resolveItemsBounded, resolveValue_map _ hinput items
      (allAlike_valueOccurrences.mp hitems), fun details =>
        funext (mapItems_map details hinput hexpression)]
  | filter id items condition maxItems =>
    obtain ⟨hcondition, hitems⟩ := allAlike_cons.mp h
    simp only [mapStep, runStep, Resolver.runStep, map_of_fixed hliterals, resolveItemsBounded,
      Resolver.resolveItemsBounded, resolveValue_map _ hinput items
      (allAlike_valueOccurrences.mp hitems), fun details =>
        funext (filterItems_map details hinput hcondition)]
  | assert id condition message =>
    simp only [stepLiterals, List.forall_mem_append] at hliterals
    simp only [mapStep, runStep, Resolver.runStep, map_of_fixed hliterals.1, assertion,
      Resolver.assertion, resolveRequiredReference_map _ hinput (allAlike_cons.mp h).1]
  | redact id value fields =>
    simp only [stepLiterals, List.forall_mem_append] at hliterals
    simp only [mapStep, runStep, Resolver.runStep, map_of_fixed hliterals.1,
      list_map_of_fixed hliterals.2, redact, Resolver.redact,
      resolveValue_map _ hinput value (allAlike_valueOccurrences.mp h)]
  | branch id condition thenSteps elseSteps =>
    simp only [stepLiterals, List.forall_mem_append] at hliterals
    obtain ⟨hid, hcondition, hthen, helse⟩ := hliterals
    obtain ⟨hreferences, hsteps⟩ := allAlike_append.mp h
    obtain ⟨hthenSteps, helseSteps⟩ := allAlike_append.mp hsteps
    simp only [mapStep, runStep, map_of_fixed hid,
      evaluateBranchCondition_map _ hinput condition hreferences hcondition,
      runWorkflow_map hinput _ _ _ thenSteps hthenSteps hthen,
      runWorkflow_map hinput _ _ _ elseSteps helseSteps helse]
    rfl
  | parallel id children =>
    simp only [stepLiterals, List.forall_mem_append] at hliterals
    simp only [mapStep, runStep, Resolver.runStep, map_of_fixed hliterals.1, length_mapSteps,
      runChildren_map hinput position 0 children h hliterals.2]
  | «foreach» id items itemName maxItems workflow =>
    simp only [stepLiterals, List.forall_mem_append, List.forall_mem_cons] at hliterals
    obtain ⟨hitems, hworkflow⟩ := allAlike_append.mp h
    have hruns : ∀ value : Json,
        runWorkflow engine { context with item := some value } (position ++ [0]) 0 .null
            (mapSteps f workflow) =
          resolver.runWorkflow engine { context with item := some value } (position ++ [0]) 0 .null
            workflow := by
      intro value
      have hitem : ({ context with item := some value } : Context).input = input := hinput
      exact runWorkflow_map hitem _ _ _ workflow hworkflow hliterals.2.2
    simp only [mapStep, runStep, map_of_fixed hliterals.1, resolveItemsBounded,
      resolveValue_map _ hinput items (allAlike_valueOccurrences.mp hitems), hruns]
    rfl
  | emit id value =>
    simp only [mapStep, runStep, Resolver.runStep, map_of_fixed hliterals,
      resolveValue_map _ hinput value (allAlike_valueOccurrences.mp h)]

theorem runWorkflow_map {available : List String} {item : Bool} {context : Context}
    (hinput : context.input = input) (position : List ℕ) (index : ℕ) (result : Json)
    (steps : List WorkflowStep)
    (h : AllAlike f resolver input (workflowOccurrences available item steps))
    (hliterals : ∀ text ∈ workflowLiterals steps, f text = text) :
    runWorkflow engine context position index result (mapSteps f steps) =
      resolver.runWorkflow engine context position index result steps := by
  cases steps with
  | nil => rfl
  | cons step rest =>
    simp only [workflowLiterals, List.forall_mem_append] at hliterals
    obtain ⟨hstep, hrest⟩ := allAlike_append.mp h
    have hid : step.id.map f = step.id := by
      refine map_of_fixed fun text htext => hliterals.1 text ?_
      cases step <;> first | exact htext | exact List.mem_append_left _ htext
    have hstored : ∀ result, (context.store step.id result).input = input := by
      intro result
      cases hstepId : step.id <;> simpa [Context.store] using hinput
    simp only [mapSteps, runWorkflow, Resolver.runWorkflow, mapStep_id, hid,
      runStep_map hinput _ step hstep hliterals.1,
      fun result => runWorkflow_map (hstored result) position (index + 1) result rest hrest
        hliterals.2]

theorem runChildren_map {available : List String} {item : Bool} {context : Context}
    (hinput : context.input = input) (position : List ℕ) (index : ℕ)
    (children : List WorkflowStep)
    (h : AllAlike f resolver input (childrenOccurrences available item children))
    (hliterals : ∀ text ∈ workflowLiterals children, f text = text) :
    runChildren engine context position index (mapSteps f children) =
      resolver.runChildren engine context position index children := by
  cases children with
  | nil => rfl
  | cons child rest =>
    simp only [workflowLiterals, List.forall_mem_append] at hliterals
    obtain ⟨hchild, hrest⟩ := allAlike_append.mp h
    simp only [mapSteps, runChildren, Resolver.runChildren,
      runStep_map hinput _ child hchild hliterals.1,
      runChildren_map hinput position (index + 1) rest hrest hliterals.2]

end
end Runs

/-! The sealed record. -/

def sealedRecord (execution : ActionCommitExecution) : Json :=
  .obj [("input", execution.inputValue), ("preview", execution.previewValue)]

/-- What follows `$.prepared` is resolved in the record. A commit has no other input. -/
def preparedResolver (record : Json) : Resolver where
  reference? := matchReference ["item", "prepared"]
  find context
    | .root root path =>
      if root = "prepared" then resolvePath record path
      else resolveReference context (.root root path)
    | .step id path => resolveReference context (.step id path)

theorem rewriteText_eq_self_iff {text : String} :
    rewriteText text = text ↔ Text.hasPrefix "$.prepared." text = false := by
  unfold rewriteText Text.dropPrefix? Text.hasPrefix
  by_cases hprefixed : "$.prepared.".toList.isPrefixOf text.toList = true
  · obtain ⟨rest, hrest⟩ := List.isPrefixOf_iff_prefix.mp hprefixed
    simp only [hprefixed, if_true, Bool.true_eq_false, iff_false]
    rw [← hrest, List.drop_left, ← String.toList_inj, String.toList_ofList, ← hrest]
    intro hsame
    have hlength := congrArg List.length hsame
    simp only [List.length_append] at hlength
    have hlonger : "$.prepared.".toList.length < "$.input.prepared.".toList.length := by decide
    omega
  · rw [if_neg hprefixed]
    exact iff_of_true rfl (Bool.eq_false_iff.mpr hprefixed)

/-- What the compiler accepts in a commit workflow is resolved in the sealed record. -/
theorem resolvedAlike_of_accepted {x : Occurrence} (execution : ActionCommitExecution)
    (h : Compiler.Accepted false true x)
    (hprepared : mentionsPrepared x.text = true → isPreparedReference x.text = true) :
    ResolvedAlike rewriteText (preparedResolver (sealedRecord execution))
      (preparedInput execution) x.text := by
  unfold Compiler.Accepted compilerReference? at h
  cases hmatch : matchReference ["input", "item", "prepared"] x.text with
  | none =>
    simp only [hmatch] at h
    have hplain : Text.hasPrefix "$" x.text = false := by
      have hdynamic := h.2
      simp only [looksDynamic, Bool.or_eq_false_iff] at hdynamic
      exact hdynamic.1.1
    have hstatic : ∀ roots, matchReference roots x.text = none := by
      intro roots
      cases hreference : matchReference roots x.text with
      | none => rfl
      | some reference =>
        have hdynamic := looksDynamic_of_matchReference hreference
        simp [hdynamic] at h
    have hfixed := rewriteText_of_static hplain
    exact .inr ⟨by rw [hfixed]; exact hstatic _, hstatic _, hfixed⟩
  | some reference =>
    simp only [hmatch] at h
    obtain ⟨hwritten, htokens⟩ := written_of_matchTokens hmatch
    have hexecutor : ∀ other : Reference, rewriteTokens reference.tokens = other.tokens →
        other.Written ["input", "item"] → executorReference? (rewriteText x.text) = some other := by
      intro other hother hknown
      unfold executorReference? matchReference
      rw [split_rewriteText, htokens, hother]
      exact matchTokens_tokens hknown
    have hresolver : reference.Written ["item", "prepared"] →
        matchReference ["item", "prepared"] x.text = some reference := by
      intro hknown
      unfold matchReference
      rw [htokens]
      exact matchTokens_tokens hknown
    cases reference with
    | root root path =>
      obtain ⟨hroot, hpath⟩ := hwritten
      simp only [List.mem_cons, List.not_mem_nil, or_false] at hroot
      rcases hroot with rfl | rfl | rfl
      · simpa using h.2.1 rfl
      · exact .inl ⟨_, _, hexecutor (.root "item" path) rfl ⟨by simp, hpath⟩,
          hresolver ⟨by simp, hpath⟩, fun _ _ => rfl⟩
      · cases path with
        | nil =>
          have htext : x.text = "$.prepared" := by
            have hchars := Text.toList_of_split htokens
            rw [← String.toList_inj, hchars]
            decide
          have hreference := hprepared (by rw [htext]; decide)
          rw [htext] at hreference
          exact absurd hreference (by decide)
        | cons first rest =>
          refine .inl ⟨_, _, hexecutor (.root "input" ("prepared" :: first :: rest)) rfl
            ⟨by simp, List.forall_mem_cons.mpr ⟨by decide, hpath⟩⟩,
            hresolver ⟨by simp, hpath⟩, fun context hinput => ?_⟩
          simp only [resolveReference, if_true, hinput, preparedResolver]
          rfl
    | step id path =>
      exact .inl ⟨_, _, hexecutor (.step id path) rfl ⟨by simp, hwritten.2⟩,
        hresolver ⟨by simp, hwritten.2⟩, fun _ _ => rfl⟩

/-! The branches of a workflow are among its texts. -/

mutual

theorem branch_of_step {condition : BranchCondition} (available : List String) (item : Bool)
    (step : WorkflowStep) (h : condition ∈ stepBranches step) :
    ∃ inner inItem,
      branchOccurrences inner inItem condition ⊆ stepOccurrences available item step ∧
        branchLiterals condition ⊆ stepLiterals step := by
  cases step with
  | branch id outer thenSteps elseSteps =>
    rcases List.mem_cons.mp h with rfl | h
    · refine ⟨available, item, List.subset_append_left _ _, ?_⟩
      exact List.subset_append_of_subset_right _ (List.subset_append_left _ _)
    · have hsteps : ∀ {inner inItem},
          branchOccurrences inner inItem condition ⊆ workflowOccurrences available item thenSteps ∨
            branchOccurrences inner inItem condition ⊆
              workflowOccurrences available item elseSteps →
          branchOccurrences inner inItem condition ⊆
            stepOccurrences available item (.branch id outer thenSteps elseSteps) := by
        intro inner inItem hsub x hx
        refine List.mem_append_right _ (List.mem_append.mpr ?_)
        exact hsub.imp (fun hthen => hthen hx) fun helse => helse hx
      rcases List.mem_append.mp h with hthen | helse
      · obtain ⟨inner, inItem, hsub, hliterals⟩ := branch_of_workflow available item thenSteps hthen
        refine ⟨inner, inItem, hsteps (.inl hsub), fun text htext => ?_⟩
        exact List.mem_append_right _ (List.mem_append_right _
          (List.mem_append_left _ (hliterals htext)))
      · obtain ⟨inner, inItem, hsub, hliterals⟩ := branch_of_workflow available item elseSteps helse
        refine ⟨inner, inItem, hsteps (.inr hsub), fun text htext => ?_⟩
        exact List.mem_append_right _ (List.mem_append_right _
          (List.mem_append_right _ (hliterals htext)))
  | parallel id children =>
    obtain ⟨inner, inItem, hsub, hliterals⟩ :=
      branch_of_children available item children h
    exact ⟨inner, inItem, hsub, List.subset_append_of_subset_right _ hliterals⟩
  | «foreach» id items itemName maxItems workflow =>
    obtain ⟨inner, inItem, hsub, hliterals⟩ :=
      branch_of_workflow available true workflow h
    refine ⟨inner, inItem, List.subset_append_of_subset_right _ hsub, fun text htext => ?_⟩
    exact List.mem_append_right _ (List.mem_cons_of_mem _ (hliterals htext))
  | _ => exact absurd h List.not_mem_nil

theorem branch_of_workflow {condition : BranchCondition} (available : List String) (item : Bool)
    (steps : List WorkflowStep) (h : condition ∈ workflowBranches steps) :
    ∃ inner inItem,
      branchOccurrences inner inItem condition ⊆ workflowOccurrences available item steps ∧
        branchLiterals condition ⊆ workflowLiterals steps := by
  cases steps with
  | nil => exact absurd h List.not_mem_nil
  | cons step rest =>
    rcases List.mem_append.mp h with hstep | hrest
    · obtain ⟨inner, inItem, hsub, hliterals⟩ := branch_of_step available item step hstep
      exact ⟨inner, inItem, List.subset_append_of_subset_left _ hsub,
        List.subset_append_of_subset_left _ hliterals⟩
    · obtain ⟨inner, inItem, hsub, hliterals⟩ := branch_of_workflow (step.id.toList ++ available) item rest hrest
      exact ⟨inner, inItem, List.subset_append_of_subset_right _ hsub,
        List.subset_append_of_subset_right _ hliterals⟩

theorem branch_of_children {condition : BranchCondition} (available : List String) (item : Bool)
    (children : List WorkflowStep) (h : condition ∈ workflowBranches children) :
    ∃ inner inItem,
      branchOccurrences inner inItem condition ⊆ childrenOccurrences available item children ∧
        branchLiterals condition ⊆ workflowLiterals children := by
  cases children with
  | nil => exact absurd h List.not_mem_nil
  | cons child rest =>
    rcases List.mem_append.mp h with hchild | hrest
    · obtain ⟨inner, inItem, hsub, hliterals⟩ := branch_of_step available item child hchild
      exact ⟨inner, inItem, List.subset_append_of_subset_left _ hsub,
        List.subset_append_of_subset_left _ hliterals⟩
    · obtain ⟨inner, inItem, hsub, hliterals⟩ := branch_of_children available item rest hrest
      exact ⟨inner, inItem, List.subset_append_of_subset_right _ hsub,
        List.subset_append_of_subset_right _ hliterals⟩

end

/-! The preservation of meaning. -/

/-- The commit workflow itself, executed on the sealed record. -/
def sealedDefinition (capability : ActionCapability) : CapabilityDefinition :=
  ⟨preparedInputSchema capability.inputSchema, capability.outputSchema, capability.commitWorkflow⟩

/-- Rewriting the prepared references changes no execution, no branch and no literal. -/
structure MeaningPreserved (capability : ActionCapability) : Prop where
  executions : ∀ {Q R : Type} (engine : Engine Q R) (execution : ActionCommitExecution),
    execute engine (commitDefinition capability) (preparedInput execution) =
      (preparedResolver (sealedRecord execution)).execute engine (sealedDefinition capability)
        (preparedInput execution)
  branches : ∀ condition ∈ workflowBranches capability.commitWorkflow,
    ∀ (execution : ActionCommitExecution) (context : Context) (details : Fields),
      context.input = preparedInput execution →
        evaluateBranchCondition context details (mapBranchCondition rewriteText condition) =
          (preparedResolver (sealedRecord execution)).evaluateBranchCondition context details
            condition
  literals : workflowLiterals (rewritePrepared capability.commitWorkflow) =
    workflowLiterals capability.commitWorkflow

theorem isEmit_mapStep {f : String → String} (step : WorkflowStep) :
    (mapStep f step).isEmit = step.isEmit := by
  cases step <;> rfl

theorem getLast?_mapSteps {f : String → String} (steps : List WorkflowStep) :
    (mapSteps f steps).getLast? = steps.getLast?.map (mapStep f) := by
  have hmap : mapSteps f steps = steps.map (mapStep f) := by
    induction steps with
    | nil => rfl
    | cons step rest ih => rw [mapSteps, List.map_cons, ih]
  rw [hmap, List.getLast?_map]

section Preservation
variable {isValid : Json → Json → Bool} {capability : ActionCapability} {operations : Operations}
  {actionSemantics : List (String × ActionSemantics)}
  {policies : List (String × Policies.Policy)} {targets : List (String × String)}

theorem allAlike_of_compiled (h : errorFree (compileActionCapability isValid capability operations
      actionSemantics policies targets).2 = true) (execution : ActionCommitExecution) :
    AllAlike rewriteText (preparedResolver (sealedRecord execution)) (preparedInput execution)
      (workflowOccurrences [] false capability.commitWorkflow) := by
  obtain ⟨hproved, -, hcommit⟩ := accepted_of_compileActionCapability h
  intro x hx
  exact resolvedAlike_of_accepted execution (hcommit x hx)
    (hproved.commitPrepared x.text (text_mem_of_workflowOccurrences _ hx))

/-- Rewriting preserves the meaning of an accepted commit workflow exactly if none of its literal
texts starts as a prepared reference does. -/
theorem meaningPreserved_iff (isValid : Json → Json → Bool) (capability : ActionCapability)
    (operations : Operations) (actionSemantics : List (String × ActionSemantics))
    (policies : List (String × Policies.Policy)) (targets : List (String × String))
    (h : errorFree (compileActionCapability isValid capability operations actionSemantics policies
      targets).2 = true) :
    MeaningPreserved capability ↔
      ∀ text ∈ workflowLiterals capability.commitWorkflow,
        Text.hasPrefix "$.prepared." text = false := by
  have hmapped := workflowLiterals_map rewriteText capability.commitWorkflow
  constructor
  · intro hpreserved text htext
    have hsame : (workflowLiterals capability.commitWorkflow).map rewriteText =
        (workflowLiterals capability.commitWorkflow).map id := by
      rw [List.map_id, ← hmapped]
      exact hpreserved.literals
    exact rewriteText_eq_self_iff.mp (List.map_inj_left.mp hsame text htext)
  · intro hplain
    have hliterals : ∀ text ∈ workflowLiterals capability.commitWorkflow, rewriteText text = text :=
      fun text htext => rewriteText_eq_self_iff.mpr (hplain text htext)
    refine ⟨fun engine execution => ?_, fun condition hcondition execution context details hinput =>
      ?_, by rw [rewritePrepared, hmapped, list_map_of_fixed hliterals]⟩
    · have hstart : (⟨preparedInput execution, [], none⟩ : Context).input =
          preparedInput execution := rfl
      have hrun := runWorkflow_map engine hstart [] 0 .null capability.commitWorkflow
        (allAlike_of_compiled h execution) hliterals
      have hlast : ((rewritePrepared capability.commitWorkflow).getLast?.map WorkflowStep.isEmit) =
          capability.commitWorkflow.getLast?.map WorkflowStep.isEmit := by
        rw [rewritePrepared, getLast?_mapSteps, Option.map_map]
        congr 1
        funext step
        exact isEmit_mapStep step
      simp only [execute, Resolver.execute, commitDefinition, sealedDefinition, hlast]
      rw [rewritePrepared, hrun]
      rfl
    · obtain ⟨inner, inItem, hsub, hincluded⟩ :=
        branch_of_workflow [] false capability.commitWorkflow hcondition
      exact evaluateBranchCondition_map details hinput condition
        (fun x hx => allAlike_of_compiled h execution x (hsub hx))
        fun text htext => hliterals text (hincluded htext)

end Preservation

theorem meaningPreserved_iff_copied :
    errorFree (compileActionCapability (fun _ _ => true) copyOrderCapability orderOperations []
      [("orders", orderPolicy)] []).2 = true ∧ MeaningPreserved copyOrderCapability :=
  ⟨by decide, (meaningPreserved_iff (fun _ _ => true) copyOrderCapability orderOperations []
    [("orders", orderPolicy)] [] (by decide)).mpr (by decide)⟩

/-! A field name that looks like a prepared reference. -/

/-- The copy shows one field of its result. -/
def pickedCapability : ActionCapability :=
  { copyOrderCapability with
    commitWorkflow :=
      [.call (some "copy") "copy-order" [("id", .str "$.prepared.input.id")],
        .pick (some "field") (.str "$.steps.copy") ["$.prepared.input.id"],
        .emit none (.str "$.steps.field")] }

def pickedEngine : Engine CallRequest Reply :=
  workflowExecutor anySchema ⟨false, false⟩ orderOperations "copy-order"

def pickedReply : Reply := .value (.obj [("$.prepared.input.id", .int 7)])

/-- The rewritten workflow picks another field than the workflow does. -/
theorem pick_rewritten :
    errorFree (compileActionCapability (fun _ _ => true) pickedCapability orderOperations []
      [("orders", orderPolicy)] []).2 = true ∧
      (Process.feed [pickedReply] (execute pickedEngine (commitDefinition pickedCapability)
        (preparedInput preparedCopy))).2 = .done (.obj []) ∧
      (Process.feed [pickedReply] ((preparedResolver (sealedRecord preparedCopy)).execute
        pickedEngine (sealedDefinition pickedCapability) (preparedInput preparedCopy))).2 =
          .done (.obj [("$.prepared.input.id", .int 7)]) :=
  ⟨by decide, rfl, rfl⟩

end CapabilityCompiler.Actions
