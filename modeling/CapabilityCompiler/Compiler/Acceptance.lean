import CapabilityCompiler.Compiler.Ir

/-! What an accepted workflow says about its texts: each one is listed with the step identifiers
and the item it may refer to. -/
namespace CapabilityCompiler.Compiler
open Foundation Models

/-! The texts of a document. -/

mutual

def texts : Json → List String
  | .str value => [value]
  | .arr items => textsOfItems items
  | .obj fields => textsOfFields fields
  | _ => []

def textsOfItems : List Json → List String
  | [] => []
  | item :: rest => texts item ++ textsOfItems rest

def textsOfFields : Fields → List String
  | [] => []
  | (_, item) :: rest => texts item ++ textsOfFields rest

end

mutual

theorem walkStrings_fst (pointer : String) (value : Json) :
    (walkStrings pointer value).map Prod.fst = texts value := by
  cases value with
  | arr items => exact walkItems_fst pointer 0 items
  | obj fields => exact walkFields_fst pointer fields
  | _ => rfl

theorem walkItems_fst (pointer : String) (index : ℕ) (items : List Json) :
    (walkItems pointer index items).map Prod.fst = textsOfItems items := by
  cases items with
  | nil => rfl
  | cons item rest =>
    rw [walkItems, List.map_append, walkStrings_fst _ item, walkItems_fst _ _ rest, textsOfItems]

theorem walkFields_fst (pointer : String) (fields : Fields) :
    (walkFields pointer fields).map Prod.fst = textsOfFields fields := by
  cases fields with
  | nil => rfl
  | cons field rest =>
    rw [walkFields, List.map_append, walkStrings_fst _ field.2, walkFields_fst _ rest, textsOfFields]

end

/-! Occurrences. -/

/-- A text of a workflow that is resolved, and what it may refer to there. -/
structure Occurrence where
  text : String
  required : Bool
  available : List String
  item : Bool

def valueOccurrences (available : List String) (item : Bool) (value : Json) : List Occurrence :=
  (texts value).map fun text => ⟨text, false, available, item⟩

def operandOccurrences (available : List String) (item : Bool) :
    WorkflowConditionOperand → List Occurrence
  | .reference value => [⟨value, true, available, item⟩]
  | .literal _ => []

mutual

def conditionOccurrences (available : List String) (item : Bool) :
    WorkflowCondition → List Occurrence
  | .eq left right =>
    operandOccurrences available item left ++ operandOccurrences available item right
  | .isIn left right =>
    operandOccurrences available item left ++ operandOccurrences available item right
  | .all conditions | .any conditions => conditionsOccurrences available item conditions
  | .not condition => conditionOccurrences available item condition

def conditionsOccurrences (available : List String) (item : Bool) :
    List WorkflowCondition → List Occurrence
  | [] => []
  | condition :: rest =>
    conditionOccurrences available item condition ++ conditionsOccurrences available item rest

end

def branchOccurrences (available : List String) (item : Bool) : BranchCondition → List Occurrence
  | .reference value => [⟨value, true, available, item⟩]
  | .structured bounded => conditionOccurrences available item bounded.condition

mutual

def stepOccurrences (available : List String) (item : Bool) : WorkflowStep → List Occurrence
  | .call _ _ arguments => valueOccurrences available item (.obj arguments)
  | .pick _ value _ | .redact _ value _ | .emit _ value => valueOccurrences available item value
  | .map _ items expression _ =>
    ⟨expression, true, available, true⟩ :: valueOccurrences available item items
  | .filter _ items condition _ =>
    ⟨condition, true, available, true⟩ :: valueOccurrences available item items
  | .assert _ condition _ => [⟨condition, true, available, item⟩]
  | .branch _ condition thenSteps elseSteps =>
    branchOccurrences available item condition ++
      (workflowOccurrences available item thenSteps ++ workflowOccurrences available item elseSteps)
  | .parallel _ children => childrenOccurrences available item children
  | .foreach _ items _ _ workflow =>
    valueOccurrences available item items ++ workflowOccurrences available true workflow

def workflowOccurrences (available : List String) (item : Bool) :
    List WorkflowStep → List Occurrence
  | [] => []
  | step :: rest =>
    stepOccurrences available item step ++
      workflowOccurrences (step.id.toList ++ available) item rest

def childrenOccurrences (available : List String) (item : Bool) :
    List WorkflowStep → List Occurrence
  | [] => []
  | child :: rest => stepOccurrences available item child ++ childrenOccurrences available item rest

end

/-! Every occurrence is a text of the dumped workflow. -/

section Dumped
variable (available : List String) (item : Bool)

theorem text_mem_of_valueOccurrences {x : Occurrence} {value : Json}
    (h : x ∈ valueOccurrences available item value) : x.text ∈ texts value := by
  obtain ⟨text, htext, rfl⟩ := List.mem_map.mp h
  exact htext

theorem text_mem_of_operandOccurrences {x : Occurrence} {operand : WorkflowConditionOperand}
    (h : x ∈ operandOccurrences available item operand) : x.text ∈ texts operand.dump := by
  cases operand with
  | reference value =>
    obtain rfl := List.mem_singleton.mp h
    simp [WorkflowConditionOperand.dump, texts, textsOfFields]
  | literal value => exact absurd h List.not_mem_nil

mutual

theorem text_mem_of_conditionOccurrences {x : Occurrence} (condition : WorkflowCondition)
    (h : x ∈ conditionOccurrences available item condition) : x.text ∈ texts condition.dump := by
  cases condition with
  | eq left right | isIn left right =>
    have hoperand := (List.mem_append.mp h).imp (text_mem_of_operandOccurrences available item)
      (text_mem_of_operandOccurrences available item)
    simp [WorkflowCondition.dump, texts, textsOfFields, hoperand]
  | all conditions | any conditions =>
    have hinner := text_mem_of_conditionsOccurrences conditions h
    simp [WorkflowCondition.dump, texts, textsOfFields, hinner]
  | not condition =>
    have hinner := text_mem_of_conditionOccurrences condition h
    simp [WorkflowCondition.dump, texts, textsOfFields, hinner]

theorem text_mem_of_conditionsOccurrences {x : Occurrence} (conditions : List WorkflowCondition)
    (h : x ∈ conditionsOccurrences available item conditions) :
    x.text ∈ textsOfItems (dumpConditions conditions) := by
  cases conditions with
  | nil => exact absurd h List.not_mem_nil
  | cons condition rest =>
    exact List.mem_append.mpr ((List.mem_append.mp h).imp
      (text_mem_of_conditionOccurrences condition) (text_mem_of_conditionsOccurrences rest))

end

theorem text_mem_of_branchOccurrences {x : Occurrence} (condition : BranchCondition)
    (h : x ∈ branchOccurrences available item condition) : x.text ∈ texts condition.dump := by
  cases condition with
  | reference value =>
    obtain rfl := List.mem_singleton.mp h
    simp [BranchCondition.dump, texts]
  | structured bounded => exact text_mem_of_conditionOccurrences available item bounded.condition h

end Dumped

mutual

theorem text_mem_of_stepOccurrences {available : List String} {item : Bool} {x : Occurrence}
    (step : WorkflowStep) (h : x ∈ stepOccurrences available item step) :
    x.text ∈ texts step.dump := by
  cases step with
  | call id operation arguments =>
    have hvalue := text_mem_of_valueOccurrences available item h
    simp only [texts] at hvalue
    simp [WorkflowStep.dump, texts, textsOfFields, hvalue]
  | pick id value fields | redact id value fields | emit id value =>
    have hvalue := text_mem_of_valueOccurrences available item h
    simp [WorkflowStep.dump, texts, textsOfFields, hvalue]
  | map id items expression maxItems | filter id items expression maxItems =>
    rcases List.mem_cons.mp h with rfl | h
    · simp [WorkflowStep.dump, texts, textsOfFields]
    · have hvalue := text_mem_of_valueOccurrences available item h
      simp [WorkflowStep.dump, texts, textsOfFields, hvalue]
  | assert id condition message =>
    obtain rfl := List.mem_singleton.mp h
    simp [WorkflowStep.dump, texts, textsOfFields]
  | branch id condition thenSteps elseSteps =>
    have hinner : x.text ∈ texts condition.dump ∨ x.text ∈ textsOfItems (dumpWorkflow thenSteps) ∨
        x.text ∈ textsOfItems (dumpWorkflow elseSteps) :=
      (List.mem_append.mp h).imp (text_mem_of_branchOccurrences available item condition)
        fun hsteps => (List.mem_append.mp hsteps).imp (text_mem_of_workflowOccurrences thenSteps)
          (text_mem_of_workflowOccurrences elseSteps)
    simp [WorkflowStep.dump, texts, textsOfFields, hinner]
  | parallel id children =>
    have hinner := text_mem_of_childrenOccurrences children h
    simp [WorkflowStep.dump, texts, textsOfFields, hinner]
  | «foreach» id items itemName maxItems workflow =>
    have hinner : x.text ∈ texts items ∨ x.text ∈ textsOfItems (dumpWorkflow workflow) :=
      (List.mem_append.mp h).imp (text_mem_of_valueOccurrences available item)
        (text_mem_of_workflowOccurrences workflow)
    rcases hinner with hinner | hinner <;>
      simp [WorkflowStep.dump, texts, textsOfFields, hinner]

theorem text_mem_of_workflowOccurrences {available : List String} {item : Bool} {x : Occurrence}
    (steps : List WorkflowStep) (h : x ∈ workflowOccurrences available item steps) :
    x.text ∈ textsOfItems (dumpWorkflow steps) := by
  cases steps with
  | nil => exact absurd h List.not_mem_nil
  | cons step rest =>
    exact List.mem_append.mpr ((List.mem_append.mp h).imp (text_mem_of_stepOccurrences step)
      (text_mem_of_workflowOccurrences rest))

theorem text_mem_of_childrenOccurrences {available : List String} {item : Bool} {x : Occurrence}
    (children : List WorkflowStep) (h : x ∈ childrenOccurrences available item children) :
    x.text ∈ textsOfItems (dumpWorkflow children) := by
  cases children with
  | nil => exact absurd h List.not_mem_nil
  | cons child rest =>
    exact List.mem_append.mpr ((List.mem_append.mp h).imp (text_mem_of_stepOccurrences child)
      (text_mem_of_childrenOccurrences rest))

end

/-- The compiler has no complaint about a text. -/
def Accepted (allowInput allowPrepared : Bool) (x : Occurrence) : Prop :=
  match compilerReference? x.text with
  | none => x.required = false ∧ looksDynamic x.text = false
  | some (.root root _) =>
    (root = "item" → x.item = true) ∧ (root = "input" → allowInput = true) ∧
      (root = "prepared" → allowPrepared = true)
  | some (.step id _) => id ∈ x.available

/-- A reported diagnostic is an error. -/
theorem not_errorFree_diagnostic {location : Location} {code message : String} :
    ¬errorFree [location.diagnostic code message] = true := by
  rw [errorFree_singleton rfl]
  exact Bool.false_ne_true

theorem accepted_of_validateReference {scope : Scope} {required : Bool} {location : Location}
    {value : String} (h : errorFree (validateReference scope required location value) = true) :
    Accepted scope.allowInput scope.allowPrepared
      ⟨value, required, scope.availableSteps, scope.allowItem⟩ := by
  unfold validateReference at h
  unfold Accepted
  cases hmatch : compilerReference? value with
  | none =>
    simp only [hmatch] at h ⊢
    split_ifs at h with hplain
    · exact absurd h not_errorFree_diagnostic
    · simpa using hplain
  | some reference =>
    cases reference with
    | root root path =>
      simp only [hmatch] at h ⊢
      split_ifs at h with hitem hinput hprepared
      · exact absurd h not_errorFree_diagnostic
      · exact absurd h not_errorFree_diagnostic
      · exact absurd h not_errorFree_diagnostic
      · simp only [Bool.and_eq_true, decide_eq_true_eq, Bool.not_eq_true', not_and,
          Bool.not_eq_false] at hitem hinput hprepared
        exact ⟨hitem, hinput, hprepared⟩
    | step id path =>
      simp only [hmatch] at h ⊢
      split_ifs at h with hprior
      · exact hprior
      · exact absurd h not_errorFree_diagnostic

/-! Every occurrence of a workflow without diagnostics is accepted. -/

section Accepted
variable {allowInput allowPrepared : Bool}

/-- Every occurrence is accepted by the scopes of one phase. -/
def AllAccepted (allowInput allowPrepared : Bool) (occurrences : List Occurrence) : Prop :=
  ∀ x ∈ occurrences, Accepted allowInput allowPrepared x

theorem AllAccepted.append {xs ys : List Occurrence} (hxs : AllAccepted allowInput allowPrepared xs)
    (hys : AllAccepted allowInput allowPrepared ys) :
    AllAccepted allowInput allowPrepared (xs ++ ys) := fun x hx =>
  (List.mem_append.mp hx).elim (hxs x) (hys x)

theorem AllAccepted.cons {x : Occurrence} {xs : List Occurrence}
    (hx : Accepted allowInput allowPrepared x) (hxs : AllAccepted allowInput allowPrepared xs) :
    AllAccepted allowInput allowPrepared (x :: xs) := fun y hy =>
  (List.mem_cons.mp hy).elim (fun h => h ▸ hx) (hxs y)

theorem AllAccepted.single {x : Occurrence} (hx : Accepted allowInput allowPrepared x) :
    AllAccepted allowInput allowPrepared [x] := fun _ hy => List.mem_singleton.mp hy ▸ hx

theorem AllAccepted.nil : AllAccepted allowInput allowPrepared [] := fun _ h =>
  absurd h List.not_mem_nil

variable (available : List String) (item : Bool)

mutual

theorem accepted_of_validateValue {location : Location} (value : Json)
    (h : errorFree (validateValue ⟨available, item, allowInput, allowPrepared⟩ location value) = true) :
    AllAccepted allowInput allowPrepared (valueOccurrences available item value) := by
  cases value with
  | str value => exact .single (accepted_of_validateReference h)
  | arr items => exact accepted_of_validateItems items h
  | obj fields => exact accepted_of_validateFields fields h
  | _ => exact .nil

theorem accepted_of_validateItems {location : Location} {index : ℕ} (items : List Json)
    (h : errorFree (validateItems ⟨available, item, allowInput, allowPrepared⟩ location index items) = true) :
    AllAccepted allowInput allowPrepared (valueOccurrences available item (.arr items)) := by
  cases items with
  | nil => exact .nil
  | cons first rest =>
    obtain ⟨hfirst, hrest⟩ := errorFree_append.mp h
    have hall := (accepted_of_validateValue first hfirst).append
      (accepted_of_validateItems rest hrest)
    simpa [valueOccurrences, texts, textsOfItems] using hall

theorem accepted_of_validateFields {location : Location} (fields : Fields)
    (h : errorFree (validateFields ⟨available, item, allowInput, allowPrepared⟩ location fields) = true) :
    AllAccepted allowInput allowPrepared (valueOccurrences available item (.obj fields)) := by
  cases fields with
  | nil => exact .nil
  | cons field rest =>
    obtain ⟨hfield, hrest⟩ := errorFree_append.mp h
    have hall := (accepted_of_validateValue field.2 hfield).append
      (accepted_of_validateFields rest hrest)
    simpa [valueOccurrences, texts, textsOfFields] using hall

end

theorem accepted_of_validateOperand {location : Location} (operand : WorkflowConditionOperand)
    (h : errorFree (validateOperand ⟨available, item, allowInput, allowPrepared⟩ location operand) = true) :
    AllAccepted allowInput allowPrepared (operandOccurrences available item operand) := by
  cases operand with
  | reference value => exact .single (accepted_of_validateReference h)
  | literal value => exact .nil

mutual

theorem accepted_of_validateCondition {location : Location} (condition : WorkflowCondition)
    (h : errorFree (validateCondition ⟨available, item, allowInput, allowPrepared⟩ location condition) = true) :
    AllAccepted allowInput allowPrepared (conditionOccurrences available item condition) := by
  cases condition with
  | eq left right | isIn left right =>
    obtain ⟨hleft, hright⟩ := errorFree_append.mp h
    exact (accepted_of_validateOperand available item left hleft).append
      (accepted_of_validateOperand available item right hright)
  | all conditions => exact accepted_of_validateConditions conditions h
  | any conditions => exact accepted_of_validateConditions conditions h
  | not condition => exact accepted_of_validateCondition condition h

theorem accepted_of_validateConditions {location : Location} {index : ℕ}
    (conditions : List WorkflowCondition)
    (h : errorFree (validateConditions ⟨available, item, allowInput, allowPrepared⟩ location index
      conditions) = true) :
    AllAccepted allowInput allowPrepared (conditionsOccurrences available item conditions) := by
  cases conditions with
  | nil => exact .nil
  | cons condition rest =>
    obtain ⟨hfirst, hrest⟩ := errorFree_append.mp h
    exact (accepted_of_validateCondition condition hfirst).append
      (accepted_of_validateConditions rest hrest)

end

theorem accepted_of_validateBranchCondition {location : Location} (condition : BranchCondition)
    (h : errorFree (validateBranchCondition ⟨available, item, allowInput, allowPrepared⟩ location
      condition) = true) :
    AllAccepted allowInput allowPrepared (branchOccurrences available item condition) := by
  cases condition with
  | reference value => exact .single (accepted_of_validateReference h)
  | structured bounded => exact accepted_of_validateCondition available item bounded.condition h

end Accepted

/-- No part of a walk without diagnostics has one. -/
theorem Walk.errorFree_andThen {walk : Walk} {next : List String → Walk}
    (h : errorFree (walk.andThen next).diagnostics = true) :
    errorFree walk.diagnostics = true ∧ errorFree (next walk.seen).diagnostics = true :=
  errorFree_append.mp h

section Steps
variable {allowInput allowPrepared : Bool} {catalog : Catalog}

mutual

theorem accepted_of_validateStep {available : List String} {item : Bool} {location : Location}
    {seen : List String} (step : WorkflowStep)
    (h : errorFree (validateStep catalog ⟨available, item, allowInput, allowPrepared⟩ location step
      seen).diagnostics = true) :
    AllAccepted allowInput allowPrepared (stepOccurrences available item step) := by
  cases step with
  | call id operation arguments =>
    obtain ⟨-, hcall⟩ := Walk.errorFree_andThen h
    obtain ⟨-, hvalue⟩ := errorFree_append.mp hcall
    exact accepted_of_validateValue available item (.obj arguments) hvalue
  | pick id value fields =>
    obtain ⟨-, hvalue⟩ := Walk.errorFree_andThen h
    exact accepted_of_validateValue available item value hvalue
  | map id items expression maxItems =>
    obtain ⟨-, hvalues⟩ := Walk.errorFree_andThen h
    obtain ⟨hitems, hexpression⟩ := errorFree_append.mp hvalues
    exact .cons (accepted_of_validateReference hexpression)
      (accepted_of_validateValue available item items hitems)
  | filter id items condition maxItems =>
    obtain ⟨-, hvalues⟩ := Walk.errorFree_andThen h
    obtain ⟨hitems, hcondition⟩ := errorFree_append.mp hvalues
    exact .cons (accepted_of_validateReference hcondition)
      (accepted_of_validateValue available item items hitems)
  | assert id condition message =>
    obtain ⟨-, hcondition⟩ := Walk.errorFree_andThen h
    exact .single (accepted_of_validateReference hcondition)
  | redact id value fields =>
    obtain ⟨-, hvalue⟩ := Walk.errorFree_andThen h
    exact accepted_of_validateValue available item value hvalue
  | branch id condition thenSteps elseSteps =>
    obtain ⟨hcondition, hsteps⟩ := Walk.errorFree_andThen h
    obtain ⟨-, hcondition⟩ := Walk.errorFree_andThen hcondition
    obtain ⟨hthen, helse⟩ := Walk.errorFree_andThen hsteps
    exact (accepted_of_validateBranchCondition available item condition hcondition).append
      ((accepted_of_validateWorkflow thenSteps hthen).append
        (accepted_of_validateWorkflow elseSteps helse))
  | parallel id children =>
    obtain ⟨-, hchildren⟩ := Walk.errorFree_andThen h
    exact accepted_of_validateChildren children hchildren
  | «foreach» id items itemName maxItems workflow =>
    obtain ⟨hitems, hworkflow⟩ := Walk.errorFree_andThen h
    obtain ⟨-, hitems⟩ := Walk.errorFree_andThen hitems
    exact (accepted_of_validateValue available item items hitems).append
      (accepted_of_validateWorkflow workflow hworkflow)
  | emit id value =>
    obtain ⟨-, hvalue⟩ := Walk.errorFree_andThen h
    exact accepted_of_validateValue available item value hvalue

theorem accepted_of_validateWorkflow {available : List String} {item : Bool} {location : Location}
    {index : ℕ} {seen : List String} (steps : List WorkflowStep)
    (h : errorFree (validateWorkflow catalog ⟨available, item, allowInput, allowPrepared⟩ location index
      steps seen).diagnostics = true) :
    AllAccepted allowInput allowPrepared (workflowOccurrences available item steps) := by
  cases steps with
  | nil => exact .nil
  | cons step rest =>
    obtain ⟨hstep, hrest⟩ := Walk.errorFree_andThen h
    exact (accepted_of_validateStep step hstep).append (accepted_of_validateWorkflow rest hrest)

theorem accepted_of_validateChildren {available : List String} {item : Bool} {location : Location}
    {index : ℕ} {seen : List String} (children : List WorkflowStep)
    (h : errorFree (validateChildren catalog ⟨available, item, allowInput, allowPrepared⟩ location index
      children seen).diagnostics = true) :
    AllAccepted allowInput allowPrepared (childrenOccurrences available item children) := by
  cases children with
  | nil => exact .nil
  | cons child rest =>
    obtain ⟨hchild, hrest⟩ := Walk.errorFree_andThen h
    exact (accepted_of_validateStep child hchild).append (accepted_of_validateChildren rest hrest)

end

end Steps
end CapabilityCompiler.Compiler
