import CapabilityCompiler.Compiler.Acceptance
import CapabilityCompiler.Execution.Executor

/-! Executions whose references only fail where data is absent. -/
namespace CapabilityCompiler.Execution
open Foundation Models Compiler

/-- The error is not an invalid reference, not a reference to a missing step or item and not an
exhausted condition budget. -/
structure ExecutionError.ReferenceSafe (e : ExecutionError) : Prop where
  valid : e.code ≠ "ACC_RUNTIME_REFERENCE_INVALID"
  absent : e.code = "ACC_RUNTIME_REFERENCE_UNAVAILABLE" → ∃ segment, e.cause = some (.path segment)
  shallow : e.message ≠ conditionDepthMessage
  small : e.message ≠ conditionSizeMessage

def Failure.ReferenceSafe : Failure → Prop
  | .execution e => e.ReferenceSafe
  | _ => True

/-- The executor finds what the text refers to, except for absent data. -/
def Resolvable (x : Occurrence) : Prop :=
  match executorReference? x.text with
  | none => x.required = false ∧ looksDynamic x.text = false
  | some (.root root _) => root = "item" → x.item = true
  | some (.step id _) => id ∈ x.available

/-- The context has the results and the item that may be referred to. -/
structure Covers (available : List String) (item : Bool) (context : Context) : Prop where
  steps : ∀ id ∈ available, (Json.field? id context.steps).isSome = true
  item : item = true → context.item.isSome = true

theorem Covers.withItem {available : List String} {item : Bool} {context : Context}
    (h : Covers available item context) (value : Json) :
    Covers available true { context with item := some value } where
  steps := h.steps
  item _ := rfl

theorem Covers.store {available : List String} {item : Bool} {context : Context}
    (h : Covers available item context) (id : Option String) (result : Json) :
    Covers (id.toList ++ available) item (context.store id result) := by
  cases id with
  | none => exact h
  | some id =>
    refine ⟨fun other hother => ?_, h.item⟩
    by_cases heq : id = other
    · simp [Context.store, heq]
    · have hmem : other ∈ available := by
        rcases List.mem_cons.mp hother with rfl | hmem
        · exact absurd rfl heq
        · exact hmem
      simpa [Context.store, heq] using h.steps other hmem

/-! Results that end well or with a reference-safe error. -/

def Ends {α : Type} (post : α → Prop) : Except ExecutionError α → Prop
  | .ok value => post value
  | .error e => e.ReferenceSafe

theorem Ends.bind {α β : Type} {pre : α → Prop} {post : β → Prop} {x : Except ExecutionError α}
    {f : α → Except ExecutionError β} (hx : Ends pre x) (hf : ∀ v, pre v → Ends post (f v)) :
    Ends post (x >>= f) := by
  cases x with
  | ok v => exact hf v hx
  | error e => exact hx

theorem Ends.bind_ok {α β : Type} {post : β → Prop} {x : Except ExecutionError α}
    {f : α → Except ExecutionError β} {v : α} (hx : x = .ok v) (hf : Ends post (f v)) :
    Ends post (x >>= f) := by
  subst hx
  exact hf

theorem Ends.map {α β : Type} {pre : α → Prop} {post : β → Prop} {x : Except ExecutionError α}
    {f : α → β} (hx : Ends pre x) (hf : ∀ v, pre v → post (f v)) : Ends post (x.map f) := by
  cases x with
  | ok v => exact hf v hx
  | error e => exact hx

/-- Some result or a reference-safe error. -/
abbrev EndsSafely {α : Type} : Except ExecutionError α → Prop := Ends fun _ => True

/-- An error that is not about references or conditions. -/
theorem referenceSafe_of_other {e : ExecutionError}
    (hcode : e.code ∉ ["ACC_RUNTIME_REFERENCE_INVALID", "ACC_RUNTIME_REFERENCE_UNAVAILABLE"])
    (hmessage : e.message ∉ [conditionDepthMessage, conditionSizeMessage]) : e.ReferenceSafe := by
  simp only [List.mem_cons, List.not_mem_nil, or_false, not_or] at hcode hmessage
  exact ⟨hcode.1, fun h => absurd h hcode.2, hmessage.1, hmessage.2⟩

/-! References. -/

section References
variable {available : List String} {item : Bool} {context : Context} (details : Fields)

theorem resolvePath_error {value : Json} {path : List String} {cause : Unavailable}
    (h : resolvePath value path = .error cause) : ∃ segment, cause = .path segment := by
  induction path generalizing value with
  | nil => simp [resolvePath] at h
  | cons segment rest ih =>
    cases value with
    | obj fields =>
      unfold resolvePath at h
      cases hfield : Json.field? segment fields with
      | none => exact ⟨segment, by simpa [hfield, eq_comm] using h⟩
      | some child => exact ih (by simpa [hfield] using h)
    | _ => exact ⟨segment, by simpa [resolvePath, eq_comm] using h⟩

theorem resolveMatch_ends {text : String} {required : Bool} {reference : Reference}
    (hcovers : Covers available item context)
    (h : Resolvable ⟨text, required, available, item⟩)
    (hmatch : executorReference? text = some reference) :
    EndsSafely (resolveMatch context details reference) := by
  unfold resolveMatch
  cases hresolve : resolveReference context reference with
  | ok value => trivial
  | error cause =>
    have hpath : ∃ segment, cause = .path segment := by
      simp only [Resolvable, hmatch] at h
      cases reference with
      | root root path =>
        have hroot : root ∈ ["input", "item"] := (written_of_matchTokens hmatch).1.1
        by_cases hinput : root = "input"
        · exact resolvePath_error (by simpa [resolveReference, hinput] using hresolve)
        · have hitem : root = "item" := by simpa [hinput] using hroot
          obtain ⟨value, hvalue⟩ := Option.isSome_iff_exists.mp (hcovers.item (h hitem))
          exact resolvePath_error (by simpa [resolveReference, hinput, hvalue] using hresolve)
      | step id path =>
        obtain ⟨value, hvalue⟩ := Option.isSome_iff_exists.mp (hcovers.steps id h)
        exact resolvePath_error (by simpa [resolveReference, hvalue] using hresolve)
    obtain ⟨segment, rfl⟩ := hpath
    exact ⟨by simp [unavailableReference], fun _ => ⟨segment, rfl⟩,
      by simp [unavailableReference, conditionDepthMessage],
      by simp [unavailableReference, conditionSizeMessage]⟩

theorem resolveRequiredReference_ends {text : String} (hcovers : Covers available item context)
    (h : Resolvable ⟨text, true, available, item⟩) :
    EndsSafely (resolveRequiredReference context details text) := by
  unfold resolveRequiredReference
  cases hmatch : executorReference? text with
  | some reference => exact resolveMatch_ends details hcovers h hmatch
  | none => simp [Resolvable, hmatch] at h

mutual

theorem resolveValue_ends (hcovers : Covers available item context) (value : Json)
    (h : ∀ x ∈ valueOccurrences available item value, Resolvable x) :
    EndsSafely (resolveValue context details value) := by
  cases value with
  | str text =>
    have htext := h ⟨text, false, available, item⟩ (by simp [valueOccurrences, texts])
    unfold resolveValue
    cases hmatch : executorReference? text with
    | some reference => exact resolveMatch_ends details hcovers htext hmatch
    | none =>
      simp only [Resolvable, hmatch, true_and] at htext
      simp [htext, Ends]
  | arr items => exact (resolveItems_ends hcovers items h).map fun _ _ => trivial
  | obj fields => exact (resolveFields_ends hcovers fields h).map fun _ _ => trivial
  | _ => trivial

theorem resolveItems_ends (hcovers : Covers available item context) (items : List Json)
    (h : ∀ x ∈ valueOccurrences available item (.arr items), Resolvable x) :
    EndsSafely (resolveItems context details items) := by
  cases items with
  | nil => trivial
  | cons first rest =>
    simp only [valueOccurrences, texts, textsOfItems, List.map_append, List.mem_append] at h
    exact (resolveValue_ends hcovers first fun x hx => h x (.inl hx)).bind fun _ _ =>
      (resolveItems_ends hcovers rest fun x hx => h x (.inr hx)).map fun _ _ => trivial

theorem resolveFields_ends (hcovers : Covers available item context) (fields : Fields)
    (h : ∀ x ∈ valueOccurrences available item (.obj fields), Resolvable x) :
    EndsSafely (resolveFields context details fields) := by
  cases fields with
  | nil => trivial
  | cons field rest =>
    simp only [valueOccurrences, texts, textsOfFields, List.map_append, List.mem_append] at h
    exact (resolveValue_ends hcovers field.2 fun x hx => h x (.inl hx)).bind fun _ _ =>
      (resolveFields_ends hcovers rest fun x hx => h x (.inr hx)).map fun _ _ => trivial

end

/-! Conditions. -/

theorem resolveConditionOperand_ends (hcovers : Covers available item context)
    (operand : WorkflowConditionOperand)
    (h : ∀ x ∈ operandOccurrences available item operand, Resolvable x) :
    EndsSafely (resolveConditionOperand context details operand) := by
  cases operand with
  | reference value =>
    exact resolveRequiredReference_ends details hcovers (h _ (List.mem_singleton_self _))
  | literal value => trivial

theorem enterCondition_eq {depth budget : ℕ} (hdepth : depth ≤ maxConditionDepth)
    (hbudget : 1 ≤ budget) : enterCondition details depth budget = .ok (budget - 1) := by
  unfold enterCondition
  rw [if_neg (Nat.not_lt.mpr hdepth), if_neg (by omega)]

theorem checkFanOut_eq {count : ℕ} (h : 1 ≤ count ∧ count ≤ 16) :
    checkFanOut details count = .ok () := if_pos h

mutual

theorem le_workflowConditionSize (depth : ℕ) (condition : WorkflowCondition)
    (h : condition.fansOut = true) : depth ≤ (workflowConditionSize depth condition).2 := by
  cases condition with
  | eq left right => exact Nat.le_refl depth
  | isIn item values => exact Nat.le_refl depth
  | all conditions | any conditions =>
    simp only [WorkflowCondition.fansOut, Bool.and_eq_true, decide_eq_true_eq] at h
    have hdepth := le_workflowConditionSizes (depth + 1) conditions h.2 h.1.1
    simp only [workflowConditionSize]
    omega
  | not condition =>
    have hdepth := le_workflowConditionSize (depth + 1) condition h
    simp only [workflowConditionSize]
    omega

theorem le_workflowConditionSizes (depth : ℕ) (conditions : List WorkflowCondition)
    (h : fansOutAll conditions = true) (hlength : 1 ≤ conditions.length) :
    depth ≤ ((workflowConditionSizes depth conditions).map Prod.snd).foldr max 0 := by
  cases conditions with
  | nil => simp at hlength
  | cons condition rest =>
    simp only [fansOutAll, Bool.and_eq_true] at h
    have hdepth := le_workflowConditionSize depth condition h.1
    simp only [workflowConditionSizes, List.map_cons, List.foldr_cons]
    exact le_trans hdepth (le_max_left _ _)

end

mutual

/-- A bounded condition uses exactly one node of the budget for each of its own. -/
theorem evaluateCondition_ends (hcovers : Covers available item context) (depth budget : ℕ)
    (condition : WorkflowCondition) (hfans : condition.fansOut = true)
    (hdepth : (workflowConditionSize depth condition).2 ≤ maxConditionDepth)
    (hbudget : (workflowConditionSize depth condition).1 ≤ budget)
    (h : ∀ x ∈ conditionOccurrences available item condition, Resolvable x) :
    Ends (fun result => result.2 + (workflowConditionSize depth condition).1 = budget)
      (evaluateCondition context details depth budget condition) := by
  have henter : enterCondition details depth budget = .ok (budget - 1) := by
    have hlow := le_workflowConditionSize depth condition hfans
    have hpos : 1 ≤ (workflowConditionSize depth condition).1 := by
      cases condition <;> simp [workflowConditionSize]
    exact enterCondition_eq details (by omega) (by omega)
  cases condition with
  | eq left right =>
    have hleft := resolveConditionOperand_ends details hcovers left
      fun x hx => h x (List.mem_append_left _ hx)
    have hright := resolveConditionOperand_ends details hcovers right
      fun x hx => h x (List.mem_append_right _ hx)
    have hpos : 1 ≤ budget := hbudget
    have hspent : budget - 1 + 1 = budget := by omega
    unfold evaluateCondition
    refine Ends.bind_ok henter ?_
    exact hleft.bind fun _ _ => hright.bind fun _ _ => hspent
  | isIn left right =>
    have hleft := resolveConditionOperand_ends details hcovers left
      fun x hx => h x (List.mem_append_left _ hx)
    have hright := resolveConditionOperand_ends details hcovers right
      fun x hx => h x (List.mem_append_right _ hx)
    have hpos : 1 ≤ budget := hbudget
    have hspent : budget - 1 + 1 = budget := by omega
    unfold evaluateCondition
    refine Ends.bind_ok henter ?_
    refine hleft.bind fun _ _ => hright.bind fun value _ => ?_
    cases value with
    | arr values => exact hspent
    | _ =>
      exact referenceSafe_of_other (by simp [stepInvalid])
        (by simp [stepInvalid, conditionDepthMessage, conditionSizeMessage])
  | all conditions | any conditions =>
    simp only [WorkflowCondition.fansOut, Bool.and_eq_true, decide_eq_true_eq] at hfans
    simp only [workflowConditionSize] at hdepth hbudget ⊢
    have hinner := evaluateConditions_ends hcovers (depth + 1) (budget - 1) conditions hfans.2
      hdepth (by omega) h
    unfold evaluateCondition
    refine Ends.bind_ok henter (Ends.bind_ok (checkFanOut_eq details hfans.1) ?_)
    refine Ends.bind hinner fun result hresult => ?_
    change result.2 + _ = budget
    omega
  | not condition =>
    simp only [workflowConditionSize] at hdepth hbudget ⊢
    have hinner := evaluateCondition_ends hcovers (depth + 1) (budget - 1) condition hfans
      hdepth (by omega) h
    unfold evaluateCondition
    refine Ends.bind_ok henter (Ends.bind hinner fun result hresult => ?_)
    change result.2 + _ = budget
    omega

theorem evaluateConditions_ends (hcovers : Covers available item context) (depth budget : ℕ)
    (conditions : List WorkflowCondition) (hfans : fansOutAll conditions = true)
    (hdepth : ((workflowConditionSizes depth conditions).map Prod.snd).foldr max 0 ≤
      maxConditionDepth)
    (hbudget : ((workflowConditionSizes depth conditions).map Prod.fst).sum ≤ budget)
    (h : ∀ x ∈ conditionsOccurrences available item conditions, Resolvable x) :
    Ends (fun result =>
        result.2 + ((workflowConditionSizes depth conditions).map Prod.fst).sum = budget)
      (evaluateConditions context details depth budget conditions) := by
  cases conditions with
  | nil => exact Nat.add_zero budget
  | cons condition rest =>
    simp only [fansOutAll, Bool.and_eq_true] at hfans
    simp only [workflowConditionSizes, List.map_cons, List.foldr_cons, List.sum_cons] at hdepth hbudget ⊢
    obtain ⟨hfirst, hrest⟩ := max_le_iff.mp hdepth
    have hhead := evaluateCondition_ends hcovers depth budget condition hfans.1 hfirst
      (by omega) fun x hx => h x (List.mem_append_left _ hx)
    unfold evaluateConditions
    refine Ends.bind hhead fun result hresult => ?_
    have htail := evaluateConditions_ends hcovers depth result.2 rest hfans.2 hrest
      (by omega) fun x hx => h x (List.mem_append_right _ hx)
    refine Ends.bind htail fun results hresults => ?_
    change results.2 + _ = budget
    omega

end

theorem evaluateBranchCondition_ends (hcovers : Covers available item context)
    (condition : BranchCondition)
    (h : ∀ x ∈ branchOccurrences available item condition, Resolvable x) :
    EndsSafely (evaluateBranchCondition context details condition) := by
  cases condition with
  | reference value =>
    exact (resolveRequiredReference_ends details hcovers (h _ (List.mem_singleton_self _))).map
      fun _ _ => trivial
  | structured bounded =>
    exact (evaluateCondition_ends details hcovers 1 maxConditionNodes bounded.condition
      bounded.fansOut bounded.depth bounded.nodes h).map fun _ _ => trivial

/-! Steps without calls. -/

theorem requiredFields_ends (value : Json) : EndsSafely (requiredFields details value) := by
  cases value with
  | obj fields => trivial
  | _ =>
    exact referenceSafe_of_other (by simp [requiredObject])
      (by simp [requiredObject, conditionDepthMessage, conditionSizeMessage])

theorem requiredFieldNames_ends (fields : List String) :
    EndsSafely (requiredFieldNames details fields) := by
  unfold requiredFieldNames
  split
  · exact referenceSafe_of_other (by simp [stepInvalid])
      (by simp [stepInvalid, conditionDepthMessage, conditionSizeMessage])
  · trivial

theorem pick_ends (hcovers : Covers available item context) (value : Json) (fields : List String)
    (h : ∀ x ∈ valueOccurrences available item value, Resolvable x) :
    EndsSafely (pick context details value fields) :=
  (resolveValue_ends details hcovers value h).bind fun source _ =>
    (requiredFields_ends details source).bind fun _ _ =>
      (requiredFieldNames_ends details fields).bind fun _ _ => trivial

theorem redact_ends (hcovers : Covers available item context) (value : Json) (fields : List String)
    (h : ∀ x ∈ valueOccurrences available item value, Resolvable x) :
    EndsSafely (redact context details value fields) :=
  (resolveValue_ends details hcovers value h).bind fun source _ =>
    (requiredFields_ends details source).bind fun _ _ =>
      (requiredFieldNames_ends details fields).bind fun _ _ => trivial

theorem resolveItemsBounded_ends (hcovers : Covers available item context) (items : Json)
    (limit : ItemBound) (h : ∀ x ∈ valueOccurrences available item items, Resolvable x) :
    EndsSafely (resolveItemsBounded context details items limit) := by
  refine (resolveValue_ends details hcovers items h).bind fun value _ => ?_
  unfold boundedItems
  cases value with
  | arr items =>
    dsimp only
    split
    · exact referenceSafe_of_other (by simp [boundExceeded])
        (by simp [boundExceeded, conditionDepthMessage, conditionSizeMessage])
    · trivial
  | _ =>
    exact referenceSafe_of_other (by simp [valueTypeInvalid])
      (by simp [valueTypeInvalid, conditionDepthMessage, conditionSizeMessage])

theorem mapItems_ends (hcovers : Covers available item context) {expression : String}
    (h : Resolvable ⟨expression, true, available, true⟩) (items : List Json) :
    EndsSafely (mapItems context details expression items) := by
  induction items with
  | nil => trivial
  | cons first rest ih =>
    exact (resolveRequiredReference_ends details (hcovers.withItem first) h).bind fun _ _ =>
      ih.bind fun _ _ => trivial

theorem filterItems_ends (hcovers : Covers available item context) {condition : String}
    (h : Resolvable ⟨condition, true, available, true⟩) (items : List Json) :
    EndsSafely (filterItems context details condition items) := by
  induction items with
  | nil => trivial
  | cons first rest ih =>
    exact (resolveRequiredReference_ends details (hcovers.withItem first) h).bind fun _ _ =>
      ih.bind fun _ _ => trivial

theorem assertion_ends (hcovers : Covers available item context) {condition : String}
    (h : Resolvable ⟨condition, true, available, item⟩) :
    EndsSafely (assertion context details condition) := by
  refine (resolveRequiredReference_ends details hcovers h).bind fun value _ => ?_
  split
  · trivial
  · exact referenceSafe_of_other (by simp [assertionFailed])
      (by simp [assertionFailed, conditionDepthMessage, conditionSizeMessage])

end References

/-! Runs. -/

theorem validateSchema_ends (schemas : SchemaChecker) {code : String} (details schema : Fields)
    (value : Json)
    (hcode : code ∉ ["ACC_RUNTIME_REFERENCE_INVALID", "ACC_RUNTIME_REFERENCE_UNAVAILABLE"]) :
    EndsSafely (validateSchema schemas code details schema value) := by
  unfold validateSchema
  split
  · exact referenceSafe_of_other (by simp)
      (by simp [conditionDepthMessage, conditionSizeMessage])
  · split
    · trivial
    · exact referenceSafe_of_other hcode (by simp [conditionDepthMessage, conditionSizeMessage])

section Runs
variable {Q R : Type} (engine : Engine Q R)

/-- No run of the process raises a reference error except for absent data. -/
abbrev Safe : Process Q R Failure Json → Prop := Process.Obeys (fun _ => True) Failure.ReferenceSafe

theorem safe_ofResult {x : Except ExecutionError Json} (h : EndsSafely x) :
    Safe (ofResult x : Process Q R Failure Json) := by
  cases x with
  | ok value => exact .done value
  | error e => exact .failed h

theorem safe_receive (id : Option String) (operationId : String) (operation : Operation)
    (reply : Reply) : Safe (receive engine id operationId operation reply) := by
  cases reply with
  | stableError e => exact .failed trivial
  | exception | notJson =>
    exact .failed (referenceSafe_of_other (by simp)
      (by simp [conditionDepthMessage, conditionSizeMessage]))
  | value result =>
    have hvalid : EndsSafely (validateSchema engine.schemas "ACC_RUNTIME_OPERATION_OUTPUT_INVALID"
        (schemaDetails engine.capabilityId (some operationId) id "operation_output")
        operation.outputSchema result) := validateSchema_ends _ _ _ _ (by simp)
    unfold receive
    dsimp only
    cases hresult : validateSchema engine.schemas "ACC_RUNTIME_OPERATION_OUTPUT_INVALID"
        (schemaDetails engine.capabilityId (some operationId) id "operation_output")
        operation.outputSchema result with
    | ok _ => exact .done result
    | error e =>
      rw [hresult] at hvalid
      exact .failed hvalid

section Calls
variable {available : List String} {item : Bool} {context : Context}

theorem prepareCall_ends (hcovers : Covers available item context) (position : List ℕ)
    (id : Option String) (operationId : String) {arguments : Fields}
    (h : ∀ x ∈ valueOccurrences available item (.obj arguments), Resolvable x) :
    EndsSafely (prepareCall engine context position id operationId arguments) := by
  unfold prepareCall
  split
  · exact referenceSafe_of_other (by simp [stepInvalid])
      (by simp [stepInvalid, conditionDepthMessage, conditionSizeMessage])
  · cases hoperation : operation? operationId engine.operations with
    | none =>
      exact referenceSafe_of_other (by simp [requiredObject])
        (by simp [requiredObject, conditionDepthMessage, conditionSizeMessage])
    | some operation =>
      refine (resolveFields_ends _ hcovers arguments h).bind fun resolved _ => ?_
      dsimp only
      split
      · exact (validateSchema_ends _ _ _ _ (by simp)).bind fun _ _ => trivial
      · trivial

/-- The call adds no reference error of its own. -/
def Transparent : Prop := ∀ call (next : Reply → Process Q R Failure Json),
  (∀ reply, Safe (next reply)) → Safe (engine.perform call next)

theorem safe_runCall (hperform : Transparent engine) (hcovers : Covers available item context)
    (position : List ℕ) (id : Option String) (operationId : String) {arguments : Fields}
    (h : ∀ x ∈ valueOccurrences available item (.obj arguments), Resolvable x) :
    Safe (runCall engine context position id operationId arguments) := by
  have hprepare := prepareCall_ends engine hcovers position id operationId h
  unfold runCall
  cases hcall : prepareCall engine context position id operationId arguments with
  | error e =>
    rw [hcall] at hprepare
    exact .failed hprepare
  | ok call => exact hperform call _ fun reply => safe_receive engine id operationId _ reply

theorem safe_gatherList {children : List (Process Q R Failure Json)}
    (h : ∀ child ∈ children, Safe child) : Safe (gatherList children) :=
  .gather (fun i => h _ (List.get_mem children i)) fun _ => .done _

end Calls

mutual

theorem safe_runStep (hperform : Transparent engine) {available : List String} {item : Bool}
    {context : Context} (hcovers : Covers available item context) (position : List ℕ)
    (step : WorkflowStep) (h : ∀ x ∈ stepOccurrences available item step, Resolvable x) :
    Safe (runStep engine context position step) := by
  cases step with
  | call id operation arguments => exact safe_runCall engine hperform hcovers position id operation h
  | pick id value fields => exact safe_ofResult (pick_ends _ hcovers value fields h)
  | map id items expression maxItems =>
    have hitems := resolveItemsBounded_ends (stepDetails engine.capabilityId id) hcovers items
      maxItems fun x hx => h x (List.mem_cons_of_mem _ hx)
    have hresults : EndsSafely ((resolveItemsBounded context (stepDetails engine.capabilityId id)
        items maxItems).bind (mapItems context (stepDetails engine.capabilityId id) expression)) :=
      hitems.bind fun sequence _ => mapItems_ends _ hcovers (h _ List.mem_cons_self) sequence
    exact safe_ofResult (hresults.map fun _ _ => trivial)
  | filter id items condition maxItems =>
    have hitems := resolveItemsBounded_ends (stepDetails engine.capabilityId id) hcovers items
      maxItems fun x hx => h x (List.mem_cons_of_mem _ hx)
    have hresults : EndsSafely ((resolveItemsBounded context (stepDetails engine.capabilityId id)
        items maxItems).bind (filterItems context (stepDetails engine.capabilityId id) condition)) :=
      hitems.bind fun sequence _ => filterItems_ends _ hcovers (h _ List.mem_cons_self) sequence
    exact safe_ofResult (hresults.map fun _ _ => trivial)
  | assert id condition message =>
    exact safe_ofResult (assertion_ends _ hcovers (h _ (List.mem_singleton_self _)))
  | redact id value fields => exact safe_ofResult (redact_ends _ hcovers value fields h)
  | branch id condition thenSteps elseSteps =>
    have hcondition := evaluateBranchCondition_ends (stepDetails engine.capabilityId id) hcovers
      condition fun x hx => h x (List.mem_append_left _ hx)
    have hsteps : ∀ x, x ∈ workflowOccurrences available item thenSteps ∨
        x ∈ workflowOccurrences available item elseSteps → Resolvable x := fun x hx =>
      h x (List.mem_append_right _ (List.mem_append.mpr hx))
    unfold runStep
    cases hresult : evaluateBranchCondition context (stepDetails engine.capabilityId id)
        condition with
    | error e =>
      rw [hresult] at hcondition
      exact .failed hcondition
    | ok truth =>
      cases truth with
      | true =>
        exact safe_runWorkflow hperform hcovers _ _ _ thenSteps fun x hx => hsteps x (.inl hx)
      | false =>
        exact safe_runWorkflow hperform hcovers _ _ _ elseSteps fun x hx => hsteps x (.inr hx)
  | parallel id children =>
    unfold runStep
    split
    · exact safe_gatherList (safe_runChildren hperform hcovers position 0 children h)
    · exact .failed (referenceSafe_of_other (by simp [boundExceeded])
        (by simp [boundExceeded, conditionDepthMessage, conditionSizeMessage]))
  | «foreach» id items itemName maxItems workflow =>
    have hitems := resolveItemsBounded_ends (stepDetails engine.capabilityId id) hcovers items
      maxItems fun x hx => h x (List.mem_append_left _ hx)
    unfold runStep
    cases hresult : resolveItemsBounded context (stepDetails engine.capabilityId id) items
        maxItems with
    | error e =>
      rw [hresult] at hitems
      exact .failed hitems
    | ok sequence =>
      refine safe_gatherList fun child hchild => ?_
      obtain ⟨value, -, rfl⟩ := List.mem_map.mp hchild
      exact safe_runWorkflow hperform (hcovers.withItem value) _ _ _ workflow
        fun x hx => h x (List.mem_append_right _ hx)
  | emit id value => exact safe_ofResult (resolveValue_ends _ hcovers value h)

theorem safe_runWorkflow (hperform : Transparent engine) {available : List String} {item : Bool}
    {context : Context} (hcovers : Covers available item context) (position : List ℕ) (index : ℕ)
    (result : Json) (steps : List WorkflowStep)
    (h : ∀ x ∈ workflowOccurrences available item steps, Resolvable x) :
    Safe (runWorkflow engine context position index result steps) := by
  cases steps with
  | nil => exact .done result
  | cons step rest =>
    have hstep := safe_runStep hperform hcovers (position ++ [index]) step
      fun x hx => h x (List.mem_append_left _ hx)
    exact hstep.bind fun result => safe_runWorkflow hperform (hcovers.store step.id result) position
      (index + 1) result rest fun x hx => h x (List.mem_append_right _ hx)

theorem safe_runChildren (hperform : Transparent engine) {available : List String} {item : Bool}
    {context : Context} (hcovers : Covers available item context) (position : List ℕ) (index : ℕ)
    (children : List WorkflowStep)
    (h : ∀ x ∈ childrenOccurrences available item children, Resolvable x) :
    ∀ child ∈ runChildren engine context position index children, Safe child := by
  cases children with
  | nil =>
    intro child hchild
    exact absurd hchild List.not_mem_nil
  | cons first rest =>
    have hfirst := safe_runStep hperform hcovers (position ++ [index]) first
      fun x hx => h x (List.mem_append_left _ hx)
    have hrest := safe_runChildren hperform hcovers position (index + 1) rest
      fun x hx => h x (List.mem_append_right _ hx)
    intro child hchild
    exact (List.mem_cons.mp hchild).elim (fun heq => heq ▸ hfirst) (hrest child)

end

theorem safe_checkOutput (definition : CapabilityDefinition) (result : Json) :
    Safe (checkOutput engine definition result) := by
  unfold checkOutput
  split
  · have hvalid : EndsSafely (validateSchema engine.schemas "ACC_RUNTIME_OUTPUT_INVALID"
        (schemaDetails engine.capabilityId none none "capability_output")
        definition.outputSchema result) := validateSchema_ends _ _ _ _ (by simp)
    cases hresult : validateSchema engine.schemas "ACC_RUNTIME_OUTPUT_INVALID"
        (schemaDetails engine.capabilityId none none "capability_output")
        definition.outputSchema result with
    | ok _ => exact .done result
    | error e =>
      rw [hresult] at hvalid
      exact .failed hvalid
  · exact .done result

/-- A workflow whose occurrences all have something to refer to is executed without reference
errors, whatever its input and the replies are. -/
theorem safe_execute (hperform : Transparent engine) (definition : CapabilityDefinition)
    (h : ∀ x ∈ workflowOccurrences [] false definition.workflow, Resolvable x) (input : Json) :
    Safe (execute engine definition input) := by
  have hinput : EndsSafely (validateSchema engine.schemas "ACC_RUNTIME_INPUT_INVALID"
      (schemaDetails engine.capabilityId none none "capability_input")
      definition.inputSchema input) := validateSchema_ends _ _ _ _ (by simp)
  have hcovers : Covers [] false ⟨input, [], none⟩ :=
    ⟨fun _ hid => absurd hid List.not_mem_nil, fun hitem => Bool.noConfusion hitem⟩
  unfold execute
  cases hresult : validateSchema engine.schemas "ACC_RUNTIME_INPUT_INVALID"
      (schemaDetails engine.capabilityId none none "capability_input")
      definition.inputSchema input with
  | error e =>
    rw [hresult] at hinput
    exact .failed hinput
  | ok _ =>
    dsimp only
    split
    · exact (safe_runWorkflow engine hperform hcovers _ _ _ definition.workflow h).bind
        fun result => safe_checkOutput engine definition result
    · exact .failed (referenceSafe_of_other (by simp)
        (by simp [conditionDepthMessage, conditionSizeMessage]))

end Runs

theorem transparent_workflowExecutor (schemas : SchemaChecker) (settings : Settings)
    (operations : Operations) (capabilityId : String) :
    Transparent (workflowExecutor schemas settings operations capabilityId) :=
  fun _ _ hnext => .request trivial hnext

end CapabilityCompiler.Execution
