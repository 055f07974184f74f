import CapabilityCompiler.Actions.PreparedReferences
import CapabilityCompiler.Compiler.ProvedActions
import CapabilityCompiler.Execution.ReferenceSafety

/-! Compiled capabilities are executed without reference errors but for absent data. -/
namespace CapabilityCompiler.Actions
open Foundation Models Compiler Execution

/-! Compiler.Accepted occurrences can be resolved. -/

/-- Outside a commit the executor knows every root the compiler accepts. -/
theorem resolvable_of_accepted {x : Occurrence} (h : Compiler.Accepted true false x) :
    Resolvable x := by
  unfold Compiler.Accepted compilerReference? at h
  unfold Resolvable executorReference?
  cases hmatch : matchReference ["input", "item", "prepared"] x.text with
  | none =>
    simp only [hmatch] at h
    cases hexecutor : matchReference ["input", "item"] x.text with
    | none => exact h
    | some reference =>
      have hdynamic := looksDynamic_of_matchReference hexecutor
      simp [hdynamic] at h
  | some reference =>
    simp only [hmatch] at h
    obtain ⟨hwritten, htokens⟩ := written_of_matchTokens hmatch
    have hknown : reference.Written ["input", "item"] := by
      cases reference with
      | root root path =>
        obtain ⟨hroot, hpath⟩ := hwritten
        have hunprepared : root ≠ "prepared" := fun heq => by simpa using h.2.2 heq
        exact ⟨by simpa [hunprepared] using hroot, hpath⟩
      | step id path => exact ⟨by simp, hwritten.2⟩
    have hexecutor : matchReference ["input", "item"] x.text = some reference := by
      unfold matchReference
      rw [htokens]
      exact matchTokens_tokens hknown
    rw [hexecutor]
    cases reference with
    | root root path => exact h.1
    | step id path => exact h

/-- An occurrence in the mapped workflow. -/
def mapOccurrence (f : String → String) (x : Occurrence) : Occurrence where
  text := f x.text
  required := x.required
  available := x.available.map f
  item := x.item

theorem rewriteText_of_static {value : String} (h : Text.hasPrefix "$" value = false) :
    rewriteText value = value := by
  unfold rewriteText Text.dropPrefix?
  rw [if_neg]
  intro hprefixed
  obtain ⟨rest, hrest⟩ := List.isPrefixOf_iff_prefix.mp hprefixed
  have hdollar : Text.hasPrefix "$" value = true :=
    List.isPrefixOf_iff_prefix.mpr ⟨".prepared.".toList ++ rest, by rw [← hrest]; simp⟩
  rw [h] at hdollar
  exact Bool.false_ne_true hdollar

theorem rewriteText_of_isSegment {id : String} (h : isSegment id = true) : rewriteText id = id := by
  refine rewriteText_of_static (Bool.eq_false_iff.mpr fun hdollar => ?_)
  obtain ⟨rest, hrest⟩ := List.isPrefixOf_iff_prefix.mp hdollar
  have hfirst : id.toList = '$' :: rest := by
    rw [← hrest]
    simp
  simp [isSegment, hfirst, isSegmentStart] at h

/-- In a commit the rewritten reference has the root the executor knows. -/
theorem resolvable_of_rewritten {x : Occurrence} (h : Compiler.Accepted false true x)
    (hprepared : mentionsPrepared x.text = true → isPreparedReference x.text = true) :
    Resolvable (mapOccurrence rewriteText x) := by
  unfold Compiler.Accepted compilerReference? at h
  unfold Resolvable executorReference?
  simp only [mapOccurrence]
  cases hmatch : matchReference ["input", "item", "prepared"] x.text with
  | none =>
    simp only [hmatch] at h
    have hplain : Text.hasPrefix "$" x.text = false := by
      have hdynamic := h.2
      simp only [looksDynamic, Bool.or_eq_false_iff] at hdynamic
      exact hdynamic.1.1
    rw [rewriteText_of_static hplain]
    cases hexecutor : matchReference ["input", "item"] x.text with
    | none => exact h
    | some reference =>
      have hdynamic := looksDynamic_of_matchReference hexecutor
      simp [hdynamic] at h
  | some reference =>
    simp only [hmatch] at h
    obtain ⟨hwritten, htokens⟩ := written_of_matchTokens hmatch
    have hexecutor : ∀ other : Reference, rewriteTokens reference.tokens = other.tokens →
        other.Written ["input", "item"] →
        matchReference ["input", "item"] (rewriteText x.text) = some other := by
      intro other hother hknown
      unfold matchReference
      rw [split_rewriteText, htokens, hother]
      exact matchTokens_tokens hknown
    cases reference with
    | root root path =>
      obtain ⟨hroot, hpath⟩ := hwritten
      simp only [List.mem_cons, List.not_mem_nil, or_false] at hroot
      rcases hroot with rfl | rfl | rfl
      · simpa using h.2.1 rfl
      · rw [hexecutor (.root "item" path) rfl ⟨by simp, hpath⟩]
        exact h.1
      · cases path with
        | nil =>
          have htext : x.text = "$.prepared" := by
            have hchars := Text.toList_of_split htokens
            rw [← String.toList_inj, hchars]
            decide
          have hreference := hprepared (by rw [htext]; decide)
          rw [htext] at hreference
          exact absurd hreference (by decide)
        | cons first rest =>
          rw [hexecutor (.root "input" ("prepared" :: first :: rest)) rfl
            ⟨by simp, List.forall_mem_cons.mpr ⟨by decide, hpath⟩⟩]
          simp
    | step id path =>
      have hid := rewriteText_of_isSegment (hwritten.2 id List.mem_cons_self)
      rw [hexecutor (.step id path) rfl ⟨by simp, hwritten.2⟩]
      exact List.mem_map.mpr ⟨id, h, hid⟩

/-! Mapping the texts of a workflow maps its occurrences. -/

section Mapped
variable (f : String → String)

mutual

theorem texts_mapTexts (value : Json) : texts (mapTexts f value) = (texts value).map f := by
  cases value with
  | arr items => exact textsOfItems_map items
  | obj fields => exact textsOfFields_map fields
  | _ => rfl

theorem textsOfItems_map (items : List Json) :
    textsOfItems (mapTextItems f items) = (textsOfItems items).map f := by
  cases items with
  | nil => rfl
  | cons item rest => simp [mapTextItems, textsOfItems, texts_mapTexts item, textsOfItems_map rest]

theorem textsOfFields_map (fields : Fields) :
    textsOfFields (mapTextFields f fields) = (textsOfFields fields).map f := by
  cases fields with
  | nil => rfl
  | cons field rest =>
    simp [mapTextFields, textsOfFields, texts_mapTexts field.2, textsOfFields_map rest]

end

section Values
variable (available : List String) (item : Bool)

theorem valueOccurrences_map (value : Json) :
    valueOccurrences (available.map f) item (mapTexts f value) =
      (valueOccurrences available item value).map (mapOccurrence f) := by
  simp [valueOccurrences, texts_mapTexts, mapOccurrence]

theorem operandOccurrences_map (operand : WorkflowConditionOperand) :
    operandOccurrences (available.map f) item (mapOperand f operand) =
      (operandOccurrences available item operand).map (mapOccurrence f) := by
  cases operand <;> rfl

mutual

theorem conditionOccurrences_map (condition : WorkflowCondition) :
    conditionOccurrences (available.map f) item (mapCondition f condition) =
      (conditionOccurrences available item condition).map (mapOccurrence f) := by
  cases condition with
  | eq left right | isIn left right =>
    simp [mapCondition, conditionOccurrences, operandOccurrences_map]
  | all conditions | any conditions => exact conditionsOccurrences_map conditions
  | not condition => exact conditionOccurrences_map condition

theorem conditionsOccurrences_map (conditions : List WorkflowCondition) :
    conditionsOccurrences (available.map f) item (mapConditions f conditions) =
      (conditionsOccurrences available item conditions).map (mapOccurrence f) := by
  cases conditions with
  | nil => rfl
  | cons condition rest =>
    simp [mapConditions, conditionsOccurrences, conditionOccurrences_map condition,
      conditionsOccurrences_map rest]

end

theorem branchOccurrences_map (condition : BranchCondition) :
    branchOccurrences (available.map f) item (mapBranchCondition f condition) =
      (branchOccurrences available item condition).map (mapOccurrence f) := by
  cases condition with
  | reference value => rfl
  | structured bounded => exact conditionOccurrences_map f available item bounded.condition

end Values

mutual

theorem stepOccurrences_map (available : List String) (item : Bool) (step : WorkflowStep) :
    stepOccurrences (available.map f) item (mapStep f step) =
      (stepOccurrences available item step).map (mapOccurrence f) := by
  cases step with
  | call id operation arguments =>
    exact valueOccurrences_map f available item (.obj arguments)
  | pick id value fields | redact id value fields | emit id value =>
    exact valueOccurrences_map f available item value
  | map id items expression maxItems | filter id items expression maxItems =>
    simp [mapStep, stepOccurrences, valueOccurrences_map, mapOccurrence]
  | assert id condition message => rfl
  | branch id condition thenSteps elseSteps =>
    simp [mapStep, stepOccurrences, branchOccurrences_map, workflowOccurrences_map _ _ thenSteps,
      workflowOccurrences_map _ _ elseSteps]
  | parallel id children => exact childrenOccurrences_map available item children
  | «foreach» id items itemName maxItems workflow =>
    simp [mapStep, stepOccurrences, valueOccurrences_map, workflowOccurrences_map _ _ workflow]

theorem workflowOccurrences_map (available : List String) (item : Bool)
    (steps : List WorkflowStep) :
    workflowOccurrences (available.map f) item (mapSteps f steps) =
      (workflowOccurrences available item steps).map (mapOccurrence f) := by
  cases steps with
  | nil => rfl
  | cons step rest =>
    have hstored : (step.id.map f).toList ++ available.map f =
        (step.id.toList ++ available).map f := by
      cases step.id <;> rfl
    simp only [mapSteps, workflowOccurrences, mapStep_id, List.map_append]
    rw [stepOccurrences_map, hstored, workflowOccurrences_map]

theorem childrenOccurrences_map (available : List String) (item : Bool)
    (children : List WorkflowStep) :
    childrenOccurrences (available.map f) item (mapSteps f children) =
      (childrenOccurrences available item children).map (mapOccurrence f) := by
  cases children with
  | nil => rfl
  | cons child rest =>
    simp [mapSteps, childrenOccurrences, stepOccurrences_map _ _ child,
      childrenOccurrences_map _ _ rest]

end

end Mapped

/-! A capability that shows an order and an action that copies one. -/

def readOrder : Operation where
  kind := .read
  id := "read-order"
  inputSchema := [("type", .str "object")]
  outputSchema := [("type", .str "object")]
  http :=
    { method := "GET"
      scopes := ["orders.read"]
      safety := ⟨.read, .low, .reversible, .never, .unsupported, .notSupported⟩ }
  contextBindings := []
  evidence := []
  effect_read := read_effect_read

def copyOrder : Operation where
  kind := .action
  id := "copy-order"
  inputSchema := [("type", .str "object")]
  outputSchema := [("type", .str "object")]
  http :=
    { method := "POST"
      scopes := ["orders.write"]
      safety := ⟨.create, .low, .reversible, .never, .sourceKey (.header "Idempotency-Key"),
        .notSupported⟩ }
  contextBindings := []
  evidence := []
  effect_read := by decide

def orderOperations : Operations := [("read-order", readOrder), ("copy-order", copyOrder)]

def orderPolicy : Policies.Policy where
  id := "orders"
  requiredScopes := []
  tenantMode := .none
  tenantField := none
  readableFields := ["$.id"]
  deniedFields := []
  redactionRules := []

def showOrder : ReadCapability where
  id := "show-order"
  inputSchema := [("type", .str "object")]
  outputSchema := [("type", .str "object")]
  policy := "orders"
  evals := []
  workflow :=
    [.call (some "order") "read-order" [("id", .str "$.input.id")],
      .emit none (.str "$.steps.order")]

def copyOrderCapability : ActionCapability where
  id := "copy-order"
  inputSchema := [("type", .str "object")]
  outputSchema := [("type", .str "object")]
  policy := "orders"
  evals := []
  action := ⟨.single, .notRequired, none⟩
  previewWorkflow := showOrder.workflow
  commitWorkflow :=
    [.call (some "copy") "copy-order" [("id", .str "$.prepared.input.id")],
      .emit none (.str "$.steps.copy")]

/-! Executions. -/

def readDefinition (capability : ReadCapability) : CapabilityDefinition :=
  ⟨capability.inputSchema, capability.outputSchema, capability.workflow⟩

def previewDefinition (capability : ActionCapability) : CapabilityDefinition :=
  ⟨capability.inputSchema, capability.outputSchema, capability.previewWorkflow⟩

def commitDefinition (capability : ActionCapability) : CapabilityDefinition :=
  ⟨preparedInputSchema capability.inputSchema, capability.outputSchema,
    rewritePrepared capability.commitWorkflow⟩

/-- No execution by the workflow executor raises a reference error but for absent data. -/
def ReferenceSafe (capabilityId : String) (definition : CapabilityDefinition) : Prop :=
  ∀ schemas settings operations input events reached error,
    Process.Run (execute (workflowExecutor schemas settings operations capabilityId) definition
      input) events reached →
    Process.Raises (.execution error) reached → error.ReferenceSafe

theorem referenceSafe_of_resolvable {capabilityId : String} {definition : CapabilityDefinition}
    (h : ∀ x ∈ workflowOccurrences [] false definition.workflow, Resolvable x) :
    ReferenceSafe capabilityId definition := by
  intro schemas settings operations input events reached error hrun hraises
  have hsafe := safe_execute _
    (transparent_workflowExecutor schemas settings operations capabilityId) definition h input
  have hreached := (hsafe.run hrun).1
  exact hreached.of_raises hraises

/-- What is compiled without errors is executed without reference errors: read workflows, preview
workflows and commit workflows, as the runtime rewrites them. -/
theorem referenceSafe_of_compiled :
    (∀ capability catalog policies targets,
      errorFree (compileCapability capability catalog policies targets).2 = true →
        ReferenceSafe capability.id (readDefinition capability)) ∧
    ∀ isValid capability operations actionSemantics policies targets,
      errorFree (compileActionCapability isValid capability operations actionSemantics policies
        targets).2 = true →
        ReferenceSafe capability.id (previewDefinition capability) ∧
          ReferenceSafe capability.id (commitDefinition capability) := by
  constructor
  · intro capability catalog policies targets h
    have haccepted := accepted_of_compileCapability h
    exact referenceSafe_of_resolvable fun x hx => resolvable_of_accepted (haccepted x hx)
  · intro isValid capability operations actionSemantics policies targets h
    obtain ⟨hproved, hpreview, hcommit⟩ := accepted_of_compileActionCapability h
    refine ⟨referenceSafe_of_resolvable fun x hx => resolvable_of_accepted (hpreview x hx),
      referenceSafe_of_resolvable fun x hx => ?_⟩
    have hmapped := workflowOccurrences_map rewriteText [] false capability.commitWorkflow
    change x ∈ workflowOccurrences (List.map rewriteText []) false
      (mapSteps rewriteText capability.commitWorkflow) at hx
    rw [hmapped] at hx
    obtain ⟨y, hy, rfl⟩ := List.mem_map.mp hx
    exact resolvable_of_rewritten (hcommit y hy)
      (hproved.commitPrepared y.text (text_mem_of_workflowOccurrences _ hy))

theorem referenceSafe_of_compiled_orders :
    ReferenceSafe "show-order" (readDefinition showOrder) ∧
      ReferenceSafe "copy-order" (commitDefinition copyOrderCapability) :=
  ⟨referenceSafe_of_compiled.1 showOrder (catalogOf orderOperations) ["orders"] [] (by decide),
    (referenceSafe_of_compiled.2 (fun _ _ => true) copyOrderCapability orderOperations []
      [("orders", orderPolicy)] [] (by decide)).2⟩

end CapabilityCompiler.Actions
