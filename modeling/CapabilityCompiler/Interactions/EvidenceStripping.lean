import CapabilityCompiler.Foundation.JsonEquality
import CapabilityCompiler.Interactions.Contracts

/-! The compilation of an interaction contract removes evidence by the name of its field. Declared data
that has this name as a key loses it too. -/
namespace CapabilityCompiler.Interactions
open Foundation Json

/-! What is public. -/

def candidatePublicTargets (contract : CapabilityInteractionContract) : List String :=
  let trusted := contract.trustedInputBindings.map (·.targetPointer)
  (contract.publicInputBindings.map (·.targetPointer) ++ contract.defaults.map (·.targetPointer) ++
    contract.optionSources.map (·.targetPointer)).filter (· ∉ trusted)

def publicConditions (contract : CapabilityInteractionContract) : List EvidencedCondition :=
  let targets := candidatePublicTargets contract
  contract.conditions.filter fun condition => decide (condition.targetPointer ∈ targets) &&
    (iterConditionReferences condition.expression).all (· ∈ targets)

/-- A client supplies the value of the binding. -/
def suppliedByClient : BindingSource → Bool
  | .userInput => true
  | .routeParameter => true
  | .selectedRecord => true
  | .priorResponse => true
  | .userPreference => true
  | _ => false

def publicRequestBinding (targets : List String) (binding : InputBinding) : Bool :=
  suppliedByClient binding.sourceKind && binding.sourcePointer.any (· ∈ targets) &&
    binding.literalValue.isNone

def optionSourceIsPublic (source : OptionSource) (targets : List String) : Bool :=
  decide (source.sourceKind ≠ .operation) && decide (source.targetPointer ∈ targets) &&
    source.cascadeDependencies.all (· ∈ targets) &&
    source.requestBindings.all (publicRequestBinding targets)

def publicOptionSources (contract : CapabilityInteractionContract) : List OptionSource :=
  contract.optionSources.filter fun source =>
    optionSourceIsPublic source (candidatePublicTargets contract)

/-- Defaults that callers may see. -/
def isPublicDefault (default : InteractionDefault) : Bool :=
  decide (default.sourceKind = .literal ∧ default.authority ≠ .observation ∧
    default.precedence = .callerOverDefault ∧ default.submission = .send ∧
    default.overridePolicy = .callerAllowed)

def publicDefaults (contract : CapabilityInteractionContract) : List InteractionDefault :=
  contract.defaults.filter fun default =>
    decide (default.targetPointer ∈ candidatePublicTargets contract) && isPublicDefault default

/-! Compiling. -/

/-- The request bindings of a public source show less than they declare. -/
def publicOptionRequestBinding (binding : InputBinding) : Dump :=
  .model [("cardinality", .text binding.cardinality.name), ("id", .text binding.id),
    ("mapping", mappingModel binding.mapping), ("source_kind", .text binding.sourceKind.name),
    ("source_pointer", .optionalText binding.sourcePointer),
    ("target_pointer", .text binding.targetPointer)]

def OptionSource.publicModel (source : OptionSource) : Dump :=
  source.modelWith (source.requestBindings.map publicOptionRequestBinding)

/-- Objects without their evidence, sorted. -/
def withoutEvidence (value : Json) : Json := (stripKeys ["evidence"] value).keySorted

def normalizeJson (value : Json) : Json := value.keySorted

def compiledValues (models : List Dump) : List Json :=
  models.map fun model => withoutEvidence (normalizeJson model.toJson)

def publicDefault (default : InteractionDefault) : Json :=
  .obj [("id", .str default.id), ("source_kind", .str "literal"),
    ("target_pointer", .str default.targetPointer), ("value", default.value)]

structure CompiledContract where
  conditions : List Json
  defaults : List Json
  optionSources : List Json
  publicInputBindings : List Json
  resultConsumption : List Json

/-- The compiled parts of a contract; whether the presentation of a result is proven depends on its
capability. -/
def compileContract (presentationIsProven : ResultConsumption → Bool)
    (contract : CapabilityInteractionContract) : CompiledContract where
  conditions := compiledValues ((publicConditions contract).map EvidencedCondition.model)
  defaults := (publicDefaults contract).map publicDefault
  optionSources := compiledValues ((publicOptionSources contract).map OptionSource.publicModel)
  publicInputBindings := compiledValues (contract.publicInputBindings.map InputBinding.model)
  resultConsumption := compiledValues
    ((contract.resultConsumption.filter presentationIsProven).map ResultConsumption.model)

/-! What stripping should do. -/

/-- The models without their evidence, and nothing else. -/
def evidenceRemoved (models : List Dump) : List Json :=
  models.map fun model => (model.withoutFields ["evidence"]).toJson.keySorted

/-- The compiled parts are the public ones without evidence; literals are those declared. -/
structure OnlyEvidenceRemoved (presentationIsProven : ResultConsumption → Bool)
    (contract : CapabilityInteractionContract) : Prop where
  conditions : (compileContract presentationIsProven contract).conditions =
    evidenceRemoved ((publicConditions contract).map EvidencedCondition.model)
  defaults : (compileContract presentationIsProven contract).defaults.map (Json.get? "value") =
    (publicDefaults contract).map fun default => some default.value
  optionSources : (compileContract presentationIsProven contract).optionSources =
    evidenceRemoved ((publicOptionSources contract).map OptionSource.publicModel)
  publicInputBindings : (compileContract presentationIsProven contract).publicInputBindings =
    evidenceRemoved (contract.publicInputBindings.map InputBinding.model)
  resultConsumption : (compileContract presentationIsProven contract).resultConsumption =
    evidenceRemoved
      ((contract.resultConsumption.filter presentationIsProven).map ResultConsumption.model)

def InputMapping.literals (mapping : InputMapping) : List Json := [.obj mapping.mapping]

def mappingLiterals : Option InputMapping → List Json
  | some mapping => mapping.literals
  | none => []

def InputBinding.literals (binding : InputBinding) : List Json :=
  mappingLiterals binding.mapping ++ binding.literalValue.toList

def OptionSource.literals (source : OptionSource) : List Json :=
  source.staticOptions.map (·.value) ++
    source.requestBindings.flatMap fun binding => mappingLiterals binding.mapping

/-- The declared values in the public parts, other than defaults. -/
def CapabilityInteractionContract.literals (contract : CapabilityInteractionContract) : List Json :=
  ((publicConditions contract).flatMap fun condition => condition.expression.literals) ++
    (publicOptionSources contract).flatMap OptionSource.literals ++
    contract.publicInputBindings.flatMap InputBinding.literals

section Stripping
variable {names : List String}

/-- No value has one of the names as a key. -/
def AllLack (names : List String) (values : List Json) : Prop :=
  ∀ value ∈ values, lacksKeys names value = true

theorem allLack_append {first second : List Json} :
    AllLack names (first ++ second) ↔ AllLack names first ∧ AllLack names second :=
  List.forall_mem_append

theorem allLack_flatMap {α : Type} {f : α → List Json} {items : List α} :
    AllLack names (items.flatMap f) ↔ ∀ item ∈ items, AllLack names (f item) := by
  simp only [AllLack, List.mem_flatMap]
  exact ⟨fun h item hitem value hvalue => h value ⟨item, hitem, hvalue⟩,
    fun h value ⟨item, hitem, hvalue⟩ => h item hitem value hvalue⟩

/-- The names of the fields between an expression and its literals. -/
def expressionFields : List String := ["operands", "operand", "left", "right", "value"]

theorem ConditionOperand.intact_iff (hnames : ∀ name ∈ expressionFields, name ∉ names)
    (operand : ConditionOperand) :
    operand.model.intact names = true ↔ AllLack names operand.literals := by
  have hvalue := hnames "value" (by decide)
  cases operand with
  | reference pointer => simp [ConditionOperand.model, Dump.intact, Dump.fieldsIntact,
      ConditionOperand.literals, AllLack]
  | literal value => simp [ConditionOperand.model, Dump.intact, Dump.fieldsIntact,
      ConditionOperand.literals, AllLack, hvalue]

theorem operandModels_eq (operands : List ConditionExpression) :
    operandModels operands = operands.map ConditionExpression.model := by
  induction operands with
  | nil => rfl
  | cons operand rest ih => rw [operandModels, ih, List.map_cons]

theorem operandLiterals_eq (operands : List ConditionExpression) :
    operandLiterals operands = operands.flatMap ConditionExpression.literals := by
  induction operands with
  | nil => rfl
  | cons operand rest ih => rw [operandLiterals, ih, List.flatMap_cons]

theorem ConditionExpression.intact_iff (hnames : ∀ name ∈ expressionFields, name ∉ names)
    (expression : ConditionExpression) :
    expression.model.intact names = true ↔ AllLack names expression.literals := by
  have hoperands := hnames "operands" (by decide)
  have hoperand := hnames "operand" (by decide)
  have hleft := hnames "left" (by decide)
  have hright := hnames "right" (by decide)
  induction expression with
  | all operands ih =>
    simp [ConditionExpression.model, ConditionExpression.literals, Dump.intact, Dump.fieldsIntact,
      hoperands, Dump.itemsIntact_iff, operandModels_eq, operandLiterals_eq, allLack_flatMap]
    exact forall₂_congr ih
  | any operands ih =>
    simp [ConditionExpression.model, ConditionExpression.literals, Dump.intact, Dump.fieldsIntact,
      hoperands, Dump.itemsIntact_iff, operandModels_eq, operandLiterals_eq, allLack_flatMap]
    exact forall₂_congr ih
  | not operand ih =>
    simpa [ConditionExpression.model, ConditionExpression.literals, Dump.intact, Dump.fieldsIntact,
      hoperand] using ih
  | comparison operator left right =>
    simp [ConditionExpression.model, ConditionExpression.literals, Dump.intact, Dump.fieldsIntact,
      hleft, hright, allLack_append, ConditionOperand.intact_iff hnames]
  | present operand =>
    simp [ConditionExpression.model, ConditionExpression.literals, Dump.intact, Dump.fieldsIntact,
      hoperand, ConditionOperand.intact_iff hnames]

theorem mappingModel_intact_iff (hnames : "mapping" ∉ names) (mapping : Option InputMapping) :
    (mappingModel mapping).intact names = true ↔ AllLack names (mappingLiterals mapping) := by
  cases mapping with
  | none => simp [mappingModel, mappingLiterals, AllLack, Dump.intact, lacksKeys]
  | some mapping => simp [mappingModel, mappingLiterals, AllLack, Dump.intact, Dump.fieldsIntact,
      InputMapping.model, InputMapping.literals, hnames]

end Stripping

/-! Compiled contracts. -/

theorem compiledValues_eq_iff {models : List Dump} :
    compiledValues models = evidenceRemoved models ↔
      ∀ model ∈ models, model.intact ["evidence"] = true := by
  rw [compiledValues, evidenceRemoved, List.map_inj_left]
  refine forall₂_congr fun model _ => ?_
  rw [withoutEvidence, normalizeJson, keySorted_stripKeys_keySorted,
    Dump.keySorted_stripKeys_toJson_iff]

theorem EvidencedCondition.intact_iff (condition : EvidencedCondition) :
    condition.model.intact ["evidence"] = true ↔
      AllLack ["evidence"] condition.expression.literals := by
  rw [← ConditionExpression.intact_iff (by decide)]
  simp [EvidencedCondition.model, Dump.intact, Dump.fieldsIntact]

theorem InputBinding.intact_iff (binding : InputBinding) :
    binding.model.intact ["evidence"] = true ↔ AllLack ["evidence"] binding.literals := by
  rw [InputBinding.literals, allLack_append, ← mappingModel_intact_iff (by decide)]
  cases hvalue : binding.literalValue <;>
    simp [InputBinding.model, Dump.intact, Dump.fieldsIntact, hvalue, AllLack, lacksKeys]

theorem StaticOption.intact_iff (option : StaticOption) :
    option.model.intact ["evidence"] = true ↔ lacksKeys ["evidence"] option.value = true := by
  simp [StaticOption.model, Dump.intact, Dump.fieldsIntact, lacksKeys]

theorem publicOptionRequestBinding_intact_iff (binding : InputBinding) :
    (publicOptionRequestBinding binding).intact ["evidence"] = true ↔
      AllLack ["evidence"] (mappingLiterals binding.mapping) := by
  rw [← mappingModel_intact_iff (by decide)]
  simp [publicOptionRequestBinding, Dump.intact, Dump.fieldsIntact]

theorem OptionSource.intact_iff (source : OptionSource) :
    source.publicModel.intact ["evidence"] = true ↔ AllLack ["evidence"] source.literals := by
  have hseconds : lacksKeys ["evidence"] (secondsJson source.maxAgeSeconds) = true := by
    cases source.maxAgeSeconds <;> rfl
  rw [OptionSource.literals, allLack_append, allLack_flatMap]
  simp [OptionSource.publicModel, OptionSource.modelWith, Dump.intact, Dump.fieldsIntact,
    Dump.itemsIntact_iff, hseconds, StaticOption.intact_iff,
    publicOptionRequestBinding_intact_iff, AllLack]

theorem ResultConsumption.intact (consumption : ResultConsumption) :
    consumption.model.intact ["evidence"] = true := by
  simp [ResultConsumption.model, Dump.intact, Dump.fieldsIntact]

/-- Only evidence is removed just when no declared value has a key with its name. -/
theorem onlyEvidenceRemoved_iff {presentationIsProven : ResultConsumption → Bool}
    {contract : CapabilityInteractionContract} :
    OnlyEvidenceRemoved presentationIsProven contract ↔
      AllLack ["evidence"] contract.literals := by
  have hconditions : (∀ model ∈ (publicConditions contract).map EvidencedCondition.model,
      model.intact ["evidence"] = true) ↔ AllLack ["evidence"]
        ((publicConditions contract).flatMap fun condition => condition.expression.literals) := by
    rw [allLack_flatMap, List.forall_mem_map]
    exact forall₂_congr fun condition _ => condition.intact_iff
  have hsources : (∀ model ∈ (publicOptionSources contract).map OptionSource.publicModel,
      model.intact ["evidence"] = true) ↔ AllLack ["evidence"]
        ((publicOptionSources contract).flatMap OptionSource.literals) := by
    rw [allLack_flatMap, List.forall_mem_map]
    exact forall₂_congr fun source _ => source.intact_iff
  have hbindings : (∀ model ∈ contract.publicInputBindings.map InputBinding.model,
      model.intact ["evidence"] = true) ↔ AllLack ["evidence"]
        (contract.publicInputBindings.flatMap InputBinding.literals) := by
    rw [allLack_flatMap, List.forall_mem_map]
    exact forall₂_congr fun binding _ => binding.intact_iff
  rw [CapabilityInteractionContract.literals, allLack_append, allLack_append, ← hconditions,
    ← hsources, ← hbindings, ← compiledValues_eq_iff, ← compiledValues_eq_iff,
    ← compiledValues_eq_iff]
  constructor
  · intro h
    exact ⟨⟨h.conditions, h.optionSources⟩, h.publicInputBindings⟩
  · rintro ⟨⟨hconditions, hsources⟩, hbindings⟩
    refine ⟨hconditions, ?_, hsources, hbindings, compiledValues_eq_iff.mpr ?_⟩
    · rw [compileContract, List.map_map]
      rfl
    · intro model hmodel
      obtain ⟨consumption, -, rfl⟩ := List.mem_map.mp hmodel
      exact consumption.intact

end CapabilityCompiler.Interactions
