import CapabilityCompiler.Compiler.SchemaWalks
import CapabilityCompiler.Errors
import CapabilityCompiler.Usage.Models

/-! The analysis of the input bindings of a usage contract against the compiled schemas of an
accepted release. The schemas are frozen: their arrays are tuples and their objects are read-only
views, which the walk along a pointer accepts as sequences and mappings. -/
namespace CapabilityCompiler.Usage
open Foundation Foundation.Json Contracts
open Compiler (pointerTokens spelled valueAt)

/-! JSON Pointers. -/

/-- Every tilde stands before a zero or a one. -/
def escapesValid : List Char → Bool
  | '~' :: '0' :: rest => escapesValid rest
  | '~' :: '1' :: rest => escapesValid rest
  | '~' :: _ => false
  | _ :: rest => escapesValid rest
  | [] => true

def validateJsonPointer (value : String) : Bool :=
  Text.hasPrefix "/" value && (Text.splitChars '/' value.toList).tail.all escapesValid

structure JsonPointer where
  text : String
  valid : validateJsonPointer text = true

/-- `_read_pointer` of the evaluator: the value of a document at a pointer. -/
def readPointer (document : Json) (pointer : JsonPointer) : Option Json :=
  valueAt Text.decimal? document (pointerTokens pointer.text)

/-! Frozen schemas. -/

theorem hasKey_of_eq_none {keyword : String} {fields : Fields} (h : field? keyword fields = none) :
    hasKey keyword fields = false := by
  rw [hasKey, h]
  rfl

/-- Follow local references, whatever stands beside them. Every step of it meets a new reference, so
as many steps as the root has positions are enough. -/
def resolveFrom (root : Fields) : ℕ → List String → Json → Option ResolvedSchema
  | fuel + 1, seen, .obj fields =>
    match hreference : field? "$ref" fields with
    | none => some ⟨fields, hasKey_of_eq_none hreference⟩
    | some (.str reference) =>
      if !Text.hasPrefix "#/" reference || reference ∈ seen then none
      else (spelled root reference).bind (resolveFrom root fuel (reference :: seen))
    | some _ => none
  | _, _, _ => none

def resolveSchema (root : Fields) (schema : Json) : Option ResolvedSchema :=
  resolveFrom root ((positions (.obj root)).length + 2) [] schema

def schemaAtTokens (root : Fields) : Json → List String → Option ResolvedSchema
  | current, [] => resolveSchema root current
  | current, token :: rest => (resolveSchema root current).bind fun schema =>
    if field? "type" schema.fields = some (.str "array") then
      match Text.decimal? token, field? "items" schema.fields with
      | some _, some (.obj items) => schemaAtTokens root (.obj items) rest
      | _, _ => none
    else match field? "properties" schema.fields with
      | some (.obj properties) =>
        match field? token properties with
        | some (.obj property) => schemaAtTokens root (.obj property) rest
        | _ => none
      | _ => none

def schemaAtPointer (schema : Fields) (pointer : JsonPointer) : Option ResolvedSchema :=
  schemaAtTokens schema (.obj schema) (pointerTokens pointer.text)

def guaranteedAtTokens (root : Fields) : Json → List String → Bool
  | current, [] => (resolveSchema root current).isSome
  | current, token :: rest =>
    match resolveSchema root current with
    | none => false
    | some schema =>
      if field? "type" schema.fields = some (.str "array") then
        match Text.decimal? token, field? "minItems" schema.fields,
          field? "items" schema.fields with
        | some index, some (.int minimum), some (.obj items) =>
          decide ((index : ℤ) < minimum) && guaranteedAtTokens root (.obj items) rest
        | _, _, _ => false
      else match field? "properties" schema.fields, field? "required" schema.fields with
        | some (.obj properties), some (.arr required) =>
          match field? token properties with
          | some (.obj property) =>
            decide (.str token ∈ required) && guaranteedAtTokens root (.obj property) rest
          | _ => false
        | _, _ => false

def schemaPointerIsGuaranteed (schema : Fields) (pointer : JsonPointer) : Bool :=
  guaranteedAtTokens schema (.obj schema) (pointerTokens pointer.text)

/-! Bindings. -/

/-- A binding with the places of its value; its mapping is kept as the document it is. -/
structure PlacedBinding extends UsageStepBinding where
  sourcePointer : JsonPointer
  targetPointer : JsonPointer
  mapping : Option Json

def usageError (code message pointer : String) : Diagnostic where
  code := code
  message := message
  path := "domain-usage-contracts"
  pointer := pointer

section Analysis
variable (isValid : Json → Json → Bool) (definitions : String → Option Fields)

/-- The trust boundary: handles come from steps, and the approval handle from the runtime. -/
def trustProblems (pointer : String) (binding : PlacedBinding) : List Diagnostic :=
  (if (binding.sourceKind = .publicInput ∨ binding.sourceKind = .routeInput) ∧
      binding.valueKind ≠ .publicValue then
    [usageError "ACC_USAGE_TRUST_BOUNDARY_INVALID"
      "Public input cannot construct trusted Action or approval handles."
      (pointer ++ "/value_kind")] else []) ++
  (if binding.sourceKind = .trustedContext ∧ binding.valueKind ≠ .approvalHandle then
    [usageError "ACC_USAGE_TRUST_BOUNDARY_INVALID"
      "Trusted context is reserved for the runtime-owned approval handle."
      (pointer ++ "/value_kind")] else [])

/-- What the producer's schema shows at the source pointer against what the consumer's schema asks
for at the target pointer. -/
def compareBinding (pointer : String) (binding : PlacedBinding) (sourceSchema targetSchema : Fields) :
    List Diagnostic :=
  match schemaAtPointer sourceSchema binding.sourcePointer,
    schemaPointerIsGuaranteed sourceSchema binding.sourcePointer with
  | some selectedSource, true =>
    match schemaAtPointer targetSchema binding.targetPointer with
    | none => [usageError "ACC_USAGE_BINDING_TARGET_INVALID"
        "A binding target is not declared by its consumer schema." (pointer ++ "/target_pointer")]
    | some selectedTarget =>
      if binding.mapping.isSome then
        [usageError "ACC_USAGE_BINDING_MAPPING_UNPROVEN"
          "A transformed binding requires an independently proven output schema."
          (pointer ++ "/mapping")]
      else if (compareFrozen isValid selectedSource selectedTarget).relation ≠ .proven then
        [usageError "ACC_USAGE_BINDING_SCHEMA_UNPROVEN"
          "A producer output is not proven compatible with its consumer input."
          (pointer ++ "/target_pointer")]
      else []
  | _, _ => [usageError "ACC_USAGE_BINDING_SOURCE_NOT_GUARANTEED"
      "A prior-step output binding is not guaranteed by its producer schema."
      (pointer ++ "/source_pointer")]

def schemaProblems (pointer : String) (binding : PlacedBinding) : List Diagnostic :=
  if binding.sourceKind ≠ .priorStepOutput then []
  else match binding.sourceStepId.bind definitions, definitions binding.consumerStepId with
    | some source, some consumer =>
      match field? "output_schema" source, field? "input_schema" consumer with
      | some (.obj sourceSchema), some (.obj targetSchema) =>
        compareBinding isValid pointer binding sourceSchema targetSchema
      | _, _ =>
        [usageError "ACC_USAGE_COMPILED_IR_INVALID" "A compiled Tool schema is invalid." ""]
    | _, _ => []

def analyzeBinding (index : ℕ) (binding : PlacedBinding) : List Diagnostic :=
  let pointer := "/input_bindings/" ++ toString index
  trustProblems pointer binding ++ schemaProblems isValid definitions pointer binding

/-- The definitions are the compiled capabilities of the steps that have one. -/
def analyzeBindings (bindings : List PlacedBinding) : List Diagnostic :=
  bindings.zipIdx.flatMap fun entry => analyzeBinding isValid definitions entry.2 entry.1

end Analysis

end CapabilityCompiler.Usage
