import CapabilityCompiler.Contracts.Termination
import CapabilityCompiler.Foundation.JsonText
import CapabilityCompiler.Foundation.Table
import CapabilityCompiler.Foundation.Unfolding

/-! The static estimate of the size of an output. The recursive calls of the estimate are the parts
of an unfolding, in the order in which they are made. -/
namespace CapabilityCompiler.Quality
open Foundation Foundation.Json Contracts

inductive EstimateStatus where
  | provenBounded
  | unknown
deriving DecidableEq

structure OutputSizeEstimate where
  status : EstimateStatus
  maxBytes : Option ℕ
  unknownPointers : List String
deriving DecidableEq

def nonAssertionRefSiblings : List String := annotationKeywords

def bounded (maxBytes : ℕ) : OutputSizeEstimate := ⟨.provenBounded, some maxBytes, []⟩

def unknown (pointers : List String) : OutputSizeEstimate :=
  ⟨.unknown, none, Text.sortedSet pointers⟩

/-- The number of bytes of the canonical text. A document of the model always has one. -/
def canonicalSize (printer : Printer) (value : Json) : ℕ := (printer.dumps value).utf8ByteSize

def largestCanonical (printer : Printer) (values : List Json) : OutputSizeEstimate :=
  bounded ((values.map (canonicalSize printer)).max?.getD 0)

def pointersOf (estimates : List OutputSizeEstimate) : List String :=
  estimates.flatMap OutputSizeEstimate.unknownPointers

def bounds (estimates : List OutputSizeEstimate) : List ℕ :=
  estimates.filterMap OutputSizeEstimate.maxBytes

def combineUnion (estimates : List OutputSizeEstimate) : OutputSizeEstimate :=
  if pointersOf estimates ≠ [] then unknown (pointersOf estimates)
  else bounded ((bounds estimates).max?.getD 0)

def combineAll (estimates : List OutputSizeEstimate) : OutputSizeEstimate :=
  if pointersOf estimates ≠ [] then unknown (pointersOf estimates)
  else bounded ((bounds estimates).min?.getD 0)

def estimateInteger (schema : Fields) (pointer : String) : OutputSizeEstimate :=
  match field? "minimum" schema, field? "maximum" schema with
  | some (.int minimum), some (.int maximum) =>
    if maximum < minimum then bounded 0
    else bounded (max (toString minimum).length (toString maximum).length)
  | _, _ => unknown [child pointer "minimum", child pointer "maximum"]

def estimateString (schema : Fields) (pointer : String) : OutputSizeEstimate :=
  if field? "format" schema = some (.str "binary") then unknown [child pointer "format"]
  else match field? "maxLength" schema with
    | some (.int maxLength) =>
      if maxLength < 0 then unknown [child pointer "maxLength"]
      else bounded (2 + 6 * maxLength.toNat)
    | _ => unknown [child pointer "maxLength"]

/-- What a property adds to the size of an object: name, colon, value, and a comma behind another. -/
def propertySize (index : ℕ) (name : String) (estimate : OutputSizeEstimate) : ℕ :=
  match estimate.maxBytes with
  | some maxBytes =>
    (Printer.quote name).utf8ByteSize + 1 + maxBytes + (if index = 0 then 0 else 1)
  | none => 0

def combineProperties (names : List String) (estimates : List OutputSizeEstimate) :
    OutputSizeEstimate :=
  if pointersOf estimates ≠ [] then unknown (pointersOf estimates)
  else bounded (2 + ((names.zip estimates).mapIdx fun index p => propertySize index p.1 p.2).sum)

def combineArray (maxItems : ℕ) (estimate : OutputSizeEstimate) : OutputSizeEstimate :=
  match estimate.status, estimate.maxBytes with
  | .provenBounded, some maxBytes => bounded (2 + maxItems * maxBytes + (maxItems - 1))
  | _, _ => estimate

/-- The arguments of a recursive call. -/
structure EstimateCall where
  rawSchema : Json
  pointer : String
  resolving : List String

abbrev EstimateParts := Unfolding EstimateCall OutputSizeEstimate

section Estimate
variable (printer : Printer) (root : Json) (schema : Fields) (pointer : String)
  (resolving : List String)

def isNonemptyObject : Option Json → Bool
  | some (.obj (_ :: _)) => true
  | _ => false

def estimateObject : EstimateParts :=
  if subschemaOf schema "additionalProperties" ≠ .bool false then
    .done (unknown [child pointer "additionalProperties"])
  else if isNonemptyObject (field? "patternProperties" schema) then
    .done (unknown [child pointer "patternProperties"])
  else match propertiesOf schema with
    | .obj properties =>
      let names := Text.sortedSet (properties.map Prod.fst)
      .parts (names.filterMap fun name => (field? name properties).map fun propertySchema =>
        ⟨propertySchema, child (child pointer "properties") name, resolving⟩)
        (combineProperties names)
    | _ => .done (unknown [child pointer "properties"])

def estimateArray : EstimateParts :=
  match field? "maxItems" schema with
  | some (.int maxItems) =>
    if maxItems < 0 then .done (unknown [child pointer "maxItems"])
    else if maxItems = 0 ∨ field? "items" schema = some (.bool false) then .done (bounded 2)
    else .next ⟨subschemaOf schema "items", child pointer "items", resolving⟩
      (combineArray maxItems.toNat)
  | _ => .done (unknown [child pointer "maxItems"])

def estimateReference (reference : Json) : EstimateParts :=
  match reference with
  | .str text =>
    if keywordsOutside ("$ref" :: nonAssertionRefSiblings) schema ≠ [] ∨ text ∈ resolving then
      .done (unknown [child pointer "$ref"])
    else match resolveLocalRef root reference with
      | none => .done (unknown [child pointer "$ref"])
      | some resolved => .next ⟨resolved.schema, pointer, text :: resolving⟩ id
  | _ => .done (unknown [child pointer "$ref"])

def branchCalls (keyword : String) (branches : List Json) : List EstimateCall :=
  branches.mapIdx fun index branch =>
    ⟨branch, child (child pointer keyword) (toString index), resolving⟩

def estimateType (type : Option Json) : EstimateParts :=
  match type with
  | some (.str "null") => .done (bounded 4)
  | some (.str "boolean") => .done (bounded 5)
  | some (.str "string") => .done (estimateString schema pointer)
  | some (.str "integer") => .done (estimateInteger schema pointer)
  | some (.str "array") => estimateArray schema pointer resolving
  | some (.str "object") => estimateObject schema pointer resolving
  | _ => .done (unknown [child pointer "type"])

/-- A list of types is estimated as the union of the schemas with one of the types. -/
def estimateTypes : EstimateParts :=
  match field? "type" schema with
  | some (.arr items) =>
    if allStrings items then
      .parts ((strings items).map fun item =>
        ⟨.obj (Table.put "type" (.str item) schema), pointer, resolving⟩) combineUnion
    else estimateType schema pointer resolving (some (.arr items))
  | type => estimateType schema pointer resolving type

def estimateCombinations : EstimateParts :=
  match unionBranches? schema with
  | some (keyword, branches) =>
    .parts (branchCalls pointer resolving keyword branches) combineUnion
  | none => match field? "allOf" schema with
    | some (.arr []) => .done (unknown [child pointer "allOf"])
    | some (.arr branches) => .parts (branchCalls pointer resolving "allOf" branches) combineAll
    | _ => estimateTypes schema pointer resolving

def estimateFields : EstimateParts :=
  -- a nested `$id` starts another document, whose references are not followed
  if pointer ≠ "" ∧ hasKey "$id" schema then .done (unknown [child pointer "$id"])
  else match field? "const" schema, field? "enum" schema with
    | some value, _ => .done (largestCanonical printer [value])
    | none, some (.arr values) => .done (largestCanonical printer values)
    | none, _ => match field? "$ref" schema with
      | some reference => estimateReference root schema pointer resolving reference
      | none => estimateCombinations schema pointer resolving

end Estimate

def estimate (printer : Printer) (root : Json) (call : EstimateCall) : EstimateParts :=
  match call.rawSchema with
  | .bool false => .done (bounded 0)
  | .obj schema => estimateFields printer root schema call.pointer call.resolving
  | _ => .done (unknown [if call.pointer = "" then "/type" else call.pointer])

/-- The texts a document holds as values. -/
def textsOf (value : Json) : List String :=
  (positions value).filterMap fun node => match at? value node with
    | some (.str text) => some text
    | _ => none

/-- The number of values a document is made of. -/
def extent (value : Json) : ℕ := (positions value).length

/-- Every reference that is not being resolved allows one more descent through the document. -/
def estimateMeasure (root : Json) (call : EstimateCall) : ℕ :=
  ((textsOf root).filter (· ∉ call.resolving)).length * (extent root + 1) + extent call.rawSchema

/-- More levels than the estimate of a schema can nest. -/
def estimateFuel (schema : Json) : ℕ := estimateMeasure schema ⟨schema, "", []⟩ + 1

def estimateOutputSize (printer : Printer) (schema : Json) : OutputSizeEstimate :=
  match Unfolding.eval (estimate printer schema) (estimateFuel schema) ⟨schema, "", []⟩ with
  | some result => result
  | none => unknown [""]

end CapabilityCompiler.Quality
