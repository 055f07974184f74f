import CapabilityCompiler.Contracts.SchemaRelation

/-! The subset check on deep-frozen schemas. A frozen schema object is handed over as a dictionary,
but the arrays in it are tuples and the objects in it are read-only views, so the checks for a list
or a dictionary see neither. -/
namespace CapabilityCompiler.Contracts
open Foundation Foundation.Json Foundation.Search

/-- What the checks for a list or a dictionary see of a frozen value. -/
def seen : Json → Json
  | .arr _ | .obj _ => .null
  | value => value

def seenFields (fields : Fields) : Fields := fields.map fun f => (f.1, seen f.2)

/-- A schema object without a reference of its own. -/
structure ResolvedSchema where
  fields : Fields
  plain : hasKey "$ref" fields = false

section Frozen
variable (l r : Fields)

/-- Only `const` leaves finitely many values, and no reference inside is seen. -/
def compareFiniteFrozen (isValid : Json → Json → Bool) : Option RelationReport :=
  (field? "const" l).map fun candidate =>
    if isValid (.obj l) candidate && !isValid (.obj r) candidate then
      finding .conflict "" "declared schema rejects a value permitted by the finite left schema"
    else provenReport

/-- No two values that are seen are both dictionaries. -/
def settleFrozen : Part → RelationReport
  | .report report => report
  | .goal c => (settle c).getD (finding .unknown c.pointer "schema form is not comparable")

def compareAssertionsFrozen : RelationReport :=
  combine ((compareAssertions ⟨[], .obj (seenFields l)⟩ ⟨[], .obj (seenFields r)⟩ (seenFields l)
    (seenFields r) "").map settleFrozen)

end Frozen

/-- `compare_operation_output` of two frozen schemas. Their unions and their `allOf` are tuples, so
the branches are not compared. -/
def compareFrozen (isValid : Json → Json → Bool) (left right : ResolvedSchema) : RelationReport :=
  let l := left.fields
  let r := right.fields
  if pyEqual (.obj l) (.obj r) then provenReport
  else match Text.sortedSet (keywordsOutside (handledKeywords ++ annotationKeywords) (l ++ r)) with
    | keyword :: _ => finding .unknown (child "" keyword)
        ("schema keyword is not supported by the conservative comparator: " ++ keyword)
    | [] =>
      if hasKey "anyOf" r || hasKey "oneOf" r then
        finding .unknown (child "" (if hasKey "anyOf" r then "anyOf" else "oneOf"))
          "declared union containment is not decidable for this schema"
      else (compareFiniteFrozen l r isValid).getD (compareAssertionsFrozen l r)

end CapabilityCompiler.Contracts
