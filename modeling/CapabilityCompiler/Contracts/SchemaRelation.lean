import CapabilityCompiler.Foundation.JsonEquality
import CapabilityCompiler.Foundation.Search
import CapabilityCompiler.Foundation.Text

/-! The conservative subset check between two JSON Schemas. The recursive calls of the comparison
are the goals of a memoized search, in the order in which they are made. -/
namespace CapabilityCompiler.Contracts
open Foundation Foundation.Json Foundation.Search

inductive SchemaRelation where
  | proven
  | conflict
  | unknown
deriving DecidableEq

structure RelationFinding where
  pointer : String
  message : String
deriving DecidableEq

structure RelationReport where
  relation : SchemaRelation
  findings : List RelationFinding := []
deriving DecidableEq

def annotationKeywords : List String :=
  ["$comment", "$defs", "$id", "$schema", "default", "deprecated", "description", "examples",
    "readOnly", "title", "writeOnly"]

def handledKeywords : List String :=
  ["$ref", "additionalProperties", "allOf", "anyOf", "const", "enum", "exclusiveMaximum",
    "exclusiveMinimum", "items", "maxItems", "maxLength", "maximum", "minItems", "minLength",
    "minimum", "oneOf", "properties", "required", "type"]

def child (pointer token : String) : String := pointer ++ "/" ++ Text.escapeToken token

def finding (relation : SchemaRelation) (pointer message : String) : RelationReport :=
  ⟨relation, [⟨pointer, message⟩]⟩

def provenReport : RelationReport := ⟨.proven, []⟩

def combineRelation : SchemaRelation → SchemaRelation → SchemaRelation
  | _, .conflict => .conflict
  | .proven, .unknown => .unknown
  | relation, _ => relation

def addFinding (findings : List RelationFinding) (f : RelationFinding) : List RelationFinding :=
  if f ∈ findings then findings else findings ++ [f]

def combine (reports : List RelationReport) : RelationReport where
  relation := reports.foldl (fun relation report => combineRelation relation report.relation) .proven
  findings := reports.foldl (fun findings report => report.findings.foldl addFinding findings) []

/-- A step from a document to one of its parts, and the position of a part in its root document.
Positions stand for the identities of the dictionaries in memory. -/
inductive Step where
  | key (name : String)
  | index (n : ℕ)
deriving DecidableEq

abbrev Node := List Step

/-- A fragment of a root document, with its position. -/
structure Place where
  node : Node
  schema : Json
deriving DecidableEq

structure Comparison where
  left : Place
  right : Place
  pointer : String
deriving DecidableEq

abbrev Part := Item Comparison RelationReport

def lookupTokens : Json → List String → Option Json
  | value, [] => some value
  | .obj fields, token :: rest => (field? token fields).bind fun v => lookupTokens v rest
  | _, _ :: _ => none

def refTokens (reference : String) : Option (List String) :=
  (Text.dropPrefix? ['#', '/'] reference.toList).map fun rest =>
    (Text.splitChars '/' rest).map fun token => Text.unescapeToken (String.ofList token)

/-- A reference to a null is not told apart from one that does not resolve. -/
def resolveLocalRef (root reference : Json) : Option Place :=
  match reference with
  | .str text => (refTokens text).bind fun tokens =>
    match lookupTokens root tokens with
    | none | some .null => none
    | some target => some ⟨tokens.map .key, target⟩
  | _ => none

def hasKey (keyword : String) (schema : Fields) : Bool := (field? keyword schema).isSome

def allStrings (items : List Json) : Bool :=
  items.all fun item => match item with
    | .str _ => true
    | _ => false

def strings (items : List Json) : List String :=
  items.filterMap fun item => match item with
    | .str s => some s
    | _ => none

def types (schema : Fields) : Option (List String) :=
  match field? "type" schema with
  | some (.str type) => some [type]
  | some (.arr items) => if allStrings items then some (strings items) else none
  | _ => none

mutual

def containsReference : Json → Bool
  | .obj fields => containsReferenceFields fields
  | .arr items => containsReferenceItems items
  | _ => false
termination_by structural value => value

def containsReferenceItems : List Json → Bool
  | [] => false
  | item :: rest => containsReference item || containsReferenceItems rest
termination_by structural items => items

def containsReferenceFields : Fields → Bool
  | [] => false
  | (key, item) :: rest => key = "$ref" || containsReference item || containsReferenceFields rest
termination_by structural fields => fields

end

/-- The values a schema with `const` or `enum` can permit. -/
def candidates? (schema : Fields) : Option (List Json) :=
  match field? "const" schema, field? "enum" schema with
  | some value, _ => some [value]
  | none, some (.arr values) => some values
  | none, _ => none

section Leaves
variable (left right : Fields) (pointer : String)

def compareFiniteLeft (isValid : Json → Json → Bool) : Option RelationReport :=
  match candidates? left with
  | none => none
  | some candidates =>
    if containsReference (.obj left) || containsReference (.obj right) then none
    else
      let possible := candidates.filter (isValid (.obj left))
      let rejected := possible.filter fun candidate => ! isValid (.obj right) candidate
      if rejected = [] then some provenReport
      else some (finding .conflict pointer
        "declared schema rejects a value permitted by the finite left schema")

def compareTypes : RelationReport :=
  match types left, types right with
  | _, none => provenReport
  | none, some _ => finding .unknown (child pointer "type")
      "left schema has no type bound that proves the declared type constraint"
  | some leftTypes, some rightTypes =>
    if leftTypes.all fun leftType =>
        leftType ∈ rightTypes || (leftType = "integer" && "number" ∈ rightTypes) then provenReport
    else finding .conflict (child pointer "type")
      "left schema permits JSON types rejected by the declared schema"

def numberAt (schema : Fields) (keyword : String) : Option ℚ := (field? keyword schema).bind num?

/-- `contained` compares the left bound with the right one. -/
def compareBound (keyword tooWeak : String) (contained : ℚ → ℚ → Bool) : RelationReport :=
  match numberAt right keyword with
  | none => provenReport
  | some rightValue =>
    match numberAt left keyword with
    | none => finding .conflict (child pointer keyword)
        ("left schema has no " ++ keyword ++ " bound")
    | some leftValue =>
      if contained leftValue rightValue then provenReport
      else finding .conflict (child pointer keyword) ("left schema " ++ keyword ++ tooWeak)

def compareLowerBound (keyword : String) : RelationReport :=
  compareBound left right pointer keyword " is less restrictive than the declared bound"
    fun leftValue rightValue => rightValue ≤ leftValue

def compareUpperBound (keyword : String) : RelationReport :=
  compareBound left right pointer keyword " exceeds the declared bound"
    fun leftValue rightValue => leftValue ≤ rightValue

/-- The stronger of the inclusive and the exclusive bound; on a tie the exclusive one. -/
def numericBound (schema : Fields) (lower : Bool) : Option (ℚ × Bool × String) :=
  let inclusive := if lower then "minimum" else "maximum"
  let exclusive := if lower then "exclusiveMinimum" else "exclusiveMaximum"
  match numberAt schema inclusive, numberAt schema exclusive with
  | none, none => none
  | some v, none => some (v, false, inclusive)
  | none, some w => some (w, true, exclusive)
  | some v, some w =>
    if (if lower then v ≤ w else w ≤ v) then some (w, true, exclusive)
    else some (v, false, inclusive)

def compareNumericBound (lower : Bool) : RelationReport :=
  match numericBound right lower, numericBound left lower with
  | none, _ => provenReport
  | some (_, _, rightKeyword), none => finding .conflict (child pointer rightKeyword)
      ("left schema has no " ++ rightKeyword ++ " bound")
  | some (rightValue, rightExclusive, rightKeyword), some (leftValue, leftExclusive, _) =>
    let stronger : Bool := if lower then rightValue < leftValue else leftValue < rightValue
    if stronger || (leftValue = rightValue && (!rightExclusive || leftExclusive)) then provenReport
    else finding .conflict (child pointer rightKeyword)
      "left numeric bound is less restrictive than the declared bound"

def joinWith (sep : String) : List String → String
  | [] => ""
  | [s] => s
  | s :: rest => s ++ sep ++ joinWith sep rest

def compareRequired : RelationReport :=
  match (field? "required" right).getD (.arr []), (field? "required" left).getD (.arr []) with
  | .arr rightRequired, .arr leftRequired =>
    if ¬ allStrings rightRequired ∨ ¬ allStrings leftRequired then
      finding .unknown (child pointer "required") "invalid required"
    else
      let missing := Text.sortedSet
        ((strings rightRequired).filter (· ∉ strings leftRequired))
      if missing = [] then provenReport
      else finding .conflict (child pointer "required")
        ("left schema does not require declared properties: " ++ joinWith ", " missing)
  | _, _ => finding .unknown (child pointer "required") "invalid required"

def compareConst : List Part :=
  match field? "const" right with
  | none => []
  | some rightValue =>
    match field? "const" left with
    | some leftValue =>
      if pyEqual leftValue rightValue then []
      else [.report (finding .conflict (child pointer "const")
        "left schema does not prove the declared constant")]
    | none => [.report (finding .conflict (child pointer "const")
        "left schema does not prove the declared constant")]

def compareEnum : List Part :=
  match field? "enum" right, field? "enum" left with
  | none, _ => []
  | some (.arr rightValues), some (.arr leftValues) =>
    if leftValues.any fun value => ! rightValues.any (pyEqual · value) then
      [.report (finding .conflict (child pointer "enum")
        "left enum contains values rejected by the declared enum")]
    else []
  | some _, _ => [.report (finding .unknown (child pointer "enum")
      "enum containment is not decidable")]

end Leaves

section Places

def Place.child (place : Place) (key : String) (schema : Json) : Place :=
  ⟨place.node ++ [.key key], schema⟩

def Place.branches (place : Place) (keyword : String) (items : List Json) : List Place :=
  items.mapIdx fun n item => ⟨place.node ++ [.key keyword, .index n], item⟩

def propertiesOf (schema : Fields) : Json := (field? "properties" schema).getD (.obj [])

/-- The subschema under a keyword, `true` when it is absent. -/
def subschemaOf (schema : Fields) (keyword : String) : Json :=
  (field? keyword schema).getD (.bool true)

def Place.subschema (place : Place) (fields : Fields) (keyword : String) : Place :=
  place.child keyword (subschemaOf fields keyword)

def Place.property (place : Place) (name : String) (schema : Json) : Place :=
  (place.child "properties" schema).child name schema

/-- The schema the left side gives a property: its own, or that of the additional properties. -/
def Place.propertyOrAdditional (place : Place) (fields properties : Fields) (name : String) :
    Place :=
  match field? name properties with
  | some schema => place.property name schema
  | none => place.subschema fields "additionalProperties"

variable (left right : Place) (l r : Fields) (pointer : String)

def compareDeclared (leftProperties rightProperties : Fields) : List Part :=
  (Text.sortedSet (rightProperties.map Prod.fst)).filterMap fun name =>
    let leftProperty := left.propertyOrAdditional l leftProperties name
    if leftProperty.schema = .bool false then none
    else (field? name rightProperties).map fun schema =>
      .goal ⟨leftProperty, right.property name schema, child (child pointer "properties") name⟩

def compareUndeclared (leftProperties rightProperties : Fields) : List Part :=
  (Text.sortedSet (leftProperties.map Prod.fst)).filterMap fun name =>
    let rightAdditional := right.subschema r "additionalProperties"
    if hasKey name rightProperties then none
    else match rightAdditional.schema with
      | .bool false => some (.report (finding .conflict (child pointer "additionalProperties")
          ("declared schema rejects left property: " ++ name)))
      | .obj _ => (field? name leftProperties).map fun schema =>
          .goal ⟨left.property name schema, rightAdditional,
            child (child pointer "properties") name⟩
      | _ => none

def compareAdditional : List Part :=
  let leftAdditional := left.subschema l "additionalProperties"
  let rightAdditional := right.subschema r "additionalProperties"
  if leftAdditional.schema = .bool false then []
  else match rightAdditional.schema with
    | .bool false => [.report (finding .conflict (child pointer "additionalProperties")
        "left schema permits undeclared properties")]
    | .obj _ => [.goal ⟨leftAdditional, rightAdditional, child pointer "additionalProperties"⟩]
    | _ => []

def compareObjects : List Part :=
  match propertiesOf l, propertiesOf r with
  | .obj leftProperties, .obj rightProperties =>
    .report (compareRequired l r pointer) ::
      compareDeclared left right l pointer leftProperties rightProperties ++
      compareUndeclared left right r pointer leftProperties rightProperties ++
      compareAdditional left right l r pointer
  | _, _ => [.report (finding .unknown (child pointer "properties")
      "properties comparison is not decidable")]

def unionBranches? (schema : Fields) : Option (String × List Json) :=
  match field? "anyOf" schema, field? "oneOf" schema with
  | some (.arr branches), _ => some ("anyOf", branches)
  | _, some (.arr branches) => some ("oneOf", branches)
  | _, _ => none

def compareCombinations : Option (Expansion Comparison RelationReport) :=
  match unionBranches? l with
  | some (keyword, branches) =>
    some (.all ((left.branches keyword branches).map fun branch => .goal ⟨branch, right, pointer⟩))
  | none => match field? "allOf" r with
    | some (.arr branches) =>
      some (.all ((right.branches "allOf" branches).map fun branch => .goal ⟨left, branch, pointer⟩))
    | _ => match field? "allOf" l with
      | some (.arr branches) =>
        some (.any ((left.branches "allOf" branches).map fun branch => ⟨branch, right, pointer⟩)
          (finding .unknown (child pointer "allOf")
            "allOf intersection is not provably contained by the declared schema"))
      | _ =>
        if hasKey "anyOf" r || hasKey "oneOf" r then
          some (.done (finding .unknown
            (child pointer (if hasKey "anyOf" r then "anyOf" else "oneOf"))
            "declared union containment is not decidable for this schema"))
        else none

def compareItems : List Part :=
  [.goal ⟨left.subschema l "items", right.subschema r "items", child pointer "items"⟩]

def hasTypeName (schema : Fields) (type : String) : Bool := type ∈ (types schema).getD []

/-- The assertions that neither combine schemas nor leave finitely many values. -/
def compareAssertions : List Part :=
  [.report (compareTypes l r pointer),
    .report (compareNumericBound l r pointer true),
    .report (compareNumericBound l r pointer false),
    .report (compareLowerBound l r pointer "minLength"),
    .report (compareLowerBound l r pointer "minItems"),
    .report (compareUpperBound l r pointer "maxLength"),
    .report (compareUpperBound l r pointer "maxItems")] ++
  compareConst l r pointer ++ compareEnum l r pointer ++
  (if hasTypeName l "object" || hasTypeName r "object" then
    compareObjects left right l r pointer else []) ++
  (if hasTypeName l "array" || hasTypeName r "array" then
    compareItems left right l r pointer else [])

/-- Where a schema with a reference leads; a schema without one stays where it is. -/
def resolvePlace (root : Json) (place : Place) (schema : Fields) : Option Place :=
  match field? "$ref" schema with
  | some reference => resolveLocalRef root reference
  | none => some place

def keywordsOutside (allowed : List String) (schema : Fields) : List String :=
  (schema.map Prod.fst).filter (· ∉ allowed)

def compareReferences (leftRoot rightRoot : Json) : Expansion Comparison RelationReport :=
  match resolvePlace leftRoot left l, resolvePlace rightRoot right r with
  | some leftResolved, some rightResolved =>
    if keywordsOutside ("$ref" :: annotationKeywords) l ≠ [] ∨
        keywordsOutside ("$ref" :: annotationKeywords) r ≠ [] then
      .done (finding .unknown (child pointer "$ref")
        "schema references with assertion siblings are not decidable")
    else .defer ⟨leftResolved, rightResolved, pointer⟩
  | _, _ => .done (finding .unknown (child pointer "$ref")
      "only resolvable local schema references can be compared")

/-- The comparison of two schema objects seen for the first time. -/
def compareSchemas (isValid : Json → Json → Bool) (leftRoot rightRoot : Json) :
    Expansion Comparison RelationReport :=
  if hasKey "$ref" l || hasKey "$ref" r then
    compareReferences left right l r pointer leftRoot rightRoot
  else
    match Text.sortedSet (keywordsOutside (handledKeywords ++ annotationKeywords) (l ++ r)) with
    | keyword :: _ => .done (finding .unknown (child pointer keyword)
        ("schema keyword is not supported by the conservative comparator: " ++ keyword))
    | [] => match compareCombinations left right l r pointer with
      | some combination => combination
      | none => match compareFiniteLeft l r pointer isValid with
        | some finite => .done finite
        | none => .all (compareAssertions left right l r pointer)

end Places

/-- The verdicts that need no look at the memo. -/
def settle (c : Comparison) : Option RelationReport :=
  if c.left.schema = .bool false ∨ c.right.schema = .bool true then some provenReport
  else if c.left.schema = .bool true then
    if c.right.schema = .bool false then
      some (finding .conflict c.pointer "declared schema rejects all values")
    else some (finding .unknown c.pointer
      "unbounded left schema cannot prove the declared constraint")
  else if c.right.schema = .bool false then
    some (finding .conflict c.pointer "declared schema rejects all values")
  else match c.left.schema, c.right.schema with
    | .obj l, .obj r => if pyEqual (.obj l) (.obj r) then some provenReport else none
    | _, _ => some (finding .unknown c.pointer "schema form is not comparable")

def Comparison.key (c : Comparison) : Node × Node := (c.left.node, c.right.node)

def expand (isValid : Json → Json → Bool) (leftRoot rightRoot : Json) (c : Comparison) :
    Expansion Comparison RelationReport :=
  match c.left.schema, c.right.schema with
  | .obj l, .obj r => compareSchemas c.left c.right l r c.pointer isValid leftRoot rightRoot
  | _, _ => .done (finding .unknown c.pointer "schema form is not comparable")

/-- `_compare` with its memo; `isValid` is the instance validator of the JSON Schema library. -/
def compareProblem (isValid : Json → Json → Bool) (leftRoot rightRoot : Json) :
    Problem Comparison (Node × Node) RelationReport where
  settle := settle
  key := Comparison.key
  expand := expand isValid leftRoot rightRoot
  combine := combine
  proven := provenReport
  isProven report := report.relation = .proven

mutual

/-- The positions of a document. -/
def positions : Json → List Node
  | .arr items => [] :: positionsOfItems 0 items
  | .obj fields => [] :: positionsOfFields fields
  | _ => [[]]
termination_by structural value => value

def positionsOfItems (n : ℕ) : List Json → List Node
  | [] => []
  | item :: rest => (positions item).map (.index n :: ·) ++ positionsOfItems (n + 1) rest
termination_by structural items => items

def positionsOfFields : Fields → List Node
  | [] => []
  | (key, item) :: rest => (positions item).map (.key key :: ·) ++ positionsOfFields rest
termination_by structural fields => fields

end

def comparison (left right : Json) : Comparison := ⟨⟨[], left⟩, ⟨[], right⟩, ""⟩

/-- More levels than the comparison of two documents can nest. -/
def comparisonFuel (left right : Json) : ℕ :=
  (positions left).length * (positions right).length + 1

def compareSubset (isValid : Json → Json → Bool) (left right : Json) : RelationReport :=
  match (compareProblem isValid left right).eval (comparisonFuel left right) []
      (comparison left right) with
  | some (report, _) => report
  | none => finding .unknown "" "unreachable"

/-- Is the declared request a subset of the request the source accepts? -/
def compareOperationInput (isValid : Json → Json → Bool) (declared source : Json) :
    RelationReport :=
  compareSubset isValid declared source

/-- Is every response of the source accepted by the declared output schema? -/
def compareOperationOutput (isValid : Json → Json → Bool) (source declared : Json) :
    RelationReport :=
  compareSubset isValid source declared

end CapabilityCompiler.Contracts
