import CapabilityCompiler.Contracts.Inlining

/-! Schema documents with references: the resources they consist of, what a reference resolves to,
and the validity of an instance while references are followed. -/
namespace CapabilityCompiler.Contracts
open Foundation Foundation.Json

/-! Places. -/

/-- A value of a document is a schema, holds schemas in a list or under names, or is neither. -/
inductive Position where
  | schema
  | schemas
  | other
deriving DecidableEq

def definitionKeywords : List String := ["$defs", "definitions"]

def positionOf (keyword : String) : Position :=
  if keyword ∈ schemaKeywords then .schema
  else if keyword ∈ schemaListKeywords ++ schemaMapKeywords ++ definitionKeywords then .schemas
  else .other

def Position.below : Position → String → Position
  | .schema, keyword => positionOf keyword
  | .schemas, _ => .schema
  | .other, _ => .other

/-- The schemas directly under a value. -/
def schemasUnder : Position → Json → List Json
  | .schema, value => [value]
  | .schemas, .arr items => items
  | .schemas, .obj fields => fields.map Prod.snd
  | _, _ => []

/-- An object with an identifier is a resource of its own; an empty identifier, or one that is only
an empty fragment, names the resource around it. -/
def opensResource : Json → Bool
  | .obj fields => match field? "$id" fields with
    | some (.str id) => id.toList.any (· ≠ '#')
    | _ => false
  | _ => false

mutual

/-- The schemas at and under a value that belong to the resource around it. -/
def membersAt : Position → Json → List Json
  | .schema, .obj fields =>
    if opensResource (.obj fields) then [] else .obj fields :: membersFields .schema fields
  | .schemas, .obj fields => membersFields .schemas fields
  | .schemas, .arr items => membersItems items
  | _, _ => []

def membersItems : List Json → List Json
  | [] => []
  | item :: rest => membersAt .schema item ++ membersItems rest

def membersFields (position : Position) : Fields → List Json
  | [] => []
  | (key, value) :: rest => membersAt (position.below key) value ++ membersFields position rest

end

theorem membersAt_schema {fields : Fields} :
    membersAt .schema (.obj fields) =
      if opensResource (.obj fields) then [] else .obj fields :: membersFields .schema fields := rfl

theorem membersAt_fields {fields : Fields} :
    membersAt .schemas (.obj fields) = membersFields .schemas fields := rfl

theorem membersAt_items {items : List Json} :
    membersAt .schemas (.arr items) = membersItems items := rfl

/-- The schemas of the resource that a document is. -/
def members : Json → List Json
  | .obj fields => .obj fields :: membersFields .schema fields
  | _ => []

def referenceKeywords : List String := ["$ref", "$dynamicRef"]

def refers : Json → Bool
  | .obj fields => fields.any fun f => f.1 ∈ referenceKeywords && (f.2 matches .str _)
  | _ => false

/-! Targets. -/

def isSchema : Json → Bool
  | .obj _ | .bool _ => true
  | _ => false

/-- The resources around a schema, the one it belongs to first; the others are those that
references have led through. -/
abbrev ResourceScope := List Json

def enter (scope : ResourceScope) (schema : Json) : ResourceScope :=
  if opensResource schema then schema :: scope else scope

inductive Fragment where
  | root
  | pointer (tokens : List String)
  | name (text : String)

/-- The fragment of a local reference; `decode` undoes percent-encoding. -/
def fragment? (decode : String → String) (reference : String) : Option Fragment :=
  (Text.dropPrefix? ['#'] reference.toList).map fun
    | [] => .root
    | '/' :: pointer =>
      .pointer ((Text.splitChars '/' (decode (String.ofList pointer)).toList).map fun token =>
        Text.unescapeToken (String.ofList token))
    | name => .name (String.ofList name)

/-- The schema that a JSON Pointer names, with the resources on the way to it. -/
def locate : Position → ResourceScope → Json → List String → Option (ResourceScope × Json)
  | _, scope, value, [] => if isSchema value then some (scope, value) else none
  | position, scope, .obj fields, token :: rest =>
    (field? token fields).bind fun value =>
      locate (position.below token)
        (if position.below token = .schema then enter scope value else scope) value rest
  | position, scope, .arr items, token :: rest =>
    token.toNat?.bind fun n => items[n]?.bind fun value =>
      locate (position.below token)
        (if position.below token = .schema then enter scope value else scope) value rest
  | _, _, _, _ :: _ => none

def hasText (keyword text : String) : Json → Bool
  | .obj fields => field? keyword fields = some (.str text)
  | _ => false

/-- The schema of a resource that one of these keywords gives the name to. -/
def anchored (keywords : List String) (document : Json) (name : String) : Option Json :=
  (members document).find? fun schema => keywords.any (hasText · name schema)

/-- The outermost resource with this dynamic anchor, and the schema that has it. -/
def outermost : ResourceScope → String → Option (Json × Json)
  | [], _ => none
  | document :: outer, name => (outermost outer name).or
      ((anchored ["$dynamicAnchor"] document name).map fun schema => (document, schema))

/-- What a reference resolves to in the resource it belongs to. The name of a dynamic anchor is
resolved again, in the outermost resource that has it. -/
def target (decode : String → String) (keyword : String) :
    ResourceScope → String → Option (ResourceScope × Json)
  | [], _ => none
  | document :: outer, reference => match fragment? decode reference with
    | none => none
    | some .root => some (document :: outer, document)
    | some (.pointer tokens) => locate .schema (document :: outer) document tokens
    | some (.name name) => (anchored ["$anchor", "$dynamicAnchor"] document name).bind fun schema =>
      if keyword = "$dynamicRef" ∧ hasText "$dynamicAnchor" name schema = true then
        (outermost (document :: outer) name).map fun found =>
          (found.1 :: document :: outer, found.2)
      else some (document :: outer, schema)

/-! Validity. -/

/-- Where no references are left, nothing has to be named. -/
def namingKeywords : List String := ["$id", "$defs", "definitions"]

def kept (fields : Fields) : Fields := fields.filter (·.1 ∉ namingKeywords)

section Unrolling
variable (decode : String → String) (rest : Json)

def unrollKeyword (follow : ResourceScope → Json → Json) (scope : ResourceScope)
    (keyword : String) (value : Json) : Json :=
  if keyword ∈ referenceKeywords then
    match value with
    | .str reference => match target decode keyword scope reference with
      | some found => follow found.1 found.2
      | none => rest
    | _ => value
  else match positionOf keyword, value with
    | .schema, schema => follow scope schema
    | .schemas, .arr items => .arr (items.map (follow scope))
    | .schemas, .obj fields => .obj (fields.map fun f => (f.1, follow scope f.2))
    | _, _ => value

/-- The schema with its references replaced by their targets, down to a depth. A reference keeps
its keyword; `rest` stands in the place of what is deeper, and of a target that does not exist. -/
def unroll : ℕ → ResourceScope → Json → Json
  | 0, _, _ => rest
  | depth + 1, scope, .obj fields =>
    .obj ((kept fields).map fun f =>
      (f.1, unrollKeyword decode rest (unroll depth) (enter scope (.obj fields)) f.1 f.2))
  | _ + 1, _, schema => schema

end Unrolling

/-- The instance is valid under the document: from some depth on it is, whatever stands in the
place of what is deeper. -/
def ValidIn (V : Vocabulary) (decode : String → String) (document i : Json) : Prop :=
  ∃ depth, ∀ n, depth ≤ n → ∀ rest,
    valid V (unroll decode rest n [document] document) i = true

end CapabilityCompiler.Contracts
