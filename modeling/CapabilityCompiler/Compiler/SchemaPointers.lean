import CapabilityCompiler.Contracts.SchemaRelation
import CapabilityCompiler.Policies.Enforcer

/-! What a schema and a policy say about the value at a JSON Pointer. -/
namespace CapabilityCompiler.Compiler
open Foundation

def pointerTokens (pointer : String) : List String :=
  (Text.splitChars '/' (pointer.toList.drop 1)).map fun token =>
    Text.unescapeToken (String.ofList token)

def nonAssertingRefSiblings : List String :=
  ["$comment", "$id", "$schema", "default", "deprecated", "description", "title"]

/-- Follow local references that have only annotations beside them. Every step of it meets a new
reference, so as many steps as the root has positions are enough. -/
def dereferenceFrom (root : Fields) : ℕ → List String → Json → Option Fields
  | fuel + 1, seen, .obj fields =>
    match Json.field? "$ref" fields with
    | none => some fields
    | some (.str reference) =>
      if !Text.hasPrefix "#/" reference || reference ∈ seen ||
          fields.any (fun field => field.1 ≠ "$ref" && field.1 ∉ nonAssertingRefSiblings) then none
      else
        let tokens := pointerTokens (String.ofList (reference.toList.drop 1))
        (Contracts.lookupTokens (.obj root) tokens).bind (dereferenceFrom root fuel (reference :: seen))
    | some _ => none
  | _, _, _ => none

def dereferenceSchema (root : Fields) (schema : Json) : Option Fields :=
  dereferenceFrom root ((Contracts.positions (.obj root)).length + 2) [] schema

/-- The array index a token denotes, if it has no leading zero. -/
def arrayIndex? (token : String) : Option ℕ :=
  if token.length > 1 ∧ Text.hasPrefix "0" token then none else Text.decimal? token

def schemaAtTokens (root : Fields) : Json → List String → Option Fields
  | current, [] => dereferenceSchema root current
  | current, token :: rest => (dereferenceSchema root current).bind fun fields =>
    if Json.field? "type" fields = some (.str "array") then
      match arrayIndex? token, Json.field? "items" fields with
      | some _, some (.obj items) => schemaAtTokens root (.obj items) rest
      | _, _ => none
    else match Json.field? "properties" fields with
      | some (.obj properties) =>
        match Json.field? token properties with
        | some (.obj property) => schemaAtTokens root (.obj property) rest
        | _ => none
      | _ => none

def schemaAtDataPointer (schema : Fields) (pointer : String) : Option Fields :=
  schemaAtTokens schema (.obj schema) (pointerTokens pointer)

def guaranteedAtTokens (root : Fields) : Json → List String → Bool
  | current, [] => (dereferenceSchema root current).isSome
  | current, token :: rest =>
    match dereferenceSchema root current with
    | none => false
    | some fields =>
      if Json.field? "type" fields = some (.str "array") then
        match arrayIndex? token, Json.field? "minItems" fields, Json.field? "items" fields with
        | some index, some (.int minimum), some (.obj items) =>
          decide ((index : ℤ) < minimum) && guaranteedAtTokens root (.obj items) rest
        | _, _, _ => false
      else match Json.field? "properties" fields, Json.field? "required" fields with
        | some (.obj properties), some (.arr required) =>
          match Json.field? token properties with
          | some (.obj property) =>
            decide (.str token ∈ required) && guaranteedAtTokens root (.obj property) rest
          | _ => false
        | _, _ => false

def schemaPointerIsGuaranteed (schema : Fields) (pointer : String) : Bool :=
  guaranteedAtTokens schema (.obj schema) (pointerTokens pointer)

def pathsOverlap (left right : List String) : Bool :=
  let common := min left.length right.length
  left.take common = right.take common

/-- The policy shows the value at the pointer and nothing denied or redacted touches it. -/
def policyDisclosesUnmodified (policy : Policies.Policy) (pointer : String) : Bool :=
  let source := pointerTokens pointer
  let readable := policy.readableFields.map Policies.parsePath
  let denied := policy.deniedFields.map Policies.parsePath
  let redacted := policy.redactionRules.map fun rule => Policies.parsePath rule.path
  readable.any (fun rule => rule.isPrefixOf source) &&
    !(denied ++ redacted).any (pathsOverlap source)

end CapabilityCompiler.Compiler
