import CapabilityCompiler.Contracts.Resources
import CapabilityCompiler.Errors
import CapabilityCompiler.Foundation.JsonText

/-! The projection of an output schema to the schema of a structured tool result. -/
namespace CapabilityCompiler.Mcp
open Foundation Foundation.Json

/-! The scan for references. -/

/-- `_ReferenceState` -/
structure ReferenceState where
  external : Bool := false
  rootFragment : Bool := false
deriving DecidableEq

def ReferenceState.merge (state other : ReferenceState) : ReferenceState where
  external := state.external || other.external
  rootFragment := state.rootFragment || other.rootFragment

def isReference (key : String) (child : Json) : Bool :=
  key ∈ ["$ref", "$dynamicRef"] && (child matches .str _)

/-- What one reference adds. -/
def referenceState (belongsToRoot : Bool) : Json → ReferenceState
  | .str reference =>
    if Text.hasPrefix "#" reference then { rootFragment := belongsToRoot } else { external := true }
  | _ => {}

mutual

/-- Every object with an identifier, other than the document, is taken for a resource. -/
def visit (belongsToRoot documentRoot : Bool) : Json → ReferenceState
  | .obj fields =>
    visitFields (belongsToRoot && !(!documentRoot && (field? "$id" fields).isSome)) fields
  | .arr items => visitItems belongsToRoot items
  | _ => {}

def visitItems (belongsToRoot : Bool) : List Json → ReferenceState
  | [] => {}
  | child :: rest => (visit belongsToRoot false child).merge (visitItems belongsToRoot rest)

def visitFields (belongsToRoot : Bool) : Fields → ReferenceState
  | [] => {}
  | (key, child) :: rest =>
    (if isReference key child then referenceState belongsToRoot child
      else visit belongsToRoot false child).merge (visitFields belongsToRoot rest)

end

/-- `_inspect_references` of a document. -/
def inspectReferences (document : Json) : ReferenceState := visit true true document

/-! The projection. -/

def projectionError (message reason : String) : RuntimeError where
  code := "ACC_RUNTIME_MCP_SCHEMA_PROJECTION_INVALID"
  status := 500
  message := message
  details := [("reason", .str reason)]

/-- The text functions of the host, and its check of a schema against the metaschema. -/
structure ProjectionHost where
  printer : Printer
  sha256 : String → String
  checkSchema : Json → Bool

def outputIdentifier (host : ProjectionHost) (toolName : String) (schema : Json) : String :=
  "urn:acc:mcp-output:" ++
    host.sha256 (toolName ++ String.singleton (Char.ofNat 0) ++ host.printer.dumps schema)

/-- The schema of the result. -/
def projectedResult (host : ProjectionHost) (toolName : String) (fields : Fields) : Json :=
  if (inspectReferences (.obj fields)).rootFragment && (field? "$id" fields).isNone then
    .obj (fields ++ [("$id", .str (outputIdentifier host toolName (.obj fields)))])
  else .obj fields

def wrap (result : Json) : Json :=
  .obj [("type", .str "object"), ("additionalProperties", .bool false),
    ("required", .arr [.str "result"]), ("properties", .obj [("result", result)])]

/-- `project_mcp_output_schema` -/
def projectMcpOutputSchema (host : ProjectionHost) (toolName : String) :
    Json → Except RuntimeError Json
  | .obj fields =>
    if toolName = "" then .error (projectionError "MCP tool name is invalid." "tool_name_invalid")
    else if (inspectReferences (.obj fields)).external then
      .error (projectionError "MCP output schema uses an unsupported external reference."
        "external_reference_unsupported")
    else
      let wrapper := wrap (projectedResult host toolName fields)
      if host.checkSchema wrapper then .ok wrapper
      else .error (projectionError "MCP output schema projection is invalid."
        "projected_schema_invalid")
  | _ =>
    if toolName = "" then .error (projectionError "MCP tool name is invalid." "tool_name_invalid")
    else .error (projectionError "MCP output schema is invalid." "schema_not_object")

end CapabilityCompiler.Mcp
