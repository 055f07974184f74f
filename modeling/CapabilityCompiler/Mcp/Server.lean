import CapabilityCompiler.Actions.Coordinator
import CapabilityCompiler.Mcp.ReservedNames
import CapabilityCompiler.Mcp.SchemaProjection

/-! The tools that the principal server lists, and where it sends a call. -/
namespace CapabilityCompiler.Mcp
open Foundation Foundation.Json Models Actions

/-! What is served. -/

inductive CompiledCapability where
  | read (capability : ReadCapability)
  | action (capability : ActionCapability)

def CompiledCapability.id : CompiledCapability → String
  | .read capability => capability.id
  | .action capability => capability.id

/-- The capabilities of a loaded pack, each under its identifier. -/
structure LoadedPack where
  capabilities : Table String CompiledCapability
  unique : capabilities.Unique
  keyed : ∀ entry ∈ capabilities, entry.2.id = entry.1

/-- The reads among them, which `tools` describes; actions are left to their lifecycle. -/
def LoadedPack.reads (pack : LoadedPack) : List ReadCapability :=
  (Text.sortedSet (pack.capabilities.map Prod.fst)).filterMap fun id =>
    match Table.get? id pack.capabilities with
    | some (.read capability) => some capability
    | _ => none

/-- What a capability says of itself. -/
structure CapabilityText where
  title : String
  description : String

/-- The actions of `public_manifest`: those that the deployment allows. -/
def manifest {packs : Packs} (coordinator : Coordinator packs) : List CompiledActionDefinition :=
  let definitions := packs.definitions coordinator.packDigest
  ((Text.sortedSet (definitions.map Prod.fst)).filterMap fun id =>
    Table.get? id definitions).filter fun definition =>
      coordinator.deployment.evaluate definition.capability.id definition.proof.effects
        definition.risk = []

structure PrincipalCapabilityMcpServer (packs : Packs) where
  names : NameHost
  projection : ProjectionHost
  texts : String → CapabilityText
  pack : LoadedPack
  actionCoordinator : Option (Coordinator packs)

/-! Listing. -/

structure ToolAnnotations where
  readOnlyHint : Bool
  destructiveHint : Bool
  idempotentHint : Bool
  openWorldHint : Bool

structure Tool where
  name : String
  title : Option String
  description : Option String
  inputSchema : Fields
  outputSchema : Json
  annotations : Option ToolAnnotations

inductive ListingError where
  | typeError (message : String)
  | runtime (error : RuntimeError)

def reservedExposed : ListingError :=
  .typeError "runtime tool schema exposes a reserved Gateway argument"

/-- The output schema of a tool, projected. -/
def projectOutput (host : ProjectionHost) (name : String) (outputSchema : Json) :
    Except ListingError Json :=
  match projectMcpOutputSchema host name outputSchema with
  | .ok projected => .ok projected
  | .error error => .error (.runtime error)

def objectSchema (properties : Fields) (required : List String) : Fields :=
  [("type", .str "object"), ("additionalProperties", .bool false), ("properties", .obj properties),
    ("required", .arr (required.map .str))]

def handleSchema : Json := .obj [("type", .str "string"), ("minLength", .int 43)]

def textSchema : Json := .obj [("type", .str "string")]

def statusSchema : Json :=
  .obj [("type", .str "string"), ("enum", .arr (["approved", "committing", "expired", "failed",
    "outcome_unknown", "prepared", "succeeded"].map .str))]

def prepareResult : Json := .obj (objectSchema
  [("action_handle", handleSchema), ("approval_required", .obj [("type", .str "boolean")]),
    ("capability_id", textSchema), ("expires_at", .obj [("type", .str "number")]),
    ("preview", .obj []), ("status", statusSchema)]
  ["action_handle", "approval_required", "capability_id", "expires_at", "preview", "status"])

def statusResult : Json := .obj (objectSchema
  [("capability_id", textSchema), ("status", statusSchema), ("result", .obj [])]
  ["capability_id", "result", "status"])

def commitResult : Json := .obj (objectSchema
  [("capability_id", textSchema), ("replayed", .obj [("type", .str "boolean")]),
    ("result", .obj []), ("status", statusSchema)]
  ["capability_id", "replayed", "result", "status"])

def actionToolNames : List String := ["acc_action_approve", "acc_action_commit", "acc_action_status"]

namespace PrincipalCapabilityMcpServer
variable {packs : Packs} (server : PrincipalCapabilityMcpServer packs)

/-- A tool of the lifecycle, before its output schema is projected. -/
def lifecycleTool (name title : String) (inputSchema : Fields) (outputSchema : Json)
    (annotations : ToolAnnotations) : Except ListingError Tool := do
  let projected ← projectOutput server.projection name outputSchema
  return {
    name := name
    title := some title
    description := some "Use the trusted ACC prepare, approve, commit and status lifecycle."
    inputSchema := inputSchema
    outputSchema := projected
    annotations := some annotations }

def prepareTool (definition : CompiledActionDefinition) : Except ListingError Tool :=
  server.lifecycleTool (definition.capability.id ++ ".prepare")
    ("Prepare " ++ (server.texts definition.capability.id).title) definition.capability.inputSchema
    prepareResult ⟨true, false, false, true⟩

def approveTool : Except ListingError Tool :=
  server.lifecycleTool "acc_action_approve" "Approve Action"
    (objectSchema [("action_handle", handleSchema), ("approval_handle", handleSchema)]
      ["action_handle", "approval_handle"]) statusResult ⟨false, false, false, true⟩

def commitTool : Except ListingError Tool :=
  server.lifecycleTool "acc_action_commit" "Commit Action"
    (objectSchema [("action_handle", handleSchema)] ["action_handle"]) commitResult
    ⟨false, true, true, true⟩

def statusTool : Except ListingError Tool :=
  server.lifecycleTool "acc_action_status" "Action Status"
    (objectSchema [("action_handle", handleSchema)] ["action_handle"]) statusResult
    ⟨true, false, true, false⟩

/-- The names in the input schemas of all actions are looked at before the first tool is made. -/
def actionLifecycleTools (coordinator : Coordinator packs) : Except ListingError (List Tool) :=
  if (manifest coordinator).any fun definition =>
      reservedSchemaPropertyNames server.names definition.capability.inputSchema ≠ [] then
    .error reservedExposed
  else do
    let prepares ← (manifest coordinator).mapM server.prepareTool
    let approve ← server.approveTool
    let commit ← server.commitTool
    let status ← server.statusTool
    return prepares ++ [approve, commit, status]

/-- A read as a tool. -/
def translateTool (capability : ReadCapability) : Except ListingError Tool :=
  if reservedSchemaPropertyNames server.names capability.inputSchema ≠ [] then
    .error reservedExposed
  else do
    let projected ← projectOutput server.projection capability.id (.obj capability.outputSchema)
    return {
      name := capability.id
      title := some (server.texts capability.id).title
      description := some (server.texts capability.id).description
      inputSchema := capability.inputSchema
      outputSchema := projected
      annotations := none }

def translateTools : Except ListingError (List Tool) := server.pack.reads.mapM server.translateTool

/-- `list_tools` -/
def listTools : Except ListingError (List Tool) := do
  let tools ← server.translateTools
  match server.actionCoordinator with
  | none => return tools
  | some coordinator =>
    let actionTools ← server.actionLifecycleTools coordinator
    if tools.any fun tool => tool.name ∈ actionTools.map (·.name) then
      .error (.typeError "Action lifecycle tool name collision")
    else return tools ++ actionTools

end PrincipalCapabilityMcpServer

/-! Calling. -/

/-- Where a call goes: to the runtime, or to one operation of the coordinator. -/
inductive ToolCall where
  | read (capabilityId : String) (arguments : Fields) (context : CallerContext)
  | prepare (capabilityId : String) (arguments : Fields) (context : CallerContext)
  | approve (actionHandle approvalHandle : String) (context : CallerContext)
  | commit (actionHandle : String) (context : CallerContext)
  | status (actionHandle : String) (context : CallerContext)

def reservedArgument (names : List String) : RuntimeError where
  code := "ACC_GATEWAY_RESERVED_ARGUMENT"
  status := 400
  message := ""
  details := [("argument_names", .arr (names.map .str))]

def actionToolUnavailable : RuntimeError where
  code := "ACC_RUNTIME_ACTION_TOOL_UNAVAILABLE"
  status := 404
  message := "Action lifecycle tool is unavailable"

def lifecycleArgumentsInvalid : RuntimeError where
  code := "ACC_RUNTIME_ACTION_INPUT_INVALID"
  status := 400
  message := "Action lifecycle arguments are invalid"

def requiredString (arguments : Fields) (name : String) : Except RuntimeError String :=
  match field? name arguments with
  | some (.str value) => if value = "" then .error lifecycleArgumentsInvalid else .ok value
  | _ => .error lifecycleArgumentsInvalid

/-- The arguments have these names and no others. -/
def namedExactly (names : List String) (arguments : Fields) : Bool :=
  (arguments.map Prod.fst).all (· ∈ names) && names.all (· ∈ arguments.map Prod.fst)

/-- The action that a prepare tool is for. -/
def prepareCapabilityId {packs : Packs} (actionCoordinator : Option (Coordinator packs))
    (name : String) : Option String :=
  match actionCoordinator with
  | none => none
  | some coordinator =>
    if ".prepare".toList.isSuffixOf name.toList then
      let candidate := String.ofList (name.toList.take (name.length - ".prepare".length))
      if (manifest coordinator).any (·.capability.id = candidate) then some candidate else none
    else none

/-- `_call_action_lifecycle`, up to the coordinator. -/
def callActionLifecycle (name : String) (arguments : Fields) (context : CallerContext)
    (prepareId : Option String) : Except RuntimeError ToolCall :=
  match prepareId with
  | some capabilityId => .ok (.prepare capabilityId arguments context)
  | none => do
    let actionHandle ← requiredString arguments "action_handle"
    if name = "acc_action_approve" then
      if namedExactly ["action_handle", "approval_handle"] arguments then
        let approvalHandle ← requiredString arguments "approval_handle"
        return .approve actionHandle approvalHandle context
      else .error lifecycleArgumentsInvalid
    else if namedExactly ["action_handle"] arguments then
      if name = "acc_action_commit" then return .commit actionHandle context
      else return .status actionHandle context
    else .error lifecycleArgumentsInvalid

/-- `_call_tool_outcome`, up to the runtime or the coordinator; `principal` is what the resolver gives. -/
def PrincipalCapabilityMcpServer.callTool {packs : Packs}
    (server : PrincipalCapabilityMcpServer packs) (name : String) (arguments : Option Fields)
    (principal : Except RuntimeError CallerContext) : Except RuntimeError ToolCall :=
  if reservedArgumentNames server.names arguments ≠ [] then
    .error (reservedArgument (reservedArgumentNames server.names arguments))
  else do
    let context ← principal
    let prepareId := prepareCapabilityId server.actionCoordinator name
    if name ∈ actionToolNames ∨ prepareId.isSome = true then
      if server.actionCoordinator.isNone then .error actionToolUnavailable
      else callActionLifecycle name (arguments.getD []) context prepareId
    else return .read name (arguments.getD []) context

end CapabilityCompiler.Mcp
