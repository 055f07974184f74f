import CapabilityCompiler.Foundation.Fallible
import CapabilityCompiler.Mcp.DeclaredNames
import CapabilityCompiler.Mcp.Server

/-! A call of a listed tool goes where the tool was listed for. -/
namespace CapabilityCompiler.Mcp
open Foundation Foundation.Json Models Actions Contracts

/-! What tools are listed for. -/

inductive Purpose where
  | read (capabilityId : String)
  | prepare (capabilityId : String)
  | approve
  | commit
  | status
deriving DecidableEq

namespace Purpose

def name : Purpose → String
  | read capabilityId => capabilityId
  | prepare capabilityId => capabilityId ++ ".prepare"
  | approve => "acc_action_approve"
  | commit => "acc_action_commit"
  | status => "acc_action_status"

/-- The purpose is to use a capability; the others take handles. -/
def ofCapability : Purpose → Bool
  | read _ | prepare _ => true
  | _ => false

def handleAt (name : String) (arguments : Fields) : String :=
  match field? name arguments with
  | some (.str handle) => handle
  | _ => ""

/-- The call that serves the purpose. -/
def call (arguments : Fields) (context : CallerContext) : Purpose → ToolCall
  | read capabilityId => .read capabilityId arguments context
  | prepare capabilityId => .prepare capabilityId arguments context
  | approve =>
    .approve (handleAt "action_handle" arguments) (handleAt "approval_handle" arguments) context
  | commit => .commit (handleAt "action_handle" arguments) context
  | status => .status (handleAt "action_handle" arguments) context

end Purpose

section Agreement
variable {packs : Packs}

namespace PrincipalCapabilityMcpServer
variable (server : PrincipalCapabilityMcpServer packs)

/-- The actions that the server lists, if it has a coordinator. -/
def actions : List CompiledActionDefinition := (server.actionCoordinator.map manifest).getD []

def actionPurposes : List Purpose :=
  server.actions.map (.prepare ·.capability.id) ++
    if server.actionCoordinator.isSome then [.approve, .commit, .status] else []

/-- What the server lists its tools for. -/
def purposes : List Purpose := server.pack.reads.map (.read ·.id) ++ server.actionPurposes

/-- The input schemas of the capabilities that the server lists. -/
def inputSchemas : List Fields :=
  server.pack.reads.map (·.inputSchema) ++ server.actions.map (·.capability.inputSchema)

end PrincipalCapabilityMcpServer

/-- The arguments hold no reserved name at any depth. -/
def Clean (host : NameHost) (arguments : Fields) : Prop :=
  ∀ name, Holds name (.obj arguments) → reservedArgumentName host name = none

/-- Calls of the tool go where it was listed for, and nowhere else. An operation that takes handles is
reached with arguments of its input schema. -/
structure Directed (server : PrincipalCapabilityMcpServer packs) (tool : Tool) (purpose : Purpose) :
    Prop where
  named : tool.name = purpose.name
  reaches : ∀ arguments context, Clean server.names (arguments.getD []) →
    (purpose.ofCapability = true ∨
      ∃ V, valid V (.obj tool.inputSchema) (.obj (arguments.getD [])) = true) →
    server.callTool tool.name arguments (.ok context) =
      .ok (purpose.call (arguments.getD []) context)
  only : ∀ arguments principal call, server.callTool tool.name arguments principal = .ok call →
    ∃ context, principal = .ok context ∧ call = purpose.call (arguments.getD []) context

/-- The tools of a server agree with its calls. -/
structure DispatchAgrees (decode : String → String) (server : PrincipalCapabilityMcpServer packs)
    (tools : List Tool) : Prop where
  distinct : (tools.map (·.name)).Nodup
  directed : List.Forall₂ (Directed server) tools server.purposes
  shielded : ∀ name arguments principal key, Holds key (.obj (arguments.getD [])) →
    reservedArgumentName server.names key ≠ none →
      ∀ call, server.callTool name arguments principal ≠ .ok call
  callable : ∀ tool ∈ tools, ∀ name, Declares server.names decode (.obj tool.inputSchema) name →
    reservedArgumentName server.names name = none

/-- Without a coordinator, no read has the name of a lifecycle tool; and the keywords that the scan of a
schema does not look at give no reserved name. -/
structure Dispatchable (decode : String → String) (server : PrincipalCapabilityMcpServer packs) :
    Prop where
  unnamed : server.actionCoordinator = none →
    ∀ capability ∈ server.pack.reads, capability.id ∉ actionToolNames
  hidesNone : ∀ schema ∈ server.inputSchemas, HidesNone server.names decode (.obj schema)

/-! Identifiers. -/

/-- A lookup that keeps the key gives distinct keys. -/
theorem map_filterMap_sublist {α : Type} {f : String → Option α} {key : α → String}
    {ids : List String} (h : ∀ id ∈ ids, ∀ value, f id = some value → key value = id) :
    ((ids.filterMap f).map key).Sublist ids := by
  induction ids with
  | nil => exact .slnil
  | cons id rest ih =>
    have hrest := ih fun other hother => h other (List.mem_cons_of_mem _ hother)
    cases hvalue : f id with
    | none =>
      rw [List.filterMap_cons_none hvalue]
      exact hrest.cons _
    | some value =>
      rw [List.filterMap_cons_some hvalue, List.map_cons, h id List.mem_cons_self value hvalue]
      exact hrest.cons_cons _

theorem reads_nodup (pack : LoadedPack) : (pack.reads.map (·.id)).Nodup := by
  refine List.Nodup.sublist (map_filterMap_sublist fun id _ capability h => ?_)
    (Text.nodup_sortedSet (pack.capabilities.map Prod.fst))
  split at h
  next found hfound =>
    obtain rfl := Option.some.inj h
    exact pack.keyed _ (Table.mem_of_get? hfound)
  · exact absurd h (by simp)

theorem manifest_nodup (coordinator : Coordinator packs) :
    ((manifest coordinator).map (·.capability.id)).Nodup := by
  refine List.Nodup.sublist ((List.filter_sublist).map _) ?_
  exact List.Nodup.sublist
    (map_filterMap_sublist fun id _ definition h => packs.keyed _ id definition h)
    (Text.nodup_sortedSet _)

theorem actions_nodup (server : PrincipalCapabilityMcpServer packs) :
    (server.actions.map (·.capability.id)).Nodup := by
  unfold PrincipalCapabilityMcpServer.actions
  cases server.actionCoordinator with
  | none => exact List.nodup_nil
  | some coordinator => exact manifest_nodup coordinator

/-! The suffix of prepare tools. -/

theorem prepare_name_inj {id other : String} (h : id ++ ".prepare" = other ++ ".prepare") :
    id = other := by
  have hchars := congrArg String.toList h
  rw [String.toList_append, String.toList_append] at hchars
  exact String.toList_injective (List.append_cancel_right hchars)

theorem prepareCapabilityId_eq_some {coordinator : Coordinator packs} {name capabilityId : String} :
    prepareCapabilityId (some coordinator) name = some capabilityId ↔
      name = capabilityId ++ ".prepare" ∧
        capabilityId ∈ (manifest coordinator).map (·.capability.id) := by
  have hlisted : ∀ id : String, ((manifest coordinator).any (·.capability.id = id)) = true ↔
      id ∈ (manifest coordinator).map (·.capability.id) := by
    intro id
    simp [List.any_eq_true]
  unfold prepareCapabilityId
  constructor
  · intro h
    dsimp only at h
    split_ifs at h with hsuffix hany
    obtain rfl := Option.some.inj h
    obtain ⟨front, hfront⟩ := List.isSuffixOf_iff_suffix.mp hsuffix
    have hlength : name.length - ".prepare".length = front.length := by
      rw [← String.length_toList, ← hfront, List.length_append, String.length_toList]
      omega
    have htake : name.toList.take (name.length - ".prepare".length) = front := by
      rw [hlength, ← hfront, List.take_left]
    rw [htake] at hany ⊢
    refine ⟨String.toList_injective ?_, (hlisted _).mp hany⟩
    rw [String.toList_append, String.toList_ofList, hfront]
  · rintro ⟨rfl, hmem⟩
    have hsuffix : ".prepare".toList.isSuffixOf (capabilityId ++ ".prepare").toList = true := by
      rw [String.toList_append]
      exact List.isSuffixOf_iff_suffix.mpr (List.suffix_append _ _)
    have htake : String.ofList ((capabilityId ++ ".prepare").toList.take
        ((capabilityId ++ ".prepare").length - ".prepare".length)) = capabilityId := by
      rw [String.length_append, Nat.add_sub_cancel, String.toList_append, ← String.length_toList,
        List.take_left, String.ofList_toList]
    dsimp only
    rw [if_pos hsuffix, htake, if_pos ((hlisted _).mpr hmem)]

/-! Where calls go. -/

section Calls
variable {server : PrincipalCapabilityMcpServer packs} {name : String} {arguments : Option Fields}
  {context : CallerContext}

theorem reservedArgumentNames_getD (host : NameHost) (arguments : Option Fields) :
    reservedArgumentNames host arguments = [] ↔ Clean host (arguments.getD []) := by
  cases arguments with
  | none =>
    have hempty : reservedArgumentNames host (some []) = [] := rfl
    exact ⟨fun _ => reservedArgumentNames_eq_nil.mp hempty, fun _ => rfl⟩
  | some fields => exact reservedArgumentNames_eq_nil

theorem callTool_of_clean (hclean : Clean server.names (arguments.getD [])) :
    server.callTool name arguments (.ok context) =
      if name ∈ actionToolNames ∨ (prepareCapabilityId server.actionCoordinator name).isSome then
        if server.actionCoordinator.isNone then .error actionToolUnavailable
        else callActionLifecycle name (arguments.getD []) context
          (prepareCapabilityId server.actionCoordinator name)
      else .ok (.read name (arguments.getD []) context) := by
  have hnone := (reservedArgumentNames_getD server.names arguments).mpr hclean
  rw [PrincipalCapabilityMcpServer.callTool, if_neg (not_not_intro hnone)]
  rfl

/-- A call that arrives somewhere holds no reserved name, and its caller is known. -/
theorem clean_of_callTool {principal : Except RuntimeError CallerContext} {call : ToolCall}
    (h : server.callTool name arguments principal = .ok call) :
    Clean server.names (arguments.getD []) ∧ ∃ context, principal = .ok context := by
  by_cases hreserved : reservedArgumentNames server.names arguments = []
  · rw [PrincipalCapabilityMcpServer.callTool, if_neg (not_not_intro hreserved)] at h
    obtain ⟨context, hcontext, -⟩ := exists_of_bind h
    exact ⟨(reservedArgumentNames_getD _ _).mp hreserved, context, hcontext⟩
  · rw [PrincipalCapabilityMcpServer.callTool, if_pos hreserved] at h
    cases h

/-- A tool whose calls give the call of its purpose is directed. -/
theorem directed_of_eq {tool : Tool} {purpose : Purpose} (hname : tool.name = purpose.name)
    (h : ∀ arguments context, Clean server.names (arguments.getD []) →
      server.callTool tool.name arguments (.ok context) =
        .ok (purpose.call (arguments.getD []) context)) : Directed server tool purpose where
  named := hname
  reaches arguments context hclean _ := h arguments context hclean
  only arguments principal call hcall := by
    obtain ⟨hclean, context, rfl⟩ := clean_of_callTool hcall
    rw [h arguments context hclean] at hcall
    exact ⟨context, rfl, (Except.ok.inj hcall).symm⟩

theorem directed_read {tool : Tool} {capabilityId : String} (hname : tool.name = capabilityId)
    (hlifecycle : capabilityId ∉ actionToolNames)
    (hprepare : prepareCapabilityId server.actionCoordinator capabilityId = none) :
    Directed server tool (.read capabilityId) := by
  refine directed_of_eq hname fun arguments context hclean => ?_
  have hneither : ¬ (capabilityId ∈ actionToolNames ∨
      (prepareCapabilityId server.actionCoordinator capabilityId).isSome = true) := by
    rw [hprepare]
    simpa using hlifecycle
  rw [hname, callTool_of_clean hclean, if_neg hneither]
  rfl

theorem directed_prepare {tool : Tool} {capabilityId : String} {coordinator : Coordinator packs}
    (hcoordinator : server.actionCoordinator = some coordinator)
    (hname : tool.name = capabilityId ++ ".prepare")
    (hmem : capabilityId ∈ (manifest coordinator).map (·.capability.id)) :
    Directed server tool (.prepare capabilityId) := by
  refine directed_of_eq hname fun arguments context hclean => ?_
  have hprepare := prepareCapabilityId_eq_some.mpr ⟨hname, hmem⟩
  rw [callTool_of_clean hclean, hcoordinator, hprepare, if_pos (.inr rfl)]
  rfl

/-! Operations that take handles. -/

theorem requiredString_eq_ok {fields : Fields} {key value : String} :
    requiredString fields key = .ok value ↔ field? key fields = some (.str value) ∧ value ≠ "" := by
  unfold requiredString
  split
  next text htext =>
    rw [htext]
    split_ifs with hempty
    · simp only [Option.some.injEq, Json.str.injEq, false_iff, not_and, not_not]
      exact fun h => h ▸ hempty
    · simp only [Except.ok.injEq, Option.some.injEq, Json.str.injEq]
      exact ⟨fun h => ⟨h, h ▸ hempty⟩, fun h => h.1⟩
  next hnone =>
    simp only [reduceCtorEq, false_iff, not_and]
    exact fun h => absurd h (hnone value)

theorem Purpose.handleAt_eq {fields : Fields} {key value : String} (h : field? key fields = some (.str value)) :
    Purpose.handleAt key fields = value := by
  rw [Purpose.handleAt, h]

/-- The names of the handles that a purpose takes. -/
def Purpose.handles : Purpose → List String
  | .approve => ["action_handle", "approval_handle"]
  | .commit | .status => ["action_handle"]
  | _ => []

/-- Exactly these handles are given. -/
def GivesHandles (names : List String) (fields : Fields) : Prop :=
  namedExactly names fields = true ∧ ∀ name ∈ names, ∃ handle, requiredString fields name = .ok handle

variable {purpose : Purpose}

theorem callActionLifecycle_of_handles {fields : Fields} (hpurpose : purpose.ofCapability = false)
    (h : GivesHandles purpose.handles fields) :
    callActionLifecycle purpose.name fields context none = .ok (purpose.call fields context) := by
  obtain ⟨hexactly, hall⟩ := h
  cases purpose with
  | read | prepare => cases hpurpose
  | approve =>
    simp only [Purpose.handles] at hexactly
    obtain ⟨action, haction⟩ := hall "action_handle" List.mem_cons_self
    obtain ⟨approval, happroval⟩ := hall "approval_handle" (by simp [Purpose.handles])
    have hfirst := Purpose.handleAt_eq (requiredString_eq_ok.mp haction).1
    have hsecond := Purpose.handleAt_eq (requiredString_eq_ok.mp happroval).1
    simp [callActionLifecycle, Purpose.name, Purpose.call, bind, Except.bind, pure, Except.pure,
      haction, happroval, hexactly, hfirst, hsecond]
  | commit =>
    simp only [Purpose.handles] at hexactly
    obtain ⟨action, haction⟩ := hall "action_handle" List.mem_cons_self
    have hfirst := Purpose.handleAt_eq (requiredString_eq_ok.mp haction).1
    simp [callActionLifecycle, Purpose.name, Purpose.call, bind, Except.bind, pure, Except.pure,
      haction, hexactly, hfirst]
  | status =>
    simp only [Purpose.handles] at hexactly
    obtain ⟨action, haction⟩ := hall "action_handle" List.mem_cons_self
    have hfirst := Purpose.handleAt_eq (requiredString_eq_ok.mp haction).1
    simp [callActionLifecycle, Purpose.name, Purpose.call, bind, Except.bind, pure, Except.pure,
      haction, hexactly, hfirst]

theorem call_of_callActionLifecycle {fields : Fields} {call : ToolCall}
    (hpurpose : purpose.ofCapability = false)
    (h : callActionLifecycle purpose.name fields context none = .ok call) :
    call = purpose.call fields context := by
  rw [callActionLifecycle] at h
  obtain ⟨action, haction, h⟩ := exists_of_bind h
  have hfirst := Purpose.handleAt_eq (requiredString_eq_ok.mp haction).1
  cases purpose with
  | read | prepare => cases hpurpose
  | approve =>
    have hname : Purpose.approve.name = "acc_action_approve" := rfl
    rw [if_pos hname] at h
    split_ifs at h
    obtain ⟨approval, happroval, h⟩ := exists_of_bind h
    have hsecond := Purpose.handleAt_eq (requiredString_eq_ok.mp happroval).1
    rw [Purpose.call, hfirst, hsecond]
    exact (Except.ok.inj h).symm
  | commit =>
    rw [if_neg (by decide)] at h
    split_ifs at h
    · rw [Purpose.call, hfirst]
      exact (Except.ok.inj h).symm
    · exact absurd rfl ‹¬ Purpose.commit.name = "acc_action_commit"›
  | status =>
    rw [if_neg (by decide)] at h
    split_ifs at h with hexactly hcommit
    · exact absurd hcommit (by decide)
    · rw [Purpose.call, hfirst]
      exact (Except.ok.inj h).symm

/-- The input schema of an operation that takes handles. -/
def handlesSchema (names : List String) : Fields :=
  objectSchema (names.map fun name => (name, handleSchema)) names

theorem exists_handle {V : Vocabulary} {value : Json} (h : valid V handleSchema value = true) :
    ∃ handle, value = .str handle ∧ handle ≠ "" := by
  have hkeywords := (valid_obj_iff.mp h).2
  have htype := hkeywords "type" (.str "string") rfl
  have hlength := hkeywords "minLength" (.int 43) rfl
  cases value with
  | str handle =>
    refine ⟨handle, rfl, ?_⟩
    rintro rfl
    rw [keywordHolds_leaf (by decide)] at hlength
    exact absurd hlength (by decide)
  | _ => exact absurd htype (by simp [keywordHolds, leafHolds, typeHolds, hasType])

theorem stringList?_map_str (names : List String) :
    Contracts.stringList? (names.map .str) = some names := by
  induction names with
  | nil => rfl
  | cons name rest ih => rw [List.map_cons, Contracts.stringList?, ih]; rfl

theorem field?_handles {names : List String} {name : String} (h : name ∈ names) :
    field? name (names.map fun name => (name, handleSchema)) = some handleSchema := by
  induction names with
  | nil => exact absurd h List.not_mem_nil
  | cons first rest ih =>
    rw [List.map_cons, field?_cons]
    split_ifs with hfirst
    · rfl
    · exact ih ((List.mem_cons.mp h).resolve_left (Ne.symm hfirst))

/-- Arguments of this schema give exactly its handles. -/
theorem givesHandles_of_valid {V : Vocabulary} {names : List String} {fields : Fields}
    (h : valid V (.obj (handlesSchema names)) (.obj fields) = true) : GivesHandles names fields := by
  have hkeywords := (valid_obj_iff.mp h).2
  have hproperties := keywordHolds_properties_iff.mp (hkeywords "properties" _ rfl)
  have hrequired := hkeywords "required" _ rfl
  have hadditional := keywordHolds_additionalProperties_iff.mp
    (hkeywords "additionalProperties" _ rfl)
  rw [keywordHolds_leaf (by decide)] at hrequired
  have hpresent : ∀ name ∈ names, (field? name fields).isSome = true := by
    simpa [leafHolds, requiredHolds, stringList?_map_str] using hrequired
  have hdeclared : propertyNames (handlesSchema names) "properties" = names := by
    simp [propertyNames, handlesSchema, objectSchema, Function.comp_def]
  have hnopatterns : propertyNames (handlesSchema names) "patternProperties" = [] := rfl
  have hnames : ∀ key ∈ fields.map Prod.fst, key ∈ names := by
    intro key hkey
    by_contra hnot
    obtain ⟨value, hvalue⟩ := Option.isSome_iff_exists.mp (field?_isSome_iff.mpr hkey)
    have hextra : Additional V (handlesSchema names) key :=
      ⟨by rwa [hdeclared], by simp [hnopatterns]⟩
    exact absurd (hadditional key value hvalue hextra) (by simp [valid])
  refine ⟨?_, fun name hname => ?_⟩
  · rw [namedExactly, Bool.and_eq_true, List.all_eq_true, List.all_eq_true]
    exact ⟨fun key hkey => decide_eq_true (hnames key hkey),
      fun name hname => decide_eq_true (field?_isSome_iff.mp (hpresent name hname))⟩
  · obtain ⟨value, hvalue⟩ := Option.isSome_iff_exists.mp (hpresent name hname)
    obtain ⟨handle, rfl, hne⟩ := exists_handle
      (hproperties name handleSchema (field?_handles hname) value hvalue)
    exact ⟨handle, requiredString_eq_ok.mpr ⟨hvalue, hne⟩⟩

theorem directed_lifecycle {tool : Tool} (hpurpose : purpose.ofCapability = false)
    (hcoordinator : server.actionCoordinator.isSome = true) (hname : tool.name = purpose.name)
    (hschema : tool.inputSchema = handlesSchema purpose.handles) : Directed server tool purpose := by
  obtain ⟨coordinator, hcoordinator⟩ := Option.isSome_iff_exists.mp hcoordinator
  have hlisted : purpose.name ∈ actionToolNames := by
    cases purpose with
    | read | prepare => cases hpurpose
    | approve | commit | status => decide
  have hprepare : prepareCapabilityId server.actionCoordinator purpose.name = none := by
    rw [hcoordinator]
    cases purpose with
    | read | prepare => cases hpurpose
    | approve | commit | status => rfl
  have hcall : ∀ arguments context, Clean server.names (arguments.getD []) →
      server.callTool tool.name arguments (.ok context) =
        callActionLifecycle purpose.name (arguments.getD []) context none := by
    intro arguments context hclean
    rw [hname, callTool_of_clean hclean, if_pos (.inl hlisted), hprepare, hcoordinator]
    rfl
  refine { named := hname, reaches := ?_, only := ?_ }
  · intro arguments context hclean haccepted
    rw [hcall arguments context hclean]
    obtain ⟨V, hvalid⟩ := haccepted.resolve_left (by simp [hpurpose])
    rw [hschema] at hvalid
    exact callActionLifecycle_of_handles hpurpose (givesHandles_of_valid hvalid)
  · intro arguments principal call h
    obtain ⟨hclean, context, rfl⟩ := clean_of_callTool h
    rw [hcall arguments context hclean] at h
    exact ⟨context, rfl, call_of_callActionLifecycle hpurpose h⟩

end Calls

/-! Listed tools. -/

/-- The tool was made for the purpose; the names in the input schema of a capability were looked at. -/
inductive Lists (server : PrincipalCapabilityMcpServer packs) (tool : Tool) : Purpose → Prop where
  | read {capability : ReadCapability} (hmem : capability ∈ server.pack.reads)
      (hname : tool.name = capability.id) (hschema : tool.inputSchema = capability.inputSchema)
      (haccepted : reservedSchemaPropertyNames server.names capability.inputSchema = []) :
      Lists server tool (.read capability.id)
  | prepare {definition : CompiledActionDefinition} (hmem : definition ∈ server.actions)
      (hname : tool.name = definition.capability.id ++ ".prepare")
      (hschema : tool.inputSchema = definition.capability.inputSchema)
      (haccepted : reservedSchemaPropertyNames server.names definition.capability.inputSchema = []) :
      Lists server tool (.prepare definition.capability.id)
  | lifecycle {purpose : Purpose} (hpurpose : purpose.ofCapability = false)
      (hcoordinator : server.actionCoordinator.isSome = true) (hname : tool.name = purpose.name)
      (hschema : tool.inputSchema = handlesSchema purpose.handles) : Lists server tool purpose

section Listing
variable {server : PrincipalCapabilityMcpServer packs} {tool : Tool} {tools : List Tool}

theorem Lists.name_eq {purpose : Purpose} (h : Lists server tool purpose) :
    tool.name = purpose.name := by
  cases h with
  | read _ hname => exact hname
  | prepare _ hname => exact hname
  | lifecycle _ _ hname => exact hname

theorem names_of_lists {purposes : List Purpose} (h : List.Forall₂ (Lists server) tools purposes) :
    tools.map (·.name) = purposes.map (·.name) := by
  induction h with
  | nil => rfl
  | cons hlists _ ih => rw [List.map_cons, List.map_cons, hlists.name_eq, ih]

theorem lists_read {capability : ReadCapability} (hmem : capability ∈ server.pack.reads)
    (h : server.translateTool capability = .ok tool) : Lists server tool (.read capability.id) := by
  rw [PrincipalCapabilityMcpServer.translateTool] at h
  split_ifs at h with hreserved
  obtain ⟨projected, -, h⟩ := exists_of_bind h
  obtain rfl := Except.ok.inj h
  exact .read hmem rfl rfl (not_not.mp hreserved)

theorem lifecycleTool_eq {name title : String} {inputSchema : Fields} {outputSchema : Json}
    {annotations : ToolAnnotations}
    (h : server.lifecycleTool name title inputSchema outputSchema annotations = .ok tool) :
    tool.name = name ∧ tool.inputSchema = inputSchema := by
  obtain ⟨projected, -, h⟩ := exists_of_bind h
  obtain rfl := Except.ok.inj h
  exact ⟨rfl, rfl⟩

theorem lists_actions {coordinator : Coordinator packs}
    (hcoordinator : server.actionCoordinator = some coordinator)
    (h : server.actionLifecycleTools coordinator = .ok tools) :
    List.Forall₂ (Lists server) tools server.actionPurposes := by
  have hsome : server.actionCoordinator.isSome = true := by rw [hcoordinator]; rfl
  have hactions : server.actions = manifest coordinator := by
    rw [PrincipalCapabilityMcpServer.actions, hcoordinator]
    rfl
  rw [PrincipalCapabilityMcpServer.actionLifecycleTools] at h
  split_ifs at h with hreserved
  rw [Bool.not_eq_true, List.any_eq_false] at hreserved
  obtain ⟨prepares, hprepares, h⟩ := exists_of_bind h
  obtain ⟨approve, happrove, h⟩ := exists_of_bind h
  obtain ⟨commit, hcommit, h⟩ := exists_of_bind h
  obtain ⟨status, hstatus, h⟩ := exists_of_bind h
  obtain rfl := Except.ok.inj h
  rw [PrincipalCapabilityMcpServer.actionPurposes, if_pos hsome, hactions]
  refine List.rel_append (List.forall₂_map_right_iff.mpr ?_) ?_
  · refine (forall₂_of_mapM_ok hprepares).flip.imp fun tool definition hmade => ?_
    obtain ⟨hmem, hmade⟩ := hmade
    obtain ⟨hname, hschema⟩ := lifecycleTool_eq hmade
    have haccepted := hreserved definition hmem
    simp only [ne_eq, decide_not, Bool.not_eq_true', decide_eq_false_iff_not, not_not] at haccepted
    exact .prepare (hactions ▸ hmem) hname hschema haccepted
  · have happrove := lifecycleTool_eq happrove
    have hcommit := lifecycleTool_eq hcommit
    have hstatus := lifecycleTool_eq hstatus
    exact .cons (.lifecycle rfl hsome happrove.1 happrove.2)
      (.cons (.lifecycle rfl hsome hcommit.1 hcommit.2)
        (.cons (.lifecycle rfl hsome hstatus.1 hstatus.2) .nil))

/-- The tools are listed for the purposes of the server, and no read is named as an action's tool. -/
theorem lists_of_listTools (h : server.listTools = .ok tools) :
    List.Forall₂ (Lists server) tools server.purposes ∧
      ∀ capability ∈ server.pack.reads, capability.id ∉ server.actionPurposes.map (·.name) := by
  obtain ⟨reads, hreads, h⟩ := exists_of_bind h
  have hlisted : List.Forall₂ (Lists server) reads (server.pack.reads.map (.read ·.id)) :=
    List.forall₂_map_right_iff.mpr
      ((forall₂_of_mapM_ok hreads).flip.imp fun _ _ hmade => lists_read hmade.1 hmade.2)
  cases hcoordinator : server.actionCoordinator with
  | none =>
    rw [hcoordinator] at h
    obtain rfl := Except.ok.inj h
    have hnone : server.actionPurposes = [] := by
      simp [PrincipalCapabilityMcpServer.actionPurposes, PrincipalCapabilityMcpServer.actions,
        hcoordinator]
    rw [PrincipalCapabilityMcpServer.purposes, hnone, List.append_nil]
    exact ⟨hlisted, fun _ _ => List.not_mem_nil⟩
  | some coordinator =>
    rw [hcoordinator] at h
    obtain ⟨actionTools, hactionTools, h⟩ := exists_of_bind h
    have hactions := lists_actions hcoordinator hactionTools
    split_ifs at h with hcollision
    obtain rfl := Except.ok.inj h
    refine ⟨List.rel_append hlisted hactions, fun capability hmem hname => hcollision ?_⟩
    have hnames := names_of_lists hlisted
    have hread : capability.id ∈ reads.map (·.name) := by
      rw [hnames, List.map_map]
      exact List.mem_map_of_mem hmem
    obtain ⟨tool, htool, hsame⟩ := List.mem_map.mp hread
    refine List.any_eq_true.mpr ⟨tool, htool, decide_eq_true ?_⟩
    rw [hsame, names_of_lists hactions]
    exact hname

/-! Distinct names. -/

theorem prepare_name_ne {id : String} {purpose : Purpose} (h : purpose.ofCapability = false) :
    id ++ ".prepare" ≠ purpose.name := by
  intro hname
  have hchars := congrArg String.toList hname
  rw [String.toList_append] at hchars
  have hsuffix : ".prepare".toList.isSuffixOf purpose.name.toList = true :=
    List.isSuffixOf_iff_suffix.mpr (hchars ▸ List.suffix_append _ _)
  cases purpose with
  | read | prepare => cases h
  | approve | commit | status => exact absurd hsuffix (by decide)

theorem actionPurposes_nodup (server : PrincipalCapabilityMcpServer packs) :
    (server.actionPurposes.map (·.name)).Nodup := by
  have hprepares : ((server.actions.map (.prepare ·.capability.id)).map Purpose.name).Nodup := by
    have hids : (server.actions.map (.prepare ·.capability.id)).map Purpose.name =
        (server.actions.map (·.capability.id)).map (· ++ ".prepare") := by
      rw [List.map_map, List.map_map]
      rfl
    rw [hids]
    exact (actions_nodup server).map fun _ _ h => prepare_name_inj h
  rw [PrincipalCapabilityMcpServer.actionPurposes, List.map_append, List.nodup_append]
  refine ⟨hprepares, by split_ifs <;> decide, ?_⟩
  intro name hname other hother hsame
  obtain ⟨purpose, hpurpose, rfl⟩ := List.mem_map.mp hname
  obtain ⟨definition, -, rfl⟩ := List.mem_map.mp hpurpose
  obtain ⟨second, hsecond, rfl⟩ := List.mem_map.mp hother
  have hlifecycle : second.ofCapability = false := by
    split_ifs at hsecond
    · simp only [List.mem_cons, List.not_mem_nil, or_false] at hsecond
      rcases hsecond with rfl | rfl | rfl <;> rfl
    · exact absurd hsecond List.not_mem_nil
  exact prepare_name_ne hlifecycle hsame

theorem distinct_of_listTools (h : server.listTools = .ok tools) : (tools.map (·.name)).Nodup := by
  obtain ⟨hlists, hdisjoint⟩ := lists_of_listTools h
  rw [names_of_lists hlists, PrincipalCapabilityMcpServer.purposes, List.map_append, List.map_map]
  refine List.nodup_append.mpr ⟨reads_nodup server.pack, actionPurposes_nodup server, ?_⟩
  intro name hname other hother hsame
  obtain ⟨capability, hmem, rfl⟩ := List.mem_map.mp hname
  have hid : capability.id = other := hsame
  exact hdisjoint capability hmem (hid ▸ hother)

/-! Directed tools. -/

theorem lifecycle_names {name : String} (hsome : server.actionCoordinator.isSome = true)
    (h : name ∈ actionToolNames) : name ∈ server.actionPurposes.map (·.name) := by
  rw [PrincipalCapabilityMcpServer.actionPurposes, if_pos hsome, List.map_append]
  exact List.mem_append_right _ h

theorem prepareCapabilityId_of_disjoint {name : String}
    (h : name ∉ server.actionPurposes.map (·.name)) :
    prepareCapabilityId server.actionCoordinator name = none := by
  cases hcoordinator : server.actionCoordinator with
  | none => rfl
  | some coordinator =>
    refine Option.eq_none_iff_forall_ne_some.mpr fun capabilityId hprepare => h ?_
    obtain ⟨rfl, hmem⟩ := prepareCapabilityId_eq_some.mp hprepare
    obtain ⟨definition, hdefinition, rfl⟩ := List.mem_map.mp hmem
    have hactions : server.actions = manifest coordinator := by
      rw [PrincipalCapabilityMcpServer.actions, hcoordinator]
      rfl
    rw [PrincipalCapabilityMcpServer.actionPurposes, hactions]
    exact List.mem_map.mpr ⟨.prepare definition.capability.id,
      List.mem_append_left _ (List.mem_map_of_mem hdefinition), rfl⟩

theorem directed_of_lists {purpose : Purpose} (h : Lists server tool purpose)
    (hdisjoint : ∀ capability ∈ server.pack.reads,
      capability.id ∉ server.actionPurposes.map (·.name))
    (hunnamed : server.actionCoordinator = none →
      ∀ capability ∈ server.pack.reads, capability.id ∉ actionToolNames) :
    Directed server tool purpose := by
  cases h with
  | @read capability hmem hname hschema haccepted =>
    have hfree := hdisjoint capability hmem
    refine directed_read hname (fun hlifecycle => ?_) (prepareCapabilityId_of_disjoint hfree)
    cases hcoordinator : server.actionCoordinator with
    | none => exact hunnamed hcoordinator capability hmem hlifecycle
    | some coordinator =>
      exact hfree (lifecycle_names (by rw [hcoordinator]; rfl) hlifecycle)
  | @prepare definition hmem hname hschema haccepted =>
    rw [PrincipalCapabilityMcpServer.actions] at hmem
    cases hcoordinator : server.actionCoordinator with
    | none =>
      rw [hcoordinator] at hmem
      exact absurd hmem List.not_mem_nil
    | some coordinator =>
      rw [hcoordinator] at hmem
      exact directed_prepare hcoordinator hname (List.mem_map_of_mem hmem)
  | lifecycle hpurpose hcoordinator hname hschema =>
    exact directed_lifecycle hpurpose hcoordinator hname hschema

/-! The names of the lifecycle. -/

theorem ascii_of_all {text : String}
    (h : text.toList.all (fun c => decide (c.toNat < 128)) = true) :
    ∀ c ∈ text.toList, c.toNat < 128 :=
  fun c hc => of_decide_eq_true (List.all_eq_true.mp h c hc)

theorem reservedArgumentName_action_handle (host : NameHost) :
    reservedArgumentName host "action_handle" = none := by
  have hnormal : normalizeSecurityName host "action_handle" = "action_handle" := by
    rw [normalizeSecurityName, host.nfkc_ascii _ (ascii_of_all rfl)]
    decide +kernel
  unfold reservedArgumentName sensitiveAuthNameMarker
  rw [hnormal]
  decide +kernel

theorem reservedArgumentName_approval_handle (host : NameHost) :
    reservedArgumentName host "approval_handle" = none := by
  have hnormal : normalizeSecurityName host "approval_handle" = "approval_handle" := by
    rw [normalizeSecurityName, host.nfkc_ascii _ (ascii_of_all rfl)]
    decide +kernel
  unfold reservedArgumentName sensitiveAuthNameMarker
  rw [hnormal]
  decide +kernel

theorem handlesSchema_accepted (host : NameHost) (purpose : Purpose) :
    reservedSchemaPropertyNames host (handlesSchema purpose.handles) = [] := by
  have haction := reservedArgumentName_action_handle host
  have happroval := reservedArgumentName_approval_handle host
  rw [reservedSchemaPropertyNames, sortedSet_eq_nil]
  cases purpose <;>
    simp [Purpose.handles, handlesSchema, objectSchema, handleSchema, valuesIn, valuesInFields,
      valuesInItems, objectFound, sequenceFound, schemaStringSequence?, stringList?, reservedAmong,
      haction, happroval]

/-- The input schemas of the lifecycle declare no reserved name. -/
theorem handlesSchema_callable {host : NameHost} {decode : String → String} {purpose : Purpose}
    {name : String} (h : Declares host decode (.obj (handlesSchema purpose.handles)) name) :
    reservedArgumentName host name = none := by
  have hplain : plainNames (.obj (handlesSchema purpose.handles)) = true := by
    cases purpose <;> rfl
  exact (declares_iff (handlesSchema_accepted host purpose)).mpr (hidesNone_of_plain hplain) name h

/-! Agreement. -/

theorem shielded_of_reserved {name key : String} {arguments : Option Fields}
    {principal : Except RuntimeError CallerContext}
    (hkey : Holds key (.obj (arguments.getD [])))
    (hreserved : reservedArgumentName server.names key ≠ none) (call : ToolCall) :
    server.callTool name arguments principal ≠ .ok call :=
  fun h => hreserved ((clean_of_callTool h).1 key hkey)

variable {decode : String → String}

theorem callable_of_lists {purpose : Purpose} (h : Lists server tool purpose)
    (hnone : ∀ schema ∈ server.inputSchemas, HidesNone server.names decode (.obj schema))
    {name : String} (hname : Declares server.names decode (.obj tool.inputSchema) name) :
    reservedArgumentName server.names name = none := by
  cases h with
  | @read capability hmem _ hschema haccepted =>
    rw [hschema] at hname
    have hlisted : capability.inputSchema ∈ server.inputSchemas :=
      List.mem_append_left _ (List.mem_map_of_mem hmem)
    exact (declares_iff haccepted).mpr (hnone _ hlisted) name hname
  | @prepare definition hmem _ hschema haccepted =>
    rw [hschema] at hname
    have hlisted : definition.capability.inputSchema ∈ server.inputSchemas :=
      List.mem_append_right _ (List.mem_map_of_mem hmem)
    exact (declares_iff haccepted).mpr (hnone _ hlisted) name hname
  | lifecycle _ _ _ hschema =>
    rw [hschema] at hname
    exact handlesSchema_callable hname

/-- Each purpose has a tool that was listed for it. -/
theorem exists_tool {purposes : List Purpose} {r : Tool → Purpose → Prop}
    (h : List.Forall₂ r tools purposes) {purpose : Purpose} (hmem : purpose ∈ purposes) :
    ∃ tool ∈ tools, r tool purpose := by
  induction h with
  | nil => exact absurd hmem List.not_mem_nil
  | @cons tool first rest others hfirst _ ih =>
    rcases List.mem_cons.mp hmem with rfl | hmem
    · exact ⟨tool, List.mem_cons_self, hfirst⟩
    · obtain ⟨found, hfound, hr⟩ := ih hmem
      exact ⟨found, List.mem_cons_of_mem _ hfound, hr⟩

theorem exists_purpose {purposes : List Purpose} {r : Tool → Purpose → Prop}
    (h : List.Forall₂ r tools purposes) (hmem : tool ∈ tools) : ∃ purpose, r tool purpose := by
  induction h with
  | nil => exact absurd hmem List.not_mem_nil
  | cons hfirst _ ih =>
    rcases List.mem_cons.mp hmem with rfl | hmem
    · exact ⟨_, hfirst⟩
    · exact ih hmem

/-- A read with the name of a lifecycle tool is not reached where there is no coordinator. -/
theorem callTool_unavailable {name : String} (hnone : server.actionCoordinator = none)
    (hname : name ∈ actionToolNames) (context : CallerContext) :
    server.callTool name none (.ok context) = .error actionToolUnavailable := by
  have hclean : Clean server.names ((none : Option Fields).getD []) :=
    (reservedArgumentNames_getD server.names none).mp rfl
  rw [callTool_of_clean hclean, if_pos (.inl hname), hnone]
  rfl

theorem schema_of_read {capability : ReadCapability} (hmem : capability ∈ server.pack.reads)
    (h : Lists server tool (.read capability.id)) :
    reservedSchemaPropertyNames server.names capability.inputSchema = [] ∧
      tool.inputSchema = capability.inputSchema := by
  generalize hpurpose : Purpose.read capability.id = purpose at h
  cases h with
  | @read other hother _ hschema haccepted =>
    obtain rfl := List.inj_on_of_nodup_map (reads_nodup server.pack) hmem hother
      (Purpose.read.inj hpurpose)
    exact ⟨haccepted, hschema⟩
  | prepare => cases hpurpose
  | lifecycle hlifecycle =>
    rw [← hpurpose] at hlifecycle
    cases hlifecycle

theorem schema_of_prepare {definition : CompiledActionDefinition} (hmem : definition ∈ server.actions)
    (h : Lists server tool (.prepare definition.capability.id)) :
    reservedSchemaPropertyNames server.names definition.capability.inputSchema = [] ∧
      tool.inputSchema = definition.capability.inputSchema := by
  generalize hpurpose : Purpose.prepare definition.capability.id = purpose at h
  cases h with
  | @prepare other hother _ hschema haccepted =>
    obtain rfl := List.inj_on_of_nodup_map (actions_nodup server) hmem hother
      (Purpose.prepare.inj hpurpose)
    exact ⟨haccepted, hschema⟩
  | read => cases hpurpose
  | lifecycle hlifecycle =>
    rw [← hpurpose] at hlifecycle
    cases hlifecycle

/-- The input schema of each capability is that of a tool, and its names were looked at. -/
theorem schema_of_lists (hlists : List.Forall₂ (Lists server) tools server.purposes)
    {schema : Fields} (hmem : schema ∈ server.inputSchemas) :
    reservedSchemaPropertyNames server.names schema = [] ∧
      ∃ tool ∈ tools, tool.inputSchema = schema := by
  rcases List.mem_append.mp hmem with hmem | hmem
  · obtain ⟨capability, hcapability, rfl⟩ := List.mem_map.mp hmem
    have hpurpose : Purpose.read capability.id ∈ server.purposes :=
      List.mem_append_left _ (List.mem_map_of_mem hcapability)
    obtain ⟨tool, htool, hlisted⟩ := exists_tool hlists hpurpose
    obtain ⟨haccepted, hschema⟩ := schema_of_read hcapability hlisted
    exact ⟨haccepted, tool, htool, hschema⟩
  · obtain ⟨definition, hdefinition, rfl⟩ := List.mem_map.mp hmem
    have hpurpose : Purpose.prepare definition.capability.id ∈ server.purposes :=
      List.mem_append_right _ (List.mem_append_left _ (List.mem_map_of_mem hdefinition))
    obtain ⟨tool, htool, hlisted⟩ := exists_tool hlists hpurpose
    obtain ⟨haccepted, hschema⟩ := schema_of_prepare hdefinition hlisted
    exact ⟨haccepted, tool, htool, hschema⟩

/-- The tools that a server lists agree with its calls just when its capabilities are dispatchable. -/
theorem dispatch_agrees_iff (h : server.listTools = .ok tools) :
    DispatchAgrees decode server tools ↔ Dispatchable decode server := by
  obtain ⟨hlists, hdisjoint⟩ := lists_of_listTools h
  constructor
  · intro hagrees
    refine { unnamed := ?_, hidesNone := ?_ }
    · intro hnone capability hmem hname
      have hpurpose : Purpose.read capability.id ∈ server.purposes :=
        List.mem_append_left _ (List.mem_map_of_mem hmem)
      obtain ⟨tool, -, hdirected⟩ := exists_tool hagrees.directed hpurpose
      have hclean : Clean server.names ((none : Option Fields).getD []) :=
        (reservedArgumentNames_getD server.names none).mp rfl
      have hreached := hdirected.reaches none ⟨⟨"", "", [], none⟩, none⟩ hclean (.inl rfl)
      rw [hdirected.named, Purpose.name, callTool_unavailable hnone hname] at hreached
      cases hreached
    · intro schema hmem
      obtain ⟨haccepted, tool, htool, rfl⟩ := schema_of_lists hlists hmem
      exact (declares_iff haccepted).mp (hagrees.callable tool htool)
  · intro hdispatchable
    refine
      { distinct := distinct_of_listTools h
        directed := hlists.imp fun tool purpose hlisted =>
          directed_of_lists hlisted hdisjoint hdispatchable.unnamed
        shielded := fun name arguments principal key => shielded_of_reserved
        callable := ?_ }
    intro tool htool name hname
    obtain ⟨purpose, hlisted⟩ := exists_purpose hlists htool
    exact callable_of_lists hlisted hdispatchable.hidesNone hname

end Listing

end Agreement

/-! A pack with one read: with a coordinator; under the name of a lifecycle tool, without one; and with an
argument that requires a token. -/

private def asciiNames : NameHost where
  nfkc := id
  nfkc_ascii := fun _ _ => rfl
  search := fun pattern text => decide (exactProperty? pattern = some text)
  search_exact := fun _ _ _ hexact hsearch =>
    .inl (Option.some.inj ((of_decide_eq_true hsearch).symm.trans hexact))

private def listingHost : ProjectionHost where
  printer := { floatRepr := fun q => toString q.num ++ ".0" }
  sha256 := id
  checkSchema := fun _ => true

private def noActions : Packs where
  definitions := fun _ => []
  keyed := fun _ _ _ h => by cases h

private def idleCoordinator : Coordinator noActions where
  packDigest := ""
  deployment := ⟨[], .low, none, .bestEffort⟩
  schemas := ⟨fun _ => true, fun _ _ => true⟩
  sha256 := id
  resolvesOutcomes := false
  audit := none
  audited := fun h => by cases h

private def reportRead (id : String) (inputSchema : Fields) : ReadCapability where
  id := id
  inputSchema := inputSchema
  outputSchema := [("type", .str "object")]
  policy := "open"
  evals := ["report"]
  workflow := []

private def reportServer (capability : ReadCapability) (coordinator : Option (Coordinator noActions)) :
    PrincipalCapabilityMcpServer noActions where
  names := asciiNames
  projection := listingHost
  texts := fun _ => ⟨"Report", "A report."⟩
  pack :=
    { capabilities := [(capability.id, .read capability)]
      unique := List.nodup_singleton _
      keyed := fun entry h => by rw [List.mem_singleton.mp h]; rfl }
  actionCoordinator := coordinator

private def yearlySchema : Fields :=
  [("type", .str "object"), ("properties", .obj [("year", .obj [("type", .str "integer")])]),
    ("required", .arr [.str "year"])]

private def signedSchema : Fields :=
  [("type", .str "object"), ("properties", .obj [("year", .obj [("type", .str "integer")])]),
    ("dependentRequired", .obj [("year", .arr [.str "token"])])]

theorem dispatch_agrees_report : ∃ tools,
    (reportServer (reportRead "get_report" yearlySchema) (some idleCoordinator)).listTools = .ok tools ∧
      DispatchAgrees id (reportServer (reportRead "get_report" yearlySchema) (some idleCoordinator))
        tools := by
  refine ⟨_, rfl, (dispatch_agrees_iff rfl).mpr { unnamed := ?_, hidesNone := ?_ }⟩
  · intro hnone
    cases hnone
  · intro schema hmem
    have hschemas : (reportServer (reportRead "get_report" yearlySchema)
        (some idleCoordinator)).inputSchemas = [yearlySchema] := rfl
    rw [hschemas, List.mem_singleton] at hmem
    rw [hmem]
    exact hidesNone_of_plain rfl

/-- Both reads are listed. A call of the first goes nowhere, and the second can require a reserved
argument. -/
theorem listed_not_callable :
    (∃ tools, (reportServer (reportRead "acc_action_status" yearlySchema) none).listTools = .ok tools ∧
      ¬ DispatchAgrees id (reportServer (reportRead "acc_action_status" yearlySchema) none) tools) ∧
    ∃ tools, (reportServer (reportRead "get_report" signedSchema) none).listTools = .ok tools ∧
      ¬ DispatchAgrees id (reportServer (reportRead "get_report" signedSchema) none) tools := by
  refine ⟨⟨_, rfl, fun hagrees => ?_⟩, ⟨_, rfl, fun hagrees => ?_⟩⟩
  · obtain ⟨tool, -, hdirected⟩ := exists_tool hagrees.directed
      (show Purpose.read "acc_action_status" ∈ _ from List.mem_cons_self)
    have hreached := hdirected.reaches none ⟨⟨"", "", [], none⟩, none⟩
      ((reservedArgumentNames_getD _ none).mp rfl) (.inl rfl)
    rw [hdirected.named, Purpose.name, callTool_unavailable rfl (by decide)] at hreached
    cases hreached
  · have hnone := hagrees.callable _ List.mem_cons_self "token"
      (.dependent .root ⟨_, "year", _, rfl, List.mem_cons_self, List.mem_cons_self⟩)
    exact absurd hnone (by decide)

end CapabilityCompiler.Mcp
