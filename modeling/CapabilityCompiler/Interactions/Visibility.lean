import CapabilityCompiler.Contracts.Soundness
import CapabilityCompiler.Interactions.Contracts
import CapabilityCompiler.Policies.Retention

/-! The proof that a result pointer is visible under a policy, against what the filter of the Runtime
keeps. The proof reads a pointer as a dotted name without its decimal tokens. -/
namespace CapabilityCompiler.Interactions
open Foundation Contracts Policies

/-! Schemas at data pointers. -/

def tokens (pointer : String) : List String :=
  if pointer = "" then [] else Compiler.pointerTokens pointer

def nonAssertingRefSiblings : List String :=
  ["$anchor", "$comment", "$defs", "$id", "$schema", "default", "deprecated", "description",
    "examples", "readOnly", "title", "writeOnly"]

/-- The member of nested objects. -/
def member? : Json → List String → Option Json
  | resolved, [] => some resolved
  | .obj fields, token :: rest => (Json.field? token fields).bind fun child => member? child rest
  | _, _ :: _ => none

/-- Follow local references that have only annotations beside them. Every step of it meets a new
reference, so as many steps as the root has positions are enough. -/
def dereferenceFrom (root : Fields) : ℕ → List String → Json → Option Fields
  | fuel + 1, seen, .obj fields =>
    match Json.field? "$ref" fields with
    | none => some fields
    | some (.str reference) =>
      if !Text.hasPrefix "#/" reference || reference ∈ seen ||
          fields.any (fun field => field.1 ≠ "$ref" && field.1 ∉ nonAssertingRefSiblings) then none
      else (member? (.obj root) (tokens (String.ofList (reference.toList.drop 1)))).bind
        (dereferenceFrom root fuel (reference :: seen))
    | some _ => none
  | _, _, _ => none

def dereference (root : Fields) (schema : Json) : Option Fields :=
  dereferenceFrom root ((positions (.obj root)).length + 2) [] schema

/-- A property that is declared by an object. -/
def propertySchema (fields : Fields) (token : String) : Option Json :=
  match Json.field? "properties" fields with
  | some (.obj properties) =>
    match Json.field? token properties with
    | some (.obj property) => some (.obj property)
    | _ => none
  | _ => none

/-- One token of a pointer: how it goes on in a value, and with which schema. A token that is no
decimal numeral goes through the items of an array to their properties. -/
def descend (root : Fields) (current : Json) (token : String) : Option (Descent × Json) :=
  (dereference root current).bind fun fields =>
    match Json.field? "items" fields with
    | some (.obj items) =>
      match Text.decimal? token with
      | some index => some (.item index, .obj items)
      | none => (dereference root (.obj items)).bind fun itemFields =>
        (propertySchema itemFields token).map fun property => (.itemProperty token, property)
    | _ => (propertySchema fields token).map fun property => (.property token, property)

def schemaAtTokens (root : Fields) : Json → List String → Option Fields
  | current, [] => dereference root current
  | current, token :: rest =>
    (descend root current token).bind fun next => schemaAtTokens root next.2 rest

/-- An empty root is taken for a missing one. -/
def rootOr (root schema : Fields) : Fields := if root = [] then schema else root

def schemaAtDataPointer (schema : Fields) (pointer : String) (root : Fields) : Option Fields :=
  schemaAtTokens (rootOr root schema) (.obj schema) (tokens pointer)

/-! Visibility. -/

def dottedName (tokens : List String) : String :=
  ".".intercalate (tokens.filter fun token => (Text.decimal? token).isNone)

def covers (dotted field : String) : Bool :=
  dotted = field || Text.hasPrefix (field ++ ".") dotted

def policyAllowsPointer (policy : Policy) (pointer : String) : Bool :=
  let dotted := dottedName (tokens pointer)
  decide (tokens pointer ≠ []) && policy.readableFields.any (covers dotted) &&
    !policy.deniedFields.any (covers dotted)

/-- What a proof reads of a capability. -/
structure Capability where
  inputSchema : Fields
  outputSchema : Fields
  policy : String

/-- The text without the slashes at its end. -/
def stripSlashes (text : String) : String :=
  String.ofList (text.toList.reverse.dropWhile (· = '/')).reverse

def presentationIsProven (capability : Capability) (policy : Option Policy)
    (consumption : ResultConsumption) : Bool :=
  match schemaAtDataPointer capability.outputSchema consumption.sourcePointer [], policy with
  | some sourceSchema, some policy =>
    let source := consumption.sourcePointer
    let fieldPointers := consumption.fieldPointers
    let pointers := if fieldPointers = [] then [source]
      else fieldPointers.map (stripSlashes source ++ ·)
    fieldPointers.all (fun field =>
      (schemaAtDataPointer sourceSchema field capability.outputSchema).isSome) &&
      pointers.all (policyAllowsPointer policy)
  | _, _ => false

inductive ProducerKind where
  | capability
  | operation
deriving DecidableEq

inductive FailureIsolation where
  | failFast
  | independent
deriving DecidableEq

structure RelatedDataBinding where
  id : String
  producerKind : ProducerKind
  producerId : String
  outputPointer : String
  targetPointer : String
  cardinality : Cardinality
  identityPointer : Option String
  ordering : ResultOrdering
  freshness : Freshness
  failureIsolation : FailureIsolation
  evidence : Json

/-- The target of related data is an input of the consumer, or else one of its outputs. -/
def relatedTargetSchema (consumer : Capability) (binding : RelatedDataBinding) : Option Fields :=
  (schemaAtDataPointer consumer.inputSchema binding.targetPointer []).orElse fun _ =>
    schemaAtDataPointer consumer.outputSchema binding.targetPointer []

/-- Only data of another capability can be proven; `isValid` is the instance validator of the JSON
Schema library. -/
def relatedDataIsProven (isValid : Json → Json → Bool) (binding : RelatedDataBinding)
    (consumer : Capability) (capabilities : String → Option Capability)
    (policies : String → Option Policy) : Bool :=
  decide (binding.producerKind = .capability) &&
    match capabilities binding.producerId with
    | none => false
    | some producer =>
      match policies producer.policy with
      | none => false
      | some producerPolicy =>
        policyAllowsPointer producerPolicy binding.outputPointer &&
          match schemaAtDataPointer producer.outputSchema binding.outputPointer [],
            relatedTargetSchema consumer binding with
          | some outputSchema, some targetSchema =>
            decide ((compareOperationOutput isValid (.obj outputSchema)
              (.obj targetSchema)).relation = .proven)
          | _, _ => false

/-! What an accepted pointer denotes. -/

/-- The tokens of the pointers that a presentation shows. -/
def presentedTokens (consumption : ResultConsumption) : List (List String) :=
  if consumption.fieldPointers = [] then [tokens consumption.sourcePointer]
  else consumption.fieldPointers.map fun field =>
    tokens consumption.sourcePointer ++ tokens field

/-- The analysis takes what these tokens denote in an output of the schema as visible. -/
inductive Accepted (isValid : Json → Json → Bool) (policy : Policy) (schema : Fields) :
    List String → Prop where
  | presentation {capability : Capability} {consumption : ResultConsumption}
      {path : List String} : presentationIsProven capability (some policy) consumption = true →
      capability.outputSchema = schema → path ∈ presentedTokens consumption →
      Accepted isValid policy schema path
  | relatedData {binding : RelatedDataBinding} {consumer producer : Capability}
      {capabilities : String → Option Capability} {policies : String → Option Policy} :
      relatedDataIsProven isValid binding consumer capabilities policies = true →
      capabilities binding.producerId = some producer → policies producer.policy = some policy →
      producer.outputSchema = schema →
      Accepted isValid policy schema (tokens binding.outputPointer)

/-- The way that the analysis takes from a schema along the tokens. -/
def wayAlong (root : Fields) : Json → List String → Option (List Descent)
  | _, [] => some []
  | current, token :: rest => (descend root current token).bind fun next =>
    (wayAlong root next.2 rest).map (next.1 :: ·)

/-- The tokens denote this position of an output. -/
def Denotes (schema : Fields) (path : List String) (output : Json) (position : List String) : Prop :=
  ∃ way, wayAlong schema (.obj schema) path = some way ∧ Arrives way output position

/-- A filtered output keeps a value at every position the tokens denote. -/
def KeepsVisible (digest : Digest) (policy : Policy) (schema : Fields) (path : List String)
    (output : Json) : Prop :=
  ∀ position, Denotes schema path output position →
    (atPosition (filterOutput digest policy output) position).isSome = true

section Accepted
variable {isValid : Json → Json → Bool} {policy : Policy} {schema : Fields} {path : List String}

theorem tokens_eq_nil_iff {pointer : String} : tokens pointer = [] ↔ pointer = "" := by
  unfold tokens
  split_ifs with hempty
  · exact iff_of_true rfl hempty
  · refine iff_of_false (fun hnil => ?_) hempty
    exact Text.splitChars_ne_nil _ _ (List.map_eq_nil_iff.mp hnil)

theorem tokens_ne_nil_of_allows {pointer : String} (h : policyAllowsPointer policy pointer = true) :
    tokens pointer ≠ [] := by
  unfold policyAllowsPointer at h
  simp only [Bool.and_eq_true, decide_eq_true_eq] at h
  exact h.1.1

/-- Nothing accepted denotes the whole output. -/
theorem Accepted.ne_nil (h : Accepted isValid policy schema path) : path ≠ [] := by
  cases h with
  | @presentation capability consumption path hproven hschema hpath =>
    unfold presentationIsProven at hproven
    unfold presentedTokens at hpath
    split at hproven
    · simp only [Bool.and_eq_true] at hproven
      split_ifs at hproven hpath with hfields
      · obtain rfl := List.mem_singleton.mp hpath
        exact tokens_ne_nil_of_allows (by simpa using hproven.2)
      · obtain ⟨field, hfield, rfl⟩ := List.mem_map.mp hpath
        have hallowed := tokens_ne_nil_of_allows (List.all_eq_true.mp hproven.2 _
          (List.mem_map.mpr ⟨field, hfield, rfl⟩))
        intro hnil
        obtain ⟨hsource, hnone⟩ := List.append_eq_nil_iff.mp hnil
        rw [tokens_eq_nil_iff] at hsource hnone
        rw [hsource, hnone] at hallowed
        exact hallowed rfl
    · exact absurd hproven (by simp)
  | @relatedData binding consumer producer capabilities policies hproven hproducer hpolicy hschema =>
    unfold relatedDataIsProven at hproven
    simp only [hproducer, hpolicy, Bool.and_eq_true] at hproven
    exact tokens_ne_nil_of_allows hproven.2.1

theorem wayAlong_ne_nil {root : Fields} {current : Json} {way : List Descent} (hpath : path ≠ [])
    (h : wayAlong root current path = some way) : way ≠ [] := by
  obtain ⟨token, rest, rfl⟩ := List.exists_cons_of_ne_nil hpath
  obtain ⟨next, -, hrest⟩ := Option.bind_eq_some_iff.mp h
  obtain ⟨others, -, rfl⟩ := Option.map_eq_some_iff.mp hrest
  exact List.cons_ne_nil _ _

/-- What a schema refers to has no reference of its own. -/
theorem dereferenceFrom_resolved {root out : Fields} {fuel : ℕ} {seen : List String} {schema : Json}
    (h : dereferenceFrom root fuel seen schema = some out) : Json.field? "$ref" out = none := by
  induction fuel generalizing seen schema with
  | zero => exact absurd h (by simp [dereferenceFrom])
  | succ n ih =>
    cases schema with
    | obj fields =>
      rw [dereferenceFrom] at h
      split at h
      · rename_i hplain
        rwa [← Option.some.inj h]
      · split_ifs at h
        obtain ⟨target, -, hrest⟩ := Option.bind_eq_some_iff.mp h
        exact ih hrest
      · exact absurd h (by simp)
    | _ => exact absurd h (by simp [dereferenceFrom])

theorem dereference_resolved {root out : Fields} {schema : Json}
    (h : dereference root schema = some out) : dereference root (.obj out) = some out := by
  have hplain := dereferenceFrom_resolved h
  unfold dereference
  rw [dereferenceFrom, hplain]

theorem exists_way_of_schema {root out : Fields} {current : Json}
    (h : schemaAtTokens root current path = some out) :
    ∃ way, wayAlong root current path = some way := by
  induction path generalizing current with
  | nil => exact ⟨[], rfl⟩
  | cons token rest ih =>
    obtain ⟨next, hnext, hrest⟩ := Option.bind_eq_some_iff.mp h
    obtain ⟨way, hway⟩ := ih hrest
    exact ⟨next.1 :: way, by rw [wayAlong, hnext, Option.bind_some, hway, Option.map_some]⟩

/-- Tokens that go on from where other tokens end. -/
theorem exists_way_append {root middle out : Fields} {current : Json} {others : List String}
    (hfirst : schemaAtTokens root current path = some middle)
    (hrest : schemaAtTokens root (.obj middle) others = some out) :
    ∃ way, wayAlong root current (path ++ others) = some way := by
  induction path generalizing current with
  | nil =>
    have hmiddle := dereference_resolved hfirst
    cases others with
    | nil => exact ⟨[], rfl⟩
    | cons token others =>
      have hsame : descend root current token = descend root (.obj middle) token := by
        unfold descend
        rw [hmiddle, show dereference root current = some middle from hfirst]
      obtain ⟨way, hway⟩ := exists_way_of_schema hrest
      refine ⟨way, ?_⟩
      rw [List.nil_append, wayAlong, hsame]
      exact hway
  | cons token rest ih =>
    obtain ⟨next, hnext, hfirst⟩ := Option.bind_eq_some_iff.mp hfirst
    obtain ⟨way, hway⟩ := ih hfirst
    refine ⟨next.1 :: way, ?_⟩
    rw [List.cons_append, wayAlong, hnext, Option.bind_some, hway, Option.map_some]

theorem rootOr_self (root : Fields) : rootOr [] root = root := if_pos rfl

/-- From an empty schema nothing but itself is reached. -/
theorem rootOr_of_schema {source : Fields} (h : schemaAtTokens schema (.obj schema) path = some source) :
    rootOr schema source = schema := by
  unfold rootOr
  split_ifs with hempty
  · subst hempty
    cases path with
    | nil => exact (Option.some.inj h).symm
    | cons token rest => exact absurd h (by simp [schemaAtTokens, descend, dereference,
        dereferenceFrom, propertySchema, Json.field?])
  · rfl

/-- What is accepted is declared by the schema. -/
theorem Accepted.exists_way (h : Accepted isValid policy schema path) :
    ∃ way, wayAlong schema (.obj schema) path = some way := by
  cases h with
  | @presentation capability consumption path hproven hschema hpath =>
    subst hschema
    unfold presentationIsProven at hproven
    unfold presentedTokens at hpath
    split at hproven
    · rename_i source _ hsource _
      unfold schemaAtDataPointer at hsource
      rw [rootOr_self] at hsource
      simp only [Bool.and_eq_true] at hproven
      split_ifs at hpath with hfields
      · obtain rfl := List.mem_singleton.mp hpath
        exact exists_way_of_schema hsource
      · obtain ⟨field, hfield, rfl⟩ := List.mem_map.mp hpath
        have hrelative := List.all_eq_true.mp hproven.1 field hfield
        obtain ⟨out, hout⟩ := Option.isSome_iff_exists.mp hrelative
        unfold schemaAtDataPointer at hout
        rw [rootOr_of_schema hsource] at hout
        exact exists_way_append hsource hout
    · exact absurd hproven (by simp)
  | @relatedData binding consumer producer capabilities policies hproven hproducer hpolicy hschema =>
    subst hschema
    unfold relatedDataIsProven at hproven
    simp only [hproducer, hpolicy, Bool.and_eq_true] at hproven
    have hfound := hproven.2.2
    split at hfound
    · rename_i hout _
      unfold schemaAtDataPointer at hout
      rw [rootOr_self] at hout
      exact exists_way_of_schema hout
    · exact absurd hfound (by simp)

end Accepted

/-- What is accepted as visible stays in every valid output exactly if the rules of the policy spare
the way to it, unless no valid output has anything there. -/
theorem keepsVisible_iff (V : Vocabulary) (decode : String → String)
    (isValid : Json → Json → Bool) (digest : Digest) (policy : Policy) (schema : Fields)
    (path : List String) :
    (Accepted isValid policy schema path → ∀ output, ValidIn V decode (.obj schema) output →
      KeepsVisible digest policy schema path output) ↔
    (Accepted isValid policy schema path → ∀ way, wayAlong schema (.obj schema) path = some way →
      (∃ output position, ValidIn V decode (.obj schema) output ∧ Arrives way output position) →
      policy.rules.Spares way) := by
  refine imp_congr_right fun haccepted => ?_
  constructor
  · rintro h way hway ⟨output, position, hvalid, harrives⟩
    have hne := wayAlong_ne_nil haccepted.ne_nil hway
    rw [← atPosition_filterOutput digest policy harrives hne]
    exact h output hvalid position ⟨way, hway, harrives⟩
  · rintro h output hvalid position ⟨way, hway, harrives⟩
    have hne := wayAlong_ne_nil haccepted.ne_nil hway
    rw [atPosition_filterOutput digest policy harrives hne]
    exact h way hway ⟨output, position, hvalid, harrives⟩

/-- Orders by year. -/
def yearsSchema : Fields :=
  [("properties", .obj [("orders", .obj [("properties", .obj [("2024", .obj [])])])])]

def yearlyOrders : Json := .obj [("orders", .obj [("2024", .int 5)])]

/-- One year of the orders is denied. -/
def yearPolicy : Policy where
  id := "orders"
  requiredScopes := []
  tenantMode := .none
  tenantField := none
  readableFields := ["orders"]
  deniedFields := ["orders.2024"]
  redactionRules := []

def yearConsumption : ResultConsumption where
  id := "orders_2024"
  role := .detail
  sourcePointer := "/orders/2024"
  fieldPointers := []
  ordering := .none
  formattingClass := none
  pagination := .none
  stateIds := []
  evidence := .obj []

/-- A host that does not hash. -/
private def unhashed : Digest where
  floatRepr _ := ""
  sha256 text := text

/-- A property that is named by a number is taken for an array position, so that the rule that denies
it goes unnoticed. -/
theorem denied_year_accepted :
    ¬ (Accepted (valid coreVocabulary) yearPolicy yearsSchema ["orders", "2024"] → ∀ output,
      ValidIn coreVocabulary id (.obj yearsSchema) output →
      KeepsVisible unhashed yearPolicy yearsSchema ["orders", "2024"] output) := by
  intro h
  have haccepted : Accepted (valid coreVocabulary) yearPolicy yearsSchema ["orders", "2024"] :=
    @Accepted.presentation _ _ _ ⟨[], yearsSchema, "orders"⟩ yearConsumption _ (by decide +kernel)
      rfl (by decide +kernel)
  have hvalid : ValidIn coreVocabulary id (.obj yearsSchema) yearlyOrders := by
    refine ⟨4, fun n hn rest => ?_⟩
    obtain ⟨m, rfl⟩ := Nat.exists_eq_add_of_le' hn
    have hschema : unroll id rest (m + 4) [.obj yearsSchema] (.obj yearsSchema) =
        .obj yearsSchema := rfl
    rw [hschema]
    decide +kernel
  have hway : wayAlong yearsSchema (.obj yearsSchema) ["orders", "2024"] =
      some [.property "orders", .property "2024"] := by decide +kernel
  have hdenotes : Denotes yearsSchema ["orders", "2024"] yearlyOrders ["orders", "2024"] :=
    ⟨_, hway, .property rfl (.property rfl .here)⟩
  have hkept := h haccepted yearlyOrders hvalid _ hdenotes
  exact absurd hkept (by decide +kernel)

end CapabilityCompiler.Interactions
