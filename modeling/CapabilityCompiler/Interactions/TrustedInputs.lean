import CapabilityCompiler.Execution.PublicDefaults
import CapabilityCompiler.Interactions.EvidenceStripping
import CapabilityCompiler.Interactions.Visibility

/-! The targets of a compiled contract against those of its trusted inputs. What is public is told from
what is trusted by equality of pointers, also where one leads through the other. -/
namespace CapabilityCompiler.Interactions
open Foundation Foundation.Json Policies Execution

/-- A contract with its capability and its related data; no two inputs are bound to one target. -/
structure InteractionContract extends CapabilityInteractionContract where
  capabilityId : String
  relatedData : List RelatedDataBinding
  bindingTargets :
    ((publicInputBindings ++ trustedInputBindings).map (·.targetPointer)).Nodup

/-! Compiling. -/

def FailureIsolation.name : FailureIsolation → String
  | .failFast => "fail_fast"
  | .independent => "independent"

def relatedEntry (related : RelatedDataBinding) : Json :=
  .obj [("cardinality", .str related.cardinality.name),
    ("failure_isolation", .str related.failureIsolation.name),
    ("freshness", .str related.freshness.name), ("id", .str related.id),
    ("output_pointer", .str related.outputPointer), ("producer_id", .str related.producerId),
    ("producer_kind", .str "capability"), ("target_pointer", .str related.targetPointer)]

structure InteractionCompilationError where
  capabilityId : String
  consumptionIndex : ℕ
  missingStates : List String
deriving DecidableEq

/-- The first result, counted from an index on, with states that no adopted interaction has. -/
def missingStates? (inheritedStates : List String) :
    ℕ → List ResultConsumption → Option (ℕ × List String)
  | _, [] => none
  | index, consumption :: rest =>
    let missing := Text.sortedSet (consumption.stateIds.filter (· ∉ inheritedStates))
    if missing = [] then missingStates? inheritedStates (index + 1) rest else some (index, missing)

structure CompiledInteraction extends CompiledContract where
  relatedData : List Json

/-- What the contracts of a project are compiled with. -/
structure Surroundings where
  isValid : Json → Json → Bool
  inheritedStates : List String
  capabilities : String → Option Capability
  policies : String → Option Policy

def Surroundings.presentationIsProven (surroundings : Surroundings)
    (contract : InteractionContract) (consumption : ResultConsumption) : Bool :=
  match surroundings.capabilities contract.capabilityId with
  | some capability => Interactions.presentationIsProven capability
      (surroundings.policies capability.policy) consumption
  | none => false

def provenRelatedData (surroundings : Surroundings) (contract : InteractionContract) :
    List RelatedDataBinding :=
  match surroundings.capabilities contract.capabilityId with
  | some capability => contract.relatedData.filter fun related =>
      relatedDataIsProven surroundings.isValid related capability surroundings.capabilities
        surroundings.policies
  | none => []

def compileInteraction (surroundings : Surroundings) (contract : InteractionContract) :
    Except InteractionCompilationError CompiledInteraction :=
  match missingStates? surroundings.inheritedStates 0 contract.resultConsumption with
  | some (index, missing) => .error ⟨contract.capabilityId, index, missing⟩
  | none => .ok
      { compileContract (surroundings.presentationIsProven contract)
          contract.toCapabilityInteractionContract with
        relatedData := (provenRelatedData surroundings contract).map relatedEntry }

/-! Targets. -/

def targetPointer? (entry : Json) : Option String :=
  match get? "target_pointer" entry with
  | some (.str pointer) => some pointer
  | _ => none

/-- The targets that a compiled contract names. -/
def CompiledInteraction.targets (compiled : CompiledInteraction) : List String :=
  (compiled.publicInputBindings ++ compiled.defaults ++ compiled.conditions ++
    compiled.optionSources ++ compiled.relatedData).filterMap targetPointer?

/-- One pointer is the other, or leads through it. -/
def Nests (first second : String) : Prop :=
  tokens first <+: tokens second ∨ tokens second <+: tokens first

instance (first second : String) : Decidable (Nests first second) :=
  inferInstanceAs (Decidable (_ ∨ _))

def trustedTargets (contract : InteractionContract) : List String :=
  contract.trustedInputBindings.map (·.targetPointer)

/-- No compiled target is, contains or is contained in a trusted one, and the defaults that the Runtime
loads leave everything at the trusted targets as it is. -/
structure TrustedUntouched (contract : InteractionContract) (compiled : CompiledInteraction) :
    Prop where
  apart : ∀ pointer ∈ compiled.targets, ∀ trusted ∈ trustedTargets contract,
    ¬ Nests pointer trusted
  unwritten : ∀ inputSchema loaded, loadPublicDefaults inputSchema [] compiled.defaults = some loaded →
    ∀ arguments, ∀ trusted ∈ trustedTargets contract, ∀ path, tokens trusted <+: path →
      lookup (.obj (applyPublicDefaults arguments loaded)) path = lookup (.obj arguments) path

/-- The targets of the public bindings, and of the public parts. -/
def publicTargets (contract : InteractionContract) : List String :=
  let parts := contract.toCapabilityInteractionContract
  contract.publicInputBindings.map (·.targetPointer) ++
    (publicDefaults parts).map (·.targetPointer) ++
    (publicConditions parts).map (·.targetPointer) ++
    (publicOptionSources parts).map (·.targetPointer)

def relatedTargets (surroundings : Surroundings) (contract : InteractionContract) : List String :=
  (provenRelatedData surroundings contract).map (·.targetPointer)

/-- A public target that is no trusted one does not lead through one or contain one, and no target of
proven related data does or is one. -/
structure Separated (surroundings : Surroundings) (contract : InteractionContract) : Prop where
  declared : ∀ pointer ∈ publicTargets contract, ∀ trusted ∈ trustedTargets contract,
    pointer ≠ trusted → ¬ Nests pointer trusted
  related : ∀ pointer ∈ relatedTargets surroundings contract,
    ∀ trusted ∈ trustedTargets contract, ¬ Nests pointer trusted

/-! Compiled targets. -/

theorem compiledField {fields : List (String × Dump)} {text : String}
    (h : field? "target_pointer" (Dump.fieldsToJson fields) = some (.str text)) :
    targetPointer? (withoutEvidence (normalizeJson (Dump.model fields).toJson)) = some text := by
  have hfield : get? "target_pointer"
      (withoutEvidence (normalizeJson (Dump.model fields).toJson)) = some (.str text) := by
    simp only [withoutEvidence, normalizeJson, Dump.toJson, keySorted, stripKeys, get?,
      field?_sortKeys, field?_keySortedFields]
    rw [field?_stripFields (by decide), field?_sortKeys, field?_keySortedFields, h]
    rfl
  rw [targetPointer?, hfield]

theorem filterMap_targets {α : Type} {items : List α} {entry : α → Json} {pointer : α → String}
    (h : ∀ item, targetPointer? (entry item) = some (pointer item)) :
    (items.map entry).filterMap targetPointer? = items.map pointer := by
  rw [List.filterMap_map, ← List.filterMap_eq_map]
  exact List.filterMap_congr fun item _ => h item

theorem targets_compiledValues {α : Type} {items : List α} {model : α → Dump}
    {pointer : α → String} (h : ∀ item, targetPointer?
      (withoutEvidence (normalizeJson (model item).toJson)) = some (pointer item)) :
    (compiledValues (items.map model)).filterMap targetPointer? = items.map pointer := by
  rw [compiledValues, List.map_map]
  exact filterMap_targets h

section Compiled
variable {surroundings : Surroundings} {contract : InteractionContract}
  {compiled : CompiledInteraction}

theorem compileInteraction_eq_ok (h : compileInteraction surroundings contract = .ok compiled) :
    compiled = { compileContract (surroundings.presentationIsProven contract)
        contract.toCapabilityInteractionContract with
      relatedData := (provenRelatedData surroundings contract).map relatedEntry } := by
  unfold compileInteraction at h
  split at h
  · exact absurd h (by simp)
  · exact (Except.ok.inj h).symm

/-- The compiled targets are the public ones and those of the proven related data. -/
theorem mem_targets_iff (h : compileInteraction surroundings contract = .ok compiled)
    {pointer : String} : pointer ∈ compiled.targets ↔
      pointer ∈ publicTargets contract ∨ pointer ∈ relatedTargets surroundings contract := by
  have hbindings := @targets_compiledValues InputBinding contract.publicInputBindings
    InputBinding.model (·.targetPointer) fun _ => compiledField rfl
  have hconditions := @targets_compiledValues EvidencedCondition
    (publicConditions contract.toCapabilityInteractionContract) EvidencedCondition.model
    (·.targetPointer) fun _ => compiledField rfl
  have hsources := @targets_compiledValues OptionSource
    (publicOptionSources contract.toCapabilityInteractionContract) OptionSource.publicModel
    (·.targetPointer) fun _ => compiledField rfl
  have hdefaults := @filterMap_targets InteractionDefault
    (publicDefaults contract.toCapabilityInteractionContract) publicDefault (·.targetPointer)
    fun _ => rfl
  have hrelated := @filterMap_targets RelatedDataBinding (provenRelatedData surroundings contract)
    relatedEntry (·.targetPointer) fun _ => rfl
  rw [compileInteraction_eq_ok h, CompiledInteraction.targets]
  simp only [compileContract, List.filterMap_append, hbindings, hconditions, hsources, hdefaults,
    hrelated, publicTargets, relatedTargets, List.mem_append]

/-- No public target is a trusted one. -/
theorem public_ne_trusted {pointer trusted : String} (h : pointer ∈ publicTargets contract)
    (htrusted : trusted ∈ trustedTargets contract) : pointer ≠ trusted := by
  rintro rfl
  have hcandidate : pointer ∉ candidatePublicTargets contract.toCapabilityInteractionContract := by
    intro hmem
    rw [candidatePublicTargets, List.mem_filter, decide_eq_true_eq] at hmem
    exact hmem.2 htrusted
  simp only [publicTargets, List.mem_append] at h
  rcases h with ((hbinding | hdefault) | hcondition) | hsource
  · have hnodup := contract.bindingTargets
    rw [List.map_append, List.nodup_append'] at hnodup
    exact hnodup.2.2 hbinding htrusted
  · obtain ⟨default, hmem, rfl⟩ := List.mem_map.mp hdefault
    rw [publicDefaults, List.mem_filter, Bool.and_eq_true, decide_eq_true_eq] at hmem
    exact hcandidate hmem.2.1
  · obtain ⟨condition, hmem, rfl⟩ := List.mem_map.mp hcondition
    rw [publicConditions, List.mem_filter, Bool.and_eq_true, decide_eq_true_eq] at hmem
    exact hcandidate hmem.2.1
  · obtain ⟨source, hmem, rfl⟩ := List.mem_map.mp hsource
    rw [publicOptionSources, List.mem_filter, optionSourceIsPublic] at hmem
    simp only [Bool.and_eq_true, decide_eq_true_eq] at hmem
    exact hcandidate hmem.2.1.1.2

end Compiled

/-! Defaults at run time. -/

section Defaults
variable {inputSchema : Fields} {seen : List (List String)} {defaults : List Json}
  {loaded : List PublicDefault}

theorem jsonPointerTokens_eq {pointer : String} {path : List String}
    (h : jsonPointerTokens pointer = some path) : path = tokens pointer := by
  unfold jsonPointerTokens at h
  split at h
  · rename_i rest hrest
    simp only at h
    split_ifs at h
    have hne : pointer ≠ "" := by
      rintro rfl
      exact absurd hrest (by simp)
    rw [tokens, if_neg hne, Compiler.pointerTokens, hrest, ← Option.some.inj h]
    rfl
  · exact absurd h (by simp)

/-- A default is loaded for the target that it names. -/
theorem target_of_loadPublicDefault {default : Json} {loaded : PublicDefault}
    (h : loadPublicDefault inputSchema default = some loaded) :
    ∃ pointer, targetPointer? default = some pointer ∧ loaded.1 = tokens pointer := by
  unfold loadPublicDefault at h
  split at h
  · split_ifs at h
    split at h
    · rename_i pointer value _ _ hpointer _
      split at h
      · rename_i path hpath
        split_ifs at h
        refine ⟨pointer, by rw [targetPointer?, get?, hpointer], ?_⟩
        rw [← Option.some.inj h]
        exact jsonPointerTokens_eq hpath
      · exact absurd h (by simp)
    · exact absurd h (by simp)
  · exact absurd h (by simp)

theorem targets_of_loadPublicDefaults
    (h : loadPublicDefaults inputSchema seen defaults = some loaded) :
    ∀ default ∈ loaded, ∃ pointer ∈ defaults.filterMap targetPointer?,
      default.1 = tokens pointer := by
  induction defaults generalizing seen loaded with
  | nil =>
    obtain rfl := Option.some.inj h
    simp
  | cons default rest ih =>
    rw [loadPublicDefaults] at h
    split at h
    · exact absurd h (by simp)
    · rename_i first hfirst
      split_ifs at h
      obtain ⟨others, hothers, rfl⟩ := Option.map_eq_some_iff.mp h
      obtain ⟨pointer, hpointer, htokens⟩ := target_of_loadPublicDefault hfirst
      intro found hfound
      rw [List.filterMap_cons_some hpointer]
      rcases List.mem_cons.mp hfound with rfl | hrest
      · exact ⟨pointer, List.mem_cons_self, htokens⟩
      · obtain ⟨other, hother, heq⟩ := ih hothers found hrest
        exact ⟨other, List.mem_cons_of_mem _ hother, heq⟩

/-- Unrelated paths stay unrelated below. -/
theorem unrelated_below {target owned path : List String}
    (h : ¬ (target <+: owned ∨ owned <+: target)) (hpath : owned <+: path) :
    Unrelated path target := by
  constructor
  · exact fun hup => h (.inr (hpath.trans hup))
  · intro hdown
    exact h (List.prefix_or_prefix_of_prefix hdown hpath)

/-- Defaults with unrelated targets leave a path alone. -/
theorem lookup_applyPublicDefaults {path : List String} (arguments : Fields)
    (h : ∀ default ∈ loaded, Unrelated path default.1) :
    lookup (.obj (applyPublicDefaults arguments loaded)) path = lookup (.obj arguments) path := by
  induction loaded generalizing arguments with
  | nil => rfl
  | cons default rest ih =>
    rw [applyPublicDefaults, List.foldl_cons]
    refine (ih (applyPublicDefault arguments default) fun other hother =>
      h other (List.mem_cons_of_mem _ hother)).trans ?_
    exact lookup_fillWith_of_unrelated enters_defaultParent? (h default List.mem_cons_self)

end Defaults

/-- A compiled contract leaves its trusted inputs untouched exactly if its public targets do not nest
with theirs, and those of its proven related data neither nest with them nor equal them. -/
theorem trustedUntouched_iff {surroundings : Surroundings} {contract : InteractionContract}
    {compiled : CompiledInteraction} (h : compileInteraction surroundings contract = .ok compiled) :
    TrustedUntouched contract compiled ↔ Separated surroundings contract := by
  constructor
  · intro htrusted
    refine ⟨fun pointer hpointer trusted hmem _ => ?_, fun pointer hpointer trusted hmem => ?_⟩
    · exact htrusted.apart pointer ((mem_targets_iff h).mpr (.inl hpointer)) trusted hmem
    · exact htrusted.apart pointer ((mem_targets_iff h).mpr (.inr hpointer)) trusted hmem
  · intro hseparated
    have hapart : ∀ pointer ∈ compiled.targets, ∀ trusted ∈ trustedTargets contract,
        ¬ Nests pointer trusted := by
      intro pointer hpointer trusted hmem
      rcases (mem_targets_iff h).mp hpointer with hpublic | hrelated
      · exact hseparated.declared pointer hpublic trusted hmem (public_ne_trusted hpublic hmem)
      · exact hseparated.related pointer hrelated trusted hmem
    refine ⟨hapart, fun inputSchema loaded hloaded arguments trusted hmem path hpath => ?_⟩
    refine lookup_applyPublicDefaults arguments fun default hdefault => ?_
    obtain ⟨pointer, hpointer, htokens⟩ := targets_of_loadPublicDefaults hloaded default hdefault
    have htarget : pointer ∈ compiled.targets := by
      rw [CompiledInteraction.targets]
      simp only [List.filterMap_append, List.mem_append]
      exact .inl (.inl (.inl (.inr hpointer)))
    rw [htokens]
    exact unrelated_below (hapart pointer htarget trusted hmem) hpath

/-! A default around a trusted input. -/

def filterCapability : Capability where
  inputSchema := [("properties", .obj [("filter", .obj [("properties",
    .obj [("tenant", .obj [])])])])]
  outputSchema := []
  policy := "orders"

def filterSurroundings : Surroundings where
  isValid := Contracts.valid Contracts.coreVocabulary
  inheritedStates := []
  capabilities := fun id => if id = "orders" then some filterCapability else none
  policies := fun _ => none

def tenantBinding : InputBinding where
  id := "tenant"
  sourceKind := .trustedContext
  sourceId := none
  sourcePointer := none
  targetPointer := "/filter/tenant"
  cardinality := .one
  mapping := none
  literalValue := none
  evidence := .obj []

/-- A literal default for what the pointer denotes. -/
def filterDefault (pointer : String) (value : Json) : InteractionDefault where
  id := "filter"
  targetPointer := pointer
  sourceKind := .literal
  value := value
  authority := .contract
  precedence := .callerOverDefault
  submission := .send
  overridePolicy := .callerAllowed

def filterContract (pointer : String) (value : Json) : InteractionContract where
  publicInputBindings := []
  trustedInputBindings := [tenantBinding]
  defaults := [filterDefault pointer value]
  optionSources := []
  conditions := []
  resultConsumption := []
  capabilityId := "orders"
  relatedData := []
  bindingTargets := List.nodup_singleton _

/-- A public default for the object around a trusted input sets the input. -/
theorem default_sets_tenant :
    ∃ compiled, compileInteraction filterSurroundings
      (filterContract "/filter" (.obj [("tenant", .str "other")])) = .ok compiled ∧
      ¬ TrustedUntouched (filterContract "/filter" (.obj [("tenant", .str "other")])) compiled := by
  refine ⟨_, rfl, fun h => ?_⟩
  have hwritten := h.unwritten filterCapability.inputSchema
    [(["filter"], .obj [("tenant", .str "other")])] (by decide +kernel) [] "/filter/tenant"
    (List.mem_singleton.mpr rfl) ["filter", "tenant"] (by decide +kernel)
  exact absurd hwritten (by decide +kernel)

theorem beside_tenant_separated :
    ∃ compiled, compileInteraction filterSurroundings (filterContract "/filter/status" .null) =
      .ok compiled ∧ TrustedUntouched (filterContract "/filter/status" .null) compiled := by
  refine ⟨_, rfl, (trustedUntouched_iff rfl).mpr ⟨?_, ?_⟩⟩
  · decide +kernel
  · decide +kernel

end CapabilityCompiler.Interactions
