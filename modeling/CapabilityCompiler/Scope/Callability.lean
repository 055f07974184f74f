import CapabilityCompiler.Execution.GenericRuntime
import CapabilityCompiler.Scope.Analysis

/-! Whether granted scopes can satisfy the paths of a capability. -/
namespace CapabilityCompiler.Scope
open Foundation Models Execution

inductive CallabilityStatus where
  | callable
  | conditional
  | denied
  | unknown
deriving DecidableEq

structure ScopeDimensionCallability where
  status : CallabilityStatus
  availableScopes : Option ScopeSet
  missingAlways : ScopeSet
  missingConditional : ScopeSet
  unmetAlternatives : List ScopeSet
deriving DecidableEq

def dimension (requirements : CapabilityScopeRequirements) :
    Option ScopeSet → ScopeDimensionCallability
  | none => ⟨.unknown, none, ∅, ∅, []⟩
  | some available =>
    { status :=
        if requirements.alwaysRequired ∪ requirements.conditionallyRequired ⊆ available then .callable
        else if requirements.completionAlternatives.any (· ⊆ available) then .conditional
        else .denied
      availableScopes := some available
      missingAlways := requirements.alwaysRequired \ available
      missingConditional := requirements.conditionallyRequired \ available
      unmetAlternatives := (requirements.completionAlternatives.filter (¬ · ⊆ available)).map
        (· \ available) }

/-! The requirements in the compiled document. -/

def scopeArray (scopes : ScopeSet) : Json := .arr ((sortedScopes scopes).map .str)

/-- The keys are in their normalized order. -/
def scopeRequirementsJson (requirements : CapabilityScopeRequirements) : Json :=
  .obj [("all_referenced", scopeArray requirements.allReferenced),
    ("always_required", scopeArray requirements.alwaysRequired),
    ("completion_alternatives", .arr (requirements.completionAlternatives.map scopeArray)),
    ("conditionally_required", scopeArray requirements.conditionallyRequired),
    ("policy_always_required", scopeArray requirements.policyAlwaysRequired)]

/-- The reason of a callability analysis error. -/
inductive CallabilityAnalysisError where
  | scopeRequirementsInvalid
  | capabilitiesInvalid
deriving DecidableEq

def requirementInvalid (requirement : CapabilityScopeRequirements) : Bool :=
  requirement.completionAlternatives.isEmpty ||
    decide (¬ requirement.policyAlwaysRequired ⊆ requirement.alwaysRequired) ||
    decide (requirement.alwaysRequired ∩ requirement.conditionallyRequired ≠ ∅) ||
    decide (¬ requirement.alwaysRequired ∪ requirement.conditionallyRequired ⊆
      requirement.allReferenced) ||
    requirement.completionAlternatives.any (¬ requirement.alwaysRequired ⊆ ·)

def validateRequirement (requirement : CapabilityScopeRequirements) :
    Except CallabilityAnalysisError Unit :=
  if requirementInvalid requirement then .error .scopeRequirementsInvalid else .ok ()

/-- A non-empty string. -/
def scopeText? : Json → Option String
  | .str scope => if scope = "" then none else some scope
  | _ => none

def stringArray? : Option Json → Option ScopeSet
  | some (.arr items) => (items.mapM scopeText?).map List.toFinset
  | _ => none

def readRequirements? (capabilityId : String) (raw : Fields) :
    Option CapabilityScopeRequirements := do
  let policy ← stringArray? (Json.field? "policy_always_required" raw)
  let always ← stringArray? (Json.field? "always_required" raw)
  let conditional ← stringArray? (Json.field? "conditionally_required" raw)
  let referenced ← stringArray? (Json.field? "all_referenced" raw)
  match Json.field? "completion_alternatives" raw with
  | some (.arr items) =>
    if items = [] then none
    else
      let alternatives ← items.mapM fun item => stringArray? (some item)
      some ⟨capabilityId, policy, always, conditional, referenced, alternatives⟩
  | _ => none

def requirementsFromMapping (capabilityId : String) :
    Option Json → Except CallabilityAnalysisError CapabilityScopeRequirements
  | some (.obj raw) =>
    match readRequirements? capabilityId raw with
    | none => .error .scopeRequirementsInvalid
    | some requirement => (validateRequirement requirement).map fun _ => requirement
  | _ => .error .scopeRequirementsInvalid

/-- The requirements of every compiled capability. -/
def requirementsFromIr (capabilities : Fields) :
    Except CallabilityAnalysisError (List CapabilityScopeRequirements) :=
  capabilities.mapM fun (capabilityId, compiled) =>
    match compiled with
    | .obj fields => requirementsFromMapping capabilityId (Json.field? "scope_requirements" fields)
    | _ => .error .capabilitiesInvalid

/-! The round trip through the document. -/

/-- No scope is the empty text. -/
def NonEmptyScopes (requirements : CapabilityScopeRequirements) : Prop :=
  "" ∉ requirements.allReferenced ∧ "" ∉ requirements.policyAlwaysRequired ∧
    "" ∉ requirements.alwaysRequired ∧ "" ∉ requirements.conditionallyRequired ∧
    ∀ alternative ∈ requirements.completionAlternatives, "" ∉ alternative

theorem mapM_scopeText {scopes : List String} (h : "" ∉ scopes) :
    (scopes.map Json.str).mapM scopeText? = some scopes := by
  induction scopes with
  | nil => rfl
  | cons scope rest ih =>
    have hscope : scope ≠ "" := fun hempty => h (hempty ▸ List.mem_cons_self)
    have hrest := ih fun hmem => h (List.mem_cons_of_mem _ hmem)
    simp only [List.map_cons, List.mapM_cons, scopeText?, if_neg hscope, hrest]
    rfl

theorem stringArray_scopeArray {scopes : ScopeSet} (h : "" ∉ scopes) :
    stringArray? (some (scopeArray scopes)) = some scopes := by
  have hsorted : "" ∉ sortedScopes scopes := fun hmem => h (mem_sortedScopes.mp hmem)
  rw [scopeArray, stringArray?, mapM_scopeText hsorted, Option.map_some, toFinset_sortedScopes]

theorem mapM_scopeArray {alternatives : List ScopeSet} (h : ∀ s ∈ alternatives, "" ∉ s) :
    (alternatives.map scopeArray).mapM (fun item => stringArray? (some item)) =
      some alternatives := by
  induction alternatives with
  | nil => rfl
  | cons alternative rest ih =>
    have hfirst := stringArray_scopeArray (h alternative List.mem_cons_self)
    have hrest := ih fun s hs => h s (List.mem_cons_of_mem _ hs)
    simp only [List.map_cons, List.mapM_cons, hfirst, hrest]
    rfl

/-- A document with the five entries of some requirements is read as these requirements. -/
theorem readRequirements_of_entries {requirements : CapabilityScopeRequirements} (raw : Fields)
    (hscopes : NonEmptyScopes requirements) (hsome : requirements.completionAlternatives ≠ [])
    (hreferenced : Json.field? "all_referenced" raw = some (scopeArray requirements.allReferenced))
    (halways : Json.field? "always_required" raw = some (scopeArray requirements.alwaysRequired))
    (halternatives : Json.field? "completion_alternatives" raw =
      some (.arr (requirements.completionAlternatives.map scopeArray)))
    (hconditional : Json.field? "conditionally_required" raw =
      some (scopeArray requirements.conditionallyRequired))
    (hpolicy : Json.field? "policy_always_required" raw =
      some (scopeArray requirements.policyAlwaysRequired)) :
    readRequirements? requirements.capabilityId raw = some requirements := by
  obtain ⟨hreferencedScopes, hpolicyScopes, halwaysScopes, hconditionalScopes, hpaths⟩ := hscopes
  have hne : requirements.completionAlternatives.map scopeArray ≠ [] :=
    fun hnil => hsome (List.map_eq_nil_iff.mp hnil)
  rw [readRequirements?, hpolicy, halways, hconditional, hreferenced, halternatives,
    stringArray_scopeArray hpolicyScopes, stringArray_scopeArray halwaysScopes,
    stringArray_scopeArray hconditionalScopes, stringArray_scopeArray hreferencedScopes]
  simp only [Option.bind_eq_bind, Option.bind_some, if_neg hne, mapM_scopeArray hpaths]

/-- Requirements that validate are read back from the document as they were written. -/
theorem requirementsFromMapping_scopeRequirementsJson {requirements : CapabilityScopeRequirements}
    (hvalid : requirementInvalid requirements = false) (hscopes : NonEmptyScopes requirements) :
    requirementsFromMapping requirements.capabilityId (some (scopeRequirementsJson requirements)) =
      .ok requirements := by
  have hsome : requirements.completionAlternatives ≠ [] := by
    intro hnil
    simp [requirementInvalid, hnil] at hvalid
  have hread := readRequirements_of_entries
    [("all_referenced", scopeArray requirements.allReferenced),
      ("always_required", scopeArray requirements.alwaysRequired),
      ("completion_alternatives", .arr (requirements.completionAlternatives.map scopeArray)),
      ("conditionally_required", scopeArray requirements.conditionallyRequired),
      ("policy_always_required", scopeArray requirements.policyAlwaysRequired)]
    hscopes hsome rfl rfl rfl rfl rfl
  have hvalidated : validateRequirement requirements = .ok () := by
    rw [validateRequirement, hvalid]
    rfl
  simp only [scopeRequirementsJson, requirementsFromMapping, hread, hvalidated]
  rfl

end CapabilityCompiler.Scope
