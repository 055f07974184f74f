import CapabilityCompiler.Errors
import CapabilityCompiler.Foundation.JsonText
import CapabilityCompiler.Foundation.Text

/-! Authorization and recursive output disclosure policies. -/
namespace CapabilityCompiler.Policies
open Foundation

inductive RedactionStrategy where
  | remove
  | mask
  | hash
deriving DecidableEq

structure RedactionRule where
  path : String
  strategy : RedactionStrategy
deriving DecidableEq

inductive TenantMode where
  | none
  | required
deriving DecidableEq

structure Policy where
  id : String
  requiredScopes : List String
  tenantMode : TenantMode
  tenantField : Option String
  readableFields : List String
  deniedFields : List String
  redactionRules : List RedactionRule
deriving DecidableEq

abbrev FieldPath := List String

def parsePath (value : String) : FieldPath :=
  let chars := (Text.dropPrefix? ['$', '.'] value.toList).getD value.toList
  match Text.dropPrefix? ['/'] chars with
  | some rest => (Text.splitChars '/' rest).map fun part => Text.unescapeToken (String.ofList part)
  | none => ((Text.splitChars '.' chars).filter (· ≠ [])).map String.ofList

/-- `none` stands for the missing marker. -/
def lookup : Json → FieldPath → Option Json
  | value, [] => some value
  | .obj fields, part :: path => (Json.field? part fields).bind fun child => lookup child path
  | _, _ :: _ => none

def policyScopeDenied (policy : Policy) (missing : List String) : RuntimeError where
  code := "ACC_RUNTIME_POLICY_SCOPE_DENIED"
  status := 403
  message := "caller lacks scopes required by the policy"
  details := [("policy", .str policy.id), ("missing_scopes", .arr (missing.map .str))]

def policyTenantDenied (policy : Policy) (field : String) : RuntimeError where
  code := "ACC_RUNTIME_POLICY_TENANT_DENIED"
  status := 403
  message := "request tenant does not match the runtime tenant"
  details := [("policy", .str policy.id), ("tenant_field", .str field)]

/-- Require every declared scope and an exact tenant-field match; a null tenant matches nothing. -/
def authorize (policy : Policy) (grantedScopes : List String) (arguments : Fields)
    (tenantId : Json) : Except RuntimeError Unit :=
  let missing := Text.sortedSet (policy.requiredScopes.filter (· ∉ grantedScopes))
  if missing ≠ [] then .error (policyScopeDenied policy missing)
  else match policy.tenantMode, policy.tenantField with
    | .required, some field =>
      match lookup (.obj arguments) (parsePath field) with
      | some actual =>
        if tenantId ≠ .null ∧ Json.pyEqual actual tenantId then .ok ()
        else .error (policyTenantDenied policy field)
      | none => .error (policyTenantDenied policy field)
    | _, _ => .ok ()

/-- Whoever is authorized has every scope of the policy. -/
theorem requiredScopes_of_authorize {policy : Policy} {granted : List String}
    {arguments : Fields} {tenant : Json}
    (h : authorize policy granted arguments tenant = .ok ()) :
    policy.requiredScopes ⊆ granted := by
  intro scope hscope
  unfold authorize at h
  simp only at h
  split at h
  · exact absurd h (by simp)
  · rename_i hmissing
    by_contra hnot
    have hmem : scope ∈ Text.sortedSet (policy.requiredScopes.filter (· ∉ granted)) :=
      Text.mem_sortedSet.mpr (List.mem_filter.mpr ⟨hscope, decide_eq_true hnot⟩)
    exact hmissing fun hnil => absurd (hnil ▸ hmem) List.not_mem_nil

/-- The host's hashing and number printing. -/
structure Digest extends Printer where
  sha256 : String → String

def stableHash (digest : Digest) (value : Json) : String :=
  "sha256:" ++ digest.sha256 (digest.dumps value)

/-- The parsed rules of a policy; a later redaction rule for a path replaces an earlier one. -/
structure Rules where
  readable : List FieldPath
  denied : List FieldPath
  redactions : List (FieldPath × RedactionStrategy)

def Policy.rules (policy : Policy) : Rules where
  readable := policy.readableFields.map parsePath
  denied := policy.deniedFields.map parsePath
  redactions := policy.redactionRules.map fun rule => (parsePath rule.path, rule.strategy)

def Rules.redaction? (rules : Rules) (path : FieldPath) : Option RedactionStrategy :=
  (rules.redactions.reverse.find? (·.1 = path)).map Prod.snd

def hasAncestor (path : FieldPath) (candidates : List FieldPath) : Bool :=
  candidates.any fun candidate => candidate.isPrefixOf path

def isReadable (path : FieldPath) (readable : List FieldPath) : Bool :=
  readable.any fun rule => rule.isPrefixOf path || path.isPrefixOf rule

mutual

/-- `none` stands for the removed marker. -/
def filterNode (digest : Digest) (rules : Rules) (path : FieldPath) (value : Json) :
    Option Json :=
  if hasAncestor path rules.denied then none
  else if path ≠ [] ∧ ¬ isReadable path rules.readable then none
  else match rules.redaction? path with
    | some .remove => none
    | some .mask => some (.str "***")
    | some .hash => some (.str (stableHash digest value))
    | none => match value with
      -- The fields are visited in key order; sorting afterwards gives the same dictionary.
      | .obj fields => some (.obj (Printer.sortKeys (filterFields digest rules path fields)))
      | .arr items => some (.arr (filterItems digest rules path items))
      | scalar => some scalar

def filterItems (digest : Digest) (rules : Rules) (path : FieldPath) : List Json → List Json
  | [] => []
  | item :: rest =>
    (filterNode digest rules path item).toList ++ filterItems digest rules path rest

def filterFields (digest : Digest) (rules : Rules) (path : FieldPath) : Fields → Fields
  | [] => []
  | (key, child) :: rest =>
    ((filterNode digest rules (path ++ [key]) child).map fun v => (key, v)).toList ++
      filterFields digest rules path rest

end

/-- Apply allowlist, denylist and redaction rules; a removed root becomes an empty object. -/
def filterOutput (digest : Digest) (policy : Policy) (output : Json) : Json :=
  (filterNode digest policy.rules [] output).getD (.obj [])

/-- Authorize first, so that a denied caller never receives a partially filtered result. -/
def enforce (digest : Digest) (policy : Policy) (grantedScopes : List String)
    (arguments : Fields) (tenantId : Json) (output : Json) : Except RuntimeError Json := do
  authorize policy grantedScopes arguments tenantId
  return filterOutput digest policy output

end CapabilityCompiler.Policies
