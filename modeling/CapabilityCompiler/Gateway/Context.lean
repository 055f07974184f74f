import CapabilityCompiler.Foundation.JsonEquality
import CapabilityCompiler.Foundation.Table
import CapabilityCompiler.Gateway.Models
import Mathlib.Data.Finset.Union

/-! The identity of a session: it is built from what a login has given. -/
namespace CapabilityCompiler.Gateway
open Foundation

/-- The source scopes stand for other scopes of the deployment. -/
abbrev ScopeMapping := Table String (Finset String)

/-- `_validated_text`: not only whitespace, and no control characters. -/
def validatedText (value : String) : Bool :=
  value.toList.any (!Text.isSpace ·) && value.toList.all (!Text.isControl ·)

def validatedScopes (scopes : Finset String) : Bool :=
  decide (∀ scope ∈ scopes, validatedText scope = true)

def validatedMapping (mapping : ScopeMapping) : Bool :=
  mapping.all fun entry => validatedText entry.1 && validatedScopes entry.2

/-- Source permissions are mapped and intersected with the ceiling; permissions that are not
available are the ceiling. -/
def mapEffectiveScopes (sourceScopes : Option (Finset String)) (ceiling : Finset String)
    (mapping : ScopeMapping) : Finset String :=
  match sourceScopes with
  | none => ceiling
  | some scopes => (scopes.biUnion fun scope => (mapping.get? scope).getD ∅) ∩ ceiling

/-- A tenant context comes from a document, or it has been frozen already. -/
inductive TenantSource where
  | document (fields : Fields)
  | frozen (fields : Fields)

/-- The frozen tenant context. A frozen object cannot be copied and a frozen array is refused, so
what is frozen already has scalars only. -/
def freezeTenant : TenantSource → Option Fields
  | .document fields => some fields
  | .frozen fields => if fields.all (·.2.isScalar) then some fields else none

/-- The validated context of these values, if they are valid. -/
def PrincipalContext.build? (principalId : String) (gatewaySessionId : Option String)
    (targetSystemId : String) (sourceScopes : Option (Finset String)) (ceiling : Finset String)
    (tenant : Option TenantSource) (authStateHandle : String) (mapping : ScopeMapping) :
    Option PrincipalContext :=
  if !validatedText principalId || !gatewaySessionId.all validatedText ||
      !validatedText targetSystemId || (gatewaySessionId.isSome && sourceScopes.isNone) ||
      !validatedText authStateHandle || !validatedScopes ceiling ||
      !sourceScopes.all validatedScopes || !validatedMapping mapping then none
  else match tenant with
    | none => some
        { principalId, gatewaySessionId, targetSystemId, sourceScopes, authStateHandle
          deploymentScopeCeiling := ceiling
          effectiveScopes := mapEffectiveScopes sourceScopes ceiling mapping
          tenantContext := none }
    | some source => (freezeTenant source).map fun fields =>
        { principalId, gatewaySessionId, targetSystemId, sourceScopes, authStateHandle
          deploymentScopeCeiling := ceiling
          effectiveScopes := mapEffectiveScopes sourceScopes ceiling mapping
          tenantContext := some fields }

/-- The values that a valid context is built from. -/
structure ValidContext (context : PrincipalContext) : Prop where
  principal : validatedText context.principalId = true
  session : context.gatewaySessionId.all validatedText = true
  target : validatedText context.targetSystemId = true
  available : context.gatewaySessionId.isSome = true → context.sourceScopes.isSome = true
  handle : validatedText context.authStateHandle = true
  ceiling : validatedScopes context.deploymentScopeCeiling = true
  scopes : context.sourceScopes.all validatedScopes = true

section Built
variable {principalId : String} {gatewaySessionId : Option String} {targetSystemId : String}
  {sourceScopes : Option (Finset String)} {ceiling : Finset String} {tenant : Option TenantSource}
  {authStateHandle : String} {mapping : ScopeMapping} {context : PrincipalContext}

theorem PrincipalContext.of_build? (h : PrincipalContext.build? principalId gatewaySessionId
      targetSystemId sourceScopes ceiling tenant authStateHandle mapping = some context) :
    ValidContext context ∧ validatedMapping mapping = true ∧ context.principalId = principalId ∧
      context.gatewaySessionId = gatewaySessionId ∧ context.targetSystemId = targetSystemId ∧
      context.sourceScopes = sourceScopes ∧ context.deploymentScopeCeiling = ceiling ∧
      context.effectiveScopes = mapEffectiveScopes sourceScopes ceiling mapping ∧
      context.authStateHandle = authStateHandle ∧
      context.tenantContext = tenant.bind freezeTenant := by
  unfold PrincipalContext.build? at h
  split at h
  · exact absurd h (by simp)
  · rename_i hvalid
    simp only [Bool.or_eq_true, Bool.not_eq_true', Bool.and_eq_true, not_or, Bool.not_eq_false,
      not_and, Bool.not_eq_true] at hvalid
    obtain ⟨⟨⟨⟨⟨⟨⟨hprincipal, hsession⟩, htarget⟩, havailable⟩, hhandle⟩, hceiling⟩, hscopes⟩,
      hmapping⟩ := hvalid
    have hknown : gatewaySessionId.isSome = true → sourceScopes.isSome = true := by
      intro hsome
      have hnone := havailable hsome
      cases hscopes' : sourceScopes with
      | none => rw [hscopes'] at hnone; exact absurd hnone (by simp)
      | some scopes => rfl
    cases tenant with
    | none =>
      obtain rfl := Option.some.inj h
      exact ⟨⟨hprincipal, hsession, htarget, hknown, hhandle, hceiling, hscopes⟩, hmapping, rfl, rfl,
        rfl, rfl, rfl, rfl, rfl, rfl⟩
    | some source =>
      obtain ⟨fields, hfields, rfl⟩ := Option.map_eq_some_iff.mp h
      exact ⟨⟨hprincipal, hsession, htarget, hknown, hhandle, hceiling, hscopes⟩, hmapping, rfl, rfl,
        rfl, rfl, rfl, rfl, rfl, hfields.symm⟩

end Built

theorem mapEffectiveScopes_subset (sourceScopes : Option (Finset String)) (ceiling : Finset String)
    (mapping : ScopeMapping) : mapEffectiveScopes sourceScopes ceiling mapping ⊆ ceiling := by
  unfold mapEffectiveScopes
  split
  · exact subset_rfl
  · exact Finset.inter_subset_right

end CapabilityCompiler.Gateway
