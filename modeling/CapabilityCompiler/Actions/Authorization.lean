import CapabilityCompiler.Actions.RuntimeExecutor

/-! The authorization of an action by the deployment and by the scopes of its caller. -/
namespace CapabilityCompiler.Actions
open Foundation Models Compiler

inductive ActionAuditMode where
  | required
  | bestEffort
deriving DecidableEq

/-- The operator's ceiling for actions. -/
structure DeploymentPolicy where
  allowedEffects : List String
  maxRisk : Risk
  capabilityAllowlist : Option (List String)
  actionAuditMode : ActionAuditMode

inductive DeploymentDenialReason where
  | effectNotAllowed
  | riskExceedsMaximum
  | capabilityNotAllowed
deriving DecidableEq

def DeploymentDenialReason.text : DeploymentDenialReason → String
  | effectNotAllowed => "effect_not_allowed"
  | riskExceedsMaximum => "risk_exceeds_maximum"
  | capabilityNotAllowed => "capability_not_allowed"

/-- The reasons against an action; it is allowed when there are none. -/
def DeploymentPolicy.evaluate (policy : DeploymentPolicy) (capabilityId : String)
    (effects : List String) (risk : Risk) : List DeploymentDenialReason :=
  (if effects.any (· ∉ policy.allowedEffects) then [.effectNotAllowed] else []) ++
  (if riskRank policy.maxRisk < riskRank risk then [.riskExceedsMaximum] else []) ++
  match policy.capabilityAllowlist with
  | some allowlist => if capabilityId ∈ allowlist then [] else [.capabilityNotAllowed]
  | none => []

/-- A capability with its proof, as both are bound to the compiled document. -/
structure CompiledActionDefinition where
  capability : ActionCapability
  proof : ActionProof
  /-- The `expires_in_seconds` of the capability's action. -/
  expiresInSeconds : ℕ
  risk : Risk
  proved : proof.ok = true
  mutates : proof.mutationOperationIds ≠ []
  effectful : proof.effects ≠ []
  maximumRisk : proof.maximumRisk = some risk
  approval : capability.action.approval = .required → proof.approvalRequired = true

def deploymentDenied (capabilityId : String) (reasons : List DeploymentDenialReason) :
    RuntimeError where
  code := "ACC_RUNTIME_ACTION_DEPLOYMENT_DENIED"
  status := 403
  message := "Action is denied by deployment policy"
  details := [("capability_id", .str capabilityId),
    ("reasons", .arr (reasons.map fun reason => .str reason.text))]

def scopeDenied (capabilityId : String) (missing : List String) : RuntimeError where
  code := "ACC_RUNTIME_ACTION_SCOPE_DENIED"
  status := 403
  message := "Action is denied by effective scopes"
  details := [("capability_id", .str capabilityId), ("missing_scopes", .arr (missing.map .str))]

def authorize (deployment : DeploymentPolicy) (definition : CompiledActionDefinition)
    (context : PrincipalContext) : Except RuntimeError Unit :=
  let id := definition.capability.id
  let reasons := deployment.evaluate id definition.proof.effects definition.risk
  let missing := Text.sortedSet
    (definition.proof.requiredScopes.filter (· ∉ context.effectiveScopes))
  if reasons ≠ [] then .error (deploymentDenied id reasons)
  else if missing ≠ [] then .error (scopeDenied id missing)
  else .ok ()

/-- An authorized action has every scope of its proof. -/
theorem requiredScopes_of_authorize {deployment : DeploymentPolicy}
    {definition : CompiledActionDefinition} {context : PrincipalContext}
    (h : authorize deployment definition context = .ok ()) :
    definition.proof.requiredScopes ⊆ context.effectiveScopes := by
  intro scope hscope
  by_contra hnot
  have hmissing : scope ∈ Text.sortedSet
      (definition.proof.requiredScopes.filter (· ∉ context.effectiveScopes)) :=
    Text.mem_sortedSet.mpr (List.mem_filter.mpr ⟨hscope, decide_eq_true hnot⟩)
  have hne := List.ne_nil_of_mem hmissing
  unfold authorize at h
  simp only [if_pos hne] at h
  split at h
  · exact absurd h (by simp)
  · exact absurd h (by simp)

/-- An operation of an action that is asked for was granted the scopes of its policy. -/
theorem ActionOperationCaller.granted_of_request {caller : ActionOperationCaller}
    {call : Execution.CallRequest} {asked : ActionRequest} (h : caller.request call = .ok asked) :
    caller.policy.requiredScopes ⊆ caller.principalContext.effectiveScopes := by
  unfold ActionOperationCaller.request at h
  split at h
  · exact absurd h (by simp)
  next definition hdefinition =>
    split at h
    · exact absurd h (by simp)
    · cases henriched : caller.enrich definition call.arguments with
      | error error => simp [henriched, bind, Except.bind] at h
      | ok enriched =>
        cases hpermit : caller.permit definition enriched with
        | error error => simp [henriched, hpermit, bind, Except.bind] at h
        | ok _ =>
          unfold ActionOperationCaller.permit at hpermit
          split at hpermit
          · have hgranted := Policies.requiredScopes_of_authorize hpermit
            exact fun scope hscope =>
              hgranted (Text.mem_sortedSet.mpr (List.mem_append_left _ hscope))
          · exact absurd hpermit (by simp)

end CapabilityCompiler.Actions
