import CapabilityCompiler.Errors
import CapabilityCompiler.Intents.Models

/-! The audit of an intent plan. It compares the candidates of an intent by a signature of their claims;
of the three claims about permissions only one is in it. -/
namespace CapabilityCompiler.Intents
open Foundation

/-- Not all of the values are equal. -/
def differ {α : Type} [DecidableEq α] : List α → Bool
  | [] => false
  | value :: rest => rest.any (· ≠ value)

/-! Signatures. -/

structure LifecycleSignature where
  approval : FactClaim
  retry : FactClaim
  conflictControl : FactClaim
  idempotency : FactClaim
  outcomeResolution : FactClaim
  lifecycle : FactClaim
deriving DecidableEq

def lifecycleSignature (claims : CandidateClaims) : LifecycleSignature where
  approval := claims.approval
  retry := claims.retry
  conflictControl := claims.conflictControl
  idempotency := claims.idempotency
  outcomeResolution := claims.outcomeResolution
  lifecycle := claims.lifecycle

structure CompatibilitySignature where
  kind : Domains.CandidateKind
  effect : Effect
  authorizationBoundary : EvidenceClaim AuthorizationBoundaryStatus
  risk : FactClaim
  lifecycle : LifecycleSignature
deriving DecidableEq

def compatibilitySignature (candidate : CapabilityCandidate) : CompatibilitySignature where
  kind := candidate.kindClaim
  effect := candidate.effectClaim
  authorizationBoundary := candidate.claims.authorizationBoundary
  risk := candidate.claims.risk
  lifecycle := lifecycleSignature candidate.claims

/-! Evidence. -/

def permissionRefs (claims : CandidateClaims) : List String :=
  claims.authorizationBoundary.evidenceRefs ++ claims.identityBinding.evidenceRefs ++
    claims.contextIsolation.evidenceRefs

def riskRefs (claims : CandidateClaims) : List String := claims.risk.evidenceRefs

def lifecycleRefs (claims : CandidateClaims) : List String :=
  claims.approval.evidenceRefs ++ claims.retry.evidenceRefs ++
    claims.conflictControl.evidenceRefs ++ claims.idempotency.evidenceRefs ++
    claims.outcomeResolution.evidenceRefs ++ claims.lifecycle.evidenceRefs

def ActionSafetyAssessment.refs (safety : ActionSafetyAssessment) : List String :=
  safety.authorization ++ safety.idempotency ++ safety.concurrency ++ safety.approval ++
    safety.outcomeResolution

/-- The evidence that an intent declares. -/
def compatibilityRefs (proposal : DomainIntentCandidate) : List String :=
  proposal.evidence ++ match proposal.actionSafety with
    | some safety => safety.refs
    | none => []

/-! Diagnostics. -/

def planError (code message pointer : String) : Diagnostic where
  code := code
  message := message
  path := "intent-plan"
  pointer := pointer

/-- The diagnostic, if its condition holds. -/
def reportIf (failed : Bool) (diagnostic : Diagnostic) : List Diagnostic :=
  if failed then [diagnostic] else []

def intentCandidates (ledger : CapabilityCandidateLedger) (proposal : DomainIntentCandidate) :
    List CapabilityCandidate :=
  proposal.candidateIds.filterMap ledger.find?

/-- An axis of claims that differ needs its evidence declared, and some of it. -/
def axisDiagnostics {α : Type} [DecidableEq α] (code pointer : String)
    (known : List CapabilityCandidate) (declared : List String) (refs : CandidateClaims → List String)
    (signature : CandidateClaims → α) : List Diagnostic :=
  let required := known.flatMap fun candidate => refs candidate.claims
  reportIf (differ (known.map fun candidate => signature candidate.claims) &&
      (required.isEmpty || !required.all (· ∈ declared)))
    (planError code ("Merged candidates have incompatible evidence boundaries without a " ++
      "source-evidenced compatibility proof.") (pointer ++ "/evidence"))

def compatibilityDiagnostics (pointer : String) (known : List CapabilityCandidate)
    (declared : List String) : List Diagnostic :=
  if differ (known.map compatibilitySignature) then
    reportIf (differ (known.map fun candidate => (candidate.kindClaim, candidate.effectClaim)))
      (planError "ACC_INTENT_PLAN_KIND_EFFECT_INCOMPATIBLE"
        ("An intent cannot merge different Read/Action or mutation-effect " ++ "boundaries.")
        (pointer ++ "/candidate_ids")) ++
    axisDiagnostics "ACC_INTENT_PLAN_PERMISSION_INCOMPATIBLE" pointer known declared permissionRefs
      (·.authorizationBoundary) ++
    axisDiagnostics "ACC_INTENT_PLAN_RISK_INCOMPATIBLE" pointer known declared riskRefs (·.risk) ++
    axisDiagnostics "ACC_INTENT_PLAN_LIFECYCLE_INCOMPATIBLE" pointer known declared lifecycleRefs
      lifecycleSignature
  else []

/-- What a plan is audited against. The diagnostics of the tool portfolio are taken as they are. -/
structure PlanningFacts where
  routes : List ScopeRoute
  ledger : CapabilityCandidateLedger
  domainIds : List String
  capabilityIds : List String
  portfolio : List Diagnostic

section Facts
variable (facts : PlanningFacts)

/-- The routes by their identifiers; a later one replaces an earlier one. -/
def PlanningFacts.route? (id : String) : Option ScopeRoute :=
  (Domains.byId ScopeRoute.id facts.routes).get? id

def knownRoutes (proposal : DomainIntentCandidate) : List ScopeRoute :=
  proposal.routeIds.filterMap facts.route?

def materialized (recommendation : IntentDecision) : Bool :=
  recommendation = .materialize || recommendation = .compose

/-- The recommendation that the disposition of a route allows. -/
def allowedBy (disposition : Domains.RouteDisposition) (recommendation : IntentDecision) : Bool :=
  match disposition with
  | .planned => materialized recommendation
  | .composed => materialized recommendation
  | .blockedOnEvidence => recommendation = .blockedOnEvidence
  | .excluded => recommendation = .exclude
  | .outOfScope => recommendation = .exclude

def unknownDiagnostic (code suffix pointer : String) (unknown : List String) : List Diagnostic :=
  reportIf (!unknown.isEmpty) (planError code
    ("Intent proposal references unknown " ++ suffix ++ ": " ++ ", ".intercalate unknown ++ ".")
    (pointer ++ "/" ++ suffix))

/-- The closure of one proposal over routes, candidates, capabilities and domains. -/
def traceDiagnostics (pointer : String) (proposal : DomainIntentCandidate) : List Diagnostic :=
  let known := intentCandidates facts.ledger proposal
  let routes := knownRoutes facts proposal
  reportIf (proposal.domainId ∉ facts.domainIds)
    (planError "ACC_INTENT_PLAN_UNKNOWN_DOMAIN" "Intent proposal references an unknown domain."
      (pointer ++ "/domain")) ++
  unknownDiagnostic "ACC_INTENT_PLAN_UNKNOWN_ROUTE" "route_ids" pointer
    (Text.sortedSet (proposal.routeIds.filter fun id => (facts.route? id).isNone)) ++
  unknownDiagnostic "ACC_INTENT_PLAN_UNKNOWN_CANDIDATE" "candidate_ids" pointer
    (Text.sortedSet (proposal.candidateIds.filter fun id => (facts.ledger.find? id).isNone)) ++
  unknownDiagnostic "ACC_INTENT_PLAN_UNKNOWN_CAPABILITY" "capability_ids" pointer
    (Text.sortedSet (proposal.capabilityIds.filter (· ∉ facts.capabilityIds))) ++
  reportIf (known.isEmpty && proposal.recommendation ≠ .exclude)
    (planError "ACC_INTENT_PLAN_ORPHAN_INTENT"
      "Every intent must trace to at least one Candidate Ledger entry." pointer) ++
  reportIf (known.any (·.domainId ≠ some proposal.domainId))
    (planError "ACC_INTENT_PLAN_CROSS_DOMAIN_GOD_TOOL"
      "One intent cannot hide candidates from different domain boundaries."
      (pointer ++ "/candidate_ids")) ++
  reportIf (routes.any (·.domain ≠ proposal.domainId))
    (planError "ACC_INTENT_PLAN_CROSS_DOMAIN_GOD_TOOL"
      "One intent cannot hide routes from different domain boundaries."
      (pointer ++ "/route_ids")) ++
  reportIf (proposal.recommendation ≠ .exclude &&
      proposal.routeIds.any (fun id => id ∉ known.flatMap (·.routeIds)))
    (planError "ACC_INTENT_PLAN_ROUTE_TRACE_MISMATCH"
      "Intent routes must be traceable to its candidate ledger entries."
      (pointer ++ "/route_ids"))

/-- What the recommendation of a proposal needs. -/
def recommendationDiagnostics (pointer : String) (proposal : DomainIntentCandidate) :
    List Diagnostic :=
  let routes := knownRoutes facts proposal
  let scopeCapabilities := routes.flatMap (·.capabilityIds)
  let blocked := ((intentCandidates facts.ledger proposal).filter
    fun candidate => !(blockingGaps candidate).isEmpty).map (·.id)
  reportIf (!materialized proposal.recommendation && !proposal.capabilityIds.isEmpty)
    (planError "ACC_INTENT_PLAN_BLOCKED_MATERIALIZED"
      "A blocked or excluded intent cannot retain materialized Capability traces."
      (pointer ++ "/route_ids")) ++
  reportIf (!(proposal.capabilityIds.all (· ∈ scopeCapabilities) &&
      scopeCapabilities.all (· ∈ proposal.capabilityIds)))
    (planError "ACC_INTENT_PLAN_CAPABILITY_TRACE_MISMATCH"
      "Intent capability_ids must exactly match ScopeInventory route traces."
      (pointer ++ "/capability_ids")) ++
  reportIf (materialized proposal.recommendation && proposal.capabilityIds.isEmpty)
    (planError "ACC_INTENT_PLAN_MATERIALIZATION_UNPROVEN"
      "Materialized intents require Capability bindings through ScopeInventory." pointer) ++
  reportIf (materialized proposal.recommendation && !blocked.isEmpty)
    (planError "ACC_INTENT_PLAN_BLOCKED_EVIDENCE"
      ("Blocked candidates cannot be promoted by an AI plan: " ++ ", ".intercalate blocked ++ ".")
      (pointer ++ "/route_ids")) ++
  reportIf (proposal.recommendation = .compose && decide (proposal.routeIds.length < 2))
    (planError "ACC_INTENT_PLAN_FALSE_COMPOSITION"
      "A composed intent must trace at least two source routes." (pointer ++ "/route_ids")) ++
  reportIf (routes.any fun route => !allowedBy route.disposition proposal.recommendation)
    (planError "ACC_INTENT_PLAN_DISPOSITION_MISMATCH"
      "Intent recommendation must preserve each ScopeInventory disposition."
      (pointer ++ "/recommendation"))

def proposalDiagnostics (index : ℕ) (proposal : DomainIntentCandidate) : List Diagnostic :=
  let pointer := "/intents/" ++ toString index
  traceDiagnostics facts pointer proposal ++ recommendationDiagnostics facts pointer proposal ++
    compatibilityDiagnostics pointer (intentCandidates facts.ledger proposal)
      (compatibilityRefs proposal)

def routeAssignments (plan : IntentPlan) : List String := plan.intents.flatMap (·.routeIds)

def unassigned (plan : IntentPlan) : List String :=
  Text.sortedSet ((facts.routes.map (·.id)).filter (· ∉ routeAssignments plan))

def multiplyAssigned (plan : IntentPlan) : List String :=
  Text.sortedSet ((routeAssignments plan).filter fun id => decide (1 < (routeAssignments plan).count id))

def explainedRoutes (plan : IntentPlan) : List String := plan.relationships.flatMap (·.routeIds)

/-- The closure of a plan over the denominators. -/
def closureDiagnostics (plan : IntentPlan) : List Diagnostic :=
  reportIf (!(unassigned facts plan).isEmpty)
    (planError "ACC_INTENT_PLAN_DENOMINATOR_UNASSIGNED"
      ("Every discovered source route must be assigned, including excluded and " ++
        "out-of-scope routes.") "/intents") ++
  reportIf ((multiplyAssigned plan).any (· ∉ explainedRoutes plan))
    (planError "ACC_INTENT_PLAN_ROUTE_MULTIPLY_ASSIGNED"
      "A route may occur in multiple intents only through an explicit relationship."
      "/relationships") ++
  reportIf (facts.ledger.candidates.any fun candidate =>
      candidate.id ∉ (plan.intents.flatMap (intentCandidates facts.ledger)).map (·.id))
    (planError "ACC_INTENT_PLAN_ORPHAN_CANDIDATE"
      "Candidate ledger entries must be planned, deferred, or evidence-blocked." "/intents") ++
  reportIf (facts.capabilityIds.any (· ∉ plan.intents.flatMap (·.capabilityIds)))
    (planError "ACC_INTENT_PLAN_ORPHAN_CAPABILITY"
      "Existing Capabilities must remain represented in the intent plan." "/intents")

/-- The diagnostics of an audit, without the warnings about fragmented intents and unclassified
candidates, in the order in which they are found. -/
def auditIntentPlan (plan : IntentPlan) : List Diagnostic :=
  (plan.intents.zipIdx.flatMap fun entry => proposalDiagnostics facts entry.2 entry.1) ++
    closureDiagnostics facts plan ++ facts.portfolio

def accepted (plan : IntentPlan) : Bool := errorFree (auditIntentPlan facts plan)

end Facts
end CapabilityCompiler.Intents
