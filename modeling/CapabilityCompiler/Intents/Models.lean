import CapabilityCompiler.Domains.Models

/-! Capability candidates with the claims about them, and the intents that are proposed for them. -/
namespace CapabilityCompiler.Intents
open Foundation

/-! Candidates. -/

inductive FactClaimStatus where
  | unknown
  | missing
  | candidate
  | proven
  | contradicted
  | stale
deriving DecidableEq

inductive AuthorizationBoundaryStatus where
  | unknown
  | upstreamAuthoritative
  | contradicted
  | stale
deriving DecidableEq

inductive IdentityBindingStatus where
  | unknown
  | missing
  | candidate
  | identityBindingProven
  | contradicted
  | stale
deriving DecidableEq

inductive ContextIsolationStatus where
  | unknown
  | missing
  | candidate
  | contextIsolationProven
  | contradicted
  | stale
deriving DecidableEq

structure EvidenceClaim (Status : Type) where
  status : Status
  evidenceRefs : List String
deriving DecidableEq

abbrev FactClaim := EvidenceClaim FactClaimStatus

structure CandidateClaims where
  schema : FactClaim
  effect : FactClaim
  risk : FactClaim
  reversibility : FactClaim
  approval : FactClaim
  retry : FactClaim
  conflictControl : FactClaim
  idempotency : FactClaim
  outcomeResolution : FactClaim
  lifecycle : FactClaim
  authorizationBoundary : EvidenceClaim AuthorizationBoundaryStatus
  identityBinding : EvidenceClaim IdentityBindingStatus
  contextIsolation : EvidenceClaim ContextIsolationStatus
deriving DecidableEq

inductive Effect where
  | unknown
  | read
  | create
  | update
  | delete
  | transition
  | execute
deriving DecidableEq

structure CapabilityCandidate where
  id : String
  domainId : Option String
  routeIds : List String
  kindClaim : Domains.CandidateKind
  effectClaim : Effect
  claims : CandidateClaims
  gaps : List String
deriving DecidableEq

/-- A ledger lists its candidates by their identifiers. -/
structure CapabilityCandidateLedger where
  candidates : List CapabilityCandidate
  unique : (candidates.map (·.id)).Nodup

def CapabilityCandidateLedger.find? (ledger : CapabilityCandidateLedger) (id : String) :
    Option CapabilityCandidate :=
  ledger.candidates.find? (·.id = id)

/-- The gaps that the claims leave, whatever gaps are declared. -/
def blockingGaps (candidate : CapabilityCandidate) : List String :=
  let claims := candidate.claims
  let gap (name : String) (closed : Bool) : List String := if closed then [] else [name]
  let proven (claim : FactClaim) : Bool := claim.status = .proven
  let identity := gap "authorization_boundary"
      (claims.authorizationBoundary.status = .upstreamAuthoritative) ++
    gap "identity_binding" (claims.identityBinding.status = .identityBindingProven) ++
    gap "context_isolation" (claims.contextIsolation.status = .contextIsolationProven)
  let semantics := match candidate.kindClaim with
    | .unknown => ["kind"]
    | .read => gap "schema" (proven claims.schema) ++
        gap "effect" (proven claims.effect && candidate.effectClaim = .read)
    | .action => gap "schema" (proven claims.schema) ++
        gap "effect" (proven claims.effect &&
          decide (candidate.effectClaim ∈ [.create, .update, .delete, .transition, .execute]))
  let lifecycle := if candidate.kindClaim = .action then
      gap "approval" (proven claims.approval) ++
        gap "conflict_control" (proven claims.conflictControl) ++
        gap "idempotency" (proven claims.idempotency) ++
        gap "lifecycle" (proven claims.lifecycle) ++
        gap "outcome_resolution" (proven claims.outcomeResolution) ++
        gap "reversibility" (proven claims.reversibility) ++ gap "retry" (proven claims.retry) ++
        gap "risk" (proven claims.risk)
    else []
  Text.sortedSet (candidate.gaps ++ identity ++ semantics ++ lifecycle)

/-! Intents. -/

inductive IntentDecision where
  | materialize
  | compose
  | blockedOnEvidence
  | exclude
deriving DecidableEq

/-- The evidence that is cited for the safety of an Action. -/
structure ActionSafetyAssessment where
  authorization : List String
  idempotency : List String
  concurrency : List String
  approval : List String
  outcomeResolution : List String

/-- An intent with the references of its evidence. -/
structure DomainIntentCandidate where
  id : String
  domainId : String
  routeIds : List String
  candidateIds : List String
  capabilityIds : List String
  evidence : List String
  recommendation : IntentDecision
  actionSafety : Option ActionSafetyAssessment

structure IntentRelationship where
  intentIds : List String
  routeIds : List String

structure IntentPlan where
  intents : List DomainIntentCandidate
  relationships : List IntentRelationship

/-! Scope. -/

structure ScopeRoute where
  id : String
  domain : String
  disposition : Domains.RouteDisposition
  capabilityIds : List String

end CapabilityCompiler.Intents
