import CapabilityCompiler.Foundation.Json
import CapabilityCompiler.Foundation.Table
import CapabilityCompiler.Foundation.Text
import Mathlib.Data.Finset.Sort

/-! Domain maps, candidates and decisions, with the evidence that they refer to. -/
namespace CapabilityCompiler.Domains
open Foundation

structure Evidence where
  sourceId : String
  digest : String
deriving DecidableEq

structure DomainDecisionRef where
  domainId : String
  revision : ℕ
  decisionDigest : String
deriving DecidableEq

structure DomainEntry where
  id : String
  candidateIds : List String
  dependencyDomainIds : List String
  evidenceRefs : List String
  activeDecisionRef : Option DomainDecisionRef
deriving DecidableEq

structure DomainMap where
  domains : List DomainEntry
  unique : (domains.map (·.id)).Nodup
  known : ∀ domain ∈ domains, domain.dependencyDomainIds ⊆ domains.map (·.id)
  irreflexive : ∀ domain ∈ domains, domain.id ∉ domain.dependencyDomainIds

/-- The evidence references of the claims about a candidate. -/
structure CandidateClaims where
  schema : List String
  effect : List String
  risk : List String
  reversibility : List String
  approval : List String
  retry : List String
  conflictControl : List String
  idempotency : List String
  outcomeResolution : List String
  lifecycle : List String
  authorizationBoundary : List String
  identityBinding : List String
  contextIsolation : List String
deriving DecidableEq

inductive CandidateKind where
  | unknown
  | read
  | action
deriving DecidableEq

structure CapabilityCandidate where
  id : String
  domainId : Option String
  kindClaim : CandidateKind
  claims : CandidateClaims
  ineligibilityClaim : Option (List String)
  routeIds : List String
  interactionIds : List String
deriving DecidableEq

inductive Disposition where
  | accepted
  | deferred
  | rejected
  | blocked
deriving DecidableEq

structure CandidateDisposition where
  candidateId : String
  disposition : Disposition
  materializedCapabilityIds : List String
deriving DecidableEq

/-- A decision with the digest of its facts. -/
structure DomainDecision where
  domainId : String
  revision : ℕ
  digest : String
  candidateDispositions : List CandidateDisposition
  evidenceSnapshot : List (String × String)
deriving DecidableEq

inductive RouteDisposition where
  | planned
  | composed
  | excluded
  | blockedOnEvidence
  | outOfScope
deriving DecidableEq

inductive Eligibility where
  | undetermined
  | eligible
  | ineligible
deriving DecidableEq

structure ScopeRoute where
  id : String
  kind : CandidateKind
  eligibility : Eligibility
  disposition : RouteDisposition
  operationId : Option String
  capabilityIds : List String
  candidateId : Option String

/-- An interaction with the evidence that is embedded in it, in the order of its fields. -/
structure UIInteraction where
  id : String
  surfaceId : String
  embeddedEvidence : List Evidence

structure UISurface where
  id : String
  evidenceSources : List String

/-- The documents of a project that evidence is traced through. Of an operation and of an interaction
contract only the evidence in it is read; a capability is its JSON document. -/
structure Project where
  domainMap : DomainMap
  candidates : List CapabilityCandidate
  decisions : List DomainDecision
  capabilities : Table String Json
  operations : Table String (List Evidence)
  scopeRoutes : List ScopeRoute
  interactions : List UIInteraction
  surfaces : List UISurface
  interactionContracts : Table String (List Evidence)
  evidenceRegistry : Table String Evidence

/-- A change of evidence: what is added has only a new digest, what is removed only an old one. -/
inductive EvidenceChange where
  | added (newDigest : String)
  | modified (oldDigest newDigest : String) (distinct : oldDigest ≠ newDigest)
  | removed (oldDigest : String)
deriving DecidableEq

def EvidenceChange.digests : EvidenceChange → List String
  | .added newDigest => [newDigest]
  | .modified oldDigest newDigest _ => [oldDigest, newDigest]
  | .removed oldDigest => [oldDigest]

structure ChangedEvidenceRef where
  evidenceRef : String
  change : EvidenceChange
deriving DecidableEq

/-- The changed evidence, by identifiers, by digests and by typed changes. -/
structure ChangeSet where
  changedEvidenceIds : Finset String
  changedEvidenceDigests : Finset String
  changedEvidence : List ChangedEvidenceRef

/-- No evidence is changed twice. -/
def ChangeSet.Accepted (changes : ChangeSet) : Prop :=
  (changes.changedEvidence.map (·.evidenceRef)).Nodup

instance (changes : ChangeSet) : Decidable changes.Accepted :=
  inferInstanceAs (Decidable (List.Nodup _))

/-- Every change of the first is one of the second. -/
structure ChangeSet.Within (first second : ChangeSet) : Prop where
  ids : first.changedEvidenceIds ⊆ second.changedEvidenceIds
  digests : first.changedEvidenceDigests ⊆ second.changedEvidenceDigests
  evidence : first.changedEvidence ⊆ second.changedEvidence

/-- The items by their identifiers: a later one replaces an earlier one. -/
def byId {α : Type} (id : α → String) (items : List α) : Table String α :=
  items.foldl (fun table item => table.put (id item) item) []

end CapabilityCompiler.Domains
