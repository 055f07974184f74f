import CapabilityCompiler.Domains.Bindings
import CapabilityCompiler.Foundation.JsonText
import CapabilityCompiler.Foundation.Worklist
import Mathlib.Data.Finset.Union

/-! The impact of changed evidence on domains: direct matches, then what depends on them. -/
namespace CapabilityCompiler.Domains
open Foundation

/-- The impact on one domain. -/
structure DomainImpact where
  direct : Bool
  upstreamDomainIds : Finset String
  evidenceRefs : Finset String
  candidateIds : Finset String
  capabilityIds : Finset String
  securityAxes : Finset String
deriving DecidableEq

abbrev Impacts := Table String DomainImpact

abbrev Binding := BindingKey × Finset String

def allDomainCandidateIds (domainMap : DomainMap) (domainId : String) : Finset String :=
  ((domainMap.domains.find? (·.id = domainId)).elim [] (·.candidateIds)).toFinset

def capabilitiesOf (capabilities : Table String (Finset String)) (candidateIds : Finset String) :
    Finset String :=
  candidateIds.biUnion fun candidateId => (capabilities.get? candidateId).getD ∅

/-! Direct impacts. -/

section Direct
variable (domainMap : DomainMap) (capabilities : Table String (Finset String))
  (changes : ChangeSet)

/-- A change counts for a piece of evidence if a digest of the change is bound to it. -/
def idMatch (binding : Binding) : Bool :=
  binding.1.evidenceRef ∈ changes.changedEvidenceIds ||
    ((byId ChangedEvidenceRef.evidenceRef changes.changedEvidence).get?
      binding.1.evidenceRef).any fun delta => delta.change.digests.any (· ∈ binding.2)

def digestMatches (binding : Binding) : Finset String :=
  binding.2 ∩ changes.changedEvidenceDigests

def isMatched (binding : Binding) : Bool :=
  idMatch changes binding || decide (digestMatches changes binding ≠ ∅)

/-- The candidates that a binding is about: without one it is about all of the domain. -/
def boundCandidateIds (key : BindingKey) : Finset String :=
  match key.candidateId with
  | none => allDomainCandidateIds domainMap key.domainId
  | some candidateId => {candidateId}

def boundAxes (key : BindingKey) : Finset String :=
  if key.securityRelevant then key.axis.toList.toFinset else ∅

def DomainImpact.bind (impact : DomainImpact) (key : BindingKey) : DomainImpact :=
  { impact with
    evidenceRefs := insert key.evidenceRef impact.evidenceRefs
    candidateIds := impact.candidateIds ∪ boundCandidateIds domainMap key
    capabilityIds := impact.capabilityIds ∪ key.capabilityId.toList.toFinset
    securityAxes := impact.securityAxes ∪ boundAxes key }

def noImpact : DomainImpact := ⟨true, ∅, ∅, ∅, ∅, ∅⟩

def bindImpact (impacts : Impacts) (binding : Binding) : Impacts :=
  if isMatched changes binding then
    impacts.put binding.1.domainId
      (((impacts.get? binding.1.domainId).getD noImpact).bind domainMap binding.1)
  else impacts

def directImpacts (bindings : Bindings) : Impacts :=
  (bindings.foldl (bindImpact domainMap changes) []).mapValues fun impact =>
    { impact with
      capabilityIds := impact.capabilityIds ∪ capabilitiesOf capabilities impact.candidateIds }

def matchedIds (bindings : Bindings) : Finset String :=
  ((bindings.filter (isMatched changes)).map (·.1.evidenceRef)).toFinset

def matchedDigests (bindings : Bindings) : Finset String :=
  ((bindings.filter (isMatched changes)).map (digestMatches changes)).foldr (· ∪ ·) ∅

end Direct

/-! Propagation. -/

section Propagation
variable (domainMap : DomainMap) (capabilities : Table String (Finset String))

def dependents (domainId : String) : List String :=
  Text.sortedSet ((domainMap.domains.filter (domainId ∈ ·.dependencyDomainIds)).map (·.id))

def dependencyAxis (axis : String) : String :=
  let chars := axis.toList
  "dependency:" ++ String.ofList ((Text.dropPrefix? "dependency:".toList chars).getD chars)

/-- A domain that is only reached through its dependencies is affected with all its candidates. -/
def reachedImpact (domainId : String) : DomainImpact :=
  let candidateIds := allDomainCandidateIds domainMap domainId
  { direct := false
    upstreamDomainIds := ∅
    evidenceRefs := ∅
    candidateIds
    capabilityIds := capabilitiesOf capabilities candidateIds
    securityAxes := ∅ }

def DomainImpact.receive (dependent : DomainImpact) (changedId : String) (changed : DomainImpact) :
    DomainImpact :=
  { dependent with
    upstreamDomainIds :=
      dependent.upstreamDomainIds ∪ insert changedId changed.upstreamDomainIds
    evidenceRefs := dependent.evidenceRefs ∪ changed.evidenceRefs
    securityAxes := dependent.securityAxes ∪ changed.securityAxes.image dependencyAxis }

def DomainImpact.sizes (impact : DomainImpact) : ℕ × ℕ × ℕ :=
  (impact.upstreamDomainIds.card, impact.evidenceRefs.card, impact.securityAxes.card)

/-- The impact of a changed domain is passed on to a dependent one, which is to be visited if it is
new or has grown. -/
def passOn (changedId dependentId : String) (impacts : Impacts) : Impacts × Bool :=
  match impacts.get? changedId with
  | none => (impacts, false)
  | some changed =>
    let found := impacts.get? dependentId
    let dependent := found.getD (reachedImpact domainMap capabilities dependentId)
    let received := dependent.receive changedId changed
    (impacts.put dependentId received,
      found.isNone || decide (received.sizes ≠ dependent.sizes))

def DomainMap.ids : Finset String := (domainMap.domains.map (·.id)).toFinset

def allEvidence (impacts : Impacts) : Finset String :=
  (impacts.map (·.2.evidenceRefs)).foldr (· ∪ ·) ∅

def allAxes (impacts : Impacts) : Finset String :=
  let axes := (impacts.map (·.2.securityAxes)).foldr (· ∪ ·) ∅
  axes ∪ axes.image dependencyAxis

/-- No domain can have more upstream domains, evidence and axes than there are. -/
def growthBound (impacts : Impacts) : ℕ :=
  (domainMap.ids.card) *
    (1 + domainMap.ids.card + (allEvidence impacts).card + (allAxes impacts).card)

def propagateDependencies (impacts : Impacts) : Option Impacts :=
  let queue := Text.sortedSet (impacts.map Prod.fst)
  Worklist.run (dependents domainMap) (passOn domainMap capabilities)
    (queue.length + growthBound domainMap impacts) queue impacts

end Propagation

/-! The analysis. -/

structure DomainEvidenceImpact where
  domainId : String
  impact : DomainImpact
deriving DecidableEq

structure DomainImpactAnalysis where
  domains : List DomainEvidenceImpact
  affectedDomainIds : List String
  staleDomainIds : List String
  unaffectedDomainIds : Finset String
  matchedEvidenceIds : Finset String
  unmatchedEvidenceIds : Finset String
  unmatchedEvidenceDigests : Finset String
  changedEvidence : List ChangedEvidenceRef
deriving DecidableEq

def directOf (project : Project) (changes : ChangeSet) : Impacts :=
  directImpacts project.domainMap (acceptedCapabilities project) changes (buildBindings project)

/-- A domain is not reported as upstream of itself. -/
def reportImpacts (impacts : Impacts) : List DomainEvidenceImpact :=
  (Printer.sortKeys impacts).map fun entry =>
    { domainId := entry.1
      impact := { entry.2 with upstreamDomainIds := entry.2.upstreamDomainIds.erase entry.1 } }

/-- There is no analysis of a change set that names a piece of evidence twice. -/
def analyzeDomainImpact (project : Project) (changes : ChangeSet) : Option DomainImpactAnalysis :=
  if changes.Accepted then
    let bindings := buildBindings project
    let domainMap := project.domainMap
    (propagateDependencies domainMap (acceptedCapabilities project)
      (directOf project changes)).map fun impacts =>
      let domains := reportImpacts impacts
      let affected := domains.map (·.domainId)
      let requested := changes.changedEvidenceIds ∪
        (changes.changedEvidence.map (·.evidenceRef)).toFinset
      { domains
        affectedDomainIds := affected
        staleDomainIds := affected.filter fun domainId =>
          domainMap.domains.any fun domain =>
            domain.id = domainId && domain.activeDecisionRef.isSome
        unaffectedDomainIds := domainMap.ids \ affected.toFinset
        matchedEvidenceIds := matchedIds changes bindings
        unmatchedEvidenceIds := requested \ matchedIds changes bindings
        unmatchedEvidenceDigests :=
          changes.changedEvidenceDigests \ matchedDigests changes bindings
        changedEvidence := changes.changedEvidence.insertionSort
          fun a b => a.evidenceRef ≤ b.evidenceRef }
  else none

end CapabilityCompiler.Domains
