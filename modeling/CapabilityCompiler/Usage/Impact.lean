import CapabilityCompiler.Foundation.Table
import CapabilityCompiler.Foundation.Text
import CapabilityCompiler.Foundation.Worklist
import CapabilityCompiler.Usage.ToolSchemas

/-! The impact of a changed release on the domains of a Usage project. -/
namespace CapabilityCompiler.Usage
open Foundation

structure UsageSnapshot where
  packDigest : String
  toolSchemaDigest : String
  testReportDigest : String
  sourceSnapshotDigest : String
  contractDigests : Table String String
  capabilityIds : List String
  toolSchemas : Table String UsageToolSchema
  evidenceDigests : Table String String
  actionProofDigests : Table String String

structure DomainGraph where
  scenarioIds : List String
  routeIds : List String
  stepIds : List String
  capabilityIds : List String
  actionCapabilityIds : List String
  toolNames : List String
  evidenceSourceIds : List String
  directDependencyDomainIds : List String
  graphInvalid : Bool

/-- The domains of a project, once each. -/
structure UsageGraph where
  nodes : Table String DomainGraph
  unique : nodes.Unique

/-! Direct statuses. -/

section Direct
variable (before after : UsageSnapshot)

def contractStatus (domainId : String) : UsageImpactStatus :=
  match before.contractDigests.get? domainId, after.contractDigests.get? domainId with
  | some old, some new => if old = new then .unaffected else .regenerate
  | _, _ => .blocked

def toolStatus (toolName : String) : UsageImpactStatus :=
  match before.toolSchemas.get? toolName, after.toolSchemas.get? toolName with
  | some old, some new => classifyToolSchema old new
  | _, _ => .blocked

def evidenceChanged (sourceId : String) : Bool :=
  match before.evidenceDigests.get? sourceId, after.evidenceDigests.get? sourceId with
  | some old, some new => decide (old ≠ new)
  | _, _ => true

/-- The proof of a capability changed, or one that is required is missing. -/
def proofChanged (graph : DomainGraph) (capabilityId : String) : Bool :=
  let old := before.actionProofDigests.get? capabilityId
  let new := after.actionProofDigests.get? capabilityId
  decide (capabilityId ∈ graph.actionCapabilityIds) && (old.isNone || new.isNone) ||
    decide (old ≠ new)

def globalRevalidation : Bool :=
  decide (before.packDigest ≠ after.packDigest) ||
    decide (before.toolSchemaDigest ≠ after.toolSchemaDigest) ||
    decide (before.sourceSnapshotDigest ≠ after.sourceSnapshotDigest) ||
    decide (before.testReportDigest ≠ after.testReportDigest)

def directStatus (domainId : String) (graph : DomainGraph) : UsageImpactStatus :=
  if graph.graphInvalid then .blocked
  else
    let missing := graph.capabilityIds.any fun capabilityId =>
      decide (capabilityId ∉ before.capabilityIds) || decide (capabilityId ∉ after.capabilityIds)
    let status := if missing then .blocked else contractStatus before after domainId
    let status := graph.toolNames.foldl (fun status toolName =>
      maximumStatus status (toolStatus before after toolName)) status
    let status := if graph.evidenceSourceIds.any (evidenceChanged before after) then .blocked
      else status
    let status := if graph.capabilityIds.any (proofChanged before after graph) then .blocked
      else status
    if globalRevalidation before after then maximumStatus status .revalidate else status

end Direct

/-! Propagation. -/

abbrev Statuses := Table String UsageImpactStatus

structure Propagation where
  statuses : Statuses
  upstream : Table String (Finset String)

def Propagation.upstreamOf (propagation : Propagation) (domainId : String) : Finset String :=
  (propagation.upstream.get? domainId).getD ∅

def isAffected (statuses : Statuses) (domainId : String) : Bool :=
  match statuses.get? domainId with
  | some status => decide (status ≠ .unaffected)
  | none => false

/-- The status of an affected domain raises that of a dependent one. -/
def raiseStatus (changedId dependentId : String) (statuses : Statuses) : Statuses × Bool :=
  if isAffected statuses changedId then
    match statuses.get? changedId, statuses.get? dependentId with
    | some changed, some status =>
      let propagated := maximumStatus status changed
      (statuses.put dependentId propagated, decide (propagated ≠ status))
    | _, _ => (statuses, false)
  else (statuses, false)

/-- A dependent domain is to be visited again only if its status has changed. -/
def passOn (changedId dependentId : String) (propagation : Propagation) : Propagation × Bool :=
  let raised := raiseStatus changedId dependentId propagation.statuses
  ({ statuses := raised.1
     upstream :=
      if isAffected propagation.statuses changedId then
        propagation.upstream.put dependentId (propagation.upstreamOf dependentId ∪
          insert changedId (propagation.upstreamOf changedId))
      else propagation.upstream },
    raised.2)

namespace UsageGraph
variable (graph : UsageGraph) (before after : UsageSnapshot)

def ids : List String := graph.nodes.map Prod.fst

def dependents (domainId : String) : List String :=
  Text.sortedSet ((graph.nodes.filter (domainId ∈ ·.2.directDependencyDomainIds)).map Prod.fst)

def directStatuses : Statuses :=
  graph.nodes.map fun node => (node.1, directStatus before after node.1 node.2)

/-- A status can be raised three times. -/
def fuel : ℕ := graph.ids.length + 3 * graph.ids.length

def propagate : Option Propagation :=
  Worklist.run graph.dependents passOn graph.fuel (Text.sortedSet graph.ids)
    { statuses := graph.directStatuses before after, upstream := [] }

end UsageGraph

/-! The analysis. -/

structure UsageDomainImpact where
  domainId : String
  status : UsageImpactStatus
  contractDigestBefore : Option String
  contractDigestAfter : Option String
  graph : DomainGraph
  upstreamDomainIds : Finset String

structure UsageImpactReport where
  domains : List UsageDomainImpact
  graphValid : Bool

/-- The entry of a domain; without a status there is none. -/
def domainImpact (before after : UsageSnapshot) (propagation : Propagation)
    (node : String × DomainGraph) : Option UsageDomainImpact :=
  (propagation.statuses.get? node.1).map fun status =>
    { domainId := node.1
      status
      contractDigestBefore := before.contractDigests.get? node.1
      contractDigestAfter := after.contractDigests.get? node.1
      graph := node.2
      upstreamDomainIds := propagation.upstreamOf node.1 }

def analyzeUsageImpact (graph : UsageGraph) (before after : UsageSnapshot) :
    Option UsageImpactReport :=
  (graph.propagate before after).map fun propagation =>
    { domains := graph.nodes.filterMap (domainImpact before after propagation)
      graphValid := !graph.nodes.isEmpty && !graph.nodes.any (·.2.graphInvalid) }

end CapabilityCompiler.Usage
