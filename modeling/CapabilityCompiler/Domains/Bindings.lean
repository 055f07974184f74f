import CapabilityCompiler.Domains.Models

/-! The bindings of evidence to domains: every binding is of a domain of the map. -/
namespace CapabilityCompiler.Domains
open Foundation

def securityClaimAxes : List String :=
  ["approval", "authorization_boundary", "conflict_control", "context_isolation", "effect",
    "idempotency", "identity_binding", "outcome_resolution", "risk"]

def actionSecurityClaimAxes : List String :=
  ["ineligibility", "lifecycle", "retry", "reversibility", "schema"]

/-- What binds a piece of evidence: a domain, or a candidate of it, with one of its capabilities. -/
structure BindingKey where
  evidenceRef : String
  domainId : String
  candidateId : Option String := none
  capabilityId : Option String := none
  axis : Option String := none
  securityRelevant : Bool := false
deriving DecidableEq

/-- The bindings with the digests known of their evidence. -/
abbrev Bindings := Table BindingKey (Finset String)

def Bindings.add (bindings : Bindings) (key : BindingKey) (digest : Option String) : Bindings :=
  bindings.put key ((bindings.get? key).getD ∅ ∪ digest.toList.toFinset)

/-- A trailing underscore keeps a field name from being a keyword. -/
def axisName (field : String) : String :=
  String.ofList (field.toList.reverse.dropWhile (· = '_')).reverse

def claimFields (claims : CandidateClaims) : List (String × List String) :=
  [("schema_", claims.schema), ("effect", claims.effect), ("risk", claims.risk),
    ("reversibility", claims.reversibility), ("approval", claims.approval),
    ("retry", claims.retry), ("conflict_control", claims.conflictControl),
    ("idempotency", claims.idempotency), ("outcome_resolution", claims.outcomeResolution),
    ("lifecycle", claims.lifecycle), ("authorization_boundary", claims.authorizationBoundary),
    ("identity_binding", claims.identityBinding), ("context_isolation", claims.contextIsolation)]

def claimEvidence (candidate : CapabilityCandidate) : List (String × String) :=
  (claimFields candidate.claims).flatMap (fun field =>
      field.2.map fun evidenceRef => (evidenceRef, axisName field.1)) ++
    (candidate.ineligibilityClaim.getD []).map fun evidenceRef => (evidenceRef, "ineligibility")

/-! Decisions. -/

def findActive (decisions : List DomainDecision) (domain : DomainEntry) : Option DomainDecision :=
  domain.activeDecisionRef.bind fun reference =>
    match decisions.filter fun decision => decision.domainId = reference.domainId ∧
        decision.revision = reference.revision ∧ decision.digest = reference.decisionDigest with
    | [decision] => some decision
    | _ => none

/-- The decisions that the domains of the map refer to. -/
def activeDecisions (project : Project) : Table String DomainDecision :=
  project.domainMap.domains.filterMap fun domain =>
    (findActive project.decisions domain).map fun decision => (domain.id, decision)

def acceptedCapabilities (project : Project) : Table String (Finset String) :=
  let accepted := (activeDecisions project).flatMap fun entry =>
    entry.2.candidateDispositions.filter (·.disposition = .accepted)
  accepted.foldl (fun result disposition => result.put disposition.candidateId
    ((result.get? disposition.candidateId).getD ∅ ∪
      disposition.materializedCapabilityIds.toFinset)) []

/-! Capabilities. -/

mutual

/-- The operations of the calls in a document. -/
def visitCalls : Json → List String
  | .obj fields =>
    (match Json.field? "call" fields with
      | some (.obj call) => match Json.field? "operation" call with
        | some (.str operationId) => [operationId]
        | _ => []
      | _ => []) ++ visitFields fields
  | .arr items => visitItems items
  | _ => []

def visitItems : List Json → List String
  | [] => []
  | item :: rest => visitCalls item ++ visitItems rest

def visitFields : Fields → List String
  | [] => []
  | (_, value) :: rest => visitCalls value ++ visitFields rest

end

def capabilityOperationIds (capability : Json) : List String :=
  Text.sortedSet (visitCalls capability)

/-! Bindings. -/

section Bindings
variable (project : Project)

def knownDomain (domainId : String) : Bool :=
  (project.domainMap.domains.map (·.id)).contains domainId

def operationEvidence (operationId : String) : List Evidence :=
  (project.operations.get? operationId).getD []

abbrev Addition := BindingKey × Option String

def domainAdditions : List Addition :=
  project.domainMap.domains.flatMap fun domain =>
    domain.evidenceRefs.map fun evidenceRef => ({ evidenceRef, domainId := domain.id }, none)

/-- What is bound for the candidates whose domain is known. -/
def candidateAdditions (bind : CapabilityCandidate → String → List Addition) : List Addition :=
  project.candidates.flatMap fun candidate => match candidate.domainId with
    | some domainId => if knownDomain project domainId then bind candidate domainId else []
    | none => []

def isAction (candidate : CapabilityCandidate) : Bool := candidate.kindClaim = .action

def claimAdditions (candidate : CapabilityCandidate) (domainId : String) : List Addition :=
  (claimEvidence candidate).map fun claim =>
    ({ evidenceRef := claim.1
       domainId
       candidateId := candidate.id
       axis := claim.2
       securityRelevant := claim.2 ∈ securityClaimAxes ||
         (isAction candidate && claim.2 ∈ actionSecurityClaimAxes) }, none)

def operationAxis (candidate : CapabilityCandidate) : String :=
  if isAction candidate then "operation_safety" else "operation_contract"

def interactionAxis (candidate : CapabilityCandidate) : String :=
  if isAction candidate then "interaction_semantics" else "interaction_contract"

/-- Evidence with its digest is bound to a candidate. -/
def evidenceAddition (candidate : CapabilityCandidate) (domainId : String)
    (capabilityId : Option String) (axis : String) (evidence : Evidence) : Addition :=
  ({ evidenceRef := evidence.sourceId
     domainId
     candidateId := candidate.id
     capabilityId
     axis := axis
     securityRelevant := isAction candidate }, some evidence.digest)

def materializedAdditions : List Addition :=
  let candidates := byId CapabilityCandidate.id project.candidates
  (acceptedCapabilities project).flatMap fun entry => match candidates.get? entry.1 with
    | none => []
    | some candidate => match candidate.domainId with
      | none => []
      | some domainId => if !knownDomain project domainId then [] else
        (Text.sorted entry.2).flatMap fun capabilityId =>
          (match project.capabilities.get? capabilityId with
            | some capability => (capabilityOperationIds capability).flatMap fun operationId =>
              (operationEvidence project operationId).map
                (evidenceAddition candidate domainId capabilityId (operationAxis candidate))
            | none => []) ++
          ((project.interactionContracts.get? capabilityId).getD []).map
            (evidenceAddition candidate domainId capabilityId (interactionAxis candidate))

def interactionAdditions (candidate : CapabilityCandidate) (domainId : String) : List Addition :=
  candidate.interactionIds.flatMap fun interactionId =>
    match (byId UIInteraction.id project.interactions).get? interactionId with
    | none => []
    | some interaction =>
      interaction.embeddedEvidence.map
        (evidenceAddition candidate domainId none (interactionAxis candidate)) ++
      match (byId UISurface.id project.surfaces).get? interaction.surfaceId with
      | none => []
      | some surface => surface.evidenceSources.map fun evidenceRef =>
        ({ evidenceRef
           domainId
           candidateId := candidate.id
           axis := interactionAxis candidate
           securityRelevant := isAction candidate }, none)

/-- The operation of a route that is planned or composed for this candidate. -/
def routeOperation (candidate : CapabilityCandidate) (route : ScopeRoute) : Option String :=
  if (route.disposition = .planned ∨ route.disposition = .composed) ∧
      route.eligibility = .eligible ∧ route.kind ≠ .unknown ∧
      (route.candidateId = none ∨ route.candidateId = some candidate.id) then route.operationId
  else none

def routeAdditions (candidate : CapabilityCandidate) (domainId : String) : List Addition :=
  candidate.routeIds.flatMap fun routeId =>
    match (byId ScopeRoute.id project.scopeRoutes).get? routeId with
    | none => []
    | some route => match routeOperation candidate route with
      | none => []
      | some operationId => (operationEvidence project operationId).flatMap fun evidence =>
        if route.capabilityIds = [] then
          [evidenceAddition candidate domainId none (operationAxis candidate) evidence]
        else route.capabilityIds.map fun capabilityId =>
          evidenceAddition candidate domainId capabilityId (operationAxis candidate) evidence

/-- A snapshot of a decision gives its digest to the bindings of its evidence in the domain. -/
def addSnapshot (domainId : String) (bindings : Bindings) (snapshot : String × String) : Bindings :=
  if bindings.any fun entry => entry.1.evidenceRef = snapshot.1 ∧ entry.1.domainId = domainId then
    bindings.map fun entry =>
      if entry.1.evidenceRef = snapshot.1 ∧ entry.1.domainId = domainId then
        (entry.1, insert snapshot.2 entry.2)
      else entry
  else Bindings.add bindings { evidenceRef := snapshot.1, domainId } (some snapshot.2)

/-- The registry gives its digest to every binding of its evidence. -/
def addRegistry (bindings : Bindings) : Bindings :=
  let registry := byId Evidence.sourceId (project.evidenceRegistry.map Prod.snd)
  bindings.map fun entry => match registry.get? entry.1.evidenceRef with
    | some evidence => (entry.1, insert evidence.digest entry.2)
    | none => entry

def buildBindings : Bindings :=
  let additions := domainAdditions project ++ candidateAdditions project claimAdditions ++
    materializedAdditions project ++ candidateAdditions project (interactionAdditions project) ++
    candidateAdditions project (routeAdditions project)
  let bound := additions.foldl (fun (bindings : Bindings) addition => bindings.add addition.1 addition.2) []
  let snapshots := (activeDecisions project).foldl (fun bindings entry =>
    entry.2.evidenceSnapshot.foldl (addSnapshot entry.1) bindings) bound
  addRegistry project snapshots

/-! The domains of bindings. -/

/-- Every binding is of a domain of the map. -/
def Bindings.Known (bindings : Bindings) : Prop :=
  ∀ entry ∈ bindings, knownDomain project entry.1.domainId = true

variable {project}

theorem Bindings.Known.add {bindings : Bindings} (h : bindings.Known project) {key : BindingKey}
    (hkey : knownDomain project key.domainId = true) (digest : Option String) :
    (bindings.add key digest).Known project := by
  intro entry hentry
  rcases Table.mem_put hentry with hmem | hnew
  · exact h entry hmem
  · rw [hnew]
    exact hkey

theorem Bindings.Known.foldl_add {additions : List Addition} {bindings : Bindings}
    (h : bindings.Known project)
    (hadditions : ∀ addition ∈ additions, knownDomain project addition.1.domainId = true) :
    (additions.foldl (fun (bindings : Bindings) addition =>
      bindings.add addition.1 addition.2) bindings).Known project := by
  induction additions generalizing bindings with
  | nil => exact h
  | cons addition rest ih =>
    refine ih (h.add (hadditions addition List.mem_cons_self) addition.2) fun other hother => ?_
    exact hadditions other (List.mem_cons_of_mem _ hother)

theorem Bindings.Known.addSnapshot {bindings : Bindings} (h : bindings.Known project)
    {domainId : String} (hdomain : knownDomain project domainId = true)
    (snapshot : String × String) :
    Bindings.Known project (addSnapshot domainId bindings snapshot) := by
  unfold Domains.addSnapshot
  split
  · intro entry hentry
    obtain ⟨other, hother, rfl⟩ := List.mem_map.mp hentry
    split
    · exact h other hother
    · exact h other hother
  · exact h.add hdomain (some snapshot.2)

theorem Bindings.Known.addRegistry {bindings : Bindings} (h : bindings.Known project) :
    Bindings.Known project (addRegistry project bindings) := by
  intro entry hentry
  obtain ⟨other, hother, rfl⟩ := List.mem_map.mp hentry
  split
  · exact h other hother
  · exact h other hother

theorem knownDomain_of_mem {domain : DomainEntry} (h : domain ∈ project.domainMap.domains) :
    knownDomain project domain.id = true := by
  simp only [knownDomain, List.contains_iff_mem]
  exact List.mem_map_of_mem h

theorem known_candidateAdditions {bind : CapabilityCandidate → String → List Addition}
    (hbind : ∀ candidate domainId, ∀ addition ∈ bind candidate domainId,
      addition.1.domainId = domainId) {addition : Addition}
    (h : addition ∈ candidateAdditions project bind) :
    knownDomain project addition.1.domainId = true := by
  obtain ⟨candidate, -, hcandidate⟩ := List.mem_flatMap.mp h
  split at hcandidate
  · rename_i domainId _
    split at hcandidate
    · rename_i hknown
      rw [hbind candidate domainId addition hcandidate]
      exact hknown
    · exact absurd hcandidate List.not_mem_nil
  · exact absurd hcandidate List.not_mem_nil

theorem domainId_of_claimAdditions (candidate : CapabilityCandidate) (domainId : String) :
    ∀ addition ∈ claimAdditions candidate domainId, addition.1.domainId = domainId := by
  intro addition h
  obtain ⟨claim, -, rfl⟩ := List.mem_map.mp h
  rfl

theorem domainId_of_map_evidenceAddition {candidate : CapabilityCandidate} {domainId axis : String}
    {capabilityId : Option String} {evidence : List Evidence} :
    ∀ addition ∈ evidence.map (evidenceAddition candidate domainId capabilityId axis),
      addition.1.domainId = domainId := by
  intro addition h
  obtain ⟨one, -, rfl⟩ := List.mem_map.mp h
  rfl

theorem domainId_of_interactionAdditions (candidate : CapabilityCandidate) (domainId : String) :
    ∀ addition ∈ interactionAdditions project candidate domainId,
      addition.1.domainId = domainId := by
  intro addition h
  obtain ⟨interactionId, -, hinteraction⟩ := List.mem_flatMap.mp h
  split at hinteraction
  · exact absurd hinteraction List.not_mem_nil
  · rcases List.mem_append.mp hinteraction with hembedded | hsurface
    · exact domainId_of_map_evidenceAddition addition hembedded
    · split at hsurface
      · exact absurd hsurface List.not_mem_nil
      · obtain ⟨evidenceRef, -, rfl⟩ := List.mem_map.mp hsurface
        rfl

theorem domainId_of_routeAdditions (candidate : CapabilityCandidate) (domainId : String) :
    ∀ addition ∈ routeAdditions project candidate domainId, addition.1.domainId = domainId := by
  intro addition h
  obtain ⟨routeId, -, hroute⟩ := List.mem_flatMap.mp h
  split at hroute
  · exact absurd hroute List.not_mem_nil
  · split at hroute
    · exact absurd hroute List.not_mem_nil
    · obtain ⟨evidence, -, hevidence⟩ := List.mem_flatMap.mp hroute
      split at hevidence
      · rw [List.mem_singleton.mp hevidence]
        rfl
      · obtain ⟨capabilityId, -, rfl⟩ := List.mem_map.mp hevidence
        rfl

theorem known_materializedAdditions {addition : Addition}
    (h : addition ∈ materializedAdditions project) :
    knownDomain project addition.1.domainId = true := by
  obtain ⟨entry, -, hentry⟩ := List.mem_flatMap.mp h
  split at hentry
  · exact absurd hentry List.not_mem_nil
  · split at hentry
    · exact absurd hentry List.not_mem_nil
    · split at hentry
      · exact absurd hentry List.not_mem_nil
      · rename_i candidate _ domainId _ hknown
        have hdomain : addition.1.domainId = domainId := by
          obtain ⟨capabilityId, -, hcapability⟩ := List.mem_flatMap.mp hentry
          rcases List.mem_append.mp hcapability with hoperation | hcontract
          · split at hoperation
            · obtain ⟨operationId, -, hevidence⟩ := List.mem_flatMap.mp hoperation
              exact domainId_of_map_evidenceAddition addition hevidence
            · exact absurd hoperation List.not_mem_nil
          · exact domainId_of_map_evidenceAddition addition hcontract
        rw [hdomain]
        simpa using hknown

theorem known_buildBindings : (buildBindings project).Known project := by
  refine Bindings.Known.addRegistry ?_
  have hactive : ∀ entry ∈ activeDecisions project, knownDomain project entry.1 = true := by
    intro entry hentry
    obtain ⟨domain, hdomain, hdecision⟩ := List.mem_filterMap.mp hentry
    obtain ⟨decision, -, rfl⟩ := Option.map_eq_some_iff.mp hdecision
    exact knownDomain_of_mem hdomain
  refine List.foldlRecOn (motive := Bindings.Known project) _ _ ?_ fun bindings h entry hentry => ?_
  · refine Bindings.Known.foldl_add (by simp [Bindings.Known]) fun addition haddition => ?_
    simp only [List.mem_append] at haddition
    rcases haddition with (((hdomain | hclaim) | hmaterialized) | hinteraction) | hroute
    · obtain ⟨domain, hmem, hrefs⟩ := List.mem_flatMap.mp hdomain
      obtain ⟨evidenceRef, -, rfl⟩ := List.mem_map.mp hrefs
      exact knownDomain_of_mem hmem
    · exact known_candidateAdditions domainId_of_claimAdditions hclaim
    · exact known_materializedAdditions hmaterialized
    · exact known_candidateAdditions domainId_of_interactionAdditions hinteraction
    · exact known_candidateAdditions domainId_of_routeAdditions hroute
  · exact List.foldlRecOn (motive := Bindings.Known project) _ _ h fun bindings h snapshot _ =>
      h.addSnapshot (hactive entry hentry) snapshot

end Bindings
end CapabilityCompiler.Domains
