import CapabilityCompiler.Domains.ImpactMonotone
import CapabilityCompiler.Foundation.Elimination
import CapabilityCompiler.Foundation.JsonCanonical

/-! What the analysis reports of an accepted domain map, whose dependencies have no cycle. -/
namespace CapabilityCompiler.Domains
open Foundation Relation

/-! Acceptance: domains none of whose dependencies remains are removed until none remains. -/

def readyDomains (remaining : Table String (Finset String)) : List String :=
  ((remaining.filter fun entry =>
    decide (entry.2 ∩ (remaining.map Prod.fst).toFinset = ∅)).map Prod.fst).insertionSort (· ≤ ·)

/-- Whether every domain is removed in the end. -/
def eliminateDomains : ℕ → Table String (Finset String) → Option Bool
  | _, [] => some true
  | 0, _ :: _ => none
  | rounds + 1, entry :: rest =>
    let remaining := entry :: rest
    let ready := readyDomains remaining
    if ready = [] then some false
    else eliminateDomains rounds (remaining.filter (·.1 ∉ ready))

namespace DomainMap
variable (domainMap : DomainMap)

def dependencies : Table String (Finset String) :=
  domainMap.domains.map fun domain => (domain.id, domain.dependencyDomainIds.toFinset)

/-- The check of the dependency graph when a domain map is read. -/
def acceptsGraph : Bool :=
  decide (eliminateDomains domainMap.domains.length domainMap.dependencies = some true)

end DomainMap

section Acceptance
variable {domainMap : DomainMap} {remaining : Table String (Finset String)}

theorem dependsOn_iff_of_mem (hsub : remaining ⊆ domainMap.dependencies)
    {entry : String × Finset String} (hentry : entry ∈ remaining) {domainId : String} :
    DependsOn domainMap entry.1 domainId ↔ domainId ∈ entry.2 := by
  obtain ⟨domain, hdomain, rfl⟩ := List.mem_map.mp (hsub hentry)
  constructor
  · rintro ⟨other, hother, hsame, hdepends⟩
    obtain rfl := List.inj_on_of_nodup_map domainMap.unique hother hdomain hsame
    exact List.mem_toFinset.mpr hdepends
  · intro hdepends
    exact ⟨domain, hdomain, rfl, List.mem_toFinset.mp hdepends⟩

theorem mem_readyDomains (hsub : remaining ⊆ domainMap.dependencies) {domainId : String} :
    domainId ∈ readyDomains remaining ↔ domainId ∈ (remaining.map Prod.fst).toFinset ∧
      ∀ other ∈ (remaining.map Prod.fst).toFinset, ¬ DependsOn domainMap domainId other := by
  rw [readyDomains, List.mem_insertionSort, List.mem_map]
  constructor
  · rintro ⟨entry, hentry, rfl⟩
    obtain ⟨hmem, hfree⟩ := List.mem_filter.mp hentry
    refine ⟨List.mem_toFinset.mpr (List.mem_map_of_mem hmem), fun other hother hdepends => ?_⟩
    have hempty := of_decide_eq_true hfree
    have hboth := Finset.mem_inter.mpr ⟨(dependsOn_iff_of_mem hsub hmem).mp hdepends, hother⟩
    rw [hempty] at hboth
    exact Finset.notMem_empty _ hboth
  · rintro ⟨hmem, hfree⟩
    obtain ⟨entry, hentry, rfl⟩ := List.mem_map.mp (List.mem_toFinset.mp hmem)
    refine ⟨entry, List.mem_filter.mpr ⟨hentry, decide_eq_true ?_⟩, rfl⟩
    refine Finset.eq_empty_of_forall_notMem fun other hother => ?_
    obtain ⟨hdepends, hleft⟩ := Finset.mem_inter.mp hother
    exact hfree other hleft ((dependsOn_iff_of_mem hsub hentry).mpr hdepends)

theorem keys_filter_notMem (ready : List String) :
    ((remaining.filter (·.1 ∉ ready)).map Prod.fst).toFinset =
      (remaining.map Prod.fst).toFinset \ ready.toFinset := by
  ext domainId
  simp only [List.mem_toFinset, List.mem_map, List.mem_filter, decide_eq_true_eq,
    Finset.mem_sdiff]
  constructor
  · rintro ⟨entry, ⟨hmem, hnot⟩, rfl⟩
    exact ⟨⟨entry, hmem, rfl⟩, hnot⟩
  · rintro ⟨⟨entry, hmem, rfl⟩, hnot⟩
    exact ⟨entry, ⟨hmem, hnot⟩, rfl⟩

theorem eliminateDomains_succ (rounds : ℕ) (hsome : remaining ≠ []) :
    eliminateDomains (rounds + 1) remaining =
      if readyDomains remaining = [] then some false
      else eliminateDomains rounds (remaining.filter (·.1 ∉ readyDomains remaining)) := by
  cases remaining with
  | nil => exact absurd rfl hsome
  | cons entry rest => rfl

/-- Without a domain that is ready the remaining ones are stuck. -/
theorem stuck_of_readyDomains (hsub : remaining ⊆ domainMap.dependencies)
    (hready : readyDomains remaining = []) :
    Elimination.Stuck (DependsOn domainMap) (remaining.map Prod.fst).toFinset := by
  intro domainId hmem
  by_contra hfree
  push Not at hfree
  have hnow := (mem_readyDomains hsub).mpr ⟨hmem, hfree⟩
  rw [hready] at hnow
  exact absurd hnow List.not_mem_nil

theorem length_filter_lt (hsub : remaining ⊆ domainMap.dependencies)
    (hready : readyDomains remaining ≠ []) :
    (remaining.filter (·.1 ∉ readyDomains remaining)).length < remaining.length := by
  obtain ⟨domainId, hdomainId⟩ := List.exists_mem_of_ne_nil _ hready
  obtain ⟨entry, hentry, rfl⟩ := List.mem_map.mp
    (List.mem_toFinset.mp ((mem_readyDomains hsub).mp hdomainId).1)
  exact List.length_filter_lt_length_iff_exists.mpr ⟨entry, hentry, by simpa using hdomainId⟩

/-- The rounds end with a set of domains that is stuck, which is empty on acceptance. -/
theorem eliminateDomains_leaves (rounds : ℕ) (hsub : remaining ⊆ domainMap.dependencies)
    (hrounds : remaining.length ≤ rounds) :
    ∃ rest, Elimination.Leaves (DependsOn domainMap) (remaining.map Prod.fst).toFinset rest ∧
      Elimination.Stuck (DependsOn domainMap) rest ∧
      (eliminateDomains rounds remaining = some true ↔ ¬ rest.Nonempty) := by
  induction rounds generalizing remaining with
  | zero =>
    obtain rfl : remaining = [] := List.length_eq_zero_iff.mp (by omega)
    exact ⟨∅, .all ∅, fun a ha => absurd ha (Finset.notMem_empty a), by simp [eliminateDomains]⟩
  | succ rounds ih =>
    by_cases hsome : remaining = []
    · subst hsome
      exact ⟨∅, .all ∅, fun a ha => absurd ha (Finset.notMem_empty a), by simp [eliminateDomains]⟩
    rw [eliminateDomains_succ rounds hsome]
    by_cases hready : readyDomains remaining = []
    · refine ⟨_, .all _, stuck_of_readyDomains hsub hready, ?_⟩
      simp [hready, hsome]
    · have hshorter := length_filter_lt hsub hready
      obtain ⟨left, hleaves, hstuck, hiff⟩ :=
        ih (fun entry hentry => hsub (List.mem_filter.mp hentry).1)
          (show (remaining.filter (·.1 ∉ readyDomains remaining)).length ≤ rounds by omega)
      rw [keys_filter_notMem] at hleaves
      rw [if_neg hready]
      refine ⟨left, .remove _ (fun domainId hmem => ?_) hleaves, hstuck, hiff⟩
      exact ((mem_readyDomains hsub).mp (List.mem_toFinset.mp hmem)).2

/-- The graph is accepted exactly if no domain depends, through any number of domains, on itself. -/
theorem acceptsGraph_iff : domainMap.acceptsGraph = true ↔
    ¬ ∃ domainId, TransGen (DependsOn domainMap) domainId domainId := by
  obtain ⟨rest, hleaves, hstuck, hiff⟩ := eliminateDomains_leaves domainMap.domains.length
    (List.Subset.refl domainMap.dependencies) (by simp [DomainMap.dependencies])
  have hclosed : ∀ a b, DependsOn domainMap a b →
      b ∈ (domainMap.dependencies.map Prod.fst).toFinset := by
    intro a b hdepends
    have hkeys : domainMap.dependencies.map Prod.fst = domainMap.domains.map (·.id) := by
      simp [DomainMap.dependencies]
    rw [hkeys]
    exact hdepends.mem
  rw [DomainMap.acceptsGraph, decide_eq_true_eq, hiff, hleaves.nonempty_iff hclosed hstuck]

end Acceptance

/-! The reports. -/

/-- Direct impacts of known domains, which nothing has been passed on to. -/
structure DirectImpacts (domainMap : DomainMap) where
  impacts : Impacts
  unique : impacts.Unique
  known : ∀ domainId impact, impacts.get? domainId = some impact →
    domainId ∈ domainMap.ids ∧ impact.upstreamDomainIds = ∅

def directEvidence (start : Impacts) (domainId : String) : Finset String :=
  (start.get? domainId).elim ∅ (·.evidenceRefs)

def directAxes (start : Impacts) (domainId : String) : Finset String :=
  (start.get? domainId).elim ∅ (·.securityAxes)

/-- The reports are what the direct impacts and the dependencies alone determine. -/
structure ReportsExactly (domainMap : DomainMap) (start : Impacts)
    (reports : List DomainEvidenceImpact) : Prop where
  unique : (reports.map (·.domainId)).Nodup
  affected : ∀ domainId, domainId ∈ reports.map (·.domainId) ↔
    ∃ source, (start.get? source).isSome = true ∧
      ReflTransGen (DependsOn domainMap) domainId source
  upstream : ∀ report ∈ reports, ∀ u, u ∈ report.impact.upstreamDomainIds ↔
    u ≠ report.domainId ∧ u ∈ reports.map (·.domainId) ∧
      ReflTransGen (DependsOn domainMap) report.domainId u
  evidence : ∀ report ∈ reports, report.impact.evidenceRefs =
    directEvidence start report.domainId ∪
      report.impact.upstreamDomainIds.biUnion (directEvidence start)
  axes : ∀ report ∈ reports, report.impact.securityAxes =
    directAxes start report.domainId ∪
      report.impact.upstreamDomainIds.biUnion fun u => (directAxes start u).image dependencyAxis

section Reports
variable {domainMap : DomainMap} {capabilities : Table String (Finset String)}
  {start result : Impacts}

theorem mem_directEvidence {domainId evidenceRef : String} :
    evidenceRef ∈ directEvidence start domainId ↔
      ∃ impact, start.get? domainId = some impact ∧ evidenceRef ∈ impact.evidenceRefs := by
  unfold directEvidence
  cases start.get? domainId with
  | none => simp
  | some impact => simp

theorem mem_directAxes {domainId axis : String} :
    axis ∈ directAxes start domainId ↔
      ∃ impact, start.get? domainId = some impact ∧ axis ∈ impact.securityAxes := by
  unfold directAxes
  cases start.get? domainId with
  | none => simp
  | some impact => simp

theorem map_domainId_reportImpacts (impacts : Impacts) :
    (reportImpacts impacts).map (·.domainId) = (Printer.sortKeys impacts).map Prod.fst := by
  simp [reportImpacts]

theorem mem_map_reportImpacts (hunique : result.Unique) {domainId : String} :
    domainId ∈ (reportImpacts result).map (·.domainId) ↔ (result.get? domainId).isSome = true := by
  rw [Option.isSome_iff_exists, List.mem_map]
  constructor
  · rintro ⟨report, hreport, rfl⟩
    obtain ⟨impact, hfound, -⟩ := (mem_reportImpacts hunique).mp hreport
    exact ⟨impact, hfound⟩
  · rintro ⟨impact, hfound⟩
    exact ⟨⟨domainId, { impact with upstreamDomainIds := impact.upstreamDomainIds.erase domainId }⟩,
      (mem_reportImpacts hunique).mpr ⟨impact, hfound, rfl⟩, rfl⟩

/-- An affected domain other than the dependent one is upstream of it. -/
theorem IsClosure.reaches_iff (hclosure : IsClosure domainMap capabilities start result)
    {domainId u : String} {impact : DomainImpact} (hfound : result.get? domainId = some impact) :
    u ∈ impact.upstreamDomainIds.erase domainId ↔
      u ≠ domainId ∧ Affected domainMap start u ∧ ReflTransGen (DependsOn domainMap) domainId u := by
  rw [Finset.mem_erase, hclosure.upstream domainId impact hfound]
  constructor
  · rintro ⟨hne, hreaches, haffected⟩
    exact ⟨hne, haffected, hreaches.to_reflTransGen⟩
  · rintro ⟨hne, haffected, hreaches⟩
    rcases reflTransGen_iff_eq_or_transGen.mp hreaches with hsame | htrans
    · exact absurd hsame hne
    · exact ⟨hne, htrans, haffected⟩

/-- The source of something that is passed on is upstream. -/
theorem IsClosure.source_mem (hclosure : IsClosure domainMap capabilities start result)
    {domainId source : String} {impact direct : DomainImpact}
    (hfound : result.get? domainId = some impact) (hne : source ≠ domainId)
    (hreaches : ReflTransGen (DependsOn domainMap) domainId source)
    (hdirect : start.get? source = some direct) :
    source ∈ impact.upstreamDomainIds.erase domainId :=
  (hclosure.reaches_iff hfound).mpr
    ⟨hne, ⟨source, .refl, by rw [hdirect, Option.isSome_some]⟩, hreaches⟩

/-- Without cycles, what the closure holds of a domain is the domain's own and its upstream's. -/
theorem IsClosure.reportsExactly (hclosure : IsClosure domainMap capabilities start result)
    (hacyclic : ¬ ∃ domainId, TransGen (DependsOn domainMap) domainId domainId) :
    ReportsExactly domainMap start (reportImpacts result) where
  unique := by
    rw [map_domainId_reportImpacts]
    exact ((List.perm_insertionSort _ _).map Prod.fst).nodup_iff.mpr hclosure.unique
  affected := by
    intro domainId
    rw [mem_map_reportImpacts hclosure.unique, hclosure.affected]
    constructor
    · rintro ⟨source, hreaches, hdirect⟩
      exact ⟨source, hdirect, hreaches⟩
    · rintro ⟨source, hdirect, hreaches⟩
      exact ⟨source, hreaches, hdirect⟩
  upstream := by
    intro report hreport u
    obtain ⟨impact, hfound, himpact⟩ := (mem_reportImpacts hclosure.unique).mp hreport
    rw [mem_map_reportImpacts hclosure.unique, hclosure.affected, himpact]
    exact hclosure.reaches_iff hfound
  evidence := by
    intro report hreport
    obtain ⟨impact, hfound, himpact⟩ := (mem_reportImpacts hclosure.unique).mp hreport
    ext evidenceRef
    rw [himpact, hclosure.evidence _ impact hfound, Finset.mem_union, mem_directEvidence,
      Finset.mem_biUnion]
    constructor
    · rintro ⟨source, direct, hreaches, hdirect, hmem⟩
      by_cases hsame : source = report.domainId
      · subst hsame
        exact .inl ⟨direct, hdirect, hmem⟩
      · exact .inr ⟨source, hclosure.source_mem hfound hsame hreaches hdirect,
          mem_directEvidence.mpr ⟨direct, hdirect, hmem⟩⟩
    · rintro (⟨direct, hdirect, hmem⟩ | ⟨u, hu, hmem⟩)
      · exact ⟨report.domainId, direct, .refl, hdirect, hmem⟩
      · obtain ⟨direct, hdirect, hmem⟩ := mem_directEvidence.mp hmem
        exact ⟨u, direct, ((hclosure.reaches_iff hfound).mp hu).2.2, hdirect, hmem⟩
  axes := by
    intro report hreport
    obtain ⟨impact, hfound, himpact⟩ := (mem_reportImpacts hclosure.unique).mp hreport
    ext axis
    rw [himpact, hclosure.axes _ impact hfound, Finset.mem_union, mem_directAxes,
      Finset.mem_biUnion]
    constructor
    · rintro (hown | ⟨source, direct, passed, hreaches, hdirect, hpassed, rfl⟩)
      · exact .inl hown
      · have hne : source ≠ report.domainId := by
          rintro rfl
          exact hacyclic ⟨report.domainId, hreaches⟩
        exact .inr ⟨source, hclosure.source_mem hfound hne hreaches.to_reflTransGen hdirect,
          Finset.mem_image_of_mem _ (mem_directAxes.mpr ⟨direct, hdirect, hpassed⟩)⟩
    · rintro (hown | ⟨u, hu, hmem⟩)
      · exact .inl hown
      · obtain ⟨passed, hpassed, rfl⟩ := Finset.mem_image.mp hmem
        obtain ⟨direct, hdirect, hpassed⟩ := mem_directAxes.mp hpassed
        have hreaches := (hclosure.upstream _ impact hfound u).mp (Finset.mem_of_mem_erase hu)
        exact .inr ⟨u, direct, passed, hreaches.1, hdirect, hpassed, rfl⟩

/-- A closure is determined by the direct impacts and the dependencies. -/
theorem IsClosure.get?_eq {other : Impacts} (hclosure : IsClosure domainMap capabilities start result)
    (hother : IsClosure domainMap capabilities start other) (domainId : String) :
    result.get? domainId = other.get? domainId := by
  have hboth : (result.get? domainId).isSome = true ↔ (other.get? domainId).isSome = true :=
    (hclosure.affected domainId).trans (hother.affected domainId).symm
  cases hfound : result.get? domainId with
  | none =>
    rw [hfound] at hboth
    exact (Option.isNone_iff_eq_none.mp (by simpa using hboth)).symm
  | some impact =>
    rw [hfound] at hboth
    obtain ⟨found, hfoundOther⟩ := Option.isSome_iff_exists.mp (hboth.mp rfl)
    rw [hfoundOther, Option.some.injEq]
    obtain ⟨direct, upstream, evidence, candidates, capabilityIds, axes⟩ := impact
    obtain ⟨direct', upstream', evidence', candidates', capabilityIds', axes'⟩ := found
    congr 1
    · exact (hclosure.direct _ _ hfound).trans (hother.direct _ _ hfoundOther).symm
    · ext u
      exact (hclosure.upstream _ _ hfound u).trans (hother.upstream _ _ hfoundOther u).symm
    · ext evidenceRef
      exact (hclosure.evidence _ _ hfound _).trans (hother.evidence _ _ hfoundOther _).symm
    · exact (hclosure.candidateIds _ _ hfound).trans (hother.candidateIds _ _ hfoundOther).symm
    · exact (hclosure.capabilityIds _ _ hfound).trans (hother.capabilityIds _ _ hfoundOther).symm
    · ext axis
      exact (hclosure.axes _ _ hfound axis).trans (hother.axes _ _ hfoundOther axis).symm

theorem IsClosure.reportImpacts_eq {other : Impacts}
    (hclosure : IsClosure domainMap capabilities start result)
    (hother : IsClosure domainMap capabilities start other) :
    reportImpacts result = reportImpacts other := by
  have hsorted := Printer.sortKeys_eq_of_get? hclosure.unique hother.unique
    (hclosure.get?_eq hother)
  rw [reportImpacts, reportImpacts, hsorted]

end Reports

/-- For an accepted domain map the propagation ends, the reports are exact, and they are the same
in whatever order dependents and queue are listed. -/
theorem propagation_exact {domainMap : DomainMap} (haccepted : domainMap.acceptsGraph = true)
    (capabilities : Table String (Finset String)) (direct : DirectImpacts domainMap) :
    ∃ result, propagateDependencies domainMap capabilities direct.impacts = some result ∧
      ReportsExactly domainMap direct.impacts (reportImpacts result) ∧
      ∀ (listed : String → List String) (queue : List String),
        (∀ k t, t ∈ listed k ↔ t ∈ dependents domainMap k) →
        (∀ k, k ∈ queue ↔ k ∈ direct.impacts.map Prod.fst) →
        ∃ other, Worklist.run listed (passOn domainMap capabilities)
            (queue.length + growthBound domainMap direct.impacts) queue direct.impacts =
              some other ∧ reportImpacts other = reportImpacts result := by
  obtain ⟨result, hresult, hclosure⟩ :=
    @propagateDependencies_closure domainMap capabilities _ direct.unique direct.known
  refine ⟨result, hresult, hclosure.reportsExactly (acceptsGraph_iff.mp haccepted), ?_⟩
  intro listed queue hlisted hqueue
  obtain ⟨other, hother, hagrees⟩ := run_closure hlisted hqueue direct.unique direct.known
  exact ⟨other, hother, hagrees.reportImpacts_eq hclosure⟩

/-- The direct impacts of changed evidence. -/
def directImpactsOf (project : Project) (changes : ChangeSet) :
    DirectImpacts project.domainMap where
  impacts := directOf project changes
  unique := unique_directOf
  known _ _ h := known_directOf h

/-- The analysis reports what the propagation of the direct impacts ends with. -/
theorem analysis_reportsExactly {project : Project} {changes : ChangeSet}
    (hgraph : project.domainMap.acceptsGraph = true) (haccepted : changes.Accepted) :
    ∃ analysis, analyzeDomainImpact project changes = some analysis ∧
      ReportsExactly project.domainMap (directOf project changes) analysis.domains := by
  obtain ⟨analysis, result, hanalysis, hdomains, hclosure⟩ := @analyze_of_accepted project _ haccepted
  refine ⟨analysis, hanalysis, ?_⟩
  rw [hdomains]
  exact hclosure.reportsExactly (acceptsGraph_iff.mp hgraph)

/-! A domain that depends on an affected one through another domain. -/

private def shippingMap : DomainMap where
  domains :=
    [{ id := "identity", candidateIds := [], dependencyDomainIds := [], evidenceRefs := [],
       activeDecisionRef := none },
     { id := "orders", candidateIds := [], dependencyDomainIds := ["identity"], evidenceRefs := [],
       activeDecisionRef := none },
     { id := "shipping", candidateIds := [], dependencyDomainIds := ["orders"], evidenceRefs := [],
       activeDecisionRef := none }]
  unique := by decide
  known := by decide
  irreflexive := by decide

private def identityImpact : DirectImpacts shippingMap where
  impacts := [("identity", ⟨true, ∅, {"identity-api"}, ∅, ∅, {"authorization"}⟩)]
  unique := List.nodup_singleton _
  known := by
    intro domainId impact h
    rw [Table.get?_cons] at h
    split at h
    · rename_i hid
      subst hid
      rw [← Option.some.inj h]
      decide
    · cases h

theorem propagation_exact_shipping :
    ∃ result, propagateDependencies shippingMap [] identityImpact.impacts = some result ∧
      ReportsExactly shippingMap identityImpact.impacts (reportImpacts result) := by
  obtain ⟨result, hresult, hreports, -⟩ :=
    propagation_exact (show shippingMap.acceptsGraph = true by decide) [] identityImpact
  exact ⟨result, hresult, hreports⟩

end CapabilityCompiler.Domains
