import CapabilityCompiler.Domains.ImpactClosure

/-! More changes and what has to be reviewed for them. -/
namespace CapabilityCompiler.Domains
open Foundation Relation

/-! Items by their identifiers. -/

section ById
variable {α : Type} {id : α → String} {items : List α} {table : Table String α} {key : String}

theorem get?_foldl_put_of_not_mem (h : key ∉ items.map id) :
    (items.foldl (fun table item => table.put (id item) item) table).get? key = table.get? key := by
  induction items generalizing table with
  | nil => rfl
  | cons item rest ih =>
    rw [List.map_cons, List.mem_cons, not_or] at h
    rw [List.foldl_cons, ih h.2, Table.get?_put_of_ne h.1]

theorem mem_of_get?_foldl_put {item : α}
    (h : (items.foldl (fun table item => table.put (id item) item) table).get? key = some item) :
    (item ∈ items ∧ id item = key) ∨ table.get? key = some item := by
  induction items generalizing table with
  | nil => exact .inr h
  | cons first rest ih =>
    rcases ih h with ⟨hmem, hid⟩ | hbefore
    · exact .inl ⟨List.mem_cons_of_mem _ hmem, hid⟩
    · rw [Table.get?_put] at hbefore
      split at hbefore
      · rename_i hkey
        obtain rfl := Option.some.inj hbefore
        exact .inl ⟨List.mem_cons_self, hkey.symm⟩
      · exact .inr hbefore

theorem mem_of_get?_byId {item : α} (h : (byId id items).get? key = some item) :
    item ∈ items ∧ id item = key :=
  (mem_of_get?_foldl_put h).resolve_right (by simp)

theorem get?_byId_of_mem (hunique : (items.map id).Nodup) {item : α} (h : item ∈ items) :
    (byId id items).get? (id item) = some item := by
  have hfold : ∀ table : Table String α,
      (items.foldl (fun table item => table.put (id item) item) table).get? (id item) =
        some item := by
    induction items with
    | nil => exact absurd h List.not_mem_nil
    | cons first rest ih =>
      intro table
      obtain ⟨hfresh, hrest⟩ := List.nodup_cons.mp hunique
      rcases List.mem_cons.mp h with rfl | hmem
      · rw [List.foldl_cons, get?_foldl_put_of_not_mem hfresh, Table.get?_put_self]
      · exact ih hrest hmem _
  exact hfold []

end ById

/-! Direct impacts. -/

/-- The binding is one of this domain, and the changes match it. -/
def MatchedFor (project : Project) (changes : ChangeSet) (domainId : String) (binding : Binding) :
    Prop :=
  binding ∈ buildBindings project ∧ isMatched changes binding = true ∧
    binding.1.domainId = domainId

section Direct
variable {project : Project} {changes : ChangeSet} {domainId : String}

def bindFound (domainMap : DomainMap) (found : Option DomainImpact) (binding : Binding) :
    Option DomainImpact :=
  some ((found.getD noImpact).bind domainMap binding.1)

/-- The impact of a domain comes from the matched bindings of this domain. -/
theorem get?_foldl_bindImpact (domainMap : DomainMap) (bindings : List Binding) (impacts : Impacts) :
    (bindings.foldl (bindImpact domainMap changes) impacts).get? domainId =
      (bindings.filter fun binding => isMatched changes binding ∧
        binding.1.domainId = domainId).foldl (bindFound domainMap) (impacts.get? domainId) := by
  induction bindings generalizing impacts with
  | nil => rfl
  | cons binding rest ih =>
    rw [List.foldl_cons, ih, bindImpact]
    by_cases hmatched : isMatched changes binding = true
    · by_cases hdomain : binding.1.domainId = domainId
      · subst hdomain
        rw [if_pos hmatched, Table.get?_put_self, List.filter_cons_of_pos (by simp [hmatched]),
          List.foldl_cons, bindFound]
      · rw [if_pos hmatched, Table.get?_put_of_ne (Ne.symm hdomain),
          List.filter_cons_of_neg (by simp [hdomain])]
    · rw [if_neg hmatched, List.filter_cons_of_neg (by simp [hmatched])]

/-- What the matched bindings of a domain give it. -/
structure Bound (domainMap : DomainMap) (bindings : List Binding) (before after : DomainImpact) :
    Prop where
  direct : after.direct = before.direct
  upstream : after.upstreamDomainIds = before.upstreamDomainIds
  evidence : ∀ x, x ∈ after.evidenceRefs ↔
    x ∈ before.evidenceRefs ∨ ∃ binding ∈ bindings, binding.1.evidenceRef = x
  candidates : ∀ x, x ∈ after.candidateIds ↔
    x ∈ before.candidateIds ∨ ∃ binding ∈ bindings, x ∈ boundCandidateIds domainMap binding.1
  capabilities : ∀ x, x ∈ after.capabilityIds ↔
    x ∈ before.capabilityIds ∨ ∃ binding ∈ bindings, binding.1.capabilityId = some x
  axes : ∀ x, x ∈ after.securityAxes ↔
    x ∈ before.securityAxes ∨ ∃ binding ∈ bindings, x ∈ boundAxes binding.1

theorem Bound.cons {domainMap : DomainMap} {binding : Binding} {bindings : List Binding}
    {before after : DomainImpact} (h : Bound domainMap bindings (before.bind domainMap binding.1) after) :
    Bound domainMap (binding :: bindings) before after where
  direct := h.direct
  upstream := h.upstream
  evidence := by
    intro x
    rw [h.evidence, List.exists_mem_cons_iff]
    simp only [DomainImpact.bind, Finset.mem_insert]
    tauto
  candidates := by
    intro x
    rw [h.candidates, List.exists_mem_cons_iff]
    simp only [DomainImpact.bind, Finset.mem_union]
    tauto
  capabilities := by
    intro x
    rw [h.capabilities, List.exists_mem_cons_iff]
    simp only [DomainImpact.bind, Finset.mem_union, List.mem_toFinset, Option.mem_toList]
    tauto
  axes := by
    intro x
    rw [h.axes, List.exists_mem_cons_iff]
    simp only [DomainImpact.bind, Finset.mem_union]
    tauto

theorem bound_of_foldl {domainMap : DomainMap} {bindings : List Binding}
    {found : Option DomainImpact} {after : DomainImpact}
    (h : bindings.foldl (bindFound domainMap) found = some after) :
    Bound domainMap bindings (found.getD noImpact) after := by
  induction bindings generalizing found with
  | nil =>
    obtain rfl : found = some after := h
    exact ⟨rfl, rfl, by simp, by simp, by simp, by simp⟩
  | cons binding rest ih => exact (@ih (bindFound domainMap found binding) h).cons

theorem isSome_foldl {domainMap : DomainMap} (bindings : List Binding)
    (found : Option DomainImpact) :
    (bindings.foldl (bindFound domainMap) found).isSome = true ↔
      found.isSome = true ∨ bindings ≠ [] := by
  induction bindings generalizing found with
  | nil => simp
  | cons binding rest ih =>
    rw [List.foldl_cons, ih]
    simp [bindFound]

theorem mem_matchedBindings {binding : Binding} :
    binding ∈ (buildBindings project).filter (fun binding => isMatched changes binding ∧
        binding.1.domainId = domainId) ↔ MatchedFor project changes domainId binding := by
  simp [MatchedFor, List.mem_filter]

theorem get?_directOf :
    (directOf project changes).get? domainId =
      (((buildBindings project).filter fun binding => isMatched changes binding ∧
        binding.1.domainId = domainId).foldl (bindFound project.domainMap) none).map fun impact =>
          { impact with
            capabilityIds := impact.capabilityIds ∪
              capabilitiesOf (acceptedCapabilities project) impact.candidateIds } := by
  rw [directOf, directImpacts, Table.get?_mapValues, get?_foldl_bindImpact, Table.get?_nil]

theorem isSome_directOf :
    ((directOf project changes).get? domainId).isSome = true ↔
      ∃ binding, MatchedFor project changes domainId binding := by
  rw [get?_directOf, Option.isSome_map, isSome_foldl]
  simp only [Option.isSome_none, Bool.false_eq_true, false_or, ← mem_matchedBindings]
  exact ⟨List.exists_mem_of_ne_nil _, fun ⟨_, hmem⟩ => List.ne_nil_of_mem hmem⟩

/-- The direct impact on a domain in terms of its matched bindings. -/
structure IsDirect (project : Project) (changes : ChangeSet) (domainId : String)
    (impact : DomainImpact) : Prop where
  upstream : impact.upstreamDomainIds = ∅
  evidence : ∀ x, x ∈ impact.evidenceRefs ↔
    ∃ binding, MatchedFor project changes domainId binding ∧ binding.1.evidenceRef = x
  candidates : ∀ x, x ∈ impact.candidateIds ↔
    ∃ binding, MatchedFor project changes domainId binding ∧
      x ∈ boundCandidateIds project.domainMap binding.1
  capabilities : ∀ x, x ∈ impact.capabilityIds ↔
    (∃ binding, MatchedFor project changes domainId binding ∧ binding.1.capabilityId = some x) ∨
      x ∈ capabilitiesOf (acceptedCapabilities project) impact.candidateIds
  axes : ∀ x, x ∈ impact.securityAxes ↔
    ∃ binding, MatchedFor project changes domainId binding ∧ x ∈ boundAxes binding.1

theorem isDirect_of_get? {impact : DomainImpact}
    (h : (directOf project changes).get? domainId = some impact) :
    IsDirect project changes domainId impact := by
  rw [get?_directOf] at h
  obtain ⟨bound, hbound, rfl⟩ := Option.map_eq_some_iff.mp h
  have hspec := bound_of_foldl hbound
  constructor
  · rw [hspec.upstream]
    rfl
  · intro x
    simp only [hspec.evidence, mem_matchedBindings, Option.getD_none, noImpact, Finset.notMem_empty,
      false_or]
  · intro x
    simp only [hspec.candidates, mem_matchedBindings, Option.getD_none, noImpact,
      Finset.notMem_empty, false_or]
  · intro x
    simp only [Finset.mem_union, hspec.capabilities, mem_matchedBindings, Option.getD_none, noImpact,
      Finset.notMem_empty, false_or]
  · intro x
    simp only [hspec.axes, mem_matchedBindings, Option.getD_none, noImpact, Finset.notMem_empty,
      false_or]

theorem unique_directOf : (directOf project changes).Unique := by
  have hbound : Table.Unique
      ((buildBindings project).foldl (bindImpact project.domainMap changes) []) := by
    refine List.foldlRecOn (motive := Table.Unique) _ _ List.nodup_nil fun impacts h binding _ => ?_
    unfold bindImpact
    split
    · exact h.put _ _
    · exact h
  unfold directOf directImpacts
  exact hbound.mapValues _

theorem known_directOf {impact : DomainImpact}
    (h : (directOf project changes).get? domainId = some impact) :
    domainId ∈ project.domainMap.ids ∧ impact.upstreamDomainIds = ∅ := by
  refine ⟨?_, (isDirect_of_get? h).upstream⟩
  obtain ⟨binding, hmem, -, rfl⟩ := isSome_directOf.mp (by rw [h, Option.isSome_some])
  have hknown := known_buildBindings binding hmem
  simpa [knownDomain, DomainMap.ids] using hknown

end Direct

/-! More changes. -/

section Within
variable {project : Project} {first second : ChangeSet} {domainId : String}

/-- What matches some changes matches more changes. -/
theorem MatchedFor.within (hwithin : first.Within second) (hsecond : second.Accepted)
    {binding : Binding} (h : MatchedFor project first domainId binding) :
    MatchedFor project second domainId binding := by
  refine ⟨h.1, ?_, h.2.2⟩
  have hmatched := h.2.1
  simp only [isMatched, idMatch, Bool.or_eq_true, decide_eq_true_eq, Option.any_eq_true,
    ne_eq, ← Finset.nonempty_iff_ne_empty] at hmatched ⊢
  rcases hmatched with (hid | ⟨delta, hdelta, hdigest⟩) | ⟨digest, hdigest⟩
  · exact .inl (.inl (hwithin.ids hid))
  · obtain ⟨hmem, href⟩ := mem_of_get?_byId hdelta
    refine .inl (.inr ⟨delta, ?_, hdigest⟩)
    rw [← href]
    exact get?_byId_of_mem hsecond (hwithin.evidence hmem)
  · obtain ⟨hbound, hchanged⟩ := Finset.mem_inter.mp hdigest
    exact .inr ⟨digest, Finset.mem_inter.mpr ⟨hbound, hwithin.digests hchanged⟩⟩

/-- The first impact is contained in the second. -/
structure DomainImpact.Within (impact other : DomainImpact) : Prop where
  upstream : impact.upstreamDomainIds ⊆ other.upstreamDomainIds
  evidence : impact.evidenceRefs ⊆ other.evidenceRefs
  candidates : impact.candidateIds ⊆ other.candidateIds
  capabilities : impact.capabilityIds ⊆ other.capabilityIds
  axes : impact.securityAxes ⊆ other.securityAxes

instance (impact other : DomainImpact) : Decidable (impact.Within other) :=
  decidable_of_iff (impact.upstreamDomainIds ⊆ other.upstreamDomainIds ∧
      impact.evidenceRefs ⊆ other.evidenceRefs ∧ impact.candidateIds ⊆ other.candidateIds ∧
      impact.capabilityIds ⊆ other.capabilityIds ∧ impact.securityAxes ⊆ other.securityAxes)
    ⟨fun h => ⟨h.1, h.2.1, h.2.2.1, h.2.2.2.1, h.2.2.2.2⟩,
      fun h => ⟨h.upstream, h.evidence, h.candidates, h.capabilities, h.axes⟩⟩

theorem capabilitiesOf_mono (capabilities : Table String (Finset String)) {some more : Finset String}
    (h : some ⊆ more) : capabilitiesOf capabilities some ⊆ capabilitiesOf capabilities more :=
  Finset.biUnion_subset_biUnion_of_subset_left _ h

theorem IsDirect.within (hmono : ∀ binding, MatchedFor project first domainId binding →
      MatchedFor project second domainId binding) {impact other : DomainImpact}
    (h : IsDirect project first domainId impact) (hother : IsDirect project second domainId other) :
    impact.Within other := by
  have hcandidates : impact.candidateIds ⊆ other.candidateIds := by
    intro x hx
    obtain ⟨binding, hbinding, hbound⟩ := (h.candidates x).mp hx
    exact (hother.candidates x).mpr ⟨binding, hmono binding hbinding, hbound⟩
  refine ⟨?_, ?_, hcandidates, ?_, ?_⟩
  · rw [h.upstream]
    exact Finset.empty_subset _
  · intro x hx
    obtain ⟨binding, hbinding, href⟩ := (h.evidence x).mp hx
    exact (hother.evidence x).mpr ⟨binding, hmono binding hbinding, href⟩
  · intro x hx
    rcases (h.capabilities x).mp hx with ⟨binding, hbinding, hcapability⟩ | hmem
    · exact (hother.capabilities x).mpr (.inl ⟨binding, hmono binding hbinding, hcapability⟩)
    · exact (hother.capabilities x).mpr (.inr (capabilitiesOf_mono _ hcandidates hmem))
  · intro x hx
    obtain ⟨binding, hbinding, haxis⟩ := (h.axes x).mp hx
    exact (hother.axes x).mpr ⟨binding, hmono binding hbinding, haxis⟩

/-- Every direct impact is contained in one of more changes. -/
theorem directOf_within (hwithin : first.Within second) (hsecond : second.Accepted)
    {impact : DomainImpact} (h : (directOf project first).get? domainId = some impact) :
    ∃ other, (directOf project second).get? domainId = some other ∧ impact.Within other := by
  obtain ⟨binding, hbinding⟩ := isSome_directOf.mp (by rw [h, Option.isSome_some])
  obtain ⟨other, hother⟩ := Option.isSome_iff_exists.mp
    (isSome_directOf.mpr ⟨binding, hbinding.within hwithin hsecond⟩)
  exact ⟨other, hother, (isDirect_of_get? h).within
    (fun _ hmatched => hmatched.within hwithin hsecond) (isDirect_of_get? hother)⟩

theorem Affected.within (hwithin : first.Within second) (hsecond : second.Accepted)
    (h : Affected project.domainMap (directOf project first) domainId) :
    Affected project.domainMap (directOf project second) domainId := by
  obtain ⟨source, hreaches, hdirect⟩ := h
  obtain ⟨impact, hfound⟩ := Option.isSome_iff_exists.mp hdirect
  obtain ⟨other, hother, -⟩ := directOf_within hwithin hsecond hfound
  exact ⟨source, hreaches, by rw [hother, Option.isSome_some]⟩

theorem Received.within {x : String} (hwithin : first.Within second) (hsecond : second.Accepted)
    (h : Received project.domainMap (directOf project first) domainId x) :
    Received project.domainMap (directOf project second) domainId x := by
  obtain ⟨source, impact, hreaches, hfound, hmem⟩ := h
  obtain ⟨other, hother, hcontained⟩ := directOf_within hwithin hsecond hfound
  exact ⟨source, other, hreaches, hother, hcontained.evidence hmem⟩

theorem Secured.within {x : String} (hwithin : first.Within second) (hsecond : second.Accepted)
    (h : Secured project.domainMap (directOf project first) domainId x) :
    Secured project.domainMap (directOf project second) domainId x := by
  rcases h with ⟨impact, hfound, hmem⟩ | ⟨source, impact, passed, hreaches, hfound, hmem, rfl⟩
  · obtain ⟨other, hother, hcontained⟩ := directOf_within hwithin hsecond hfound
    exact .inl ⟨other, hother, hcontained.axes hmem⟩
  · obtain ⟨other, hother, hcontained⟩ := directOf_within hwithin hsecond hfound
    exact .inr ⟨source, other, passed, hreaches, hother, hcontained.axes hmem, rfl⟩

end Within

/-! The analysis. -/

/-- What has to be reviewed for the first analysis has to be reviewed for the second. -/
def DomainImpactAnalysis.Within (analysis other : DomainImpactAnalysis) : Prop :=
  ∀ entry ∈ analysis.domains, ∃ more ∈ other.domains,
    more.domainId = entry.domainId ∧ entry.impact.Within more.impact

instance (analysis other : DomainImpactAnalysis) : Decidable (analysis.Within other) :=
  inferInstanceAs (Decidable (∀ entry ∈ analysis.domains, ∃ more ∈ other.domains, _))

/-- A domain that was only reached and is now matched directly is matched with all its
candidates. -/
def KeepsCandidates (project : Project) (first second : ChangeSet) : Prop :=
  ∀ domain ∈ project.domainMap.domains,
    (∃ source binding, TransGen (DependsOn project.domainMap) domain.id source ∧
      MatchedFor project first source binding) →
    (¬ ∃ binding, MatchedFor project first domain.id binding) →
    (∃ binding, MatchedFor project second domain.id binding) →
    ∀ candidateId ∈ domain.candidateIds, ∃ binding, MatchedFor project second domain.id binding ∧
      (binding.1.candidateId = none ∨ binding.1.candidateId = some candidateId)

section Analysis
variable {project : Project} {changes : ChangeSet}

theorem mem_reportImpacts {impacts : Impacts} (hunique : impacts.Unique)
    {entry : DomainEvidenceImpact} :
    entry ∈ reportImpacts impacts ↔ ∃ impact, impacts.get? entry.domainId = some impact ∧
      entry.impact = { impact with
        upstreamDomainIds := impact.upstreamDomainIds.erase entry.domainId } := by
  simp only [reportImpacts, List.mem_map, Printer.sortKeys, List.mem_insertionSort]
  constructor
  · rintro ⟨⟨domainId, impact⟩, hmem, rfl⟩
    exact ⟨impact, Table.get?_of_mem hunique hmem, rfl⟩
  · rintro ⟨impact, hfound, himpact⟩
    refine ⟨(entry.domainId, impact), Table.mem_of_get? hfound, ?_⟩
    obtain ⟨domainId, reported⟩ := entry
    simp only at himpact
    rw [himpact]

/-- An accepted change set has an analysis, which reports the closure of the direct impacts. -/
theorem analyze_of_accepted (haccepted : changes.Accepted) :
    ∃ analysis result, analyzeDomainImpact project changes = some analysis ∧
      analysis.domains = reportImpacts result ∧
      IsClosure project.domainMap (acceptedCapabilities project) (directOf project changes) result := by
  obtain ⟨result, hresult, hclosure⟩ := propagateDependencies_closure
    (show (directOf project changes).Unique from unique_directOf)
    fun domainId impact h => known_directOf h
  have hanalysis : ∃ analysis, analyzeDomainImpact project changes = some analysis ∧
      analysis.domains = reportImpacts result := by
    simp only [analyzeDomainImpact, if_pos haccepted]
    rw [hresult]
    exact ⟨_, rfl, rfl⟩
  obtain ⟨analysis, hsome, hdomains⟩ := hanalysis
  exact ⟨analysis, result, hsome, hdomains, hclosure⟩

theorem allDomainCandidateIds_of_mem {domain : DomainEntry}
    (h : domain ∈ project.domainMap.domains) :
    allDomainCandidateIds project.domainMap domain.id = domain.candidateIds.toFinset := by
  have hfind : project.domainMap.domains.find? (fun other => decide (other.id = domain.id)) =
      some domain := by
    have hunique := project.domainMap.unique
    generalize project.domainMap.domains = domains at h hunique
    induction domains with
    | nil => exact absurd h List.not_mem_nil
    | cons first rest ih =>
      obtain ⟨hfresh, hrest⟩ := List.nodup_cons.mp hunique
      rcases List.mem_cons.mp h with rfl | hmem
      · rw [List.find?_cons_of_pos (by simp)]
      · have hne : first.id ≠ domain.id := by
          intro hsame
          exact hfresh (List.mem_map.mpr ⟨domain, hmem, hsame.symm⟩)
        rw [List.find?_cons_of_neg (by simp [hne])]
        exact ih hmem hrest
  rw [allDomainCandidateIds, hfind, Option.elim_some]

theorem mem_boundCandidateIds {domain : DomainEntry} (h : domain ∈ project.domainMap.domains)
    {key : BindingKey} (hkey : key.domainId = domain.id) {candidateId : String}
    (hcandidate : candidateId ∈ domain.candidateIds) :
    candidateId ∈ boundCandidateIds project.domainMap key ↔
      key.candidateId = none ∨ key.candidateId = some candidateId := by
  unfold boundCandidateIds
  cases hbound : key.candidateId with
  | none => simp [hkey, allDomainCandidateIds_of_mem h, hcandidate]
  | some other => simp [eq_comm]

end Analysis

section Monotone
variable {project : Project} {first second : ChangeSet} {domainId : String}

/-- What a domain is affected with before anything is passed on to it stays affected, unless its
candidates are narrowed. -/
theorem baseImpact_within (hwithin : first.Within second) (hsecond : second.Accepted)
    (hkeeps : KeepsCandidates project first second)
    (haffected : Affected project.domainMap (directOf project first) domainId)
    (hknown : domainId ∈ project.domainMap.ids) :
    let base := baseImpact project.domainMap (acceptedCapabilities project)
    (base (directOf project first) domainId).candidateIds ⊆
        (base (directOf project second) domainId).candidateIds ∧
      (base (directOf project first) domainId).capabilityIds ⊆
        (base (directOf project second) domainId).capabilityIds := by
  intro base
  cases hfirst : (directOf project first).get? domainId with
  | some impact =>
    obtain ⟨other, hother, hcontained⟩ := directOf_within hwithin hsecond hfirst
    have hbase : base (directOf project first) domainId = impact := by
      simp only [base, baseImpact, hfirst, Option.getD_some]
    have hbaseOther : base (directOf project second) domainId = other := by
      simp only [base, baseImpact, hother, Option.getD_some]
    rw [hbase, hbaseOther]
    exact ⟨hcontained.candidates, hcontained.capabilities⟩
  | none =>
    have hbase : base (directOf project first) domainId =
        reachedImpact project.domainMap (acceptedCapabilities project) domainId := by
      simp only [base, baseImpact, hfirst, Option.getD_none]
    rw [hbase]
    cases hnow : (directOf project second).get? domainId with
    | none =>
      have hbaseOther : base (directOf project second) domainId =
          reachedImpact project.domainMap (acceptedCapabilities project) domainId := by
        simp only [base, baseImpact, hnow, Option.getD_none]
      rw [hbaseOther]
      exact ⟨Finset.Subset.refl _, Finset.Subset.refl _⟩
    | some other =>
      have hbaseOther : base (directOf project second) domainId = other := by
        simp only [base, baseImpact, hnow, Option.getD_some]
      rw [hbaseOther]
      obtain ⟨domain, hdomain, rfl⟩ := List.mem_map.mp (List.mem_toFinset.mp hknown)
      have hnone : ¬ ∃ binding, MatchedFor project first domain.id binding := by
        rw [← isSome_directOf, hfirst]
        simp
      obtain ⟨source, hreaches, hdirect⟩ := haffected
      obtain ⟨binding, hbinding⟩ := isSome_directOf.mp hdirect
      have htrans : TransGen (DependsOn project.domainMap) domain.id source := by
        rcases reflTransGen_iff_eq_or_transGen.mp hreaches with rfl | htrans
        · exact absurd ⟨binding, hbinding⟩ hnone
        · exact htrans
      have hall := hkeeps domain hdomain ⟨source, binding, htrans, hbinding⟩ hnone
        (isSome_directOf.mp (by rw [hnow, Option.isSome_some]))
      have hspec := isDirect_of_get? hnow
      have hcandidates : allDomainCandidateIds project.domainMap domain.id ⊆ other.candidateIds := by
        intro x hx
        rw [allDomainCandidateIds_of_mem hdomain, List.mem_toFinset] at hx
        obtain ⟨bound, hbound, hcandidate⟩ := hall x hx
        exact (hspec.candidates x).mpr
          ⟨bound, hbound, (mem_boundCandidateIds hdomain hbound.2.2 hx).mpr hcandidate⟩
      refine ⟨hcandidates, fun x hx => (hspec.capabilities x).mpr (.inr ?_)⟩
      exact capabilitiesOf_mono _ hcandidates hx

/-- More changes do not shrink what has to be reviewed exactly when no domain that was only reached
is matched directly with a part of its candidates. -/
theorem impact_within_iff (project : Project) {first second : ChangeSet} (hfirst : first.Accepted)
    (hsecond : second.Accepted) (hwithin : first.Within second) :
    ∃ analysis other, analyzeDomainImpact project first = some analysis ∧
      analyzeDomainImpact project second = some other ∧
      (analysis.Within other ↔ KeepsCandidates project first second) := by
  obtain ⟨analysis, result, hanalysis, hdomains, hclosure⟩ := @analyze_of_accepted project _ hfirst
  obtain ⟨other, more, hother, hmoreDomains, hmore⟩ := @analyze_of_accepted project _ hsecond
  refine ⟨analysis, other, hanalysis, hother, ?_, ?_⟩
  · intro hcontained domain hdomain hreached hnone hdirect candidateId hcandidate
    -- The domain is reported with all its candidates before, and with the matched ones after.
    obtain ⟨source, binding, hreaches, hbinding⟩ := hreached
    obtain ⟨impact, hfound⟩ := Option.isSome_iff_exists.mp ((hclosure.affected domain.id).mpr
      ⟨source, hreaches.to_reflTransGen, isSome_directOf.mpr ⟨binding, hbinding⟩⟩)
    obtain ⟨entry, hentry, hid, hwithinEntry⟩ := hcontained
      ⟨domain.id, { impact with upstreamDomainIds := impact.upstreamDomainIds.erase domain.id }⟩
      (hdomains ▸ (mem_reportImpacts hclosure.unique).mpr ⟨impact, hfound, rfl⟩)
    rw [hmoreDomains, mem_reportImpacts hmore.unique] at hentry
    obtain ⟨after, hafter, hreported⟩ := hentry
    simp only at hid
    rw [hid] at hafter
    have hbefore := hclosure.candidateIds domain.id impact hfound
    have hnoneDirect : (directOf project first).get? domain.id = none := by
      rw [← isSome_directOf] at hnone
      simpa using hnone
    rw [baseImpact, hnoneDirect, Option.getD_none, reachedImpact,
      allDomainCandidateIds_of_mem hdomain] at hbefore
    obtain ⟨direct, hdirectFound⟩ := Option.isSome_iff_exists.mp (isSome_directOf.mpr hdirect)
    have hnow := hmore.candidateIds domain.id after hafter
    rw [baseImpact, hdirectFound, Option.getD_some] at hnow
    have hmem : candidateId ∈ direct.candidateIds := by
      have hsubset := hwithinEntry.candidates
      rw [hreported] at hsubset
      simp only [hbefore, hnow] at hsubset
      exact hsubset (List.mem_toFinset.mpr hcandidate)
    obtain ⟨bound, hbound, hboundMem⟩ := ((isDirect_of_get? hdirectFound).candidates _).mp hmem
    exact ⟨bound, hbound, (mem_boundCandidateIds hdomain hbound.2.2 hcandidate).mp hboundMem⟩
  · intro hkeeps entry hentry
    rw [hdomains, mem_reportImpacts hclosure.unique] at hentry
    obtain ⟨impact, hfound, hreported⟩ := hentry
    have haffected := (hclosure.affected entry.domainId).mp (by rw [hfound, Option.isSome_some])
    obtain ⟨after, hafter⟩ := Option.isSome_iff_exists.mp
      ((hmore.affected entry.domainId).mpr (haffected.within hwithin hsecond))
    refine ⟨⟨entry.domainId, { after with
      upstreamDomainIds := after.upstreamDomainIds.erase entry.domainId }⟩, ?_, rfl, ?_⟩
    · rw [hmoreDomains, mem_reportImpacts hmore.unique]
      exact ⟨after, hafter, rfl⟩
    · have hknown := hclosure.known entry.domainId impact hfound
      obtain ⟨hcandidates, hcapabilities⟩ :=
        baseImpact_within hwithin hsecond hkeeps haffected hknown
      rw [hreported]
      constructor
      · refine Finset.erase_subset_erase _ fun x hx => ?_
        obtain ⟨hreaches, hup⟩ := (hclosure.upstream _ impact hfound x).mp hx
        exact (hmore.upstream _ after hafter x).mpr ⟨hreaches, hup.within hwithin hsecond⟩
      · intro x hx
        have hreceived := (hclosure.evidence _ impact hfound x).mp hx
        exact (hmore.evidence _ after hafter x).mpr (hreceived.within hwithin hsecond)
      · simp only [hclosure.candidateIds _ impact hfound, hmore.candidateIds _ after hafter]
        exact hcandidates
      · simp only [hclosure.capabilityIds _ impact hfound, hmore.capabilityIds _ after hafter]
        exact hcapabilities
      · intro x hx
        have hsecured := (hclosure.axes _ impact hfound x).mp hx
        exact (hmore.axes _ after hafter x).mpr (hsecured.within hwithin hsecond)

end Monotone

/-! A domain with two candidates that depends on another one. -/

section Example

private def ordersMap : DomainMap where
  domains :=
    [{ id := "identity"
       candidateIds := ["identity.read"]
       dependencyDomainIds := []
       evidenceRefs := ["identity-api"]
       activeDecisionRef := none },
     { id := "orders"
       candidateIds := ["orders.cancel", "orders.read"]
       dependencyDomainIds := ["identity"]
       evidenceRefs := []
       activeDecisionRef := none }]
  unique := by decide
  known := by decide
  irreflexive := by decide

private def effectClaims (evidenceRefs : List String) : CandidateClaims where
  schema := []
  effect := evidenceRefs
  risk := []
  reversibility := []
  approval := []
  retry := []
  conflictControl := []
  idempotency := []
  outcomeResolution := []
  lifecycle := []
  authorizationBoundary := []
  identityBinding := []
  contextIsolation := []

private def candidateOf (id domainId : String) (evidenceRefs : List String) :
    CapabilityCandidate where
  id := id
  domainId := some domainId
  kindClaim := .read
  claims := effectClaims evidenceRefs
  ineligibilityClaim := none
  routeIds := []
  interactionIds := []

private def ordersProject : Project where
  domainMap := ordersMap
  candidates :=
    [candidateOf "identity.read" "identity" [], candidateOf "orders.cancel" "orders" ["orders-api"],
      candidateOf "orders.read" "orders" []]
  decisions := []
  capabilities := []
  operations := []
  scopeRoutes := []
  interactions := []
  surfaces := []
  interactionContracts := []
  evidenceRegistry := []

private def changeOf (ids : Finset String) : ChangeSet := ⟨ids, ∅, []⟩

theorem impact_within_orders :
    ∃ analysis other, analyzeDomainImpact ordersProject (changeOf ∅) = some analysis ∧
      analyzeDomainImpact ordersProject (changeOf {"orders-api"}) = some other ∧
      (analysis.Within other ↔
        KeepsCandidates ordersProject (changeOf ∅) (changeOf {"orders-api"})) :=
  impact_within_iff ordersProject (by decide) (by decide)
    ⟨by decide, by decide, by decide⟩

/-- A change of one candidate's evidence hides the other candidate, which the change of the
dependency alone affects. -/
theorem narrowed_by_more_changes :
    (changeOf {"identity-api"}).Within (changeOf {"identity-api", "orders-api"}) ∧
      ∃ analysis other,
        analyzeDomainImpact ordersProject (changeOf {"identity-api"}) = some analysis ∧
        analyzeDomainImpact ordersProject (changeOf {"identity-api", "orders-api"}) = some other ∧
        ¬ analysis.Within other := by
  refine ⟨⟨by decide, by decide, by decide⟩, ?_⟩
  have hrun : ((analyzeDomainImpact ordersProject (changeOf {"identity-api"})).bind fun analysis =>
      (analyzeDomainImpact ordersProject (changeOf {"identity-api", "orders-api"})).map fun other =>
        decide (analysis.Within other)) = some false := by decide
  obtain ⟨analysis, hanalysis, hrest⟩ := Option.bind_eq_some_iff.mp hrun
  obtain ⟨other, hother, hnot⟩ := Option.map_eq_some_iff.mp hrest
  exact ⟨analysis, other, hanalysis, hother, of_decide_eq_false hnot⟩

end Example
end CapabilityCompiler.Domains
