import CapabilityCompiler.Usage.Impact
import Mathlib.Algebra.Group.Action.Defs
import Mathlib.Algebra.Order.BigOperators.Group.Finset
import Mathlib.Logic.Relation
import Mathlib.Order.Bounds.Basic

/-! Propagation reaches the greatest statuses of the dependencies; the upstream domains depend on the
order of the visits. -/
namespace CapabilityCompiler.Usage
open Foundation Relation

/-! Dependencies. -/

namespace UsageGraph
variable (graph : UsageGraph)

/-- A domain of the graph depends on another one of it. -/
def DependsOn (dependentId domainId : String) : Prop :=
  ∃ node, graph.nodes.get? dependentId = some node ∧
    domainId ∈ node.directDependencyDomainIds ∧ domainId ∈ graph.ids

variable {graph} {dependentId domainId : String}

theorem mem_dependents (hmem : domainId ∈ graph.ids) :
    dependentId ∈ graph.dependents domainId ↔ graph.DependsOn dependentId domainId := by
  simp only [dependents, Text.mem_sortedSet, List.mem_map, List.mem_filter, decide_eq_true_eq]
  constructor
  · rintro ⟨⟨id, node⟩, ⟨hnode, hdepends⟩, rfl⟩
    exact ⟨node, Table.get?_of_mem graph.unique hnode, hdepends, hmem⟩
  · rintro ⟨node, hfound, hdepends, -⟩
    exact ⟨(dependentId, node), ⟨Table.mem_of_get? hfound, hdepends⟩, rfl⟩

theorem mem_ids_iff : domainId ∈ graph.ids ↔ (graph.nodes.get? domainId).isSome = true := by
  rw [ids, List.mem_map, Option.isSome_iff_exists]
  constructor
  · rintro ⟨⟨id, node⟩, hmem, rfl⟩
    exact ⟨node, Table.get?_of_mem graph.unique hmem⟩
  · rintro ⟨node, hfound⟩
    exact ⟨(domainId, node), Table.mem_of_get? hfound, rfl⟩

theorem mem_ids_of_dependents (h : dependentId ∈ graph.dependents domainId) :
    dependentId ∈ graph.ids := by
  simp only [dependents, Text.mem_sortedSet, List.mem_map, List.mem_filter] at h
  obtain ⟨node, ⟨hmem, -⟩, rfl⟩ := h
  exact List.mem_map_of_mem hmem

theorem DependsOn.dependent_mem (h : graph.DependsOn dependentId domainId) :
    dependentId ∈ graph.ids := by
  obtain ⟨node, hfound, -, -⟩ := h
  exact List.mem_map_of_mem (Table.mem_of_get? hfound)

theorem DependsOn.mem (h : graph.DependsOn dependentId domainId) : domainId ∈ graph.ids := by
  obtain ⟨-, -, -, hmem⟩ := h
  exact hmem

end UsageGraph

/-! Statuses. -/

section Statuses
variable {statuses : Statuses} {changedId dependentId domainId : String}

theorem isAffected_iff : isAffected statuses domainId = true ↔
    ∃ status, statuses.get? domainId = some status ∧ status ≠ .unaffected := by
  unfold isAffected
  cases statuses.get? domainId with
  | none => simp
  | some status => simp

/-- What a raise does: nothing, or the status of the dependent domain is raised. -/
theorem raiseStatus_cases (changedId dependentId : String) (statuses : Statuses) :
    raiseStatus changedId dependentId statuses = (statuses, false) ∧
        (isAffected statuses changedId = false ∨ statuses.get? dependentId = none) ∨
      ∃ changed status, statuses.get? changedId = some changed ∧ changed ≠ .unaffected ∧
        statuses.get? dependentId = some status ∧
        raiseStatus changedId dependentId statuses =
          (statuses.put dependentId (max status changed), decide (max status changed ≠ status)) := by
  unfold raiseStatus
  split
  · rename_i haffected
    obtain ⟨changed, hchanged, hne⟩ := isAffected_iff.mp haffected
    cases hstatus : statuses.get? dependentId with
    | none => simp [hchanged]
    | some status =>
      right
      refine ⟨changed, status, hchanged, hne, rfl, ?_⟩
      simp only [hchanged, maximumStatus_eq]
  · rename_i haffected
    exact .inl ⟨rfl, .inl (by simpa using haffected)⟩

/-- An affected domain stays affected. -/
theorem isAffected_raiseStatus (h : isAffected statuses domainId = true) :
    isAffected (raiseStatus changedId dependentId statuses).1 domainId = true := by
  rcases raiseStatus_cases changedId dependentId statuses with
    ⟨hsame, -⟩ | ⟨changed, status, -, hne, hstatus, hraised⟩
  · rw [hsame]
    exact h
  · obtain ⟨found, hfound, haffected⟩ := isAffected_iff.mp h
    rw [hraised, isAffected_iff, Table.get?_put]
    split
    · refine ⟨_, rfl, fun hmax => hne ?_⟩
      exact le_antisymm (hmax ▸ le_max_right _ _) changed.unaffected_le
    · exact ⟨found, hfound, haffected⟩

/-- The statuses are between the direct ones and what the dependencies justify. -/
structure StatusSound (graph : UsageGraph) (start statuses : Statuses) : Prop where
  known : ∀ domainId, (statuses.get? domainId).isSome = true ↔ domainId ∈ graph.ids
  above : ∀ domainId direct, start.get? domainId = some direct →
    ∃ status, statuses.get? domainId = some status ∧ direct ≤ status
  reached : ∀ domainId status, statuses.get? domainId = some status →
    ∃ source, ReflTransGen graph.DependsOn domainId source ∧ start.get? source = some status

/-- The status of the one domain is at most that of the other. -/
def Raised (changedId dependentId : String) (statuses : Statuses) : Prop :=
  ∀ changed, statuses.get? changedId = some changed →
    ∃ status, statuses.get? dependentId = some status ∧ changed ≤ status

variable {graph : UsageGraph} {start : Statuses}

theorem StatusSound.mem (h : StatusSound graph start statuses) {status : UsageImpactStatus}
    (hfound : statuses.get? domainId = some status) : domainId ∈ graph.ids :=
  (h.known domainId).mp (by rw [hfound, Option.isSome_some])

theorem statusSound_keeps :
    Worklist.Keeps graph.dependents raiseStatus (StatusSound graph start) := by
  intro changedId dependentId statuses hdependent h
  rcases raiseStatus_cases changedId dependentId statuses with
    ⟨hsame, -⟩ | ⟨changed, status, hchanged, -, hstatus, hraised⟩
  · rw [hsame]
    exact h
  rw [hraised]
  have hdepends := (UsageGraph.mem_dependents (h.mem hchanged)).mp hdependent
  constructor
  · intro domainId
    rw [Table.get?_put]
    split
    · rename_i hsame
      subst hsame
      simpa using h.mem hstatus
    · exact h.known domainId
  · intro domainId direct hdirect
    obtain ⟨before, hbefore, hle⟩ := h.above domainId direct hdirect
    rw [Table.get?_put]
    split
    · rename_i hsame
      subst hsame
      obtain rfl := Option.some.inj (hstatus.symm.trans hbefore)
      exact ⟨_, rfl, hle.trans (le_max_left _ _)⟩
    · exact ⟨before, hbefore, hle⟩
  · intro domainId found hfound
    rw [Table.get?_put] at hfound
    split at hfound
    · rename_i hsame
      subst hsame
      obtain rfl := Option.some.inj hfound
      rcases max_choice status changed with hmax | hmax
      · rw [hmax]
        exact h.reached _ status hstatus
      · rw [hmax]
        obtain ⟨source, hreaches, hsource⟩ := h.reached _ changed hchanged
        exact ⟨source, .head hdepends hreaches, hsource⟩
    · exact h.reached domainId found hfound

/-! Termination: the sum of the statuses grows. -/

def totalStatus (graph : UsageGraph) (statuses : Statuses) : ℕ :=
  ∑ domainId ∈ graph.ids.toFinset,
    (statuses.get? domainId).elim 0 UsageImpactStatus.precedence

theorem totalStatus_put {status raised : UsageImpactStatus}
    (hstatus : statuses.get? dependentId = some status) (hle : status ≤ raised) :
    totalStatus graph statuses ≤ totalStatus graph (statuses.put dependentId raised) := by
  refine Finset.sum_le_sum fun domainId _ => ?_
  rw [Table.get?_put]
  split
  · rename_i hsame
    subst hsame
    rw [hstatus]
    exact UsageImpactStatus.le_iff.mp hle
  · exact le_rfl

theorem totalStatus_put_lt {status raised : UsageImpactStatus} (hmem : dependentId ∈ graph.ids)
    (hstatus : statuses.get? dependentId = some status) (hlt : status < raised) :
    totalStatus graph statuses < totalStatus graph (statuses.put dependentId raised) := by
  refine Finset.sum_lt_sum (fun domainId _ => ?_)
    ⟨dependentId, List.mem_toFinset.mpr hmem, ?_⟩
  · rw [Table.get?_put]
    split
    · rename_i hsame
      subst hsame
      rw [hstatus]
      exact UsageImpactStatus.le_iff.mp hlt.le
    · exact le_rfl
  · rw [Table.get?_put_self, hstatus]
    exact UsageImpactStatus.lt_iff.mp hlt

theorem raiseStatus_bounded : Worklist.Bounded graph.dependents raiseStatus
    (StatusSound graph start) (totalStatus graph) (3 * graph.ids.length) where
  keeps := statusSound_keeps
  le_bound := by
    intro statuses _
    have hsum : totalStatus graph statuses ≤ graph.ids.toFinset.card • 3 := by
      refine Finset.sum_le_card_nsmul _ _ _ fun domainId _ => ?_
      cases statuses.get? domainId with
      | none => exact Nat.zero_le _
      | some status => exact status.precedence_le
    have hcard := List.toFinset_card_le graph.ids
    rw [smul_eq_mul] at hsum
    omega
  mono := by
    intro changedId dependentId statuses _ _
    rcases raiseStatus_cases changedId dependentId statuses with
      ⟨hsame, -⟩ | ⟨changed, status, -, -, hstatus, hraised⟩
    · rw [hsame]
    · rw [hraised]
      exact totalStatus_put hstatus (le_max_left _ _)
  grows := by
    intro changedId dependentId statuses hdependent _ hchanged
    rcases raiseStatus_cases changedId dependentId statuses with
      ⟨hsame, -⟩ | ⟨changed, status, -, -, hstatus, hraised⟩
    · rw [hsame] at hchanged
      exact absurd hchanged (by simp)
    · rw [hraised] at hchanged ⊢
      have hne := of_decide_eq_true hchanged
      exact totalStatus_put_lt (UsageGraph.mem_ids_of_dependents hdependent) hstatus
        (lt_of_le_of_ne (le_max_left _ _) hne.symm)

/-! Results: at the end no dependent domain is below an affected one. -/

theorem raiseStatus_settles : Worklist.Settles graph.dependents raiseStatus
    (StatusSound graph start) (fun domainId statuses => isAffected statuses domainId = true)
    Raised where
  keeps := statusSound_keeps
  active_mono _ _ _ _ h := isAffected_raiseStatus h
  active_of := by
    intro changedId dependentId statuses domainId hactive
    rcases raiseStatus_cases changedId dependentId statuses with
      ⟨hsame, -⟩ | ⟨changed, status, -, -, hstatus, hraised⟩
    · rw [hsame] at hactive
      exact .inl hactive
    · rw [hraised] at hactive ⊢
      obtain ⟨found, hfound, haffected⟩ := isAffected_iff.mp hactive
      rw [Table.get?_put] at hfound
      split at hfound
      · rename_i hsame
        subst hsame
        obtain rfl := Option.some.inj hfound
        by_cases hmax : max status changed = status
        · rw [hmax] at haffected
          exact .inl (isAffected_iff.mpr ⟨status, hstatus, haffected⟩)
        · exact .inr ⟨decide_eq_true hmax, rfl⟩
      · exact .inl (isAffected_iff.mpr ⟨found, hfound, haffected⟩)
  done := by
    intro changedId dependentId statuses hdependent h hactive
    rcases raiseStatus_cases changedId dependentId statuses with
      ⟨hsame, hidle | hunknown⟩ | ⟨changed, status, hchanged, -, hstatus, hraised⟩
    · exact absurd (hactive.symm.trans hidle) (by simp)
    · have hmem := UsageGraph.mem_ids_of_dependents hdependent
      rw [← h.known, hunknown] at hmem
      exact absurd hmem (by simp)
    · right
      rw [hraised]
      intro found hfound
      rw [Table.get?_put] at hfound
      split at hfound
      · rename_i hsame
        subst hsame
        obtain rfl := Option.some.inj (hchanged.symm.trans hstatus)
        rw [max_self] at hfound ⊢
        exact ⟨changed, Table.get?_put_self _ _ _, (Option.some.inj hfound).ge⟩
      · obtain rfl := Option.some.inj (hchanged.symm.trans hfound)
        exact ⟨_, Table.get?_put_self _ _ _, le_max_right _ _⟩
  done_mono := by
    intro changedId dependentId statuses k t _ _ hactive hdone
    rcases raiseStatus_cases changedId dependentId statuses with
      ⟨hsame, -⟩ | ⟨changed, status, -, -, hstatus, hraised⟩
    · rw [hsame]
      exact .inr hdone
    rw [hraised]
    -- The target of `k` has only been raised.
    have hgrown : ∀ known, statuses.get? k = some known →
        ∃ raised, (statuses.put dependentId (max status changed)).get? t = some raised ∧
          known ≤ raised := by
      intro known hknown
      obtain ⟨target, htarget, hle⟩ := hdone known hknown
      rw [Table.get?_put]
      split
      · rename_i hsame
        subst hsame
        obtain rfl := Option.some.inj (hstatus.symm.trans htarget)
        exact ⟨_, rfl, hle.trans (le_max_left _ _)⟩
      · exact ⟨target, htarget, hle⟩
    by_cases hsame : dependentId = k
    · subst hsame
      by_cases hmax : max status changed = status
      · right
        intro found hfound
        rw [Table.get?_put_self, hmax] at hfound
        exact hgrown found (hstatus.trans hfound)
      · exact .inl ⟨decide_eq_true hmax, rfl⟩
    · right
      intro found hfound
      rw [Table.get?_put_of_ne (Ne.symm hsame)] at hfound
      exact hgrown found hfound

end Statuses

/-! The final statuses. -/

section Final
variable {graph : UsageGraph} {start statuses : Statuses}

/-- The status of a domain is the greatest of those it starts from and depends on. -/
theorem isGreatest_of_raised (hsound : StatusSound graph start statuses)
    (hraised : ∀ k t, isAffected statuses k = true → t ∈ graph.dependents k → Raised k t statuses)
    {domainId : String} {status : UsageImpactStatus} (hstatus : statuses.get? domainId = some status) :
    IsGreatest {direct | ∃ source, ReflTransGen graph.DependsOn domainId source ∧
      start.get? source = some direct} status := by
  constructor
  · exact hsound.reached domainId status hstatus
  · rintro direct ⟨source, hreaches, hdirect⟩
    induction hreaches using ReflTransGen.head_induction_on generalizing status with
    | refl =>
      obtain ⟨found, hfound, hle⟩ := hsound.above source direct hdirect
      obtain rfl := Option.some.inj (hstatus.symm.trans hfound)
      exact hle
    | @head dependentId changedId hdepends _ ih =>
      obtain ⟨changed, hchanged⟩ := Option.isSome_iff_exists.mp
        ((hsound.known changedId).mpr hdepends.mem)
      refine (ih hchanged).trans ?_
      by_cases haffected : changed = .unaffected
      · rw [haffected]
        exact status.unaffected_le
      · obtain ⟨found, hfound, hle⟩ := hraised changedId dependentId
          (isAffected_iff.mpr ⟨changed, hchanged, haffected⟩)
          ((UsageGraph.mem_dependents hdepends.mem).mpr hdepends) changed hchanged
        obtain rfl := Option.some.inj (hstatus.symm.trans hfound)
        exact hle

end Final

/-! The upstream domains. -/

/-- The chain starts with the first domain, and each of its domains and the last one depends on the
one before it. -/
inductive Leads (dependsOn : String → String → Prop) : String → List String → String → Prop where
  | direct {source domainId : String} (h : dependsOn domainId source) :
      Leads dependsOn source [source] domainId
  | through {source changedId domainId : String} {chain : List String}
      (hchain : Leads dependsOn source chain changedId) (h : dependsOn domainId changedId) :
      Leads dependsOn source (chain ++ [changedId]) domainId

/-- The domains in the order of the visits that find them affected. -/
def affectedVisits (visits : List (String × Statuses)) : List String :=
  (visits.filter fun visit => isAffected visit.2 visit.1).map Prod.fst

section Upstream
variable {graph : UsageGraph} {changedId dependentId domainId source : String}

theorem Leads.transGen {chain : List String} (h : Leads graph.DependsOn source chain domainId) :
    TransGen graph.DependsOn domainId source := by
  induction h with
  | direct h => exact .single h
  | through _ h ih => exact .head h ih

theorem Leads.mem {chain : List String} (h : Leads graph.DependsOn source chain domainId) :
    source ∈ chain := by
  induction h with
  | direct h => exact List.mem_singleton_self _
  | through _ _ ih => exact List.mem_append_left _ ih

/-- The last visit of a chain is the one of the changed domain, or the chain was led before. -/
theorem leads_concat_iff {visited : List String} :
    (∃ chain, chain.Sublist (visited ++ [changedId]) ∧
        Leads graph.DependsOn source chain domainId) ↔
      (∃ chain, chain.Sublist visited ∧ Leads graph.DependsOn source chain domainId) ∨
        graph.DependsOn domainId changedId ∧ (source = changedId ∨
          ∃ chain, chain.Sublist visited ∧ Leads graph.DependsOn source chain changedId) := by
  constructor
  · rintro ⟨chain, hsub, hleads⟩
    obtain ⟨before, last, rfl, hbefore, hlast⟩ := List.sublist_append_iff.mp hsub
    rcases List.sublist_singleton.mp hlast with rfl | rfl
    · rw [List.append_nil] at hleads
      exact .inl ⟨before, hbefore, hleads⟩
    · right
      generalize hchain : before ++ [changedId] = chain at hleads
      cases hleads with
      | direct h =>
        have hlength := congrArg List.length hchain
        obtain rfl : before = [] := List.length_eq_zero_iff.mp (by simpa using hlength)
        obtain rfl := List.singleton_inj.mp hchain
        exact ⟨h, .inl rfl⟩
      | through hchain' h =>
        obtain ⟨rfl, hsame⟩ := List.append_inj' hchain rfl
        obtain rfl := List.singleton_inj.mp hsame
        exact ⟨h, .inr ⟨before, hbefore, hchain'⟩⟩
  · rintro (⟨chain, hsub, hleads⟩ | ⟨hdepends, rfl | ⟨chain, hsub, hleads⟩⟩)
    · exact ⟨chain, hsub.trans (List.sublist_append_left _ _), hleads⟩
    · exact ⟨[source], List.sublist_append_right _ _, .direct hdepends⟩
    · exact ⟨chain ++ [changedId], hsub.append (List.Sublist.refl _), .through hleads hdepends⟩

theorem passOn_projects :
    Worklist.Projects Propagation.statuses passOn raiseStatus := fun _ _ _ => rfl

theorem upstreamOf_passOn (propagation : Propagation)
    (haffected : isAffected propagation.statuses changedId = true) :
    (passOn changedId dependentId propagation).1.upstreamOf domainId =
      if domainId = dependentId then propagation.upstreamOf domainId ∪
        insert changedId (propagation.upstreamOf changedId)
      else propagation.upstreamOf domainId := by
  unfold Propagation.upstreamOf passOn
  simp only [haffected, if_true]
  rw [Table.get?_put]
  split
  · rename_i hsame
    subst hsame
    rfl
  · rfl

/-- A visit of an affected domain passes it and its upstream on to the dependent ones. -/
theorem upstreamOf_visit {rest : List String} {propagation : Propagation}
    (haffected : isAffected propagation.statuses changedId = true) :
    (Worklist.visit passOn changedId rest propagation).1.upstreamOf domainId =
      if domainId ∈ rest then propagation.upstreamOf domainId ∪
        insert changedId (propagation.upstreamOf changedId)
      else propagation.upstreamOf domainId := by
  induction rest generalizing propagation with
  | nil => rfl
  | cons dependentId rest ih =>
    have hstill : isAffected (passOn changedId dependentId propagation).1.statuses changedId =
        true := isAffected_raiseStatus haffected
    simp only [Worklist.visit]
    rw [ih hstill, upstreamOf_passOn propagation haffected,
      upstreamOf_passOn propagation haffected]
    by_cases hself : changedId = dependentId
    · subst hself
      by_cases hsame : domainId = changedId
      · subst hsame
        simp
      · simp [hsame]
    · by_cases hsame : domainId = dependentId
      · subst hsame
        simp [hself, Finset.union_assoc]
      · simp [hsame, hself]

/-- A visit of a domain that is not affected does nothing. -/
theorem visit_of_not_affected {rest : List String} {propagation : Propagation}
    (hidle : isAffected propagation.statuses changedId = false) :
    (Worklist.visit passOn changedId rest propagation).1 = propagation := by
  induction rest with
  | nil => rfl
  | cons dependentId rest ih =>
    have hsame : (passOn changedId dependentId propagation).1 = propagation := by
      simp [passOn, raiseStatus, hidle]
    simp only [Worklist.visit]
    rw [hsame, ih]

theorem affectedVisits_concat (visits : List (String × Statuses)) (visit : String × Statuses) :
    affectedVisits (visits ++ [visit]) =
      affectedVisits visits ++ if isAffected visit.2 visit.1 then [visit.1] else [] := by
  unfold affectedVisits
  rw [List.filter_append, List.map_append]
  congr 1
  by_cases haffected : isAffected visit.2 visit.1 = true
  · simp [haffected]
  · simp [haffected]

/-- The upstream domains so far are those that lead to the domain along the visits so far. -/
def UpstreamLed (graph : UsageGraph) (done : List (String × Propagation))
    (propagation : Propagation) : Prop :=
  ∀ domainId source, source ∈ propagation.upstreamOf domainId ↔
    ∃ chain, chain.Sublist (affectedVisits (done.map fun visit => (visit.1, visit.2.statuses))) ∧
      Leads graph.DependsOn source chain domainId

/-- Every visit keeps it, of whatever key of the graph. -/
theorem upstreamLed_step {done : List (String × Propagation)} {propagation : Propagation}
    (hmem : isAffected propagation.statuses changedId = true → changedId ∈ graph.ids)
    (h : UpstreamLed graph done propagation) :
    UpstreamLed graph (done ++ [(changedId, propagation)])
      (Worklist.visit passOn changedId (graph.dependents changedId) propagation).1 := by
  intro domainId source
  rw [List.map_append, List.map_singleton, affectedVisits_concat]
  cases haffected : isAffected propagation.statuses changedId with
  | false =>
    rw [visit_of_not_affected haffected, if_neg Bool.false_ne_true, List.append_nil]
    exact h domainId source
  | true =>
    rw [if_pos rfl, upstreamOf_visit haffected, leads_concat_iff, ← h domainId source,
      ← h changedId source, ← UsageGraph.mem_dependents (hmem haffected)]
    split
    · rename_i hdepends
      rw [Finset.mem_union, Finset.mem_insert]
      simp only [hdepends, true_and]
    · rename_i hdepends
      simp only [hdepends, false_and, or_false]

end Upstream

/-! The analysis. -/

namespace UsageGraph
variable (graph : UsageGraph) (before after : UsageSnapshot)

/-- The direct status of a domain is that one. -/
def HasDirect (domainId : String) (status : UsageImpactStatus) : Prop :=
  ∃ node, graph.nodes.get? domainId = some node ∧ directStatus before after domainId node = status

/-- The affected domains in the order in which the queue visits them, as the statuses alone
determine it. -/
def visitOrder : List String :=
  affectedVisits (Worklist.visits graph.dependents raiseStatus graph.fuel
    (Text.sortedSet graph.ids) (graph.directStatuses before after))

/-- Each affected dependency leads to its dependent domains along some dependencies that are visited
in their order. -/
def VisitedInOrder : Prop :=
  ∀ domainId source, TransGen graph.DependsOn domainId source →
    (∃ cause status, ReflTransGen graph.DependsOn source cause ∧
      graph.HasDirect before after cause status ∧ status ≠ .unaffected) →
    ∃ chain, chain.Sublist (graph.visitOrder before after) ∧
      Leads graph.DependsOn source chain domainId

/-- Every domain is reported with the greatest status of its dependencies and itself, and with
exactly the affected ones among its dependencies. -/
structure Exact (report : UsageImpactReport) : Prop where
  domains : ∀ domainId, domainId ∈ report.domains.map (·.domainId) ↔ domainId ∈ graph.ids
  status : ∀ entry ∈ report.domains, IsGreatest {direct | ∃ source,
    ReflTransGen graph.DependsOn entry.domainId source ∧
      graph.HasDirect before after source direct} entry.status
  upstream : ∀ entry ∈ report.domains, ∀ source, source ∈ entry.upstreamDomainIds ↔
    TransGen graph.DependsOn entry.domainId source ∧
      ∃ other ∈ report.domains, other.domainId = source ∧ other.status ≠ .unaffected

end UsageGraph

section Analysis
variable {graph : UsageGraph} {before after : UsageSnapshot}

theorem get?_directStatuses {domainId : String} {status : UsageImpactStatus} :
    (graph.directStatuses before after).get? domainId = some status ↔
      graph.HasDirect before after domainId status := by
  unfold UsageGraph.directStatuses UsageGraph.HasDirect
  induction graph.nodes with
  | nil => simp
  | cons node rest ih =>
    obtain ⟨id, node⟩ := node
    rw [List.map_cons, Table.get?_cons, Table.get?_cons]
    split
    · rename_i hsame
      subst hsame
      simp
    · exact ih

theorem statusSound_start : StatusSound graph (graph.directStatuses before after)
    (graph.directStatuses before after) where
  known := by
    intro domainId
    rw [UsageGraph.mem_ids_iff, Option.isSome_iff_exists, Option.isSome_iff_exists]
    constructor
    · rintro ⟨status, hstatus⟩
      obtain ⟨node, hnode, -⟩ := get?_directStatuses.mp hstatus
      exact ⟨node, hnode⟩
    · rintro ⟨node, hnode⟩
      exact ⟨_, get?_directStatuses.mpr ⟨node, hnode, rfl⟩⟩
  above domainId direct h := ⟨direct, h, le_rfl⟩
  reached domainId status h := ⟨domainId, .refl, h⟩

theorem upstreamLed_propagate {propagation : Propagation}
    (h : graph.propagate before after = some propagation) (domainId source : String) :
    source ∈ propagation.upstreamOf domainId ↔
      ∃ chain, chain.Sublist (graph.visitOrder before after) ∧
        Leads graph.DependsOn source chain domainId := by
  have hstart : UpstreamLed graph []
      { statuses := graph.directStatuses before after, upstream := [] } := by
    intro domainId source
    constructor
    · intro hmem
      exact absurd hmem (Finset.notMem_empty source)
    · rintro ⟨chain, hsub, hleads⟩
      obtain rfl := List.sublist_nil.mp hsub
      exact absurd hleads.mem List.not_mem_nil
  have hstep : ∀ (done : List (String × Propagation)) changedId (propagation : Propagation),
      StatusSound graph (graph.directStatuses before after) propagation.statuses ∧
        UpstreamLed graph done propagation →
      StatusSound graph (graph.directStatuses before after)
          (Worklist.visit passOn changedId (graph.dependents changedId) propagation).1.statuses ∧
        UpstreamLed graph (done ++ [(changedId, propagation)])
          (Worklist.visit passOn changedId (graph.dependents changedId) propagation).1 := by
    rintro done changedId propagation ⟨hsound, hled⟩
    constructor
    · have hkept := Worklist.visit_keeps statusSound_keeps
        (List.Subset.refl (graph.dependents changedId)) hsound
      rw [passOn_projects.visit_eq] at hkept
      exact hkept
    · refine upstreamLed_step (fun haffected => ?_) hled
      obtain ⟨status, hstatus, -⟩ := isAffected_iff.mp haffected
      exact hsound.mem hstatus
  have hled := (Worklist.run_visits hstep ⟨statusSound_start, hstart⟩ h).2 domainId source
  have hvisits : Worklist.visits graph.dependents raiseStatus graph.fuel
      (Text.sortedSet graph.ids) (graph.directStatuses before after) = _ :=
    passOn_projects.visits_eq graph.fuel (Text.sortedSet graph.ids)
      { statuses := graph.directStatuses before after, upstream := [] }
  rw [UsageGraph.visitOrder, hvisits]
  exact hled

/-- What is affected when it is visited is affected at the end. -/
theorem affected_of_visited {start statuses : Statuses} {fuel : ℕ} {queue : List String}
    (hrun : Worklist.run graph.dependents raiseStatus fuel queue start = some statuses)
    {domainId : String}
    (hvisited : domainId ∈ affectedVisits
      (Worklist.visits graph.dependents raiseStatus fuel queue start)) :
    isAffected statuses domainId = true := by
  have hkeeps : ∀ id, Worklist.Keeps graph.dependents raiseStatus
      fun statuses => isAffected statuses id = true :=
    fun id _ _ _ _ h => isAffected_raiseStatus h
  have hstep : ∀ (done : List (String × Statuses)) changedId (statuses : Statuses),
      (∀ id ∈ affectedVisits done, isAffected statuses id = true) →
      ∀ id ∈ affectedVisits (done ++ [(changedId, statuses)]),
        isAffected (Worklist.visit raiseStatus changedId (graph.dependents changedId) statuses).1 id =
          true := by
    intro done changedId statuses h id hid
    refine Worklist.visit_keeps (hkeeps id) (List.Subset.refl _) ?_
    rw [affectedVisits_concat] at hid
    rcases List.mem_append.mp hid with hid | hid
    · exact h id hid
    · split at hid
      · rename_i haffected
        rw [List.mem_singleton.mp hid]
        exact haffected
      · exact absurd hid List.not_mem_nil
  have hnone : ∀ id ∈ affectedVisits [], isAffected start id = true :=
    fun id hid => absurd hid List.not_mem_nil
  exact Worklist.run_visits hstep hnone hrun domainId hvisited

/-- The propagation ends: with the greatest statuses, and with the upstream domains that lead along
the visits. -/
theorem propagate_spec (graph : UsageGraph) (before after : UsageSnapshot) :
    ∃ propagation, graph.propagate before after = some propagation ∧
      (∀ domainId, (propagation.statuses.get? domainId).isSome = true ↔ domainId ∈ graph.ids) ∧
      (∀ domainId status, propagation.statuses.get? domainId = some status →
        IsGreatest {direct | ∃ source, ReflTransGen graph.DependsOn domainId source ∧
          graph.HasDirect before after source direct} status) ∧
      (∀ domainId source, source ∈ propagation.upstreamOf domainId ↔
        ∃ chain, chain.Sublist (graph.visitOrder before after) ∧
          Leads graph.DependsOn source chain domainId) ∧
      ∀ domainId ∈ graph.visitOrder before after,
        isAffected propagation.statuses domainId = true := by
  set start := graph.directStatuses before after with hstart
  have hsound : StatusSound graph start start := statusSound_start
  have hlength : (Text.sortedSet graph.ids).length ≤ graph.ids.length := by
    rw [Text.sortedSet, (List.perm_insertionSort _ _).length_eq]
    exact (List.dedup_sublist _).length_le
  have hfuel : (Text.sortedSet graph.ids).length +
      (3 * graph.ids.length - totalStatus graph start) ≤ graph.fuel := by
    rw [UsageGraph.fuel]
    omega
  obtain ⟨statuses, hrun⟩ :=
    Option.isSome_iff_exists.mp (raiseStatus_bounded.run_isSome hsound hfuel)
  have hprojected : Worklist.run graph.dependents raiseStatus graph.fuel (Text.sortedSet graph.ids)
      start = (graph.propagate before after).map Propagation.statuses :=
    passOn_projects.run_eq graph.fuel (Text.sortedSet graph.ids) { statuses := start, upstream := [] }
  rw [hrun] at hprojected
  obtain ⟨propagation, hpropagation, rfl⟩ := Option.map_eq_some_iff.mp hprojected.symm
  have hqueued : Worklist.Settled graph.dependents
      (fun domainId statuses => isAffected statuses domainId = true) Raised
      (Text.sortedSet graph.ids) start := by
    intro domainId haffected
    obtain ⟨status, hstatus, -⟩ := isAffected_iff.mp haffected
    exact .inl (Text.mem_sortedSet.mpr (hsound.mem hstatus))
  have hfinal := Worklist.run_keeps statusSound_keeps hsound hrun
  refine ⟨propagation, hpropagation, hfinal.known, ?_, upstreamLed_propagate hpropagation,
    fun domainId hvisited => affected_of_visited hrun hvisited⟩
  intro domainId status hstatus
  have hgreatest := isGreatest_of_raised hfinal
    (fun k t hk ht => raiseStatus_settles.run_done hsound hqueued hrun hk ht) hstatus
  simpa only [hstart, get?_directStatuses] using hgreatest

/-- The entries are the domains of the graph with what the propagation found. -/
theorem mem_domains {propagation : Propagation} {entry : UsageDomainImpact} :
    entry ∈ graph.nodes.filterMap (domainImpact before after propagation) →
      entry.domainId ∈ graph.ids ∧ propagation.statuses.get? entry.domainId = some entry.status ∧
        entry.upstreamDomainIds = propagation.upstreamOf entry.domainId := by
  intro hentry
  obtain ⟨node, hnode, himpact⟩ := List.mem_filterMap.mp hentry
  obtain ⟨status, hstatus, rfl⟩ := Option.map_eq_some_iff.mp himpact
  exact ⟨List.mem_map_of_mem hnode, hstatus, rfl⟩

theorem exists_entry {propagation : Propagation}
    (hknown : ∀ domainId, (propagation.statuses.get? domainId).isSome = true ↔ domainId ∈ graph.ids)
    {domainId : String} (hmem : domainId ∈ graph.ids) :
    ∃ entry ∈ graph.nodes.filterMap (domainImpact before after propagation),
      entry.domainId = domainId := by
  obtain ⟨status, hstatus⟩ := Option.isSome_iff_exists.mp ((hknown domainId).mpr hmem)
  obtain ⟨node, hnode, rfl⟩ := List.mem_map.mp hmem
  have himpact : domainImpact before after propagation node =
      some ⟨node.1, status, before.contractDigests.get? node.1, after.contractDigests.get? node.1,
        node.2, propagation.upstreamOf node.1⟩ := by
    rw [domainImpact, hstatus, Option.map_some]
  exact ⟨_, List.mem_filterMap.mpr ⟨node, hnode, himpact⟩, rfl⟩

end Analysis

/-! Three domains of which each depends on the next, in the order of their names. -/

section Example

private def dependingOn (domainIds : List String) : DomainGraph where
  scenarioIds := []
  routeIds := []
  stepIds := []
  capabilityIds := []
  actionCapabilityIds := []
  toolNames := []
  evidenceSourceIds := []
  directDependencyDomainIds := domainIds
  graphInvalid := false

private def chained : UsageGraph where
  nodes := [("accounts", dependingOn ["billing"]), ("billing", dependingOn ["catalog"]),
    ("catalog", dependingOn [])]
  unique := by simp [Table.Unique]

private def snapshotOf (packDigest : String) : UsageSnapshot where
  packDigest := packDigest
  toolSchemaDigest := "tools"
  testReportDigest := "tests"
  sourceSnapshotDigest := "sources"
  contractDigests := [("accounts", "a"), ("billing", "b"), ("catalog", "c")]
  capabilityIds := []
  toolSchemas := []
  evidenceDigests := []
  actionProofDigests := []

end Example
end CapabilityCompiler.Usage
