import CapabilityCompiler.Domains.Impact
import Mathlib.Algebra.Group.Action.Defs
import Mathlib.Algebra.Order.BigOperators.Group.Finset
import Mathlib.Logic.Relation

/-! Propagation computes the closure of the direct impacts under the dependencies. -/
namespace CapabilityCompiler.Domains
open Foundation Relation

/-! Dependencies. -/

def DependsOn (domainMap : DomainMap) (dependentId domainId : String) : Prop :=
  ∃ domain ∈ domainMap.domains, domain.id = dependentId ∧ domainId ∈ domain.dependencyDomainIds

section Dependencies
variable {domainMap : DomainMap} {dependentId domainId : String}

theorem mem_dependents :
    dependentId ∈ dependents domainMap domainId ↔ DependsOn domainMap dependentId domainId := by
  simp only [dependents, Text.mem_sortedSet, List.mem_map, List.mem_filter, decide_eq_true_eq,
    DependsOn]
  constructor
  · rintro ⟨domain, ⟨hmem, hdepends⟩, hid⟩
    exact ⟨domain, hmem, hid, hdepends⟩
  · rintro ⟨domain, hmem, hid, hdepends⟩
    exact ⟨domain, ⟨hmem, hdepends⟩, hid⟩

theorem DependsOn.dependent_mem (h : DependsOn domainMap dependentId domainId) :
    dependentId ∈ domainMap.ids := by
  obtain ⟨domain, hmem, rfl, -⟩ := h
  exact List.mem_toFinset.mpr (List.mem_map_of_mem hmem)

theorem DependsOn.mem (h : DependsOn domainMap dependentId domainId) : domainId ∈ domainMap.ids := by
  obtain ⟨domain, hmem, -, hdepends⟩ := h
  exact List.mem_toFinset.mpr (domainMap.known domain hmem hdepends)

theorem DependsOn.ne (h : DependsOn domainMap dependentId domainId) : dependentId ≠ domainId := by
  obtain ⟨domain, hmem, rfl, hdepends⟩ := h
  intro hsame
  have hself : domain.id ∈ domain.dependencyDomainIds := by rwa [← hsame] at hdepends
  exact domainMap.irreflexive domain hmem hself

theorem mem_ids_of_transGen (h : TransGen (DependsOn domainMap) dependentId domainId) :
    domainId ∈ domainMap.ids := by
  obtain ⟨_, -, hlast⟩ := TransGen.tail'_iff.mp h
  exact hlast.mem

end Dependencies

/-- An axis that was passed on once is passed on as it is. -/
theorem dependencyAxis_dependencyAxis (axis : String) :
    dependencyAxis (dependencyAxis axis) = dependencyAxis axis := by
  have hdrop : ∀ chars, Text.dropPrefix? "dependency:".toList ("dependency:".toList ++ chars) =
      some chars := by
    intro chars
    simp [Text.dropPrefix?]
  unfold dependencyAxis
  simp only [String.toList_append, String.toList_ofList, hdrop, Option.getD_some]

/-! What the direct impacts cause. -/

section Closure
variable (domainMap : DomainMap) (start : Impacts)

/-- A domain is affected if it depends, through any number of domains, on a direct impact. -/
def Affected (domainId : String) : Prop :=
  ∃ source, ReflTransGen (DependsOn domainMap) domainId source ∧ (start.get? source).isSome = true

/-- The evidence of the direct impacts that a domain depends on. -/
def Received (domainId evidenceRef : String) : Prop :=
  ∃ source impact, ReflTransGen (DependsOn domainMap) domainId source ∧
    start.get? source = some impact ∧ evidenceRef ∈ impact.evidenceRefs

/-- The axes of a direct impact, or those that are passed on to the domain. -/
def Secured (domainId axis : String) : Prop :=
  (∃ impact, start.get? domainId = some impact ∧ axis ∈ impact.securityAxes) ∨
    ∃ source impact passed, TransGen (DependsOn domainMap) domainId source ∧
      start.get? source = some impact ∧ passed ∈ impact.securityAxes ∧ dependencyAxis passed = axis

variable {domainMap start} {dependentId domainId : String}

theorem Affected.dependent (h : Affected domainMap start domainId)
    (hdepends : DependsOn domainMap dependentId domainId) :
    Affected domainMap start dependentId := by
  obtain ⟨source, hreaches, hdirect⟩ := h
  exact ⟨source, .head hdepends hreaches, hdirect⟩

theorem Received.dependent {evidenceRef : String} (h : Received domainMap start domainId evidenceRef)
    (hdepends : DependsOn domainMap dependentId domainId) :
    Received domainMap start dependentId evidenceRef := by
  obtain ⟨source, impact, hreaches, hdirect, hmem⟩ := h
  exact ⟨source, impact, .head hdepends hreaches, hdirect, hmem⟩

theorem Secured.dependent {axis : String} (h : Secured domainMap start domainId axis)
    (hdepends : DependsOn domainMap dependentId domainId) :
    Secured domainMap start dependentId (dependencyAxis axis) := by
  rcases h with ⟨impact, hdirect, hmem⟩ | ⟨source, impact, passed, hreaches, hdirect, hmem, rfl⟩
  · exact .inr ⟨domainId, impact, axis, .single hdepends, hdirect, hmem, rfl⟩
  · refine .inr ⟨source, impact, passed, .head hdepends hreaches, hdirect, hmem, ?_⟩
    rw [dependencyAxis_dependencyAxis]

end Closure

/-! The state of the propagation. -/

/-- The impact of a domain before anything is passed on to it. -/
def baseImpact (domainMap : DomainMap) (capabilities : Table String (Finset String))
    (start : Impacts) (domainId : String) : DomainImpact :=
  (start.get? domainId).getD (reachedImpact domainMap capabilities domainId)

/-- The impact is between what it was before anything was passed on and the closure. -/
structure Between (domainMap : DomainMap) (capabilities : Table String (Finset String))
    (start : Impacts) (domainId : String) (impact : DomainImpact) : Prop where
  affected : Affected domainMap start domainId
  direct : impact.direct = (baseImpact domainMap capabilities start domainId).direct
  candidateIds : impact.candidateIds = (baseImpact domainMap capabilities start domainId).candidateIds
  capabilityIds : impact.capabilityIds =
    (baseImpact domainMap capabilities start domainId).capabilityIds
  upstream : ∀ x ∈ impact.upstreamDomainIds,
    TransGen (DependsOn domainMap) domainId x ∧ Affected domainMap start x
  evidence : ∀ x ∈ impact.evidenceRefs, Received domainMap start domainId x
  axes : ∀ x ∈ impact.securityAxes, Secured domainMap start domainId x
  evidence_base : (baseImpact domainMap capabilities start domainId).evidenceRefs ⊆
    impact.evidenceRefs
  axes_base : (baseImpact domainMap capabilities start domainId).securityAxes ⊆ impact.securityAxes

/-- Every direct impact is kept, and every impact is between its base and the closure. -/
structure Sound (domainMap : DomainMap) (capabilities : Table String (Finset String))
    (start impacts : Impacts) : Prop where
  unique : impacts.Unique
  known : ∀ domainId impact, impacts.get? domainId = some impact → domainId ∈ domainMap.ids
  kept : ∀ domainId, (start.get? domainId).isSome = true → (impacts.get? domainId).isSome = true
  between : ∀ domainId impact, impacts.get? domainId = some impact →
    Between domainMap capabilities start domainId impact

/-- What the one domain passes on has arrived at the other. -/
def Arrived (changedId dependentId : String) (impacts : Impacts) : Prop :=
  ∀ changed, impacts.get? changedId = some changed →
    ∃ dependent, impacts.get? dependentId = some dependent ∧
      insert changedId changed.upstreamDomainIds ⊆ dependent.upstreamDomainIds ∧
      changed.evidenceRefs ⊆ dependent.evidenceRefs ∧
      changed.securityAxes.image dependencyAxis ⊆ dependent.securityAxes

section State
variable {domainMap : DomainMap} {capabilities : Table String (Finset String)} {start : Impacts}
  {changedId dependentId : String} {impacts : Impacts}

theorem passOn_of_some {changed : DomainImpact} (h : impacts.get? changedId = some changed) :
    passOn domainMap capabilities changedId dependentId impacts =
      (impacts.put dependentId (((impacts.get? dependentId).getD
          (reachedImpact domainMap capabilities dependentId)).receive changedId changed),
        (impacts.get? dependentId).isNone ||
          decide ((((impacts.get? dependentId).getD
            (reachedImpact domainMap capabilities dependentId)).receive changedId changed).sizes ≠
              ((impacts.get? dependentId).getD
                (reachedImpact domainMap capabilities dependentId)).sizes)) := by
  rw [passOn, h]

/-- A set that has received others and has not grown has not changed. -/
theorem receive_eq_of_sizes {dependent changed : DomainImpact}
    (h : (dependent.receive changedId changed).sizes = dependent.sizes) :
    dependent.receive changedId changed = dependent := by
  simp only [DomainImpact.sizes, DomainImpact.receive, Prod.mk.injEq] at h
  have hupstream := Finset.eq_of_subset_of_card_le Finset.subset_union_left h.1.le
  have hevidence := Finset.eq_of_subset_of_card_le Finset.subset_union_left h.2.1.le
  have haxes := Finset.eq_of_subset_of_card_le Finset.subset_union_left h.2.2.le
  simp only [DomainImpact.receive, ← hupstream, ← hevidence, ← haxes]

theorem between_reached (h : Affected domainMap start dependentId)
    (hnew : start.get? dependentId = none) :
    Between domainMap capabilities start dependentId
      (reachedImpact domainMap capabilities dependentId) := by
  have hbase : baseImpact domainMap capabilities start dependentId =
      reachedImpact domainMap capabilities dependentId := by rw [baseImpact, hnew, Option.getD_none]
  constructor
  · exact h
  · rw [hbase]
  · rw [hbase]
  · rw [hbase]
  · exact fun x hx => absurd hx (Finset.notMem_empty x)
  · exact fun x hx => absurd hx (Finset.notMem_empty x)
  · exact fun x hx => absurd hx (Finset.notMem_empty x)
  · rw [hbase]
  · rw [hbase]

theorem Between.receive {dependent changed : DomainImpact}
    (h : Between domainMap capabilities start dependentId dependent)
    (hchanged : Between domainMap capabilities start changedId changed)
    (hdepends : DependsOn domainMap dependentId changedId) :
    Between domainMap capabilities start dependentId (dependent.receive changedId changed) where
  affected := h.affected
  direct := h.direct
  candidateIds := h.candidateIds
  capabilityIds := h.capabilityIds
  upstream := by
    intro x hx
    rcases Finset.mem_union.mp hx with hmem | hnew
    · exact h.upstream x hmem
    · rcases Finset.mem_insert.mp hnew with rfl | hup
      · exact ⟨.single hdepends, hchanged.affected⟩
      · obtain ⟨hreaches, haffected⟩ := hchanged.upstream x hup
        exact ⟨.head hdepends hreaches, haffected⟩
  evidence := by
    intro x hx
    rcases Finset.mem_union.mp hx with hmem | hnew
    · exact h.evidence x hmem
    · exact (hchanged.evidence x hnew).dependent hdepends
  axes := by
    intro x hx
    rcases Finset.mem_union.mp hx with hmem | hnew
    · exact h.axes x hmem
    · obtain ⟨axis, haxis, rfl⟩ := Finset.mem_image.mp hnew
      exact (hchanged.axes axis haxis).dependent hdepends
  evidence_base := h.evidence_base.trans Finset.subset_union_left
  axes_base := h.axes_base.trans Finset.subset_union_left

theorem sound_keeps : Worklist.Keeps (dependents domainMap) (passOn domainMap capabilities)
    (Sound domainMap capabilities start) := by
  intro changedId dependentId impacts hdependent h
  have hdepends := mem_dependents.mp hdependent
  cases hfound : impacts.get? changedId with
  | none =>
    rw [passOn, hfound]
    exact h
  | some changed =>
    rw [passOn_of_some hfound]
    have hchanged := h.between changedId changed hfound
    have hbefore : Between domainMap capabilities start dependentId ((impacts.get? dependentId).getD
        (reachedImpact domainMap capabilities dependentId)) := by
      cases hold : impacts.get? dependentId with
      | some dependent => exact h.between dependentId dependent hold
      | none =>
        refine between_reached (hchanged.affected.dependent hdepends) ?_
        by_contra hsome
        have hkept := h.kept dependentId (Option.isSome_iff_ne_none.mpr hsome)
        rw [hold] at hkept
        exact absurd hkept (by simp)
    constructor
    · exact h.unique.put dependentId _
    · intro domainId impact himpact
      rw [Table.get?_put] at himpact
      split at himpact
      · rename_i hsame
        exact hsame ▸ hdepends.dependent_mem
      · exact h.known domainId impact himpact
    · intro domainId hdirect
      rw [Table.get?_put]
      split
      · rfl
      · exact h.kept domainId hdirect
    · intro domainId impact himpact
      rw [Table.get?_put] at himpact
      split at himpact
      · rename_i hsame
        rw [← Option.some.inj himpact, hsame]
        exact hbefore.receive hchanged hdepends
      · exact h.between domainId impact himpact

/-- The direct impacts themselves, which nothing has been passed on to. -/
theorem sound_start (hunique : start.Unique) (hknown : ∀ domainId impact, start.get? domainId = some impact →
      domainId ∈ domainMap.ids ∧ impact.upstreamDomainIds = ∅) :
    Sound domainMap capabilities start start where
  unique := hunique
  known domainId impact h := (hknown domainId impact h).1
  kept _ h := h
  between := by
    intro domainId impact h
    have hbase : baseImpact domainMap capabilities start domainId = impact := by
      rw [baseImpact, h, Option.getD_some]
    constructor
    · exact ⟨domainId, .refl, by rw [h, Option.isSome_some]⟩
    · rw [hbase]
    · rw [hbase]
    · rw [hbase]
    · intro x hx
      rw [(hknown domainId impact h).2] at hx
      exact absurd hx (Finset.notMem_empty x)
    · exact fun x hx => ⟨domainId, impact, .refl, h, hx⟩
    · exact fun x hx => .inl ⟨impact, h, hx⟩
    · rw [hbase]
    · rw [hbase]

end State

/-! The propagation comes to an end. -/

def DomainImpact.size (impact : DomainImpact) : ℕ :=
  1 + impact.upstreamDomainIds.card + impact.evidenceRefs.card + impact.securityAxes.card

def totalSize (domainMap : DomainMap) (impacts : Impacts) : ℕ :=
  ∑ domainId ∈ domainMap.ids, (impacts.get? domainId).elim 0 DomainImpact.size

section Termination
variable {domainMap : DomainMap} {capabilities : Table String (Finset String)} {start : Impacts}

theorem subset_foldr_union {α : Type} [DecidableEq α] {sets : List (Finset α)} {s : Finset α}
    (h : s ∈ sets) : s ⊆ sets.foldr (· ∪ ·) ∅ := by
  induction sets with
  | nil => exact absurd h List.not_mem_nil
  | cons first rest ih =>
    rcases List.mem_cons.mp h with rfl | hrest
    · exact Finset.subset_union_left
    · exact (ih hrest).trans Finset.subset_union_right

theorem Received.mem_allEvidence {domainId x : String} (h : Received domainMap start domainId x) :
    x ∈ allEvidence start := by
  obtain ⟨source, impact, -, hfound, hmem⟩ := h
  exact subset_foldr_union (List.mem_map_of_mem (Table.mem_of_get? hfound)) hmem

theorem Secured.mem_allAxes {domainId x : String} (h : Secured domainMap start domainId x) :
    x ∈ allAxes start := by
  rcases h with ⟨impact, hfound, hmem⟩ | ⟨source, impact, passed, -, hfound, hmem, rfl⟩
  · exact Finset.mem_union_left _
      (subset_foldr_union (List.mem_map_of_mem (Table.mem_of_get? hfound)) hmem)
  · exact Finset.mem_union_right _ (Finset.mem_image_of_mem _
      (subset_foldr_union (List.mem_map_of_mem (Table.mem_of_get? hfound)) hmem))

theorem Between.size_le {domainId : String} {impact : DomainImpact}
    (h : Between domainMap capabilities start domainId impact) :
    impact.size ≤ 1 + domainMap.ids.card + (allEvidence start).card + (allAxes start).card := by
  have hupstream : impact.upstreamDomainIds.card ≤ domainMap.ids.card :=
    Finset.card_le_card fun x hx => mem_ids_of_transGen (h.upstream x hx).1
  have hevidence : impact.evidenceRefs.card ≤ (allEvidence start).card :=
    Finset.card_le_card fun x hx => (h.evidence x hx).mem_allEvidence
  have haxes : impact.securityAxes.card ≤ (allAxes start).card :=
    Finset.card_le_card fun x hx => (h.axes x hx).mem_allAxes
  simp only [DomainImpact.size]
  omega

/-- Nothing is lost by receiving the impact of another domain. -/
theorem card_le_receive (dependent : DomainImpact) (changedId : String) (changed : DomainImpact) :
    dependent.upstreamDomainIds.card ≤
        (dependent.receive changedId changed).upstreamDomainIds.card ∧
      dependent.evidenceRefs.card ≤ (dependent.receive changedId changed).evidenceRefs.card ∧
      dependent.securityAxes.card ≤ (dependent.receive changedId changed).securityAxes.card := by
  refine ⟨?_, ?_, ?_⟩
  · exact Finset.card_le_card Finset.subset_union_left
  · exact Finset.card_le_card Finset.subset_union_left
  · exact Finset.card_le_card Finset.subset_union_left

theorem size_le_receive (dependent : DomainImpact) (changedId : String) (changed : DomainImpact) :
    dependent.size ≤ (dependent.receive changedId changed).size := by
  obtain ⟨hupstream, hevidence, haxes⟩ := card_le_receive dependent changedId changed
  simp only [DomainImpact.size]
  omega

theorem size_lt_receive {dependent changed : DomainImpact} {changedId : String}
    (h : (dependent.receive changedId changed).sizes ≠ dependent.sizes) :
    dependent.size < (dependent.receive changedId changed).size := by
  obtain ⟨hupstream, hevidence, haxes⟩ := card_le_receive dependent changedId changed
  simp only [DomainImpact.sizes, ne_eq, Prod.mk.injEq] at h
  simp only [DomainImpact.size]
  omega

/-- An update changes the size of its target only. -/
theorem totalSize_put {impacts : Impacts} {domainId : String} {impact : DomainImpact}
    (hle : (impacts.get? domainId).elim 0 DomainImpact.size ≤ impact.size) :
    totalSize domainMap impacts ≤ totalSize domainMap (impacts.put domainId impact) := by
  refine Finset.sum_le_sum fun other _ => ?_
  rw [Table.get?_put]
  split
  · rename_i hsame
    exact hsame ▸ hle
  · exact le_rfl

theorem totalSize_put_lt {impacts : Impacts} {domainId : String} {impact : DomainImpact}
    (hmem : domainId ∈ domainMap.ids)
    (hlt : (impacts.get? domainId).elim 0 DomainImpact.size < impact.size) :
    totalSize domainMap impacts < totalSize domainMap (impacts.put domainId impact) := by
  refine Finset.sum_lt_sum (fun other _ => ?_) ⟨domainId, hmem, ?_⟩
  · rw [Table.get?_put]
    split
    · rename_i hsame
      exact hsame ▸ hlt.le
    · exact le_rfl
  · rw [Table.get?_put_self]
    exact hlt

theorem passOn_bounded : Worklist.Bounded (dependents domainMap) (passOn domainMap capabilities)
    (Sound domainMap capabilities start) (totalSize domainMap) (growthBound domainMap start) where
  keeps := sound_keeps
  le_bound := by
    intro impacts h
    rw [growthBound, ← smul_eq_mul]
    refine Finset.sum_le_card_nsmul _ _ _ fun domainId _ => ?_
    cases hfound : impacts.get? domainId with
    | none => exact Nat.zero_le _
    | some impact => exact (h.between domainId impact hfound).size_le
  mono := by
    intro changedId dependentId impacts _ _
    cases hfound : impacts.get? changedId with
    | none =>
      rw [passOn, hfound]
    | some changed =>
      rw [passOn_of_some hfound]
      refine totalSize_put ?_
      cases impacts.get? dependentId with
      | none => exact Nat.zero_le _
      | some dependent => exact size_le_receive dependent changedId changed
  grows := by
    intro changedId dependentId impacts hdependent _ hchanged
    cases hfound : impacts.get? changedId with
    | none =>
      rw [passOn, hfound] at hchanged
      exact absurd hchanged (by simp)
    | some changed =>
      rw [passOn_of_some hfound] at hchanged ⊢
      refine totalSize_put_lt (mem_dependents.mp hdependent).dependent_mem ?_
      cases hold : impacts.get? dependentId with
      | none =>
        rw [Option.elim_none, DomainImpact.size]
        omega
      | some dependent =>
        rw [hold] at hchanged
        exact size_lt_receive (by simpa using hchanged)

end Termination

/-! The result. -/

section Result
variable {domainMap : DomainMap} {capabilities : Table String (Finset String)} {start : Impacts}

theorem passOn_settles : Worklist.Settles (dependents domainMap) (passOn domainMap capabilities)
    (Sound domainMap capabilities start)
    (fun domainId impacts => (impacts.get? domainId).isSome = true) Arrived where
  keeps := sound_keeps
  active_mono := by
    intro changedId dependentId impacts domainId hactive
    cases hfound : impacts.get? changedId with
    | none =>
      rw [passOn, hfound]
      exact hactive
    | some changed =>
      rw [passOn_of_some hfound, Table.get?_put]
      split
      · rfl
      · exact hactive
  active_of := by
    intro changedId dependentId impacts domainId hactive
    cases hfound : impacts.get? changedId with
    | none =>
      rw [passOn, hfound] at hactive
      exact .inl hactive
    | some changed =>
      rw [passOn_of_some hfound] at hactive ⊢
      rw [Table.get?_put] at hactive
      split at hactive
      · rename_i hsame
        subst hsame
        cases hold : impacts.get? domainId with
        | none => exact .inr ⟨rfl, rfl⟩
        | some dependent => exact .inl rfl
      · exact .inl hactive
  done := by
    intro changedId dependentId impacts hdependent _ hactive
    have hne := (mem_dependents.mp hdependent).ne
    obtain ⟨changed, hfound⟩ := Option.isSome_iff_exists.mp hactive
    right
    intro found hnow
    rw [passOn_of_some hfound] at hnow ⊢
    rw [Table.get?_put_of_ne hne.symm, hfound, Option.some.injEq] at hnow
    subst hnow
    exact ⟨_, Table.get?_put_self _ _ _, Finset.subset_union_right, Finset.subset_union_right,
      Finset.subset_union_right⟩
  done_mono := by
    intro changedId dependentId impacts k t _ _ hactive hdone
    cases hfound : impacts.get? changedId with
    | none =>
      rw [passOn, hfound]
      exact .inr hdone
    | some changed =>
      rw [passOn_of_some hfound]
      obtain ⟨known, hknown⟩ := Option.isSome_iff_exists.mp hactive
      obtain ⟨target, htarget, hupstream, hevidence, haxes⟩ := hdone known hknown
      -- The target of `k` has only grown.
      have hgrown : ∀ known', Arrived k t impacts → impacts.get? k = some known' →
          ∃ dependent, (impacts.put dependentId (((impacts.get? dependentId).getD
              (reachedImpact domainMap capabilities dependentId)).receive changedId changed)).get? t =
              some dependent ∧ insert k known'.upstreamDomainIds ⊆ dependent.upstreamDomainIds ∧
            known'.evidenceRefs ⊆ dependent.evidenceRefs ∧
            known'.securityAxes.image dependencyAxis ⊆ dependent.securityAxes := by
        intro known' _ hknown'
        obtain rfl := Option.some.inj (hknown.symm.trans hknown')
        rw [Table.get?_put]
        split
        · rename_i hsame
          subst hsame
          rw [htarget, Option.getD_some]
          exact ⟨_, rfl, hupstream.trans Finset.subset_union_left,
            hevidence.trans Finset.subset_union_left, haxes.trans Finset.subset_union_left⟩
        · exact ⟨target, htarget, hupstream, hevidence, haxes⟩
      by_cases hsame : dependentId = k
      · subst hsame
        by_cases hgrew : (known.receive changedId changed).sizes = known.sizes
        · right
          intro found hnow
          rw [Table.get?_put_self, hknown, Option.getD_some, receive_eq_of_sizes hgrew,
            Option.some.injEq] at hnow
          subst hnow
          exact hgrown known hdone hknown
        · left
          simp [hknown, hgrew]
      · right
        intro found hnow
        rw [Table.get?_put_of_ne (Ne.symm hsame)] at hnow
        exact hgrown found hdone hnow

section Arrived
variable {result : Impacts} {domainId : String}

/-- A dependent domain is affected and has everything that was passed on. -/
theorem exists_of_dependsOn
    (harrived : ∀ k t, (result.get? k).isSome = true → t ∈ dependents domainMap k → Arrived k t result)
    {changedId dependentId : String} {changed : DomainImpact}
    (hdepends : DependsOn domainMap dependentId changedId)
    (hchanged : result.get? changedId = some changed) :
    ∃ dependent, result.get? dependentId = some dependent ∧
      insert changedId changed.upstreamDomainIds ⊆ dependent.upstreamDomainIds ∧
      changed.evidenceRefs ⊆ dependent.evidenceRefs ∧
      changed.securityAxes.image dependencyAxis ⊆ dependent.securityAxes :=
  harrived changedId dependentId (by rw [hchanged, Option.isSome_some])
    (mem_dependents.mpr hdepends) changed hchanged

variable (hsound : Sound domainMap capabilities start result)
  (harrived : ∀ k t, (result.get? k).isSome = true → t ∈ dependents domainMap k → Arrived k t result)

include hsound

theorem kept_of_start {impact : DomainImpact} (hstart : start.get? domainId = some impact) :
    ∃ found, result.get? domainId = some found ∧ impact.evidenceRefs ⊆ found.evidenceRefs ∧
      impact.securityAxes ⊆ found.securityAxes := by
  obtain ⟨found, hfound⟩ :=
    Option.isSome_iff_exists.mp (hsound.kept domainId (by rw [hstart, Option.isSome_some]))
  have hbetween := hsound.between domainId found hfound
  have hbase : baseImpact domainMap capabilities start domainId = impact := by
    rw [baseImpact, hstart, Option.getD_some]
  have hevidence := hbetween.evidence_base
  have haxes := hbetween.axes_base
  rw [hbase] at hevidence haxes
  exact ⟨found, hfound, hevidence, haxes⟩

include harrived

theorem received_of_start {source : String} {impact : DomainImpact}
    (hreaches : ReflTransGen (DependsOn domainMap) domainId source)
    (hstart : start.get? source = some impact) :
    ∃ found, result.get? domainId = some found ∧ impact.evidenceRefs ⊆ found.evidenceRefs := by
  induction hreaches using ReflTransGen.head_induction_on with
  | refl =>
    obtain ⟨found, hfound, hevidence, -⟩ := kept_of_start hsound hstart
    exact ⟨found, hfound, hevidence⟩
  | head hdepends _ ih =>
    obtain ⟨changed, hchanged, hmem⟩ := ih
    obtain ⟨dependent, hdependent, -, hevidence, -⟩ :=
      exists_of_dependsOn harrived hdepends hchanged
    exact ⟨dependent, hdependent, hmem.trans hevidence⟩

theorem upstream_of_affected {x : String} (hreaches : TransGen (DependsOn domainMap) domainId x)
    (haffected : Affected domainMap start x) :
    ∃ found, result.get? domainId = some found ∧ x ∈ found.upstreamDomainIds := by
  obtain ⟨source, hsource, hdirect⟩ := haffected
  obtain ⟨impact, hstart⟩ := Option.isSome_iff_exists.mp hdirect
  obtain ⟨reached, hreached, -⟩ := received_of_start hsound harrived hsource hstart
  induction hreaches using TransGen.head_induction_on with
  | single hdepends =>
    obtain ⟨dependent, hdependent, hupstream, -, -⟩ :=
      exists_of_dependsOn harrived hdepends hreached
    exact ⟨dependent, hdependent, hupstream (Finset.mem_insert_self _ _)⟩
  | head hdepends _ ih =>
    obtain ⟨changed, hchanged, hmem⟩ := ih
    obtain ⟨dependent, hdependent, hupstream, -, -⟩ :=
      exists_of_dependsOn harrived hdepends hchanged
    exact ⟨dependent, hdependent, hupstream (Finset.mem_insert_of_mem hmem)⟩

theorem secured_of_start {source passed : String} {impact : DomainImpact}
    (hreaches : TransGen (DependsOn domainMap) domainId source)
    (hstart : start.get? source = some impact) (hpassed : passed ∈ impact.securityAxes) :
    ∃ found, result.get? domainId = some found ∧ dependencyAxis passed ∈ found.securityAxes := by
  obtain ⟨first, hfirst, -, haxes⟩ := kept_of_start hsound hstart
  induction hreaches using TransGen.head_induction_on with
  | single hdepends =>
    obtain ⟨dependent, hdependent, -, -, himage⟩ := exists_of_dependsOn harrived hdepends hfirst
    exact ⟨dependent, hdependent, himage (Finset.mem_image_of_mem _ (haxes hpassed))⟩
  | head hdepends _ ih =>
    obtain ⟨changed, hchanged, hmem⟩ := ih
    obtain ⟨dependent, hdependent, -, -, himage⟩ := exists_of_dependsOn harrived hdepends hchanged
    have hagain := himage (Finset.mem_image_of_mem dependencyAxis hmem)
    rw [dependencyAxis_dependencyAxis] at hagain
    exact ⟨dependent, hdependent, hagain⟩

end Arrived

/-- The direct impacts with everything that they cause. -/
structure IsClosure (domainMap : DomainMap) (capabilities : Table String (Finset String))
    (start result : Impacts) : Prop where
  unique : result.Unique
  known : ∀ domainId impact, result.get? domainId = some impact → domainId ∈ domainMap.ids
  affected : ∀ domainId, (result.get? domainId).isSome = true ↔ Affected domainMap start domainId
  direct : ∀ domainId impact, result.get? domainId = some impact →
    impact.direct = (baseImpact domainMap capabilities start domainId).direct
  candidateIds : ∀ domainId impact, result.get? domainId = some impact →
    impact.candidateIds = (baseImpact domainMap capabilities start domainId).candidateIds
  capabilityIds : ∀ domainId impact, result.get? domainId = some impact →
    impact.capabilityIds = (baseImpact domainMap capabilities start domainId).capabilityIds
  upstream : ∀ domainId impact, result.get? domainId = some impact → ∀ x,
    x ∈ impact.upstreamDomainIds ↔
      TransGen (DependsOn domainMap) domainId x ∧ Affected domainMap start x
  evidence : ∀ domainId impact, result.get? domainId = some impact → ∀ x,
    x ∈ impact.evidenceRefs ↔ Received domainMap start domainId x
  axes : ∀ domainId impact, result.get? domainId = some impact → ∀ x,
    x ∈ impact.securityAxes ↔ Secured domainMap start domainId x

theorem isClosure_of_arrived {result : Impacts} (hsound : Sound domainMap capabilities start result)
    (harrived : ∀ k t, (result.get? k).isSome = true → t ∈ dependents domainMap k →
      Arrived k t result) : IsClosure domainMap capabilities start result where
  unique := hsound.unique
  known := hsound.known
  affected := by
    intro domainId
    constructor
    · intro hactive
      obtain ⟨impact, hfound⟩ := Option.isSome_iff_exists.mp hactive
      exact (hsound.between domainId impact hfound).affected
    · rintro ⟨source, hreaches, hdirect⟩
      obtain ⟨impact, hstart⟩ := Option.isSome_iff_exists.mp hdirect
      obtain ⟨found, hfound, -⟩ := received_of_start hsound harrived hreaches hstart
      rw [hfound, Option.isSome_some]
  direct domainId impact h := (hsound.between domainId impact h).direct
  candidateIds domainId impact h := (hsound.between domainId impact h).candidateIds
  capabilityIds domainId impact h := (hsound.between domainId impact h).capabilityIds
  upstream := by
    intro domainId impact h x
    refine ⟨(hsound.between domainId impact h).upstream x, fun ⟨hreaches, haffected⟩ => ?_⟩
    obtain ⟨found, hfound, hmem⟩ := upstream_of_affected hsound harrived hreaches haffected
    obtain rfl := Option.some.inj (hfound.symm.trans h)
    exact hmem
  evidence := by
    intro domainId impact h x
    refine ⟨(hsound.between domainId impact h).evidence x, ?_⟩
    rintro ⟨source, first, hreaches, hstart, hmem⟩
    obtain ⟨found, hfound, hevidence⟩ := received_of_start hsound harrived hreaches hstart
    obtain rfl := Option.some.inj (hfound.symm.trans h)
    exact hevidence hmem
  axes := by
    intro domainId impact h x
    refine ⟨(hsound.between domainId impact h).axes x, ?_⟩
    rintro (⟨first, hstart, hmem⟩ | ⟨source, first, passed, hreaches, hstart, hmem, rfl⟩)
    · obtain ⟨found, hfound, -, haxes⟩ := kept_of_start hsound hstart
      obtain rfl := Option.some.inj (hfound.symm.trans h)
      exact haxes hmem
    · obtain ⟨found, hfound, hpassed⟩ := secured_of_start hsound harrived hreaches hstart hmem
      obtain rfl := Option.some.inj (hfound.symm.trans h)
      exact hpassed

/-- In whatever order dependents and queue are listed, the propagation ends with the closure. -/
theorem run_closure {listed : String → List String} {queue : List String}
    (hlisted : ∀ k t, t ∈ listed k ↔ t ∈ dependents domainMap k)
    (hqueue : ∀ k, k ∈ queue ↔ k ∈ start.map Prod.fst) (hunique : start.Unique)
    (hknown : ∀ domainId impact, start.get? domainId = some impact →
      domainId ∈ domainMap.ids ∧ impact.upstreamDomainIds = ∅) :
    ∃ result, Worklist.run listed (passOn domainMap capabilities)
        (queue.length + growthBound domainMap start) queue start = some result ∧
      IsClosure domainMap capabilities start result := by
  have hsub : ∀ k, listed k ⊆ dependents domainMap k := fun k t ht => (hlisted k t).mp ht
  have hstart : Sound domainMap capabilities start start := sound_start hunique hknown
  have hends := (passOn_bounded.of_subset hsub).run_isSome hstart
    (Nat.add_le_add_left (Nat.sub_le _ _) queue.length)
  obtain ⟨result, hrun⟩ := Option.isSome_iff_exists.mp hends
  have hqueued : Worklist.Settled listed
      (fun domainId impacts => (impacts.get? domainId).isSome = true) Arrived queue start := by
    intro domainId hactive
    obtain ⟨impact, hfound⟩ := Option.isSome_iff_exists.mp hactive
    exact .inl ((hqueue domainId).mpr (List.mem_map_of_mem (Table.mem_of_get? hfound)))
  refine ⟨result, hrun, isClosure_of_arrived
    (Worklist.run_keeps (sound_keeps.of_subset hsub) hstart hrun) fun k t hk ht => ?_⟩
  exact (passOn_settles.of_subset hsub).run_done hstart hqueued hrun hk ((hlisted k t).mpr ht)

/-- The propagation ends, with the closure of the direct impacts. -/
theorem propagateDependencies_closure (hunique : start.Unique)
    (hknown : ∀ domainId impact, start.get? domainId = some impact →
      domainId ∈ domainMap.ids ∧ impact.upstreamDomainIds = ∅) :
    ∃ result, propagateDependencies domainMap capabilities start = some result ∧
      IsClosure domainMap capabilities start result :=
  run_closure (fun _ _ => Iff.rfl) (fun _ => Text.mem_sortedSet) hunique hknown

end Result
end CapabilityCompiler.Domains
