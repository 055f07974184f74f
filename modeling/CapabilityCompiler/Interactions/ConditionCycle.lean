import CapabilityCompiler.Foundation.Elimination
import CapabilityCompiler.Foundation.Table
import CapabilityCompiler.Foundation.Text
import CapabilityCompiler.Interactions.Expressions

/-! The check for cycles among conditions: targets without a reference to a target that remains are
completed one by one. -/
namespace CapabilityCompiler.Interactions
open Foundation Relation

abbrev Graph := Table String (Finset String)

def Graph.nodes (graph : Graph) : Finset String := (graph.map Prod.fst).toFinset

def targetsOf (conditions : List InteractionCondition) : Finset String :=
  (conditions.map (·.targetPointer)).toFinset

def referencedTargets (targets : Finset String) (condition : InteractionCondition) :
    Finset String :=
  (iterConditionReferences condition.expression).toFinset ∩ targets

/-- One entry for each target: a later condition on a target replaces an earlier one. -/
def conditionGraph (conditions : List InteractionCondition) : Graph :=
  conditions.foldl (fun graph condition =>
    graph.put condition.targetPointer (referencedTargets (targetsOf conditions) condition)) []

/-- The targets that the completed one leaves without references. -/
def newlyReady (completed : String) (remaining : Graph) : List String :=
  (remaining.filter fun entry =>
    decide (completed ∈ entry.2 ∧ entry.2.erase completed = ∅)).map Prod.fst

/-- Complete ready targets until there is none. -/
def completeTargets : ℕ → List String → Graph → Option Graph
  | _, [], remaining => some remaining
  | 0, _ :: _, _ => none
  | fuel + 1, completed :: ready, remaining =>
    let others := Table.erase completed remaining
    completeTargets fuel (Text.sortedSet (ready ++ newlyReady completed others))
      (Table.mapValues (·.erase completed) others)

/-- Whether a target remains when no more can be completed. -/
def hasConditionCycle (conditions : List InteractionCondition) : Option Bool :=
  let graph := conditionGraph conditions
  let ready := ((graph.filter fun entry => decide (entry.2 = ∅)).map Prod.fst).insertionSort (· ≤ ·)
  (completeTargets graph.length ready graph).map fun remaining => !remaining.isEmpty

/-! The loop. -/

/-- A target needs another one in the graph. -/
def Needs (graph : Graph) (target other : String) : Prop :=
  ∃ edges, graph.get? target = some edges ∧ other ∈ edges

/-- The remaining targets keep their references to each other, and those without one are ready. -/
structure Completing (graph : Graph) (ready : List String) (remaining : Graph) : Prop where
  unique : remaining.Unique
  nodup : ready.Nodup
  edges : ∀ entry ∈ remaining, ∀ other,
    other ∈ entry.2 ↔ other ∈ remaining.nodes ∧ Needs graph entry.1 other
  ready : ∀ target, target ∈ ready ↔ (target, (∅ : Finset String)) ∈ remaining

section Loop
variable {graph remaining : Graph} {ready : List String} {completed : String}

theorem Graph.mem_nodes {target : String} :
    target ∈ graph.nodes ↔ ∃ edges, (target, edges) ∈ graph := by
  simp [Graph.nodes]

theorem mem_completed {entry : String × Finset String} :
    entry ∈ Table.mapValues (·.erase completed) (Table.erase completed remaining) ↔
      ∃ edges, (entry.1, edges) ∈ remaining ∧ entry.1 ≠ completed ∧ entry.2 = edges.erase completed := by
  simp only [Table.mapValues, Table.erase, List.mem_map, List.mem_filter, decide_eq_true_eq]
  constructor
  · rintro ⟨⟨target, edges⟩, ⟨hmem, hne⟩, rfl⟩
    exact ⟨edges, hmem, hne, rfl⟩
  · rintro ⟨edges, hmem, hne, hedges⟩
    exact ⟨(entry.1, edges), ⟨hmem, hne⟩, by rw [← hedges]⟩

theorem nodes_completed :
    Graph.nodes (Table.mapValues (·.erase completed) (Table.erase completed remaining)) =
      remaining.nodes \ {completed} := by
  ext target
  rw [Finset.mem_sdiff, Finset.mem_singleton, Graph.mem_nodes, Graph.mem_nodes]
  constructor
  · rintro ⟨edges, hmem⟩
    obtain ⟨before, hbefore, hne, -⟩ := mem_completed.mp hmem
    exact ⟨⟨before, hbefore⟩, hne⟩
  · rintro ⟨⟨edges, hmem⟩, hne⟩
    exact ⟨_, mem_completed.mpr ⟨edges, hmem, hne, rfl⟩⟩

theorem mem_newlyReady {target : String} :
    target ∈ newlyReady completed (Table.erase completed remaining) ↔
      ∃ edges, (target, edges) ∈ remaining ∧ target ≠ completed ∧ completed ∈ edges ∧
        edges.erase completed = ∅ := by
  simp only [newlyReady, Table.erase, List.mem_map, List.mem_filter, decide_eq_true_eq]
  constructor
  · rintro ⟨⟨other, edges⟩, ⟨⟨hmem, hne⟩, hlast, hempty⟩, rfl⟩
    exact ⟨edges, hmem, hne, hlast, hempty⟩
  · rintro ⟨edges, hmem, hne, hlast, hempty⟩
    exact ⟨(target, edges), ⟨⟨hmem, hne⟩, hlast, hempty⟩, rfl⟩

/-- A round keeps the invariant. -/
theorem Completing.step (h : Completing graph (completed :: ready) remaining) :
    Completing graph (Text.sortedSet (ready ++ newlyReady completed (Table.erase completed remaining)))
      (Table.mapValues (·.erase completed) (Table.erase completed remaining)) where
  unique := (h.unique.filter _).mapValues _
  nodup := Text.nodup_sortedSet _
  edges := by
    intro entry hentry other
    obtain ⟨edges, hmem, hne, hedges⟩ := mem_completed.mp hentry
    rw [hedges, Finset.mem_erase, nodes_completed, Finset.mem_sdiff, Finset.mem_singleton,
      h.edges _ hmem other]
    constructor
    · rintro ⟨hother, hnode, hneeds⟩
      exact ⟨⟨hnode, hother⟩, hneeds⟩
    · rintro ⟨⟨hnode, hother⟩, hneeds⟩
      exact ⟨hother, hnode, hneeds⟩
  ready := by
    intro target
    rw [Text.mem_sortedSet, List.mem_append, mem_newlyReady, mem_completed]
    obtain ⟨hfresh, -⟩ := List.nodup_cons.mp h.nodup
    constructor
    · rintro (hready | ⟨edges, hmem, hne, -, hempty⟩)
      · have hmem := (h.ready target).mp (List.mem_cons_of_mem _ hready)
        have hne : target ≠ completed := by
          rintro rfl
          exact hfresh hready
        exact ⟨∅, hmem, hne, rfl⟩
      · exact ⟨edges, hmem, hne, hempty.symm⟩
    · rintro ⟨edges, hmem, hne, hempty⟩
      by_cases hlast : completed ∈ edges
      · exact .inr ⟨edges, hmem, hne, hlast, hempty.symm⟩
      · rw [Finset.erase_eq_of_notMem hlast] at hempty
        subst hempty
        have hready := (h.ready target).mpr hmem
        exact .inl ((List.mem_cons.mp hready).resolve_left hne)

theorem Completing.completed_mem (h : Completing graph (completed :: ready) remaining) :
    (completed, (∅ : Finset String)) ∈ remaining := (h.ready completed).mp List.mem_cons_self

/-- The completed target needs none that remains. -/
theorem Completing.free (h : Completing graph (completed :: ready) remaining) {other : String}
    (hother : other ∈ remaining.nodes) : ¬ Needs graph completed other := by
  intro hneeds
  have hmem := (h.edges _ h.completed_mem other).mpr ⟨hother, hneeds⟩
  exact Finset.notMem_empty other hmem

theorem Completing.length_lt (h : Completing graph (completed :: ready) remaining) :
    (Table.mapValues (·.erase completed) (Table.erase completed remaining) : Graph).length <
      remaining.length := by
  rw [Table.length_mapValues]
  exact List.length_filter_lt_length_iff_exists.mpr ⟨_, h.completed_mem, by simp⟩

/-- The loop ends with targets that are stuck. -/
theorem Completing.completeTargets_leaves {fuel : ℕ} (h : Completing graph ready remaining)
    (hfuel : remaining.length ≤ fuel) :
    ∃ rest, completeTargets fuel ready remaining = some rest ∧
      Elimination.Leaves (Needs graph) remaining.nodes rest.nodes ∧
      Elimination.Stuck (Needs graph) rest.nodes := by
  induction fuel generalizing ready remaining with
  | zero =>
    obtain rfl : remaining = [] := List.length_eq_zero_iff.mp (by omega)
    cases ready with
    | nil => exact ⟨[], rfl, .all _, fun a ha => absurd ha (by simp [Graph.nodes])⟩
    | cons completed ready => exact absurd h.completed_mem List.not_mem_nil
  | succ fuel ih =>
    cases ready with
    | nil =>
      refine ⟨remaining, by rw [completeTargets], .all _, fun target htarget => ?_⟩
      obtain ⟨edges, hmem⟩ := Graph.mem_nodes.mp htarget
      have hnonempty : edges.Nonempty := by
        rw [Finset.nonempty_iff_ne_empty]
        rintro rfl
        exact absurd ((h.ready target).mpr hmem) List.not_mem_nil
      obtain ⟨other, hother⟩ := hnonempty
      obtain ⟨hnode, hneeds⟩ := (h.edges _ hmem other).mp hother
      exact ⟨other, hnode, hneeds⟩
    | cons completed ready =>
      have hshorter := h.length_lt
      obtain ⟨rest, hrest, hleaves, hstuck⟩ := ih h.step (by omega)
      rw [nodes_completed] at hleaves
      refine ⟨rest, hrest, .remove {completed} (fun a ha other hother => ?_) hleaves, hstuck⟩
      rw [Finset.mem_singleton.mp ha]
      exact h.free hother

end Loop

/-! The graph. -/

/-- A target requires every target that one of its conditions refers to. -/
def Requires (conditions : List InteractionCondition) (target other : String) : Prop :=
  ∃ condition ∈ conditions, condition.targetPointer = target ∧
    other ∈ iterConditionReferences condition.expression ∧ other ∈ targetsOf conditions

/-- No later condition has the same target. -/
def LastOnTarget (conditions : List InteractionCondition) (condition : InteractionCondition) :
    Prop :=
  ∃ before after, conditions = before ++ condition :: after ∧
    ∀ later ∈ after, later.targetPointer ≠ condition.targetPointer

/-- What the last conditions of the targets refer to. -/
def RequiresLast (conditions : List InteractionCondition) (target other : String) : Prop :=
  ∃ condition, LastOnTarget conditions condition ∧ condition.targetPointer = target ∧
    other ∈ iterConditionReferences condition.expression ∧ other ∈ targetsOf conditions

def Cyclic (edge : String → String → Prop) : Prop := ∃ target, TransGen edge target target

section Graph
variable {conditions : List InteractionCondition} {condition : InteractionCondition}

theorem LastOnTarget.mem (h : LastOnTarget conditions condition) : condition ∈ conditions := by
  obtain ⟨before, after, rfl, -⟩ := h
  exact List.mem_append_right _ List.mem_cons_self

theorem lastOnTarget_concat {last : InteractionCondition} :
    LastOnTarget (conditions ++ [last]) condition ↔
      condition = last ∨
        LastOnTarget conditions condition ∧ last.targetPointer ≠ condition.targetPointer := by
  constructor
  · rintro ⟨before, after, hsplit, hlater⟩
    rcases List.eq_nil_or_concat after with rfl | ⟨after, final, rfl⟩
    · exact .inl (List.singleton_inj.mp (List.append_inj' hsplit rfl).2).symm
    · rw [List.concat_eq_append] at hlater hsplit
      rw [← List.cons_append, ← List.append_assoc] at hsplit
      obtain ⟨hconditions, hfinal⟩ := List.append_inj' hsplit rfl
      obtain rfl := List.singleton_inj.mp hfinal
      exact .inr ⟨⟨before, after, hconditions, fun later h =>
        hlater later (List.mem_append_left _ h)⟩, hlater last (by simp)⟩
  · rintro (rfl | ⟨⟨before, after, rfl, hlater⟩, hne⟩)
    · exact ⟨conditions, [], rfl, fun _ h => absurd h List.not_mem_nil⟩
    · refine ⟨before, after ++ [last], by simp, fun later h => ?_⟩
      rcases List.mem_append.mp h with h | h
      · exact hlater later h
      · rw [List.mem_singleton.mp h]
        exact hne

/-- Every target has a last condition. -/
theorem exists_lastOnTarget (h : condition ∈ conditions) :
    ∃ last, LastOnTarget conditions last ∧ last.targetPointer = condition.targetPointer := by
  induction conditions using List.reverseRecOn with
  | nil => exact absurd h List.not_mem_nil
  | append_singleton conditions final ih =>
    by_cases hfinal : final.targetPointer = condition.targetPointer
    · exact ⟨final, lastOnTarget_concat.mpr (.inl rfl), hfinal⟩
    · have hmem : condition ∈ conditions := by
        rcases List.mem_append.mp h with h | h
        · exact h
        · exact absurd (by rw [List.mem_singleton.mp h]) hfinal
      obtain ⟨last, hlast, htarget⟩ := ih hmem
      refine ⟨last, lastOnTarget_concat.mpr (.inr ⟨hlast, ?_⟩), htarget⟩
      rw [htarget]
      exact hfinal

/-- The entry of a target is made from its last condition. -/
theorem get?_foldl_put (targets : Finset String) {target : String} {edges : Finset String} :
    Table.get? target (conditions.foldl (fun graph condition =>
        graph.put condition.targetPointer (referencedTargets targets condition)) []) = some edges ↔
      ∃ condition, LastOnTarget conditions condition ∧ condition.targetPointer = target ∧
        edges = referencedTargets targets condition := by
  induction conditions using List.reverseRecOn with
  | nil =>
    simp only [List.foldl_nil, Table.get?_nil, reduceCtorEq, false_iff]
    rintro ⟨condition, hlast, -⟩
    exact List.not_mem_nil hlast.mem
  | append_singleton conditions final ih =>
    rw [List.foldl_append, List.foldl_cons, List.foldl_nil, Table.get?_put]
    split
    · rename_i htarget
      rw [Option.some.injEq]
      constructor
      · rintro rfl
        exact ⟨final, lastOnTarget_concat.mpr (.inl rfl), htarget.symm, rfl⟩
      · rintro ⟨condition, hlast, rfl, rfl⟩
        rcases lastOnTarget_concat.mp hlast with rfl | ⟨-, hne⟩
        · rfl
        · exact absurd htarget.symm hne
    · rename_i htarget
      rw [ih]
      constructor
      · rintro ⟨condition, hlast, rfl, hedges⟩
        exact ⟨condition, lastOnTarget_concat.mpr (.inr ⟨hlast, Ne.symm htarget⟩), rfl, hedges⟩
      · rintro ⟨condition, hlast, rfl, hedges⟩
        rcases lastOnTarget_concat.mp hlast with rfl | ⟨hlast, -⟩
        · exact absurd rfl htarget
        · exact ⟨condition, hlast, rfl, hedges⟩

theorem needs_conditionGraph {target other : String} :
    Needs (conditionGraph conditions) target other ↔ RequiresLast conditions target other := by
  simp only [Needs, conditionGraph, get?_foldl_put, RequiresLast]
  constructor
  · rintro ⟨edges, ⟨condition, hlast, htarget, rfl⟩, hmem⟩
    obtain ⟨hreference, hother⟩ := Finset.mem_inter.mp hmem
    exact ⟨condition, hlast, htarget, List.mem_toFinset.mp hreference, hother⟩
  · rintro ⟨condition, hlast, htarget, hreference, hother⟩
    exact ⟨_, ⟨condition, hlast, htarget, rfl⟩,
      Finset.mem_inter.mpr ⟨List.mem_toFinset.mpr hreference, hother⟩⟩

theorem unique_conditionGraph (conditions : List InteractionCondition) :
    (conditionGraph conditions).Unique := by
  unfold conditionGraph
  generalize targetsOf conditions = targets
  induction conditions using List.reverseRecOn with
  | nil => exact List.nodup_nil
  | append_singleton conditions final ih =>
    rw [List.foldl_append, List.foldl_cons, List.foldl_nil]
    exact ih.put _ _

theorem nodes_conditionGraph (conditions : List InteractionCondition) :
    (conditionGraph conditions).nodes = targetsOf conditions := by
  have hunique := unique_conditionGraph conditions
  ext target
  rw [Graph.mem_nodes, targetsOf, List.mem_toFinset, List.mem_map]
  constructor
  · rintro ⟨edges, hmem⟩
    obtain ⟨condition, hlast, htarget, -⟩ := (get?_foldl_put _).mp (Table.get?_of_mem hunique hmem)
    exact ⟨condition, hlast.mem, htarget⟩
  · rintro ⟨condition, hmem, rfl⟩
    obtain ⟨last, hlast, htarget⟩ := exists_lastOnTarget hmem
    exact ⟨_, Table.mem_of_get? ((get?_foldl_put _).mpr ⟨last, hlast, htarget, rfl⟩)⟩

theorem completing_start (conditions : List InteractionCondition) :
    Completing (conditionGraph conditions)
      ((((conditionGraph conditions).filter fun entry => decide (entry.2 = ∅)).map
        Prod.fst).insertionSort (· ≤ ·)) (conditionGraph conditions) where
  unique := unique_conditionGraph conditions
  nodup := by
    rw [(List.perm_insertionSort _ _).nodup_iff]
    exact (unique_conditionGraph conditions).filter _
  edges := by
    intro entry hentry other
    rw [nodes_conditionGraph]
    have hfound := Table.get?_of_mem (unique_conditionGraph conditions) hentry
    constructor
    · intro hmem
      have hneeds : Needs (conditionGraph conditions) entry.1 other := ⟨entry.2, hfound, hmem⟩
      obtain ⟨-, -, -, -, hother⟩ := needs_conditionGraph.mp hneeds
      exact ⟨hother, hneeds⟩
    · rintro ⟨-, edges, hedges, hmem⟩
      obtain rfl := Option.some.inj (hedges.symm.trans hfound)
      exact hmem
  ready := by
    intro target
    rw [List.mem_insertionSort, List.mem_map]
    constructor
    · rintro ⟨⟨target, edges⟩, hmem, rfl⟩
      obtain ⟨hmem, hempty⟩ := List.mem_filter.mp hmem
      obtain rfl := of_decide_eq_true hempty
      exact hmem
    · intro hmem
      exact ⟨(target, ∅), List.mem_filter.mpr ⟨hmem, by simp⟩, rfl⟩

/-- The check always ends, and finds the cycles of the last conditions. -/
theorem hasConditionCycle_iff (conditions : List InteractionCondition) :
    ∃ found, hasConditionCycle conditions = some found ∧
      (found = true ↔ Cyclic (RequiresLast conditions)) := by
  obtain ⟨rest, hrest, hleaves, hstuck⟩ :=
    (completing_start conditions).completeTargets_leaves (Nat.le_refl _)
  refine ⟨!rest.isEmpty, by simp only [hasConditionCycle, hrest, Option.map_some], ?_⟩
  have hclosed : ∀ a b, Needs (conditionGraph conditions) a b →
      b ∈ (conditionGraph conditions).nodes := by
    intro a b hneeds
    obtain ⟨-, -, -, -, hother⟩ := needs_conditionGraph.mp hneeds
    rw [nodes_conditionGraph]
    exact hother
  have hnonempty : (!rest.isEmpty) = true ↔ rest.nodes.Nonempty := by
    cases rest with
    | nil => simp [Graph.nodes]
    | cons entry rest => simp [Graph.nodes]
  have hsame : Needs (conditionGraph conditions) = RequiresLast conditions := by
    ext target other
    exact needs_conditionGraph
  rw [hnonempty, hleaves.nonempty_iff hclosed hstuck, hsame]
  rfl

/-- A cycle of the last conditions is a cycle of all conditions. -/
theorem Cyclic.of_last (h : Cyclic (RequiresLast conditions)) : Cyclic (Requires conditions) := by
  obtain ⟨target, hcycle⟩ := h
  refine ⟨target, hcycle.lift id fun a b hlast => ?_⟩
  obtain ⟨condition, hlast, htarget, hreference, hother⟩ := hlast
  exact ⟨condition, hlast.mem, htarget, hreference, hother⟩

/-- Where no two conditions share a target, every condition is the last one on its target. -/
theorem requiresLast_of_nodup (h : (conditions.map (·.targetPointer)).Nodup) :
    RequiresLast conditions = Requires conditions := by
  ext target other
  constructor
  · rintro ⟨condition, hlast, htarget, hreference, hother⟩
    exact ⟨condition, hlast.mem, htarget, hreference, hother⟩
  · rintro ⟨condition, hmem, htarget, hreference, hother⟩
    obtain ⟨last, hlast, hsame⟩ := exists_lastOnTarget hmem
    obtain rfl := List.inj_on_of_nodup_map h hlast.mem hmem hsame
    exact ⟨last, hlast, htarget, hreference, hother⟩

end Graph

/-- The check is exact exactly if, where there is a cycle, there is one through the last conditions
of the targets. -/
theorem exact_iff_cyclic_last (conditions : List InteractionCondition) :
    (∃ found, hasConditionCycle conditions = some found ∧
        (found = true ↔ Cyclic (Requires conditions))) ↔
      (Cyclic (Requires conditions) → Cyclic (RequiresLast conditions)) := by
  obtain ⟨found, hfound, hiff⟩ := hasConditionCycle_iff conditions
  constructor
  · rintro ⟨answer, hanswer, hexact⟩ hcyclic
    obtain rfl := Option.some.inj (hanswer.symm.trans hfound)
    exact hiff.mp (hexact.mpr hcyclic)
  · intro hlast
    exact ⟨found, hfound, fun h => (hiff.mp h).of_last, fun h => hiff.mpr (hlast h)⟩

private def presentIf (pointer : String) : ConditionExpression := .present (.reference pointer)

/-- A field that is required if it is present itself, and visible if another one is present. -/
private def requiredAndVisible : List InteractionCondition :=
  [{ id := "amount_required"
     target := .required
     targetPointer := "/amount"
     expression := presentIf "/amount" },
   { id := "amount_visible"
     target := .visible
     targetPointer := "/amount"
     expression := presentIf "/currency" }]

theorem missed_cycle_of_first_condition :
    ¬ ∃ found, hasConditionCycle requiredAndVisible = some found ∧
      (found = true ↔ Cyclic (Requires requiredAndVisible)) := by
  rintro ⟨found, hfound, hiff⟩
  have hanswer : hasConditionCycle requiredAndVisible = some false := by decide
  obtain rfl := Option.some.inj (hfound.symm.trans hanswer)
  have hself : Requires requiredAndVisible "/amount" "/amount" :=
    ⟨_, List.mem_cons_self, rfl, by decide, by decide⟩
  exact absurd (hiff.mpr ⟨"/amount", .single hself⟩) (by decide)

end CapabilityCompiler.Interactions
