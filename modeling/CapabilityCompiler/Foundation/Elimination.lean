import Mathlib.Data.Finset.SDiff
import Mathlib.Data.Fintype.EquivFin
import Mathlib.Data.Fintype.Sets
import Mathlib.Logic.Relation
import Mathlib.Order.WellFounded

/-! Elimination: nodes without an edge to a node that is left are removed until there is none.
What is left then is empty exactly if the graph has no directed cycle. -/
namespace CapabilityCompiler.Foundation.Elimination
open Relation

variable {κ : Type} (edge : κ → κ → Prop)

/-- Every node of the set has an edge into the set. -/
def Stuck (nodes : Finset κ) : Prop := ∀ a ∈ nodes, ∃ b ∈ nodes, edge a b

/-- What may be left when nodes without an edge to a node that is left are removed. -/
inductive Leaves [DecidableEq κ] : Finset κ → Finset κ → Prop
  | all (nodes : Finset κ) : Leaves nodes nodes
  | remove {nodes rest : Finset κ} (removed : Finset κ)
      (hfree : ∀ a ∈ removed, ∀ b ∈ nodes, ¬ edge a b) (hrest : Leaves (nodes \ removed) rest) :
      Leaves nodes rest

variable {edge}

/-- A set that is stuck is never touched. -/
theorem Leaves.subset_of_stuck [DecidableEq κ] {nodes rest stuck : Finset κ} (h : Leaves edge nodes rest)
    (hstuck : Stuck edge stuck) (hsub : stuck ⊆ nodes) : stuck ⊆ rest := by
  induction h with
  | all nodes => exact hsub
  | remove removed hfree _ ih =>
    refine ih fun a ha => Finset.mem_sdiff.mpr ⟨hsub ha, fun hremoved => ?_⟩
    obtain ⟨b, hb, hedge⟩ := hstuck a ha
    exact hfree a hremoved b (hsub hb) hedge

/-- Following the edges of a finite set that is stuck comes back to a node. -/
theorem Stuck.exists_cycle {nodes : Finset κ} (h : Stuck edge nodes) (hnonempty : nodes.Nonempty) :
    ∃ a, TransGen edge a a := by
  by_contra hacyclic
  have hirreflexive : ∀ a, ¬ TransGen edge a a := fun a ha => hacyclic ⟨a, ha⟩
  let reaches : nodes → nodes → Prop := fun b a => TransGen edge a.1 b.1
  have : IsTrans nodes reaches := ⟨fun _ _ _ hab hbc => hbc.trans hab⟩
  have : Std.Irrefl reaches := ⟨fun a => hirreflexive a.1⟩
  have hwell : WellFounded reaches := Finite.wellFounded_of_trans_of_irrefl reaches
  obtain ⟨first, hfirst⟩ := hnonempty
  obtain ⟨a, -, hmin⟩ := hwell.has_min Set.univ ⟨⟨first, hfirst⟩, Set.mem_univ _⟩
  obtain ⟨b, hb, hedge⟩ := h a.1 a.2
  exact hmin ⟨b, hb⟩ (Set.mem_univ _) (.single hedge)

/-- The nodes of the cycles are a set that is stuck. -/
theorem stuck_of_cycle {nodes : Finset κ} (hclosed : ∀ a b, edge a b → b ∈ nodes) {a : κ}
    (hcycle : TransGen edge a a) : ∃ stuck ⊆ nodes, Stuck edge stuck ∧ stuck.Nonempty := by
  classical
  refine ⟨nodes.filter fun b => TransGen edge b b, Finset.filter_subset _ _, ?_, a, ?_⟩
  · intro b hb
    obtain ⟨c, hedge, hback⟩ := TransGen.head'_iff.mp (Finset.mem_filter.mp hb).2
    exact ⟨c, Finset.mem_filter.mpr ⟨hclosed b c hedge, .tail' hback hedge⟩, hedge⟩
  · obtain ⟨b, -, hedge⟩ := TransGen.tail'_iff.mp hcycle
    exact Finset.mem_filter.mpr ⟨hclosed b a hedge, hcycle⟩

/-- When no more nodes can be removed, something is left exactly if there is a cycle. -/
theorem Leaves.nonempty_iff [DecidableEq κ] {nodes rest : Finset κ} (h : Leaves edge nodes rest)
    (hclosed : ∀ a b, edge a b → b ∈ nodes) (hstuck : Stuck edge rest) :
    rest.Nonempty ↔ ∃ a, TransGen edge a a := by
  constructor
  · exact hstuck.exists_cycle
  · rintro ⟨a, hcycle⟩
    obtain ⟨stuck, hsub, hstays, b, hb⟩ := stuck_of_cycle hclosed hcycle
    exact ⟨b, h.subset_of_stuck hstays hsub hb⟩

end CapabilityCompiler.Foundation.Elimination
