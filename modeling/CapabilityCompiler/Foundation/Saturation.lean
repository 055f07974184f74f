import Mathlib.Data.List.Basic
import Mathlib.Data.List.Dedup
import Mathlib.Data.List.Nodup
import Mathlib.Data.List.Perm.Subperm
import Mathlib.Order.Bounds.Basic
import Mathlib.Tactic.Common

/-! Saturation: in rounds over the nodes, a node is taken as soon as what is taken makes it ready.
What is taken in the end is the least set that takes every node it makes ready. -/
namespace CapabilityCompiler.Foundation.Saturation

variable {κ : Type} (ready : κ → List κ → Bool)

/-- What is taken, the latest first: every node is ready from the ones before it. -/
inductive Taken (nodes start : List κ) : List κ → Prop
  | start : Taken nodes start start
  | take {taken : List κ} {node : κ} (h : Taken nodes start taken) (hmem : node ∈ nodes)
      (hnew : node ∉ taken) (hready : ready node taken = true) : Taken nodes start (node :: taken)

section Rounds
variable [DecidableEq κ]

/-- One round: the nodes in turn, and whether one was taken. -/
def round : List κ → List κ → List κ × Bool
  | [], taken => (taken, false)
  | node :: rest, taken =>
    if node ∈ taken then round rest taken
    else if ready node taken then ((round rest (node :: taken)).1, true)
    else round rest taken

/-- Rounds until nothing is taken. -/
def saturate (nodes : List κ) : ℕ → List κ → Option (List κ)
  | 0, _ => none
  | fuel + 1, taken =>
    if (round ready nodes taken).2 then saturate nodes fuel (round ready nodes taken).1
    else some (round ready nodes taken).1

end Rounds

variable {ready} {nodes start taken : List κ}

theorem Taken.start_subset (h : Taken ready nodes start taken) : start ⊆ taken := by
  induction h with
  | start => exact List.Subset.refl start
  | take h hmem hnew hready ih => exact List.Subset.trans ih (List.subset_cons_self _ _)

theorem Taken.nodup (h : Taken ready nodes start taken) (hstart : start.Nodup) : taken.Nodup := by
  induction h with
  | start => exact hstart
  | take h hmem hnew hready ih => exact List.nodup_cons.mpr ⟨hnew, ih⟩

theorem Taken.subset (h : Taken ready nodes start taken) (hstart : start ⊆ nodes) :
    taken ⊆ nodes := by
  induction h with
  | start => exact hstart
  | take h hmem hnew hready ih => exact List.cons_subset.mpr ⟨hmem, ih⟩

section Rounds
variable [DecidableEq κ]

theorem Taken.round {rest : List κ} (h : Taken ready nodes start taken) (hrest : rest ⊆ nodes) :
    Taken ready nodes start (round ready rest taken).1 := by
  induction rest generalizing taken with
  | nil => exact h
  | cons node rest ih =>
    obtain ⟨hnode, hrest⟩ := List.cons_subset.mp hrest
    unfold Saturation.round
    split_ifs with hold hready
    · exact ih h hrest
    · exact ih (h.take hnode hold hready) hrest
    · exact ih h hrest

theorem Taken.saturate {fuel : ℕ} {result : List κ} (h : Taken ready nodes start taken)
    (hrun : saturate ready nodes fuel taken = some result) : Taken ready nodes start result := by
  induction fuel generalizing taken with
  | zero => exact absurd hrun (by simp [Saturation.saturate])
  | succ fuel ih =>
    unfold Saturation.saturate at hrun
    have hround := h.round (List.Subset.refl nodes)
    split_ifs at hrun with hchanged
    · exact ih hround hrun
    · obtain rfl := Option.some.inj hrun
      exact hround

/-- A round that takes nothing leaves only nodes that are not ready. -/
theorem round_eq_of_unchanged {rest : List κ} (h : (round ready rest taken).2 = false) :
    (round ready rest taken).1 = taken ∧ ∀ node ∈ rest, ready node taken = true → node ∈ taken := by
  induction rest with
  | nil => exact ⟨rfl, by simp⟩
  | cons node rest ih =>
    unfold round at h ⊢
    split_ifs at h ⊢ with hold hready
    · obtain ⟨hsame, hclosed⟩ := ih h
      refine ⟨hsame, fun other hother hreadyOther => ?_⟩
      rcases List.mem_cons.mp hother with rfl | hother
      · exact hold
      · exact hclosed other hother hreadyOther
    · obtain ⟨hsame, hclosed⟩ := ih h
      refine ⟨hsame, fun other hother hreadyOther => ?_⟩
      rcases List.mem_cons.mp hother with rfl | hother
      · exact absurd hreadyOther hready
      · exact hclosed other hother hreadyOther

/-- In the end every node that is ready is taken. -/
theorem closed_of_saturate {fuel : ℕ} {result : List κ}
    (hrun : saturate ready nodes fuel taken = some result) :
    ∀ node ∈ nodes, ready node result = true → node ∈ result := by
  induction fuel generalizing taken with
  | zero => exact absurd hrun (by simp [saturate])
  | succ fuel ih =>
    unfold saturate at hrun
    split_ifs at hrun with hchanged
    · exact ih hrun
    · obtain rfl := Option.some.inj hrun
      have hunchanged : (round ready nodes taken).2 = false := by simpa using hchanged
      obtain ⟨hsame, hclosed⟩ := round_eq_of_unchanged hunchanged
      rw [hsame]
      exact hclosed

theorem length_round {rest : List κ} : taken.length ≤ (round ready rest taken).1.length ∧
    ((round ready rest taken).2 = true → taken.length < (round ready rest taken).1.length) := by
  induction rest generalizing taken with
  | nil => exact ⟨Nat.le_refl _, by simp [round]⟩
  | cons node rest ih =>
    unfold round
    split_ifs with hold hready
    · exact ih
    · have hnext := (@ih (node :: taken)).1
      rw [List.length_cons] at hnext
      constructor
      · show taken.length ≤ (round ready rest (node :: taken)).1.length
        omega
      · intro _
        show taken.length < (round ready rest (node :: taken)).1.length
        omega
    · exact ih

/-- There are at most as many rounds as nodes, and one that takes nothing. -/
theorem saturate_isSome {fuel : ℕ} (h : Taken ready nodes start taken) (hstart : start.Nodup)
    (hsub : start ⊆ nodes) (hfuel : nodes.length < fuel + taken.length) :
    (saturate ready nodes fuel taken).isSome = true := by
  induction fuel generalizing taken with
  | zero =>
    have hlength := (List.subperm_of_subset (h.nodup hstart) (h.subset hsub)).length_le
    omega
  | succ fuel ih =>
    unfold saturate
    split_ifs with hchanged
    · have hlonger := length_round.2 hchanged
      exact ih (h.round (List.Subset.refl nodes)) (by omega)
    · rfl

end Rounds

/-! What is taken is the least closed set. -/

/-- Every node that a set makes ready is in it. -/
def Closed (step : Set κ → κ → Prop) (nodes : List κ) (S : Set κ) : Prop :=
  ∀ node ∈ nodes, step S node → node ∈ S

/-- Every node of an order is ready from the ones before it. -/
def Ordered (step : Set κ → κ → Prop) (order : List κ) : Prop :=
  ∀ before node after, order = before ++ node :: after → step {other | other ∈ before} node

theorem Ordered.concat {step : Set κ → κ → Prop} {order : List κ} {node : κ}
    (h : Ordered step order) (hnode : step {other | other ∈ order} node) :
    Ordered step (order ++ [node]) := by
  intro before other after hsplit
  rcases List.eq_nil_or_concat after with rfl | ⟨init, last, rfl⟩
  · obtain ⟨rfl, hlast⟩ := List.append_inj' hsplit rfl
    obtain rfl : node = other := by simpa using hlast
    exact hnode
  · rw [List.concat_eq_append, ← List.cons_append, ← List.append_assoc] at hsplit
    exact h before other init (List.append_inj' hsplit rfl).1

section
variable {step : Set κ → κ → Prop} (hstep : ∀ node, node ∉ start → ∀ taken,
  ready node taken = true ↔ step {other | other ∈ taken} node)
  (hmono : ∀ S T node, S ⊆ T → step S node → step T node)
include hstep hmono

theorem Taken.subset_of_closed (h : Taken ready nodes start taken) {S : Set κ}
    (hstart : ∀ node ∈ start, node ∈ S) (hclosed : Closed step nodes S) :
    ∀ node ∈ taken, node ∈ S := by
  induction h with
  | start => exact hstart
  | @take taken node h hmem hnew hready ih =>
    intro other hother
    rcases List.mem_cons.mp hother with rfl | hother
    · have hother : other ∉ start := fun hold => hnew (h.start_subset hold)
      exact hclosed other hmem (hmono _ _ _ ih ((hstep other hother taken).mp hready))
    · exact ih other hother

/-- Nodes of which each is ready from nothing may be taken at the start. -/
theorem isLeast_of_saturate [DecidableEq κ] {fuel : ℕ} {result : List κ} (hsub : start ⊆ nodes)
    (hstart : ∀ node ∈ start, step ∅ node)
    (hrun : saturate ready nodes fuel start = some result) :
    IsLeast {S : Set κ | Closed step nodes S} {node | node ∈ result} := by
  have htaken : Taken ready nodes start result := Taken.start.saturate hrun
  constructor
  · intro node hnode hready
    by_cases hold : node ∈ start
    · exact htaken.start_subset hold
    · exact closed_of_saturate hrun node hnode ((hstep node hold result).mpr hready)
  · intro S hclosed
    refine htaken.subset_of_closed hstep hmono (fun node hnode => ?_) hclosed
    exact hclosed node (hsub hnode) (hmono _ _ _ (Set.empty_subset S) (hstart node hnode))

/-- What is taken can be taken in order: the start, then each node from the ones before it. -/
theorem Taken.ordered (h : Taken ready nodes start taken) (hstart : ∀ node ∈ start, step ∅ node) :
    Ordered step taken.reverse := by
  induction h with
  | start =>
    intro before node after hsplit
    have hmem : node ∈ start := by
      rw [← List.mem_reverse, hsplit]
      simp
    exact hmono _ _ _ (Set.empty_subset _) (hstart node hmem)
  | @take taken node h hmem hnew hready ih =>
    rw [List.reverse_cons]
    refine ih.concat ?_
    have hnew : node ∉ start := fun hold => hnew (h.start_subset hold)
    have hnode := (hstep node hnew taken).mp hready
    simpa using hnode

end

end CapabilityCompiler.Foundation.Saturation
