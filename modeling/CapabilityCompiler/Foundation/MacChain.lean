import Mathlib.Data.List.Induction
import Mathlib.Data.Set.Basic

/-! Chains whose links are authenticated together with their position and the link before them. -/
namespace CapabilityCompiler.Foundation.MacChain

variable {μ α : Type} (mac : ℕ → α → μ → μ)

/-- The authentication of the last link of a chain that starts at this position and anchor. -/
def headFrom : ℕ → μ → List α → μ
  | _, previous, [] => previous
  | position, previous, content :: rest =>
    headFrom (position + 1) (mac position content previous) rest

/-- Different links are never authenticated alike. -/
def Binding : Prop :=
  ∀ position content previous position' content' previous',
    mac position content previous = mac position' content' previous' →
      position = position' ∧ content = content' ∧ previous = previous'

/-- The link at the end of one of the histories has these parts. -/
def Signed (anchor : μ) (histories : Set (List α)) (position : ℕ) (content : α) (previous : μ) :
    Prop :=
  ∃ earlier, earlier ++ [content] ∈ histories ∧ position = earlier.length + 1 ∧
    previous = headFrom mac 1 anchor earlier

variable {mac}

theorem headFrom_append (position : ℕ) (previous : μ) (contents : List α) (content : α) :
    headFrom mac position previous (contents ++ [content]) =
      mac (position + contents.length) content (headFrom mac position previous contents) := by
  induction contents generalizing position previous with
  | nil => rfl
  | cons first rest ih =>
    rw [List.cons_append, headFrom, ih, headFrom, List.length_cons, Nat.add_right_comm,
      Nat.add_assoc]

/-- Chains of one length with the same last authentication are the same chain. -/
theorem eq_of_headFrom (hbinding : Binding mac) {position : ℕ} {previous : μ}
    {contents others : List α} (hlength : contents.length = others.length)
    (hhead : headFrom mac position previous contents = headFrom mac position previous others) :
    contents = others := by
  induction contents using List.reverseRecOn generalizing others with
  | nil => exact (List.length_eq_zero_iff.mp hlength.symm).symm
  | append_singleton contents content ih =>
    induction others using List.reverseRecOn with
    | nil => exact absurd hlength (by simp)
    | append_singleton others other _ =>
      rw [headFrom_append, headFrom_append] at hhead
      obtain ⟨-, rfl, hprevious⟩ := hbinding _ _ _ _ _ _ hhead
      rw [ih (by simpa using hlength) hprevious]

/-- A chain whose last link is signed is one of the histories. -/
theorem mem_of_signed (hbinding : Binding mac) {anchor : μ} {histories : Set (List α)}
    {contents : List α} {content : α}
    (h : Signed mac anchor histories (contents.length + 1) content
      (headFrom mac 1 anchor contents)) : contents ++ [content] ∈ histories := by
  obtain ⟨earlier, hmem, hlength, hprevious⟩ := h
  rwa [eq_of_headFrom hbinding (Nat.succ_injective hlength) hprevious]

end CapabilityCompiler.Foundation.MacChain
