import Mathlib.Data.List.Forall2
import Mathlib.Tactic.Common

/-! Computations that may fail, one after the other. -/
namespace CapabilityCompiler.Foundation

variable {ε α β : Type}

/-- A computation that succeeds went through its first step. -/
theorem exists_of_bind {x : Except ε α} {f : α → Except ε β} {b : β} (h : (x >>= f) = .ok b) :
    ∃ a, x = .ok a ∧ f a = .ok b := by
  cases x with
  | error e => cases h
  | ok a => exact ⟨a, rfl, h⟩

/-- One that fails did so in its first step or behind it. -/
theorem error_of_bind {x : Except ε α} {f : α → Except ε β} {e : ε} (h : (x >>= f) = .error e) :
    x = .error e ∨ ∃ a, x = .ok a ∧ f a = .error e := by
  cases x with
  | error e' => exact .inl (congrArg _ (Except.error.inj h))
  | ok a => exact .inr ⟨a, rfl, h⟩

theorem mapM_concat {f : α → Except ε β} {xs : List α} {ys : List β} {x : α} {y : β}
    (hxs : xs.mapM f = .ok ys) (hx : f x = .ok y) : (xs ++ [x]).mapM f = .ok (ys ++ [y]) := by
  rw [List.mapM_append, hxs, List.mapM_cons, hx]
  rfl

/-- A list of computations that succeeds gives a result for each of its members. -/
theorem forall₂_of_mapM_ok {f : α → Except ε β} {xs : List α} {ys : List β}
    (h : xs.mapM f = .ok ys) : List.Forall₂ (fun x y => x ∈ xs ∧ f x = .ok y) xs ys := by
  induction xs generalizing ys with
  | nil =>
    obtain rfl : [] = ys := Except.ok.inj h
    exact .nil
  | cons x xs ih =>
    rw [List.mapM_cons] at h
    obtain ⟨y, hy, h⟩ := exists_of_bind h
    obtain ⟨rest, hrest, h⟩ := exists_of_bind h
    obtain rfl : y :: rest = ys := Except.ok.inj h
    refine .cons ⟨List.mem_cons_self, hy⟩ ((ih hrest).imp fun other result hother => ?_)
    exact ⟨List.mem_cons_of_mem _ hother.1, hother.2⟩

/-- The failure of a list of computations is that of one of them. -/
theorem error_of_mapM {P : ε → Prop} {f : α → Except ε β} {xs : List α} {e : ε}
    (hf : ∀ x e, f x = .error e → P e) (h : xs.mapM f = .error e) : P e := by
  induction xs with
  | nil => cases h
  | cons x xs ih =>
    rw [List.mapM_cons] at h
    rcases error_of_bind h with hx | ⟨y, -, hrest⟩
    · exact hf x e hx
    · rcases error_of_bind hrest with hxs | ⟨ys, -, hys⟩
      · exact ih hxs
      · cases hys

end CapabilityCompiler.Foundation
