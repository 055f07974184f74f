import Mathlib.Data.Nat.Notation
import Mathlib.Tactic.Common

/-! Recursion that takes a goal apart and combines the results of its parts. -/
namespace CapabilityCompiler.Foundation

inductive Unfolding (G R : Type) where
  | done (r : R)
  | next (g : G) (finish : R → R)
  | parts (goals : List G) (combine : List R → R)

namespace Unfolding
variable {G R : Type} {expand : G → Unfolding G R}

/-- The recursive calls of a goal. -/
def goals : Unfolding G R → List G
  | .done _ => []
  | .next g _ => [g]
  | .parts gs _ => gs

/-- The result of a goal; `none` when the fuel runs out. -/
def eval (expand : G → Unfolding G R) : ℕ → G → Option R
  | 0, _ => none
  | fuel + 1, g =>
    match expand g with
    | .done r => some r
    | .next h finish => (eval expand fuel h).map finish
    | .parts gs combine => (gs.mapM (eval expand fuel)).map combine

theorem isSome_mapM {f : G → Option R} {gs : List G} (h : ∀ g ∈ gs, (f g).isSome = true) :
    (gs.mapM f).isSome = true := by
  induction gs with
  | nil => rfl
  | cons g rest ih =>
    obtain ⟨r, hr⟩ := Option.isSome_iff_exists.mp (h g List.mem_cons_self)
    obtain ⟨rs, hrs⟩ := Option.isSome_iff_exists.mp (ih fun g hg => h g (List.mem_cons_of_mem _ hg))
    simp [List.mapM_cons, hr, hrs]

theorem mapM_mono {f f' : G → Option R} {gs : List G} {rs : List R}
    (h : ∀ g r, f g = some r → f' g = some r) (hgs : gs.mapM f = some rs) :
    gs.mapM f' = some rs := by
  induction gs generalizing rs with
  | nil => exact hgs
  | cons g rest ih =>
    simp only [List.mapM_cons, Option.bind_eq_bind, Option.bind_eq_some_iff, Option.pure_def] at hgs ⊢
    obtain ⟨r, hr, tail, htail, hrs⟩ := hgs
    exact ⟨r, h g r hr, tail, ih htail, hrs⟩

/-- A result found with some fuel is the result with any more of it. -/
theorem eval_mono {fuel more : ℕ} (hmore : fuel ≤ more) {g : G} {r : R}
    (h : eval expand fuel g = some r) : eval expand more g = some r := by
  induction fuel generalizing more g r with
  | zero => simp [eval] at h
  | succ fuel ih =>
    obtain ⟨more, rfl⟩ : ∃ m, more = m + 1 := ⟨more - 1, by omega⟩
    have hpart : ∀ g r, eval expand fuel g = some r → eval expand more g = some r :=
      fun g r hr => ih (by omega) hr
    unfold eval at h ⊢
    cases hexpand : expand g with
    | done s => simpa [hexpand] using h
    | next next finish =>
      simp only [hexpand, Option.map_eq_some_iff] at h ⊢
      obtain ⟨s, hs, hfinish⟩ := h
      exact ⟨s, hpart next s hs, hfinish⟩
    | parts gs combine =>
      simp only [hexpand, Option.map_eq_some_iff] at h ⊢
      obtain ⟨rs, hrs, hcombine⟩ := h
      exact ⟨rs, mapM_mono hpart hrs, hcombine⟩

variable {Ok : G → Prop} {measure : G → ℕ}

theorem eval_isSome (hpart : ∀ g, Ok g → ∀ h ∈ (expand g).goals, Ok h ∧ measure h < measure g)
    {fuel : ℕ} {g : G} (hok : Ok g) (hfuel : measure g < fuel) :
    (eval expand fuel g).isSome = true := by
  induction fuel generalizing g with
  | zero => exact absurd hfuel (Nat.not_lt_zero _)
  | succ fuel ih =>
    have hcalls : ∀ h ∈ (expand g).goals, (eval expand fuel h).isSome = true := by
      intro h hh
      have hless := (hpart g hok h hh).2
      exact ih (hpart g hok h hh).1 (by omega)
    unfold eval
    cases hexpand : expand g with
    | done r => rfl
    | next next finish =>
      have hnext := hcalls next (by simp [hexpand, goals])
      simpa using hnext
    | parts gs combine =>
      have hgs := isSome_mapM fun h hh => hcalls h (by simpa [hexpand, goals] using hh)
      simpa using hgs

/-- Calls that get smaller end, and more fuel does not change the result. -/
theorem eval_terminates
    (hpart : ∀ g, Ok g → ∀ h ∈ (expand g).goals, Ok h ∧ measure h < measure g) {g : G}
    (hok : Ok g) : ∃ r, ∀ fuel, measure g < fuel → eval expand fuel g = some r := by
  obtain ⟨r, hr⟩ := Option.isSome_iff_exists.mp (eval_isSome hpart hok (Nat.lt_succ_self _))
  exact ⟨r, fun fuel hfuel => eval_mono hfuel hr⟩

end Unfolding
end CapabilityCompiler.Foundation
