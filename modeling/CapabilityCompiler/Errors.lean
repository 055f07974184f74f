import CapabilityCompiler.Foundation.Json

/-! Stable errors at the runtime boundary and diagnostics of the compiler. -/
namespace CapabilityCompiler
open Foundation

/-- An error of the runtime: its stable code, HTTP status, local message and public details. -/
structure RuntimeError where
  code : String
  status : ℕ
  message : String
  details : Fields := []
deriving DecidableEq

inductive Severity where
  | error
  | warning
  | info
deriving DecidableEq

/-- A problem of a project file. -/
structure Diagnostic where
  code : String
  severity : Severity := .error
  message : String
  path : String
  pointer : String
deriving DecidableEq

/-- No diagnostic is an error. -/
def errorFree (diagnostics : List Diagnostic) : Bool := !diagnostics.any (·.severity = .error)

theorem errorFree_append {xs ys : List Diagnostic} :
    errorFree (xs ++ ys) = true ↔ errorFree xs = true ∧ errorFree ys = true := by
  simp [errorFree]

theorem errorFree_of_subset {xs ys : List Diagnostic} (h : xs ⊆ ys) (hys : errorFree ys = true) :
    errorFree xs = true := by
  simp only [errorFree, Bool.not_eq_true', List.any_eq_false] at hys ⊢
  exact fun x hx => hys x (h hx)

theorem errorFree_singleton {x : Diagnostic} (h : x.severity = .error) :
    errorFree [x] = false := by
  simp [errorFree, h]

end CapabilityCompiler
