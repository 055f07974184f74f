import CapabilityCompiler.Foundation.Text

/-! The static reference language of workflows. -/
namespace CapabilityCompiler.Models
open Foundation

/-- A parsed reference: a root or the result of a step, and the path below it. -/
inductive Reference where
  | root (name : String) (path : List String)
  | step (id : String) (path : List String)
deriving DecidableEq

def isSegmentStart (c : Char) : Bool := c.isUpper || c.isLower || c = '_'

def isSegmentPart (c : Char) : Bool := isSegmentStart c || c.isDigit || c = '-'

/-- `[A-Za-z_][A-Za-z0-9_-]*` -/
def isSegment (segment : String) : Bool :=
  match segment.toList with
  | [] => false
  | first :: rest => isSegmentStart first && rest.all isSegmentPart

/-- `$.root(.segment)*` for one of the roots, or `$.steps.segment(.segment)*`. -/
def matchTokens (roots : List String) : List String → Option Reference
  | dollar :: root :: path =>
    if dollar ≠ "$" ∨ path.any (fun segment => !isSegment segment) then none
    else if root ∈ roots then some (.root root path)
    else match path with
      | id :: rest => if root = "steps" then some (.step id rest) else none
      | [] => none
  | _ => none

/-- The tokens a reference is written with. -/
def Reference.tokens : Reference → List String
  | .root name path => "$" :: name :: path
  | .step id path => "$" :: "steps" :: id :: path

/-- The reference can be written where these roots are known. -/
def Reference.Written (roots : List String) : Reference → Prop
  | .root name path => name ∈ roots ∧ ∀ segment ∈ path, isSegment segment = true
  | .step id path => "steps" ∉ roots ∧ ∀ segment ∈ id :: path, isSegment segment = true

theorem written_of_matchTokens {roots tokens : List String} {reference : Reference}
    (h : matchTokens roots tokens = some reference) :
    reference.Written roots ∧ tokens = reference.tokens := by
  match tokens with
  | [] | [_] => simp [matchTokens] at h
  | dollar :: root :: path =>
    simp only [matchTokens] at h
    split_ifs at h with hshape hroot hsteps
    all_goals
      have hdollar : dollar = "$" := by
        by_contra hne
        exact hshape (.inl hne)
      have hsegments : ∀ segment ∈ path, isSegment segment = true := by
        by_contra hnot
        exact hshape (.inr (by simpa using hnot))
    · obtain rfl : Reference.root root path = reference := by simpa using h
      exact ⟨⟨hroot, hsegments⟩, by rw [hdollar, Reference.tokens]⟩
    · cases path with
      | nil => simp at h
      | cons id rest =>
        obtain rfl : Reference.step id rest = reference := by simpa using h
        exact ⟨⟨hsteps ▸ hroot, hsegments⟩, by rw [hdollar, hsteps, Reference.tokens]⟩
    · cases path <;> simp at h

theorem matchTokens_tokens {roots : List String} {reference : Reference}
    (h : reference.Written roots) : matchTokens roots reference.tokens = some reference := by
  cases reference with
  | root name path =>
    obtain ⟨hname, hsegments⟩ := h
    have hshape : ¬("$" ≠ "$" ∨ path.any (fun segment => !isSegment segment) = true) := by
      simpa using hsegments
    simp only [Reference.tokens, matchTokens]
    rw [if_neg hshape, if_pos hname]
  | step id path =>
    obtain ⟨hsteps, hsegments⟩ := h
    have hshape : ¬("$" ≠ "$" ∨ (id :: path).any (fun segment => !isSegment segment) = true) := by
      simpa using hsegments
    simp only [Reference.tokens, matchTokens]
    simp only [if_neg hshape, if_neg hsteps, if_true]

def matchReference (roots : List String) (value : String) : Option Reference :=
  matchTokens roots (Text.split '.' value)

/-- Text that is not a reference although it looks like one. -/
def looksDynamic (value : String) : Bool :=
  Text.hasPrefix "$" value || Text.hasPair '$' '.' value.toList || Text.hasPair '$' '{' value.toList

theorem looksDynamic_of_matchReference {roots : List String} {value : String}
    {reference : Reference} (h : matchReference roots value = some reference) :
    looksDynamic value = true := by
  obtain ⟨-, htokens⟩ := written_of_matchTokens h
  have hfirst : ∃ rest, Text.split '.' value = "$" :: rest := by
    cases reference with
    | root name path => exact ⟨_, htokens⟩
    | step id path => exact ⟨_, htokens⟩
  obtain ⟨rest, hsplit⟩ := hfirst
  simp [looksDynamic, Text.hasPrefix_of_split hsplit]

end CapabilityCompiler.Models
