import CapabilityCompiler.Contracts.Assertions

/-! The ways the comparison of two schema objects goes on. -/
namespace CapabilityCompiler.Contracts
open Foundation Foundation.Json Foundation.Search

/-- The comparison gets past references and unsupported keywords. -/
structure Compared (l r : Fields) : Prop where
  left_ref : hasKey "$ref" l = false
  right_ref : hasKey "$ref" r = false
  supported : keywordsOutside (handledKeywords ++ annotationKeywords) (l ++ r) = []

/-- The comparison gets past the combinators. -/
structure Uncombined (l r : Fields) : Prop extends Compared l r where
  left_union : unionBranches? l = none
  left_all : ∀ branches, field? "allOf" l ≠ some (.arr branches)
  right_all : ∀ branches, field? "allOf" r ≠ some (.arr branches)
  right_any : hasKey "anyOf" r = false
  right_one : hasKey "oneOf" r = false

/-- The comparison comes to the assertions. -/
structure Structural (l r : Fields) : Prop extends Uncombined l r where
  infinite : candidates? l = none ∨ containsReference (.obj l) = true ∨
    containsReference (.obj r) = true

section Branches
variable (isValid : Json → Json → Bool) (leftRoot rightRoot : Json) (left right : Place)
  (l r : Fields) (pointer : String)

inductive Branch : Expansion Comparison RelationReport → Prop where
  | rejected (report : RelationReport) : ¬ report.Proven → Branch (.done report)
  | reference (leftResolved rightResolved : Place) :
    hasKey "$ref" l = true ∨ hasKey "$ref" r = true →
    resolvePlace leftRoot left l = some leftResolved →
    resolvePlace rightRoot right r = some rightResolved →
    keywordsOutside ("$ref" :: annotationKeywords) l = [] →
    keywordsOutside ("$ref" :: annotationKeywords) r = [] →
    Branch (.defer ⟨leftResolved, rightResolved, pointer⟩)
  | leftUnion (keyword : String) (branches : List Json) : Compared l r →
    unionBranches? l = some (keyword, branches) →
    Branch (.all ((left.branches keyword branches).map fun branch => .goal ⟨branch, right, pointer⟩))
  | rightAll (branches : List Json) : Compared l r → unionBranches? l = none →
    field? "allOf" r = some (.arr branches) →
    Branch (.all ((right.branches "allOf" branches).map fun branch => .goal ⟨left, branch, pointer⟩))
  | leftAll (branches : List Json) (failure : RelationReport) : Compared l r →
    field? "allOf" l = some (.arr branches) → ¬ failure.Proven →
    Branch (.any ((left.branches "allOf" branches).map fun branch => ⟨branch, right, pointer⟩)
      failure)
  | finite (candidates : List Json) : Uncombined l r → candidates? l = some candidates →
    containsReference (.obj l) = false → containsReference (.obj r) = false →
    (∀ c ∈ candidates, isValid (.obj l) c = true → isValid (.obj r) c = true) →
    Branch (.done provenReport)
  | assertions : Structural l r → Branch (.all (compareAssertions left right l r pointer))

theorem compareReferences_branch (hrefs : hasKey "$ref" l = true ∨ hasKey "$ref" r = true) :
    Branch isValid leftRoot rightRoot left right l r pointer
      (compareReferences left right l r pointer leftRoot rightRoot) := by
  unfold compareReferences
  split
  next leftResolved rightResolved hl hr =>
    split
    next => exact .rejected _ (not_proven_finding_unknown _ _)
    next hsiblings =>
      simp only [ne_eq, not_or, not_not] at hsiblings
      exact .reference _ _ hrefs hl hr hsiblings.1 hsiblings.2
  next => exact .rejected _ (not_proven_finding_unknown _ _)

theorem unionBranches?_ne {schema : Fields} {keyword : String} {branches : List Json}
    (h : unionBranches? schema = some (keyword, branches)) :
    (keyword = "anyOf" ∨ keyword = "oneOf") ∧ field? keyword schema = some (.arr branches) := by
  unfold unionBranches? at h
  split at h
  next bs _ hany =>
    obtain ⟨rfl, rfl⟩ := Prod.mk.inj (Option.some.inj h)
    exact ⟨.inl rfl, hany⟩
  next bs hone _ =>
    obtain ⟨rfl, rfl⟩ := Prod.mk.inj (Option.some.inj h)
    exact ⟨.inr rfl, hone⟩
  next => simp at h

theorem compareCombinations_branch (hcompared : Compared l r)
    {e : Expansion Comparison RelationReport}
    (h : compareCombinations left right l r pointer = some e) :
    Branch isValid leftRoot rightRoot left right l r pointer e := by
  unfold compareCombinations at h
  split at h
  next keyword branches hunion =>
    obtain rfl := Option.some.inj h
    exact .leftUnion keyword branches hcompared hunion
  next hunion =>
    split at h
    next branches hall =>
      obtain rfl := Option.some.inj h
      exact .rightAll branches hcompared hunion hall
    next =>
      split at h
      next branches hall =>
        obtain rfl := Option.some.inj h
        exact .leftAll branches _ hcompared hall (not_proven_finding_unknown _ _)
      next =>
        split at h
        next =>
          obtain rfl := Option.some.inj h
          exact .rejected _ (not_proven_finding_unknown _ _)
        next => simp at h

theorem uncombined_of_none (hcompared : Compared l r)
    (h : compareCombinations left right l r pointer = none) : Uncombined l r := by
  unfold compareCombinations at h
  split at h
  next => simp at h
  next hunion =>
    split at h
    next => simp at h
    next hright =>
      split at h
      next => simp at h
      next hleft =>
        split at h
        next => simp at h
        next hkeys =>
          rw [Bool.not_eq_true, Bool.or_eq_false_iff] at hkeys
          exact { hcompared with
            left_union := hunion, left_all := hleft, right_all := hright,
            right_any := hkeys.1, right_one := hkeys.2 }

theorem compareFiniteLeft_branch (huncombined : Uncombined l r) {report : RelationReport}
    (h : compareFiniteLeft l r pointer isValid = some report) :
    Branch isValid leftRoot rightRoot left right l r pointer (.done report) := by
  unfold compareFiniteLeft at h
  split at h
  next => simp at h
  next candidates hcandidates =>
    split at h
    next => simp at h
    next hrefs =>
      rw [Bool.or_eq_true, not_or, Bool.not_eq_true, Bool.not_eq_true] at hrefs
      dsimp only at h
      split at h
      next hrejected =>
        obtain rfl := Option.some.inj h
        refine .finite candidates huncombined hcandidates hrefs.1 hrefs.2 fun c hc hvalid => ?_
        rw [List.filter_eq_nil_iff] at hrejected
        simpa using hrejected c (List.mem_filter.mpr ⟨hc, hvalid⟩)
      next =>
        obtain rfl := Option.some.inj h
        exact .rejected _ (not_proven_finding_conflict _ _)

theorem infinite_of_none (h : compareFiniteLeft l r pointer isValid = none) :
    candidates? l = none ∨ containsReference (.obj l) = true ∨ containsReference (.obj r) = true := by
  unfold compareFiniteLeft at h
  split at h
  next hnone => exact .inl hnone
  next =>
    split at h
    next hrefs => exact .inr (by simpa using hrefs)
    next =>
      dsimp only at h
      split at h <;> simp at h

theorem compareSchemas_branch :
    Branch isValid leftRoot rightRoot left right l r pointer
      (compareSchemas left right l r pointer isValid leftRoot rightRoot) := by
  unfold compareSchemas
  by_cases hrefs : (hasKey "$ref" l || hasKey "$ref" r) = true
  · rw [if_pos hrefs]
    exact compareReferences_branch _ _ _ _ _ _ _ _ (by simpa using hrefs)
  rw [if_neg hrefs]
  rw [Bool.or_eq_true, not_or, Bool.not_eq_true, Bool.not_eq_true] at hrefs
  split
  next => exact .rejected _ (not_proven_finding_unknown _ _)
  next hsupported =>
    have hcompared : Compared l r := ⟨hrefs.1, hrefs.2, sortedSet_eq_nil_iff.mp hsupported⟩
    split
    next e hcombination => exact compareCombinations_branch _ _ _ _ _ _ _ _ hcompared hcombination
    next hnone =>
      have huncombined := uncombined_of_none _ _ _ _ _ hcompared hnone
      split
      next report hfinite => exact compareFiniteLeft_branch _ _ _ _ _ _ _ _ huncombined hfinite
      next hinfinite => exact .assertions { huncombined with infinite := infinite_of_none _ _ _ _ hinfinite }

end Branches

end CapabilityCompiler.Contracts
