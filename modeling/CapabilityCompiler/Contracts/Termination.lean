import CapabilityCompiler.Contracts.Containment
import Mathlib.Data.List.ProdSigma

/-! The comparison of two documents ends: every level of it visits a new pair of their positions. -/
namespace CapabilityCompiler.Contracts
open Foundation Foundation.Json Foundation.Search

section Positions
variable {root s : Json} {node : Node}

theorem at?_key {fields : Fields} (hat : at? root node = some (.obj fields)) {name : String}
    (hs : field? name fields = some s) : at? root (node ++ [.key name]) = some s := by
  rw [at?_append hat]
  simp [at?, hs]

theorem at?_index {items : List Json} (hat : at? root node = some (.arr items)) {n : ℕ}
    (hs : items[n]? = some s) : at? root (node ++ [.index n]) = some s := by
  rw [at?_append hat]
  simp [at?, hs]

theorem nil_mem_positions (root : Json) : [] ∈ positions root := by
  cases root <;> simp [positions]

theorem mem_positionsOfFields {fields : Fields} {name : String} (hs : field? name fields = some s)
    (hnode : node ∈ positions s) : .key name :: node ∈ positionsOfFields fields := by
  induction fields with
  | nil => simp at hs
  | cons field rest ih =>
    obtain ⟨key, item⟩ := field
    rw [positionsOfFields, List.mem_append]
    by_cases hkey : key = name
    · subst hkey
      obtain rfl : item = s := by simpa [field?] using hs
      exact .inl (List.mem_map_of_mem hnode)
    · refine .inr (ih ?_)
      simpa [field?, hkey] using hs

theorem mem_positionsOfItems {items : List Json} {start n : ℕ} (hs : items[n]? = some s)
    (hnode : node ∈ positions s) : .index (start + n) :: node ∈ positionsOfItems start items := by
  induction items generalizing start n with
  | nil => simp at hs
  | cons item rest ih =>
    rw [positionsOfItems, List.mem_append]
    cases n with
    | zero =>
      obtain rfl : item = s := by simpa using hs
      exact .inl (List.mem_map_of_mem hnode)
    | succ n =>
      have hrest : .index (start + 1 + n) :: node ∈ positionsOfItems (start + 1) rest :=
        ih (by simpa using hs)
      rw [show start + 1 + n = start + (n + 1) by omega] at hrest
      exact .inr hrest

/-- What is found at a position is found at one of the listed positions. -/
theorem mem_positions (hat : at? root node = some s) : node ∈ positions root := by
  induction node generalizing root with
  | nil => exact nil_mem_positions root
  | cons step rest ih =>
    cases root <;> cases step <;> simp only [at?, reduceCtorEq] at hat
    · obtain ⟨v, hv, hrest⟩ := Option.bind_eq_some_iff.mp hat
      have hmem : .index (0 + _) :: rest ∈ positionsOfItems 0 _ := mem_positionsOfItems hv (ih hrest)
      rw [Nat.zero_add] at hmem
      exact List.mem_cons_of_mem _ hmem
    · obtain ⟨v, hv, hrest⟩ := Option.bind_eq_some_iff.mp hat
      exact List.mem_cons_of_mem _ (mem_positionsOfFields hv (ih hrest))

end Positions

/-- A schema object that is where its position says. Other fragments are settled at once. -/
def Located (root : Json) (place : Place) : Prop :=
  ∀ fields, place.schema = .obj fields → at? root place.node = some place.schema

section Parts
variable {root : Json} {place part : Place} {fields : Fields}

theorem located_root (root : Json) : Located root ⟨[], root⟩ := fun _ _ => rfl

theorem Located.child (hplace : Located root place) (hobj : place.schema = .obj fields)
    {keyword : String} {s : Json} (hs : field? keyword fields = some s) :
    at? root (place.child keyword s).node = some s :=
  at?_key ((hplace fields hobj).trans (congrArg some hobj)) hs

theorem Located.branch (hplace : Located root place) (hobj : place.schema = .obj fields)
    {keyword : String} {items : List Json} (hfield : field? keyword fields = some (.arr items))
    (hpart : part ∈ place.branches keyword items) : Located root part := by
  obtain ⟨n, hn, rfl⟩ := List.mem_mapIdx.mp hpart
  intro _ _
  have hat := at?_index (hplace.child hobj hfield) (List.getElem?_eq_getElem hn)
  rwa [Place.child, List.append_assoc] at hat

theorem Located.property (hplace : Located root place) (hobj : place.schema = .obj fields)
    {ps : Fields} (hps : propertiesOf fields = .obj ps) {name : String} {s : Json}
    (hs : field? name ps = some s) : Located root (place.property name s) := fun _ _ =>
  at?_key (hplace.child hobj (field?_of_propertiesOf hps hs)) hs

theorem Located.subschema (hplace : Located root place) (hobj : place.schema = .obj fields)
    (keyword : String) : Located root (place.subschema fields keyword) := by
  intro fields' hobj'
  cases hfield : field? keyword fields with
  | none =>
    -- an absent keyword stands for the schema `true`
    have htrue : (place.subschema fields keyword).schema = .bool true := by
      simp [Place.subschema, Place.child, subschemaOf, hfield]
    rw [htrue] at hobj'
    cases hobj'
  | some s =>
    have hs : place.subschema fields keyword = place.child keyword s := by
      simp [Place.subschema, subschemaOf, hfield]
    rw [hs]
    exact hplace.child hobj hfield

theorem Located.propertyOrAdditional (hplace : Located root place)
    (hobj : place.schema = .obj fields) {ps : Fields} (hps : propertiesOf fields = .obj ps)
    (name : String) : Located root (place.propertyOrAdditional fields ps name) := by
  unfold Place.propertyOrAdditional
  cases hs : field? name ps with
  | some s => exact hplace.property hobj hps hs
  | none => exact hplace.subschema hobj _

/-- A reference leads to a position of the document, whatever text it is. -/
theorem at?_of_resolveLocalRef {reference : Json}
    (hpart : resolveLocalRef root reference = some part) :
    at? root part.node = some part.schema := by
  unfold resolveLocalRef at hpart
  split at hpart
  next text =>
    obtain ⟨tokens, -, hpart⟩ := Option.bind_eq_some_iff.mp hpart
    split at hpart
    next => simp at hpart
    next => simp at hpart
    next target hlookup =>
      obtain rfl := Option.some.inj hpart
      exact (lookupTokens_eq_some hlookup).2
  next => simp at hpart

theorem Located.resolvePlace (hplace : Located root place)
    (hpart : resolvePlace root place fields = some part) : Located root part := by
  unfold Contracts.resolvePlace at hpart
  split at hpart
  next reference _ => exact fun _ _ => at?_of_resolveLocalRef hpart
  next =>
    obtain rfl := Option.some.inj hpart
    exact hplace

end Parts

/-- Both fragments of a comparison are where their positions say. -/
structure ComparisonLocated (leftRoot rightRoot : Json) (c : Comparison) : Prop where
  left : Located leftRoot c.left
  right : Located rightRoot c.right

section Descent
variable {isValid : Json → Json → Bool} {leftRoot rightRoot : Json} {left right : Place}
  {l r : Fields} {pointer : String} {c d : Comparison}

theorem located_of_goal_mem_compareObjects (hleft : Located leftRoot left)
    (hright : Located rightRoot right) (hl : left.schema = .obj l) (hr : right.schema = .obj r)
    (hc : Item.goal c ∈ compareObjects left right l r pointer) :
    ComparisonLocated leftRoot rightRoot c := by
  unfold compareObjects at hc
  split at hc
  next lps rps hlps hrps =>
    simp only [List.mem_append, List.mem_cons, reduceCtorEq, false_or, mem_compareDeclared,
      mem_compareUndeclared, mem_compareAdditional, Item.goal.injEq, and_false] at hc
    rcases hc with (⟨name, s, hs, -, rfl⟩ | ⟨name, s, hs, -, -, -, rfl⟩) | ⟨-, -, -, rfl⟩
    · exact ⟨hleft.propertyOrAdditional hl hlps name, hright.property hr hrps hs⟩
    · exact ⟨hleft.property hl hlps hs, hright.subschema hr _⟩
    · exact ⟨hleft.subschema hl _, hright.subschema hr _⟩
  next => simp at hc

theorem Branch.located (hleft : Located leftRoot left) (hright : Located rightRoot right)
    (hl : left.schema = .obj l) (hr : right.schema = .obj r)
    {e : Expansion Comparison RelationReport}
    (he : Branch isValid leftRoot rightRoot left right l r pointer e) (hc : c ∈ e.goals) :
    ComparisonLocated leftRoot rightRoot c := by
  cases he with
  | rejected report _ => simp [Expansion.goals] at hc
  | finite => simp [Expansion.goals] at hc
  | reference leftResolved rightResolved _ hlres hrres _ _ =>
    obtain rfl := List.mem_singleton.mp hc
    exact ⟨hleft.resolvePlace hlres, hright.resolvePlace hrres⟩
  | leftUnion keyword branches _ hunion =>
    rw [Expansion.goals, mem_itemGoals, List.mem_map] at hc
    obtain ⟨branch, hbranch, hc⟩ := hc
    obtain rfl := Item.goal.inj hc
    exact ⟨hleft.branch hl (unionBranches?_ne hunion).2 hbranch, hright⟩
  | rightAll branches _ _ hfield =>
    rw [Expansion.goals, mem_itemGoals, List.mem_map] at hc
    obtain ⟨branch, hbranch, hc⟩ := hc
    obtain rfl := Item.goal.inj hc
    exact ⟨hleft, hright.branch hr hfield hbranch⟩
  | leftAll branches failure _ hfield _ =>
    rw [Expansion.goals, List.mem_map] at hc
    obtain ⟨branch, hbranch, rfl⟩ := hc
    exact ⟨hleft.branch hl hfield hbranch, hright⟩
  | assertions _ =>
    rw [Expansion.goals, mem_itemGoals] at hc
    rcases goal_mem_compareAssertions hc with hc | hc
    · exact located_of_goal_mem_compareObjects hleft hright hl hr hc
    · obtain rfl := Item.goal.inj (List.mem_singleton.mp hc)
      exact ⟨hleft.subschema hl _, hright.subschema hr _⟩

theorem ComparisonLocated.part (hc : ComparisonLocated leftRoot rightRoot c)
    (hsettle : settle c = none) (hd : d ∈ (expand isValid leftRoot rightRoot c).goals) :
    ComparisonLocated leftRoot rightRoot d := by
  obtain ⟨l, r, hl, hr⟩ := settle_eq_none hsettle
  simp only [expand, hl, hr] at hd
  exact (compareSchemas_branch isValid leftRoot rightRoot c.left c.right l r c.pointer).located
    hc.left hc.right hl hr hd

/-- The pairs of positions the memo can hold. -/
def comparisonKeys (leftRoot rightRoot : Json) : List (Node × Node) :=
  positions leftRoot ×ˢ positions rightRoot

theorem ComparisonLocated.key_mem (hc : ComparisonLocated leftRoot rightRoot c)
    (hsettle : settle c = none) : c.key ∈ comparisonKeys leftRoot rightRoot := by
  obtain ⟨l, r, hl, hr⟩ := settle_eq_none hsettle
  exact List.mem_product.mpr ⟨mem_positions (hc.left l hl), mem_positions (hc.right r hr)⟩

theorem length_comparisonKeys_lt (leftRoot rightRoot : Json) :
    (comparisonKeys leftRoot rightRoot).length < comparisonFuel leftRoot rightRoot := by
  rw [comparisonKeys, List.length_product, comparisonFuel]
  exact Nat.lt_succ_self _

/-- From any call and any memo the comparison answers, and no further level changes the answer. -/
theorem ComparisonLocated.terminates (hc : ComparisonLocated leftRoot rightRoot c)
    (visited : List (Node × Node)) :
    ∃ result, ∀ fuel, comparisonFuel leftRoot rightRoot ≤ fuel →
      (compareProblem isValid leftRoot rightRoot).eval fuel visited c = some result := by
  have hkey : ∀ d, ComparisonLocated leftRoot rightRoot d →
      (compareProblem isValid leftRoot rightRoot).settle d = none →
      (compareProblem isValid leftRoot rightRoot).key d ∈ comparisonKeys leftRoot rightRoot :=
    fun _ hd hsettle => hd.key_mem hsettle
  have hpart : ∀ d e, ComparisonLocated leftRoot rightRoot d →
      (compareProblem isValid leftRoot rightRoot).settle d = none →
      e ∈ ((compareProblem isValid leftRoot rightRoot).expand d).goals →
      ComparisonLocated leftRoot rightRoot e := fun _ _ hd hsettle he => hd.part hsettle he
  obtain ⟨result, hresult⟩ := eval_terminates hkey hpart visited c hc
  refine ⟨result, fun fuel hfuel => hresult fuel ?_⟩
  exact (length_comparisonKeys_lt leftRoot rightRoot).trans_le hfuel

end Descent

/-- The comparison of any two documents ends with a report. -/
theorem compareSubset_terminates (isValid : Json → Json → Bool) (left right : Json) :
    ∃ visited, ∀ fuel, comparisonFuel left right ≤ fuel →
      (compareProblem isValid left right).eval fuel [] (comparison left right) =
        some (compareSubset isValid left right, visited) := by
  have hlocated : ComparisonLocated left right (comparison left right) :=
    ⟨located_root left, located_root right⟩
  have hends : ∃ result, ∀ fuel, comparisonFuel left right ≤ fuel →
      (compareProblem isValid left right).eval fuel [] (comparison left right) = some result :=
    hlocated.terminates []
  obtain ⟨⟨report, visited⟩, hresult⟩ := hends
  refine ⟨visited, fun fuel hfuel => ?_⟩
  rw [hresult fuel hfuel, compareSubset, hresult _ le_rfl]

end CapabilityCompiler.Contracts
