import CapabilityCompiler.Interactions.ConditionParser

/-! The recursive grammar of condition documents, and what the parser makes of every document. An
operator that is a list or an object is looked up in a set, which raises a type error. -/
namespace CapabilityCompiler.Interactions

/-! Sizes. -/

mutual

def ConditionExpression.depth : ConditionExpression → ℕ
  | .all operands => 1 + depthAll operands
  | .any operands => 1 + depthAll operands
  | .not operand => 1 + operand.depth
  | .comparison _ _ _ => 1
  | .present _ => 1

def depthAll : List ConditionExpression → ℕ
  | [] => 0
  | operand :: rest => max operand.depth (depthAll rest)

end

mutual

def ConditionExpression.size : ConditionExpression → ℕ
  | .all operands => 1 + sizeAll operands
  | .any operands => 1 + sizeAll operands
  | .not operand => 1 + operand.size
  | .comparison _ _ _ => 1
  | .present _ => 1

def sizeAll : List ConditionExpression → ℕ
  | [] => 0
  | operand :: rest => operand.size + sizeAll rest

end

namespace ConditionParser
open Foundation

section Grammar
variable (heap : Heap) (literal? : ℕ → Option Json)

mutual

/-- The object is derived as the expression. -/
def Derives : ConditionExpression → ℕ → Prop
  | .all operands, node => textField? heap node "operator" = some "all" ∧
      onlyKeys heap node ["operands", "operator"] = true ∧ operands ≠ [] ∧
      ∃ ids, listField? heap node "operands" = some ids ∧ DerivesAll operands ids
  | .any operands, node => textField? heap node "operator" = some "any" ∧
      onlyKeys heap node ["operands", "operator"] = true ∧ operands ≠ [] ∧
      ∃ ids, listField? heap node "operands" = some ids ∧ DerivesAll operands ids
  | .not operand, node => textField? heap node "operator" = some "not" ∧
      onlyKeys heap node ["operand", "operator"] = true ∧
      ∃ id, field? heap node "operand" = some id ∧ Derives operand id
  | .comparison operator left right, node =>
      textField? heap node "operator" = some operator.dump ∧
      onlyKeys heap node ["left", "operator", "right"] = true ∧
      operandField? heap literal? node "left" = some left ∧
      operandField? heap literal? node "right" = some right
  | .present operand, node => textField? heap node "operator" = some "present" ∧
      onlyKeys heap node ["operand", "operator"] = true ∧
      operandField? heap literal? node "operand" = some operand

/-- The values are derived as the expressions, in order. -/
def DerivesAll : List ConditionExpression → List ℕ → Prop
  | [], ids => ids = []
  | operand :: rest, ids => ∃ id others, ids = id :: others ∧ Derives operand id ∧
      DerivesAll rest others

end

/-- A derivation within the limits of the parser. -/
def DerivesWithin (e : ConditionExpression) (node : ℕ) : Prop :=
  Derives heap literal? e node ∧ e.depth ≤ maxConditionDepth ∧ e.size ≤ maxConditionNodes

def Shape.isUnhashable : Shape → Bool
  | .unhashable => true
  | _ => false

def Shape.isMalformed : Shape → Bool
  | .malformed => true
  | _ => false

/-- Reading in order comes to an object of such a shape: all that is read before it is derivable, and
the levels and the visits that are left suffice. -/
inductive Comes (target : Shape → Bool) : ℕ → ℕ → ℕ → Prop where
  | here {levels count node : ℕ} : count < maxConditionNodes → target (shape heap node) = true →
      Comes target (levels + 1) count node
  | operand {levels count node child : ℕ} {operator : List ConditionExpression → ConditionExpression}
      {operands before after : List ℕ} {read : List ConditionExpression} :
      count < maxConditionNodes → shape heap node = .group operator operands →
      operands.filter (isDict heap) = before ++ child :: after → DerivesAll heap literal? read before →
      depthAll read ≤ levels → count + 1 + sizeAll read ≤ maxConditionNodes →
      Comes target levels (count + 1 + sizeAll read) child → Comes target (levels + 1) count node
  | negation {levels count node operand : ℕ} : count < maxConditionNodes →
      shape heap node = .negation operand → Comes target levels (count + 1) operand →
      Comes target (levels + 1) count node

/-- Validation meets an operator that is a list or an object: in the reading of the document, or, where
this comes to a malformed object first, in the validation of what is below it. -/
inductive Meets : ℕ → List ℕ → ℕ → Prop where
  | reading {levels node : ℕ} {path : List ℕ} : node ∉ path → isDict heap node = true →
      Comes heap literal? Shape.isUnhashable maxConditionDepth 0 node →
      Meets (levels + 1) path node
  | operand {levels node item : ℕ} {path operands : List ℕ}
      {operator : List ConditionExpression → ConditionExpression} : node ∉ path →
      isDict heap node = true → Comes heap literal? Shape.isMalformed maxConditionDepth 0 node →
      shape heap node = .group operator operands → item ∈ operands →
      Meets levels (node :: path) item → Meets (levels + 1) path node
  | negation {levels node operand : ℕ} {path : List ℕ} : node ∉ path → isDict heap node = true →
      Comes heap literal? Shape.isMalformed maxConditionDepth 0 node →
      shape heap node = .negation operand → Meets levels (node :: path) operand →
      Meets (levels + 1) path node

end Grammar

section Shapes
variable {heap : Heap} {literal? : ℕ → Option Json} {node : ℕ}

theorem not_unhashable_of_text {name : String} (h : textField? heap node "operator" = some name) :
    operatorUnhashable heap node = false := by
  unfold textField? at h
  unfold operatorUnhashable
  split at h
  · rename_i hvalue
    rw [hvalue]
  · exact absurd h (by simp)

theorem isDict_of_text {name value : String} (h : textField? heap node name = some value) :
    isDict heap node = true := by
  unfold textField? field? at h
  unfold isDict
  cases hcell : heap node with
  | dict fields => rfl
  | _ => simp [hcell] at h

theorem shape_of_text {name : String} (h : textField? heap node "operator" = some name) :
    shape heap node = namedShape heap name node := by
  unfold shape
  rw [if_neg (by simp [not_unhashable_of_text h]), h]

/-- A shape that is neither unhashable nor malformed is the one of an operator. -/
theorem text_of_shape (hhash : (shape heap node).isUnhashable = false)
    (hform : (shape heap node).isMalformed = false) :
    ∃ name, textField? heap node "operator" = some name ∧
      shape heap node = namedShape heap name node := by
  unfold shape at hhash hform
  split at hhash
  · exact absurd hhash (by simp [Shape.isUnhashable])
  · cases htext : textField? heap node "operator" with
    | none => simp_all [Shape.isMalformed]
    | some name => exact ⟨name, rfl, shape_of_text htext⟩

theorem groupShape_eq {operator : List ConditionExpression → ConditionExpression}
    {operands : List ℕ} (h : listField? heap node "operands" = some operands) :
    groupShape heap operator node = .group operator operands := by
  rw [groupShape, h]

theorem group_of_shape {operator : List ConditionExpression → ConditionExpression}
    {operands : List ℕ} (h : shape heap node = .group operator operands) :
    listField? heap node "operands" = some operands ∧
      (textField? heap node "operator" = some "all" ∧ operator = .all ∨
        textField? heap node "operator" = some "any" ∧ operator = .any) := by
  obtain ⟨name, htext, hshape⟩ := text_of_shape (by rw [h]; rfl) (by rw [h]; rfl)
  rw [h] at hshape
  unfold namedShape at hshape
  split at hshape
  · unfold groupShape at hshape
    split at hshape
    · rename_i found hfound
      obtain ⟨rfl, rfl⟩ := Shape.group.inj hshape
      exact ⟨hfound, .inl ⟨htext, rfl⟩⟩
    · exact absurd hshape (by simp)
  · unfold groupShape at hshape
    split at hshape
    · rename_i found hfound
      obtain ⟨rfl, rfl⟩ := Shape.group.inj hshape
      exact ⟨hfound, .inr ⟨htext, rfl⟩⟩
    · exact absurd hshape (by simp)
  · unfold negationShape at hshape
    split at hshape
    · split at hshape <;> exact absurd hshape (by simp)
    · exact absurd hshape (by simp)
  all_goals exact absurd hshape (by simp)

theorem negation_of_shape {operand : ℕ} (h : shape heap node = .negation operand) :
    textField? heap node "operator" = some "not" ∧ field? heap node "operand" = some operand ∧
      isDict heap operand = true := by
  obtain ⟨name, htext, hshape⟩ := text_of_shape (by rw [h]; rfl) (by rw [h]; rfl)
  rw [h] at hshape
  unfold namedShape groupShape negationShape at hshape
  split at hshape
  · split at hshape <;> exact absurd hshape (by simp)
  · split at hshape <;> exact absurd hshape (by simp)
  · split at hshape
    · rename_i found hfound
      split at hshape
      · rename_i hdict
        obtain rfl := Shape.negation.inj hshape
        exact ⟨htext, hfound, hdict⟩
      · exact absurd hshape (by simp)
    · exact absurd hshape (by simp)
  all_goals exact absurd hshape (by simp)

theorem comparison_of_shape {operator : ComparisonOperator}
    (h : shape heap node = .comparison operator) :
    textField? heap node "operator" = some operator.dump := by
  obtain ⟨name, htext, hshape⟩ := text_of_shape (by rw [h]; rfl) (by rw [h]; rfl)
  rw [h] at hshape
  unfold namedShape groupShape negationShape at hshape
  split at hshape
  · split at hshape <;> exact absurd hshape (by simp)
  · split at hshape <;> exact absurd hshape (by simp)
  · split at hshape
    · split at hshape <;> exact absurd hshape (by simp)
    · exact absurd hshape (by simp)
  · rw [htext, Shape.comparison.inj hshape]
    rfl
  · rw [htext, Shape.comparison.inj hshape]
    rfl
  · rw [htext, Shape.comparison.inj hshape]
    rfl
  all_goals exact absurd hshape (by simp)

theorem present_of_shape (h : shape heap node = .present) :
    textField? heap node "operator" = some "present" := by
  obtain ⟨name, htext, hshape⟩ := text_of_shape (by rw [h]; rfl) (by rw [h]; rfl)
  rw [h] at hshape
  unfold namedShape groupShape negationShape at hshape
  split at hshape
  · split at hshape <;> exact absurd hshape (by simp)
  · split at hshape <;> exact absurd hshape (by simp)
  · split at hshape
    · split at hshape <;> exact absurd hshape (by simp)
    · exact absurd hshape (by simp)
  · exact absurd hshape (by simp)
  · exact absurd hshape (by simp)
  · exact absurd hshape (by simp)
  · exact htext
  · exact absurd hshape (by simp)

theorem isDict_of_derives {e : ConditionExpression} (h : Derives heap literal? e node) :
    isDict heap node = true := by
  cases e <;> exact isDict_of_text h.1

/-- What is derived has the shape of its operator. -/
theorem shape_of_derives {e : ConditionExpression} (h : Derives heap literal? e node) :
    match e with
    | .all _ => ∃ ids, shape heap node = .group .all ids
    | .any _ => ∃ ids, shape heap node = .group .any ids
    | .not _ => ∃ id, shape heap node = .negation id
    | .comparison operator _ _ => shape heap node = .comparison operator
    | .present _ => shape heap node = .present := by
  cases e with
  | all operands =>
    obtain ⟨htext, -, -, ids, hids, -⟩ := h
    exact ⟨ids, by rw [shape_of_text htext, namedShape, groupShape_eq hids]⟩
  | any operands =>
    obtain ⟨htext, -, -, ids, hids, -⟩ := h
    exact ⟨ids, by rw [shape_of_text htext, namedShape, groupShape_eq hids]⟩
  | not operand =>
    obtain ⟨htext, -, id, hid, hderives⟩ := h
    refine ⟨id, ?_⟩
    rw [shape_of_text htext, namedShape, negationShape, hid]
    simp only [isDict_of_derives hderives, if_true]
  | comparison operator left right =>
    rw [shape_of_text h.1]
    cases operator <;> rfl
  | present operand =>
    rw [shape_of_text h.1]
    rfl

end Shapes
end ConditionParser
end CapabilityCompiler.Interactions
