import CapabilityCompiler.Foundation.JsonPointer

/-! Condition expressions of interaction contracts, which are read and never executed. -/
namespace CapabilityCompiler.Interactions
open Foundation

inductive ConditionOperand where
  | reference (pointer : String)
  | literal (value : Json)
deriving DecidableEq

inductive ComparisonOperator where
  | eq
  | ne
  | isIn
deriving DecidableEq

inductive ConditionExpression where
  | all (operands : List ConditionExpression)
  | any (operands : List ConditionExpression)
  | not (operand : ConditionExpression)
  | comparison (operator : ComparisonOperator) (left right : ConditionOperand)
  | present (operand : ConditionOperand)

inductive ConditionTarget where
  | visible
  | enabled
  | required
  | reset
deriving DecidableEq

structure InteractionCondition where
  id : String
  target : ConditionTarget
  targetPointer : String
  expression : ConditionExpression

namespace ConditionExpression

/-- The expressions directly below. -/
def subexpressions : ConditionExpression → List ConditionExpression
  | .all operands => operands
  | .any operands => operands
  | .not operand => [operand]
  | .comparison _ _ _ => []
  | .present _ => []

@[induction_eliminator]
theorem induction {motive : ConditionExpression → Prop}
    (all : ∀ operands, (∀ operand ∈ operands, motive operand) → motive (.all operands))
    (any : ∀ operands, (∀ operand ∈ operands, motive operand) → motive (.any operands))
    (not : ∀ operand, motive operand → motive (.not operand))
    (comparison : ∀ operator left right, motive (.comparison operator left right))
    (present : ∀ operand, motive (.present operand)) (e : ConditionExpression) : motive e := by
  refine @ConditionExpression.rec motive (fun operands => ∀ operand ∈ operands, motive operand)
    all any not comparison present ?_ ?_ e
  · exact fun operand h => absurd h List.not_mem_nil
  · intro operand rest hoperand hrest other hother
    rcases List.mem_cons.mp hother with rfl | hother
    · exact hoperand
    · exact hrest other hother

end ConditionExpression

/-! References. -/

def ConditionOperand.references : ConditionOperand → List String
  | .reference pointer => [pointer]
  | .literal _ => []

mutual

def iterConditionReferences : ConditionExpression → List String
  | .all operands => iterReferences operands
  | .any operands => iterReferences operands
  | .not operand => iterConditionReferences operand
  | .comparison _ left right => left.references ++ right.references
  | .present operand => operand.references

def iterReferences : List ConditionExpression → List String
  | [] => []
  | operand :: rest => iterConditionReferences operand ++ iterReferences rest

end

/-! Validity. -/

/-- An absolute pointer with valid escapes. -/
def validPointer (pointer : String) : Bool :=
  decide (pointer.toList.head? = some '/') &&
    (Text.splitChars '/' pointer.toList).tail.all JsonPointer.escapesValid

def ConditionOperand.isValid : ConditionOperand → Bool
  | .reference pointer => validPointer pointer
  | .literal _ => true

mutual

/-- What the models of the expressions accept. -/
def ConditionExpression.isValid : ConditionExpression → Bool
  | .all operands => !operands.isEmpty && allValid operands
  | .any operands => !operands.isEmpty && allValid operands
  | .not operand => operand.isValid
  | .comparison _ left right => left.isValid && right.isValid
  | .present operand => operand.isValid

def allValid : List ConditionExpression → Bool
  | [] => true
  | operand :: rest => operand.isValid && allValid rest

end

theorem allValid_iff {operands : List ConditionExpression} :
    allValid operands = true ↔ ∀ operand ∈ operands, operand.isValid = true := by
  induction operands with
  | nil => simp [allValid]
  | cons operand rest ih => simp [allValid, ih]

/-! The budget of depth and nodes. -/

inductive ConditionError where
  | rejected (message : String)
  | typeError
  | valueError
deriving DecidableEq

def maxConditionDepth : ℕ := 64

def maxConditionNodes : ℕ := 4096

def depthExceeded : ConditionError := .rejected "condition expression exceeds maximum depth"

def nodesExceeded : ConditionError := .rejected "condition expression exceeds maximum node count"

/-- Visit what is on the stack and everything below it, with a budget of nodes. -/
def checkBudget {ν : Type} (children : ν → Except ConditionError (List ν)) :
    ℕ → List (ν × ℕ) → Except ConditionError Unit
  | _, [] => .ok ()
  | 0, (_, depth) :: _ => .error (if maxConditionDepth < depth then depthExceeded else nodesExceeded)
  | budget + 1, (node, depth) :: stack =>
    if maxConditionDepth < depth then .error depthExceeded
    else do
      let below ← children node
      checkBudget children budget (below.map (·, depth + 1) ++ stack)

inductive ConditionNode where
  | expression (expression : ConditionExpression)
  | operand (operand : ConditionOperand)

def ConditionNode.children : ConditionNode → List ConditionNode
  | .expression (.all operands) => operands.map .expression
  | .expression (.any operands) => operands.map .expression
  | .expression (.not negated) => [.expression negated]
  | .expression (.comparison _ left right) => [.operand left, .operand right]
  | .expression (.present tested) => [.operand tested]
  | .operand _ => []

def validateConditionComplexity (expression : ConditionExpression) : Except ConditionError Unit :=
  checkBudget (fun node : ConditionNode => .ok node.children) maxConditionNodes
    [(.expression expression, 1)]

/-- The expression is valid and within the budget. -/
def ConditionExpression.Accepted (expression : ConditionExpression) : Prop :=
  expression.isValid = true ∧ validateConditionComplexity expression = .ok ()

/-! The documents that conditions are dumped as. -/

def ConditionOperand.dump : ConditionOperand → Json
  | .reference pointer => .obj [("kind", .str "reference"), ("pointer", .str pointer)]
  | .literal value => .obj [("kind", .str "literal"), ("value", value)]

def ComparisonOperator.dump : ComparisonOperator → String
  | .eq => "eq"
  | .ne => "ne"
  | .isIn => "in"

mutual

def ConditionExpression.dump : ConditionExpression → Fields
  | .all operands => [("operator", .str "all"), ("operands", .arr (dumpOperands operands))]
  | .any operands => [("operator", .str "any"), ("operands", .arr (dumpOperands operands))]
  | .not operand => [("operator", .str "not"), ("operand", .obj operand.dump)]
  | .comparison operator left right =>
    [("operator", .str operator.dump), ("left", left.dump), ("right", right.dump)]
  | .present operand => [("operator", .str "present"), ("operand", operand.dump)]

def dumpOperands : List ConditionExpression → List Json
  | [] => []
  | operand :: rest => .obj operand.dump :: dumpOperands rest

end

theorem dumpOperands_eq (operands : List ConditionExpression) :
    dumpOperands operands = operands.map fun operand => .obj operand.dump := by
  induction operands with
  | nil => rfl
  | cons operand rest ih => rw [dumpOperands, ih, List.map_cons]

end CapabilityCompiler.Interactions
