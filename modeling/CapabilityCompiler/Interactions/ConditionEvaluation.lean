import CapabilityCompiler.Foundation.JsonEquality
import CapabilityCompiler.Interactions.Expressions

/-! The evaluation of a condition document on the values of an interaction. -/
namespace CapabilityCompiler.Interactions
open Foundation Json

def rejected {α : Type} (message : String) : Except ConditionError α := .error (.rejected message)

/-! Reading. -/

def evaluatorTokens (pointer : String) : Except ConditionError (List String) :=
  if pointer.toList.head? ≠ some '/' ∨ pointer = "/" then
    rejected "interaction field must be an absolute JSON Pointer"
  else
    let raw := (Text.splitChars '/' pointer.toList).tail
    if raw.all JsonPointer.escapesValid then
      .ok (raw.map fun token => Text.unescapeToken (String.ofList token))
    else rejected "interaction field has invalid JSON Pointer"

/-- The most digits that `int` reads. -/
def maxIntDigits : ℕ := 4300

def intOf (token : String) (index : ℕ) : Except ConditionError ℕ :=
  if maxIntDigits < token.length then .error .valueError else .ok index

theorem intOf_of_lt {token : String} {index : ℕ} (h : maxIntDigits < token.length) :
    intOf token index = .error .valueError := if_pos h

theorem intOf_of_le {token : String} {index : ℕ} (h : ¬ maxIntDigits < token.length) :
    intOf token index = .ok index := if_neg h

/-- Walk along the tokens: nothing is found where an object has no such member, an array no such
item, or a scalar is reached. -/
def readTokens : Json → List String → Except ConditionError (Option Json)
  | value, [] => .ok (some value)
  | .obj fields, token :: rest =>
    match field? token fields with
    | some child => readTokens child rest
    | none => .ok none
  | .arr items, token :: rest =>
    match Text.decimal? token with
    | some numeral => do
      let index ← intOf token numeral
      match items[index]? with
      | some item => readTokens item rest
      | none => .ok none
    | none => .ok none
  | _, _ :: _ => .ok none

def readPointer (state : Json) (pointer : String) : Except ConditionError (Option Json) := do
  readTokens state (← evaluatorTokens pointer)

def hasKeys (fields : Fields) (expected : List String) : Bool :=
  decide ((fields.map Prod.fst).toFinset = expected.toFinset)

def requireKeys (fields : Fields) (expected : List String) : Except ConditionError Unit :=
  if hasKeys fields expected then .ok () else rejected "condition contains unexpected fields"

/-- The value of an operand; nothing where a reference finds nothing. -/
def operandValue (state : Json) : Option Json → Except ConditionError (Option Json)
  | some (.obj fields) =>
    match field? "kind" fields, field? "pointer" fields, field? "value" fields with
    | some (.str "reference"), some (.str pointer), _ =>
      if hasKeys fields ["kind", "pointer"] then readPointer state pointer else malformed
    | some (.str "literal"), _, value =>
      if hasKeys fields ["kind", "value"] then .ok value else malformed
    | _, _, _ => malformed
  | _ => rejected "condition expression must be a mapping"
where
  malformed : Except ConditionError (Option Json) :=
    rejected "condition expression must be a field or literal"

/-! Comparing. -/

/-- `part in text` for two texts. -/
def isPart (part text : String) : Bool :=
  text.toList.tails.any (part.toList.isPrefixOf ·)

def isMember (left : Json) : Json → Except ConditionError Bool
  | .arr items => .ok (items.any (pyEqual left))
  | .str text =>
    match left with
    | .str part => .ok (isPart part text)
    | _ => .error .typeError
  | _ => .ok false

def compareValues : ComparisonOperator → Json → Json → Except ConditionError Bool
  | .eq, left, right => .ok (pyEqual left right)
  | .ne, left, right => .ok (!pyEqual left right)
  | .isIn, left, right => isMember left right

/-- A comparison with a missing value fails. -/
def compareFound (operator : ComparisonOperator) :
    Option Json → Option Json → Except ConditionError Bool
  | some left, some right => compareValues operator left right
  | _, _ => .ok false

def comparisonOf : String → Option ComparisonOperator
  | "eq" => some .eq
  | "ne" => some .ne
  | "in" => some .isIn
  | _ => none

/-! Evaluating. -/

/-- An operator that is no text is none of the known ones; a list or an object cannot be looked up. -/
def operatorOf (fields : Fields) : Except ConditionError String :=
  match field? "operator" fields with
  | some (.str operator) => .ok operator
  | some (.arr _) => .error .typeError
  | some (.obj _) => .error .typeError
  | _ => .ok ""

def evaluateLeaf (state : Json) (operator : String) (fields : Fields) :
    Except ConditionError Bool :=
  if operator = "present" then do
    requireKeys fields ["operator", "operand"]
    let value ← operandValue state (field? "operand" fields)
    .ok value.isSome
  else match comparisonOf operator with
    | some comparison => do
      requireKeys fields ["operator", "left", "right"]
      let left ← operandValue state (field? "left" fields)
      let right ← operandValue state (field? "right" fields)
      compareFound comparison left right
    | none => rejected "unsupported condition operator"

mutual

def evaluateDocument (state : Json) : Json → Except ConditionError Bool
  | .obj fields => do
    let operator ← operatorOf fields
    if operator = "all" ∨ operator = "any" then do
      requireKeys fields ["operator", "operands"]
      let values ← operandsIn state fields
      .ok (if operator = "all" then values.all id else values.any id)
    else if operator = "not" then do
      requireKeys fields ["operator", "operand"]
      let value ← operandIn state fields
      .ok (!value)
    else evaluateLeaf state operator fields
  | _ => rejected "nested condition must be a mapping"

def operandsIn (state : Json) : Fields → Except ConditionError (List Bool)
  | [] => rejected "condition operands must be a sequence"
  | (key, value) :: rest =>
    if key = "operands" then evaluateSequence state value else operandsIn state rest

def evaluateSequence (state : Json) : Json → Except ConditionError (List Bool)
  | .arr [] => rejected "condition operands must be nonempty"
  | .arr items => evaluateItems state items
  | _ => rejected "condition operands must be a sequence"

def evaluateItems (state : Json) : List Json → Except ConditionError (List Bool)
  | [] => .ok []
  | item :: rest => do
    let value ← evaluateDocument state item
    let values ← evaluateItems state rest
    .ok (value :: values)

def operandIn (state : Json) : Fields → Except ConditionError Bool
  | [] => rejected "nested condition must be a mapping"
  | (key, value) :: rest =>
    if key = "operand" then evaluateDocument state value else operandIn state rest

end

/-- What the budget counts below a document. -/
def documentChildren : Json → Except ConditionError (List Json)
  | .obj fields => do
    let operator ← operatorOf fields
    if operator = "all" ∨ operator = "any" then
      match field? "operands" fields with
      | some (.arr items) => .ok items
      | _ => .ok []
    else if operator = "not" ∨ operator = "present" then
      .ok [(field? "operand" fields).getD .null]
    else match comparisonOf operator with
      | some _ => .ok [(field? "left" fields).getD .null, (field? "right" fields).getD .null]
      | none => .ok []
  | _ => .ok []

def evaluateCondition (condition state : Fields) : Except ConditionError Bool := do
  checkBudget documentChildren maxConditionNodes [(.obj condition, 1)]
  evaluateDocument (.obj state) (.obj condition)

/-! The budget accepts exactly the trees that are neither too deep nor too large. -/

section Budget
variable {ν : Type} {children : ν → List ν} {count height : ν → ℕ}

/-- The size and the height of a tree, from those of its children. -/
structure Measures (children : ν → List ν) (count height : ν → ℕ) : Prop where
  count_eq : ∀ node, count node = 1 + ((children node).map count).sum
  height_le : ∀ node depth, depth + height node ≤ maxConditionDepth + 1 ↔
    depth ≤ maxConditionDepth ∧
      ∀ child ∈ children node, depth + 1 + height child ≤ maxConditionDepth + 1

theorem Measures.checkBudget_iff (h : Measures children count height) {budget : ℕ}
    {stack : List (ν × ℕ)} :
    checkBudget (fun node => .ok (children node)) budget stack = .ok () ↔
      (stack.map fun entry => count entry.1).sum ≤ budget ∧
        ∀ entry ∈ stack, entry.2 + height entry.1 ≤ maxConditionDepth + 1 := by
  induction budget generalizing stack with
  | zero =>
    cases stack with
    | nil => simp [checkBudget]
    | cons entry stack =>
      obtain ⟨node, depth⟩ := entry
      have hcount := h.count_eq node
      simp only [checkBudget, reduceCtorEq, List.map_cons, List.sum_cons, false_iff, not_and]
      omega
  | succ budget ih =>
    cases stack with
    | nil => simp [checkBudget]
    | cons entry stack =>
      obtain ⟨node, depth⟩ := entry
      have hheight := h.height_le node depth
      rw [checkBudget]
      split
      · rename_i hdeep
        simp only [reduceCtorEq, List.mem_cons, forall_eq_or_imp, false_iff, not_and]
        omega
      · rename_i hdepth
        have hbelow : ((children node).map fun child => count child).sum = count node - 1 := by
          rw [h.count_eq node, Nat.add_sub_cancel_left]
        have hpositive : 0 < count node := by
          rw [h.count_eq node]
          omega
        change checkBudget _ budget ((children node).map (·, depth + 1) ++ stack) = .ok () ↔ _
        rw [ih, List.map_append, List.sum_append, List.map_map, List.map_cons, List.sum_cons]
        simp only [Function.comp_def, hbelow, List.forall_mem_append, List.forall_mem_map,
          List.forall_mem_cons, hheight]
        have hsum : ∀ rest, count node - 1 + rest ≤ budget ↔ count node + rest ≤ budget + 1 := by
          omega
        rw [hsum]
        simp only [Nat.not_lt.mp hdepth, true_and]

end Budget

mutual

def ConditionExpression.nodeCount : ConditionExpression → ℕ
  | .all operands => 1 + nodeCounts operands
  | .any operands => 1 + nodeCounts operands
  | .not operand => 1 + operand.nodeCount
  | .comparison _ _ _ => 3
  | .present _ => 2

def nodeCounts : List ConditionExpression → ℕ
  | [] => 0
  | operand :: rest => operand.nodeCount + nodeCounts rest

end

mutual

def ConditionExpression.height : ConditionExpression → ℕ
  | .all operands => 1 + heights operands
  | .any operands => 1 + heights operands
  | .not operand => 1 + operand.height
  | .comparison _ _ _ => 2
  | .present _ => 2

def heights : List ConditionExpression → ℕ
  | [] => 0
  | operand :: rest => max operand.height (heights rest)

end

namespace ConditionNode

def nodeCount : ConditionNode → ℕ
  | .expression e => e.nodeCount
  | .operand _ => 1

def height : ConditionNode → ℕ
  | .expression e => e.height
  | .operand _ => 1

end ConditionNode

theorem nodeCounts_eq (operands : List ConditionExpression) :
    nodeCounts operands = (operands.map (·.nodeCount)).sum := by
  induction operands with
  | nil => rfl
  | cons operand rest ih => rw [nodeCounts, ih, List.map_cons, List.sum_cons]

theorem nodeCount_le_nodeCounts {operands : List ConditionExpression}
    {operand : ConditionExpression} (hmem : operand ∈ operands) :
    operand.nodeCount ≤ nodeCounts operands := by
  induction operands with
  | nil => exact absurd hmem List.not_mem_nil
  | cons first rest ih =>
    rw [nodeCounts]
    rcases List.mem_cons.mp hmem with rfl | hmem
    · exact Nat.le_add_right _ _
    · exact Nat.le_add_left_of_le (ih hmem)

theorem heights_le {operands : List ConditionExpression} {n : ℕ} :
    heights operands ≤ n ↔ ∀ operand ∈ operands, operand.height ≤ n := by
  induction operands with
  | nil => simp [heights]
  | cons operand rest ih => simp [heights, ih]

/-- The depth of an expression with operands is within the bound if those of the operands are. -/
theorem depth_heights_le {operands : List ConditionExpression} {depth bound : ℕ} :
    depth + (1 + heights operands) ≤ bound + 1 ↔
      depth ≤ bound ∧ ∀ operand ∈ operands, depth + 1 + operand.height ≤ bound + 1 := by
  constructor
  · intro h
    have hall := heights_le.mp (show heights operands ≤ bound - depth by omega)
    refine ⟨by omega, fun operand hmem => ?_⟩
    have hoperand := hall operand hmem
    omega
  · rintro ⟨hdepth, hall⟩
    have hheights : heights operands ≤ bound - depth := by
      refine heights_le.mpr fun operand hmem => ?_
      have hoperand := hall operand hmem
      omega
    omega

theorem measures_conditionNode :
    Measures ConditionNode.children ConditionNode.nodeCount ConditionNode.height where
  count_eq := by
    intro node
    cases node with
    | operand operand => rfl
    | expression e =>
      cases e with
      | all operands =>
        simp [ConditionNode.nodeCount, ConditionNode.children, ConditionExpression.nodeCount,
          nodeCounts_eq, Function.comp_def]
      | any operands =>
        simp [ConditionNode.nodeCount, ConditionNode.children, ConditionExpression.nodeCount,
          nodeCounts_eq, Function.comp_def]
      | not negated => rfl
      | comparison operator left right => rfl
      | present tested => rfl
  height_le := by
    intro node depth
    cases node with
    | operand operand =>
      simp [ConditionNode.height, ConditionNode.children]
    | expression e =>
      cases e with
      | all operands =>
        simp only [ConditionNode.height, ConditionNode.children, ConditionExpression.height,
          List.forall_mem_map]
        exact depth_heights_le
      | any operands =>
        simp only [ConditionNode.height, ConditionNode.children, ConditionExpression.height,
          List.forall_mem_map]
        exact depth_heights_le
      | not negated =>
        simp [ConditionNode.height, ConditionNode.children, ConditionExpression.height]
        omega
      | comparison operator left right =>
        simp [ConditionNode.height, ConditionNode.children, ConditionExpression.height]
        omega
      | present tested =>
        simp [ConditionNode.height, ConditionNode.children, ConditionExpression.height]
        omega

/-- An expression is within the budget if it has at most so many nodes and levels. -/
theorem validateConditionComplexity_iff {expression : ConditionExpression} :
    validateConditionComplexity expression = .ok () ↔
      expression.nodeCount ≤ maxConditionNodes ∧ expression.height ≤ maxConditionDepth := by
  rw [validateConditionComplexity, measures_conditionNode.checkBudget_iff]
  simp only [List.map_cons, List.map_nil, List.sum_cons, List.sum_nil, List.mem_singleton, forall_eq,
    ConditionNode.nodeCount, ConditionNode.height]
  omega

/-! The document of an expression. -/

def ConditionNode.document : ConditionNode → Json
  | .expression e => .obj e.dump
  | .operand tested => tested.dump

theorem comparisonOf_dump (operator : ComparisonOperator) :
    comparisonOf operator.dump = some operator := by
  cases operator <;> rfl

theorem documentChildren_document (node : ConditionNode) :
    documentChildren node.document = .ok (node.children.map ConditionNode.document) := by
  cases node with
  | operand operand => cases operand <;> rfl
  | expression e =>
    cases e with
    | all operands =>
      simp [documentChildren, ConditionNode.document, ConditionNode.children, operatorOf,
        ConditionExpression.dump, dumpOperands_eq, Function.comp_def, bind, Except.bind]
    | any operands =>
      simp [documentChildren, ConditionNode.document, ConditionNode.children, operatorOf,
        ConditionExpression.dump, dumpOperands_eq, Function.comp_def, bind, Except.bind]
    | not negated => rfl
    | comparison operator left right => cases operator <;> rfl
    | present tested => rfl

/-- The two budgets agree. -/
theorem checkBudget_document (budget : ℕ) (stack : List (ConditionNode × ℕ)) :
    checkBudget documentChildren budget (stack.map fun entry => (entry.1.document, entry.2)) =
      checkBudget (fun node : ConditionNode => .ok node.children) budget stack := by
  induction budget generalizing stack with
  | zero =>
    cases stack with
    | nil => rfl
    | cons entry stack => rfl
  | succ budget ih =>
    cases stack with
    | nil => rfl
    | cons entry stack =>
      obtain ⟨node, depth⟩ := entry
      rw [List.map_cons, checkBudget, checkBudget, documentChildren_document]
      split
      · rfl
      · change checkBudget documentChildren budget ((node.children.map ConditionNode.document).map
          (·, depth + 1) ++ stack.map fun entry => (entry.1.document, entry.2)) =
          checkBudget _ budget (node.children.map (·, depth + 1) ++ stack)
        rw [← ih, List.map_append, List.map_map, List.map_map]
        rfl

end CapabilityCompiler.Interactions
