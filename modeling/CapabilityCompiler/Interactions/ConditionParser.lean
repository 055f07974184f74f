import CapabilityCompiler.Foundation.PostOrder
import CapabilityCompiler.Interactions.Expressions

/-! The parser of condition documents in memory: values that may be shared and may contain themselves.
An explicit stack replaces the recursion of the model validator, which is fallen back on. -/
namespace CapabilityCompiler.Interactions.ConditionParser
open Foundation

/-! Documents in memory. -/

/-- A value, with the identities of what it contains. -/
inductive Cell where
  | null
  | bool (value : Bool)
  | int (value : ℤ)
  | float (value : ℚ)
  | text (value : String)
  | list (items : List ℕ)
  | dict (fields : Table String ℕ)

abbrev Heap := ℕ → Cell

section Heap
variable (heap : Heap)

def isDict (node : ℕ) : Bool :=
  match heap node with
  | .dict _ => true
  | _ => false

def field? (node : ℕ) (name : String) : Option ℕ :=
  match heap node with
  | .dict fields => fields.get? name
  | _ => none

/-- The object has no other keys; further fields are forbidden. -/
def onlyKeys (node : ℕ) (names : List String) : Bool :=
  match heap node with
  | .dict fields => fields.all (·.1 ∈ names)
  | _ => false

def listField? (node : ℕ) (name : String) : Option (List ℕ) :=
  match (field? heap node name).map heap with
  | some (.list items) => some items
  | _ => none

def textField? (node : ℕ) (name : String) : Option String :=
  match (field? heap node name).map heap with
  | some (.text value) => some value
  | _ => none

/-- What the operator of an object, and what it applies to, make of it. -/
inductive Shape where
  | group (operator : List ConditionExpression → ConditionExpression) (operands : List ℕ)
  | negation (operand : ℕ)
  | comparison (operator : ComparisonOperator)
  | present
  | unhashable
  | malformed

/-- The operator is a list or an object, which cannot be looked up in a set. -/
def operatorUnhashable (node : ℕ) : Bool :=
  match (field? heap node "operator").map heap with
  | some (.list _) => true
  | some (.dict _) => true
  | _ => false

def groupShape (operator : List ConditionExpression → ConditionExpression) (node : ℕ) : Shape :=
  match listField? heap node "operands" with
  | some operands => .group operator operands
  | none => .malformed

def negationShape (node : ℕ) : Shape :=
  match field? heap node "operand" with
  | some operand => if isDict heap operand then .negation operand else .malformed
  | none => .malformed

def namedShape (name : String) (node : ℕ) : Shape :=
  match name with
  | "all" => groupShape heap .all node
  | "any" => groupShape heap .any node
  | "not" => negationShape heap node
  | "eq" => .comparison .eq
  | "ne" => .comparison .ne
  | "in" => .comparison .isIn
  | "present" => .present
  | _ => .malformed

def shape (node : ℕ) : Shape :=
  if operatorUnhashable heap node then .unhashable
  else match textField? heap node "operator" with
    | some name => namedShape heap name node
    | none => .malformed

/-! Models. -/

section Models
variable (literal? : ℕ → Option Json)

/-- An operand; `literal?` is what the library's model of JSON values makes of a value. -/
def operand? (node : ℕ) : Option ConditionOperand :=
  match textField? heap node "kind" with
  | some "reference" =>
    match textField? heap node "pointer" with
    | some pointer =>
      if onlyKeys heap node ["kind", "pointer"] && validPointer pointer then some (.reference pointer)
      else none
    | none => none
  | some "literal" =>
    if onlyKeys heap node ["kind", "value"] then
      ((field? heap node "value").bind literal?).map .literal
    else none
  | _ => none

def operandField? (node : ℕ) (name : String) : Option ConditionOperand :=
  (field? heap node name).bind (operand? heap literal?)

def comparison? (operator : ComparisonOperator) (node : ℕ) : Option ConditionExpression :=
  if onlyKeys heap node ["left", "operator", "right"] then
    match operandField? heap literal? node "left", operandField? heap literal? node "right" with
    | some left, some right => some (.comparison operator left right)
    | _, _ => none
  else none

def present? (node : ℕ) : Option ConditionExpression :=
  if onlyKeys heap node ["operand", "operator"] then
    (operandField? heap literal? node "operand").map .present
  else none

/-- A group of operands that are expressions already. -/
def group? (operator : List ConditionExpression → ConditionExpression) (node : ℕ)
    (operands : Option (List ConditionExpression)) : Option ConditionExpression :=
  if onlyKeys heap node ["operands", "operator"] then
    match operands with
    | some (first :: rest) => some (operator (first :: rest))
    | _ => none
  else none

def negation? (node : ℕ) (operand : Option ConditionExpression) : Option ConditionExpression :=
  if onlyKeys heap node ["operand", "operator"] then operand.map .not else none

/-! Parsing. -/

/-- How parsing ends without an expression: an error of a model or of the budget, a type error, or the
document is handed to the model validator as it is. -/
inductive Interruption where
  | invalid
  | typeError
  | raw
deriving DecidableEq

def orInvalid {α : Type} (result : Option α) : Except Interruption α :=
  match result with
  | some a => .ok a
  | none => .error .invalid

/-- Only objects among the operands are visited. -/
def conditionVisitor : PostOrder.Visitor ℕ ConditionExpression Interruption where
  maxDepth := maxConditionDepth
  maxNodes := maxConditionNodes
  tooDeep := .invalid
  tooMany := .invalid
  children node := match shape heap node with
    | .group _ operands => .ok (operands.filter (isDict heap))
    | .negation operand => .ok [operand]
    | .unhashable => .error .typeError
    | _ => .ok []
  finish node parsed := match shape heap node with
    -- An operand that is not parsed is no object, and no model takes it.
    | .group operator operands => orInvalid (group? heap operator node
        (operands.mapM fun child => if isDict heap child then parsed child else none))
    | .negation operand => orInvalid (negation? heap node (parsed operand))
    | .comparison operator => orInvalid (comparison? heap literal? operator node)
    | .present => orInvalid (present? heap literal? node)
    | .unhashable => .error .typeError
    | .malformed => .error .raw

/-- The iterative parser, for an object; `none` is a loop that does not end. -/
def parseConditionExpression (node : ℕ) : Option (Except Interruption ConditionExpression) :=
  (PostOrder.evaluate (conditionVisitor heap literal?) node).map fun result =>
    result.bind fun parsed => parsed.elim (.error .raw) .ok

/-! Validation. -/

inductive Validation where
  | accepted (expression : ConditionExpression)
  | rejected
  | typeError
  | unending

/-- Validations of the items of a list: all items are validated, unless one fails otherwise. -/
def collect : List Validation → Except Validation (Option (List ConditionExpression))
  | [] => .ok (some [])
  | .typeError :: _ => .error .typeError
  | .unending :: _ => .error .unending
  | .rejected :: rest => (collect rest).map fun _ => none
  | .accepted e :: rest => (collect rest).map (·.map (e :: ·))

def ofModel (result : Option ConditionExpression) : Validation :=
  match result with
  | some e => .accepted e
  | none => .rejected

/-- The recursive validator of the models, for an object. -/
def handler (validate : ℕ → Validation) (node : ℕ) : Validation :=
  match shape heap node with
  | .group operator operands =>
    match collect (operands.map validate) with
    | .error failure => failure
    | .ok children => ofModel (group? heap operator node children)
  | .negation operand =>
    match collect [validate operand] with
    | .error failure => failure
    | .ok children => ofModel (negation? heap node (children.bind List.head?))
  | .comparison operator => ofModel (comparison? heap literal? operator node)
  | .present => ofModel (present? heap literal? node)
  | .unhashable => .rejected
  | .malformed => .rejected

/-- Validate a value as a condition. The validator recurses a number of levels deep at most, and not
into a value that it is validating. -/
def validateWithin : ℕ → List ℕ → ℕ → Validation
  | 0, _, _ => .rejected
  | levels + 1, path, node =>
    if node ∈ path then .rejected
    else if isDict heap node then
      match parseConditionExpression heap literal? node with
      | none => .unending
      | some (.ok e) => .accepted e
      | some (.error .invalid) => .rejected
      | some (.error .typeError) => .typeError
      | some (.error .raw) => handler heap literal? (validateWithin levels (node :: path)) node
    else .rejected

def validateCondition (ceiling root : ℕ) : Validation :=
  validateWithin heap literal? (ceiling + 1) [] root

end Models
end Heap
end CapabilityCompiler.Interactions.ConditionParser
