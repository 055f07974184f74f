import CapabilityCompiler.Foundation.ModelDump
import CapabilityCompiler.Interactions.Expressions

/-! The parts of an interaction contract, and the models that they are dumped as. Evidence bodies are
documents that nothing here looks into. -/
namespace CapabilityCompiler.Interactions
open Foundation

/-! Expressions. -/

def ConditionOperand.model : ConditionOperand → Dump
  | .reference pointer => .model [("kind", .text "reference"), ("pointer", .text pointer)]
  | .literal value => .model [("kind", .text "literal"), ("value", .value value)]

def ConditionOperand.literals : ConditionOperand → List Json
  | .reference _ => []
  | .literal value => [value]

mutual

def ConditionExpression.model : ConditionExpression → Dump
  | .all operands => .model [("operator", .text "all"), ("operands", .list (operandModels operands))]
  | .any operands => .model [("operator", .text "any"), ("operands", .list (operandModels operands))]
  | .not operand => .model [("operator", .text "not"), ("operand", operand.model)]
  | .comparison operator left right =>
    .model [("operator", .text operator.dump), ("left", left.model), ("right", right.model)]
  | .present operand => .model [("operator", .text "present"), ("operand", operand.model)]

def operandModels : List ConditionExpression → List Dump
  | [] => []
  | operand :: rest => operand.model :: operandModels rest

end

mutual

def ConditionExpression.literals : ConditionExpression → List Json
  | .all operands => operandLiterals operands
  | .any operands => operandLiterals operands
  | .not operand => operand.literals
  | .comparison _ left right => left.literals ++ right.literals
  | .present operand => operand.literals

def operandLiterals : List ConditionExpression → List Json
  | [] => []
  | operand :: rest => operand.literals ++ operandLiterals rest

end

/-! Bindings. -/

inductive MappingKind where
  | identity
  | date
  | datetime
  | enum
  | identifier
  | locale
  | null
  | number
  | text

def MappingKind.name : MappingKind → String
  | .identity => "identity"
  | .date => "date"
  | .datetime => "datetime"
  | .enum => "enum"
  | .identifier => "identifier"
  | .locale => "locale"
  | .null => "null"
  | .number => "number"
  | .text => "text"

structure InputMapping where
  kind : MappingKind
  mapping : Fields

inductive BindingSource where
  | userInput
  | routeParameter
  | selectedRecord
  | priorResponse
  | trustedContext
  | literal
  | computed
  | userPreference
deriving DecidableEq

def BindingSource.name : BindingSource → String
  | .userInput => "user_input"
  | .routeParameter => "route_parameter"
  | .selectedRecord => "selected_record"
  | .priorResponse => "prior_response"
  | .trustedContext => "trusted_context"
  | .literal => "literal"
  | .computed => "computed"
  | .userPreference => "user_preference"

inductive Cardinality where
  | one
  | optional
  | many

def Cardinality.name : Cardinality → String
  | .one => "one"
  | .optional => "optional"
  | .many => "many"

/-- A literal value may be set or not; a literal that is not set is dumped as null. -/
structure InputBinding where
  id : String
  sourceKind : BindingSource
  sourceId : Option String
  sourcePointer : Option String
  targetPointer : String
  cardinality : Cardinality
  mapping : Option InputMapping
  literalValue : Option Json
  evidence : Json

/-! Defaults. -/

inductive InteractionDefaultSource where
  | literal
  | sourceResponse
  | trustedContext
  | userPreference
  | computed
deriving DecidableEq

inductive Authority where
  | contract
  | implementation
  | test
  | observation
deriving DecidableEq

inductive DefaultPrecedence where
  | callerOverDefault
  | defaultOverCaller
  | sourceDefault
deriving DecidableEq

inductive DefaultSubmission where
  | omit
  | send
  | sendIfChanged
deriving DecidableEq

inductive OverridePolicy where
  | callerAllowed
  | runtimeOnly
  | forbidden
deriving DecidableEq

structure InteractionDefault where
  id : String
  targetPointer : String
  sourceKind : InteractionDefaultSource
  value : Json
  authority : Authority
  precedence : DefaultPrecedence
  submission : DefaultSubmission
  overridePolicy : OverridePolicy

/-! Option sources. -/

inductive SearchMode where
  | none
  | client
  | server

def SearchMode.name : SearchMode → String
  | .none => "none"
  | .client => "client"
  | .server => "server"

inductive PaginationMode where
  | none
  | offset
  | cursor
  | page

def PaginationMode.name : PaginationMode → String
  | .none => "none"
  | .offset => "offset"
  | .cursor => "cursor"
  | .page => "page"

inductive CacheMode where
  | none
  | interaction
  | session

def CacheMode.name : CacheMode → String
  | .none => "none"
  | .interaction => "interaction"
  | .session => "session"

inductive Freshness where
  | request
  | interaction
  | session
  | sourceDefined

def Freshness.name : Freshness → String
  | .request => "request"
  | .interaction => "interaction"
  | .session => "session"
  | .sourceDefined => "source_defined"

inductive EmptyBehavior where
  | emptyOptions
  | preserveSelection
  | clearSelection
deriving DecidableEq

def EmptyBehavior.name : EmptyBehavior → String
  | .emptyOptions => "empty_options"
  | .preserveSelection => "preserve_selection"
  | .clearSelection => "clear_selection"

inductive OptionErrorBehavior where
  | failClosed
  | emptyOptions
  | preservePrevious

def OptionErrorBehavior.name : OptionErrorBehavior → String
  | .failClosed => "fail_closed"
  | .emptyOptions => "empty_options"
  | .preservePrevious => "preserve_previous"

inductive OptionSourceKind where
  | static
  | capability
  | operation
deriving DecidableEq

def OptionSourceKind.name : OptionSourceKind → String
  | .static => "static"
  | .capability => "capability"
  | .operation => "operation"

structure StaticOption where
  value : Json
  label : String
  disabled : Bool
  group : Option String

structure OptionSource where
  id : String
  targetPointer : String
  sourceKind : OptionSourceKind
  producerId : Option String
  staticOptions : List StaticOption
  requestBindings : List InputBinding
  itemsPointer : Option String
  valuePointer : String
  labelPointer : String
  disabledPointer : Option String
  groupPointer : Option String
  cascadeDependencies : List String
  searchMode : SearchMode
  queryPointer : Option String
  paginationMode : PaginationMode
  requestPointer : Option String
  responsePointer : Option String
  cacheMode : CacheMode
  maxAgeSeconds : Option ℕ
  freshness : Freshness
  emptyBehavior : EmptyBehavior
  errorBehavior : OptionErrorBehavior
  evidence : Json

/-! Results. -/

inductive ResultRole where
  | table
  | detail
  | summary
  | status
  | option
  | navigation
  | downloadLink

def ResultRole.name : ResultRole → String
  | .table => "table"
  | .detail => "detail"
  | .summary => "summary"
  | .status => "status"
  | .option => "option"
  | .navigation => "navigation"
  | .downloadLink => "download_link"

inductive ResultOrdering where
  | source
  | explicit
  | none

def ResultOrdering.name : ResultOrdering → String
  | .source => "source"
  | .explicit => "explicit"
  | .none => "none"

structure ResultConsumption where
  id : String
  role : ResultRole
  sourcePointer : String
  fieldPointers : List String
  ordering : ResultOrdering
  formattingClass : Option String
  pagination : SearchMode
  stateIds : List String
  evidence : Json

/-- A condition with the evidence for it. -/
structure EvidencedCondition extends InteractionCondition where
  evidence : Json

/-- The parts that are compiled, with the bindings that keep their targets from the public. -/
structure CapabilityInteractionContract where
  publicInputBindings : List InputBinding
  trustedInputBindings : List InputBinding
  defaults : List InteractionDefault
  optionSources : List OptionSource
  conditions : List EvidencedCondition
  resultConsumption : List ResultConsumption

/-! Dumps. -/

def ConditionTarget.name : ConditionTarget → String
  | .visible => "visible"
  | .enabled => "enabled"
  | .required => "required"
  | .reset => "reset"

def InputMapping.model (mapping : InputMapping) : Dump :=
  .model [("kind", .text mapping.kind.name), ("mapping", .value (.obj mapping.mapping))]

def mappingModel : Option InputMapping → Dump
  | some mapping => mapping.model
  | none => .value .null

def InputBinding.model (binding : InputBinding) : Dump :=
  .model [("id", .text binding.id), ("source_kind", .text binding.sourceKind.name),
    ("source_id", .optionalText binding.sourceId),
    ("source_pointer", .optionalText binding.sourcePointer),
    ("target_pointer", .text binding.targetPointer),
    ("cardinality", .text binding.cardinality.name), ("mapping", mappingModel binding.mapping),
    ("literal_value", .value (binding.literalValue.getD .null)),
    ("evidence", .value binding.evidence)]

def StaticOption.model (option : StaticOption) : Dump :=
  .model [("value", .value option.value), ("label", .text option.label),
    ("disabled", .value (.bool option.disabled)), ("group", .optionalText option.group)]

def secondsJson : Option ℕ → Json
  | some seconds => .int seconds
  | none => .null

/-- The source, with these models for its request bindings. -/
def OptionSource.modelWith (source : OptionSource) (requestBindings : List Dump) : Dump :=
  .model [("id", .text source.id), ("target_pointer", .text source.targetPointer),
    ("source_kind", .text source.sourceKind.name), ("producer_id", .optionalText source.producerId),
    ("static_options", .list (source.staticOptions.map StaticOption.model)),
    ("request_bindings", .list requestBindings),
    ("items_pointer", .optionalText source.itemsPointer),
    ("value_pointer", .text source.valuePointer), ("label_pointer", .text source.labelPointer),
    ("disabled_pointer", .optionalText source.disabledPointer),
    ("group_pointer", .optionalText source.groupPointer),
    ("cascade_dependencies", .texts source.cascadeDependencies),
    ("search", .model [("mode", .text source.searchMode.name),
      ("query_pointer", .optionalText source.queryPointer)]),
    ("pagination", .model [("mode", .text source.paginationMode.name),
      ("request_pointer", .optionalText source.requestPointer),
      ("response_pointer", .optionalText source.responsePointer)]),
    ("cache", .model [("mode", .text source.cacheMode.name),
      ("max_age_seconds", .value (secondsJson source.maxAgeSeconds))]),
    ("freshness", .text source.freshness.name),
    ("empty_behavior", .text source.emptyBehavior.name),
    ("error_behavior", .text source.errorBehavior.name), ("evidence", .value source.evidence)]

def EvidencedCondition.model (condition : EvidencedCondition) : Dump :=
  .model [("id", .text condition.id), ("target", .text condition.target.name),
    ("target_pointer", .text condition.targetPointer), ("expression", condition.expression.model),
    ("evidence", .value condition.evidence)]

def ResultConsumption.model (consumption : ResultConsumption) : Dump :=
  .model [("id", .text consumption.id), ("role", .text consumption.role.name),
    ("source_pointer", .text consumption.sourcePointer),
    ("field_pointers", .texts consumption.fieldPointers),
    ("ordering", .text consumption.ordering.name),
    ("formatting_class", .optionalText consumption.formattingClass),
    ("pagination", .text consumption.pagination.name), ("state_ids", .texts consumption.stateIds),
    ("evidence", .value consumption.evidence)]

end CapabilityCompiler.Interactions
