import CapabilityCompiler.Foundation.JsonEquality
import Mathlib.Data.Finset.SDiff
import Mathlib.Data.Finset.Dedup

/-! The schemas of a tool, and what a change of them asks of the domains that use it. -/
namespace CapabilityCompiler.Usage
open Foundation Json

inductive UsageImpactStatus where
  | unaffected
  | revalidate
  | regenerate
  | blocked

namespace UsageImpactStatus

def precedence : UsageImpactStatus → ℕ
  | .unaffected => 0
  | .revalidate => 1
  | .regenerate => 2
  | .blocked => 3

theorem precedence_injective : Function.Injective precedence := by
  intro a b h
  cases a <;> cases b <;> first | rfl | exact absurd h (by decide)

instance : LinearOrder UsageImpactStatus := LinearOrder.lift' precedence precedence_injective

theorem le_iff {a b : UsageImpactStatus} : a ≤ b ↔ a.precedence ≤ b.precedence := Iff.rfl

theorem lt_iff {a b : UsageImpactStatus} : a < b ↔ a.precedence < b.precedence := Iff.rfl

theorem unaffected_le (a : UsageImpactStatus) : .unaffected ≤ a := Nat.zero_le a.precedence

theorem precedence_le (a : UsageImpactStatus) : a.precedence ≤ 3 := by
  cases a <;> decide

end UsageImpactStatus

/-- The greater of two statuses. -/
def maximumStatus (a b : UsageImpactStatus) : UsageImpactStatus :=
  if b.precedence ≤ a.precedence then a else b

theorem maximumStatus_eq (a b : UsageImpactStatus) : maximumStatus a b = max a b := by
  unfold maximumStatus
  split
  · rename_i h
    exact (max_eq_left (UsageImpactStatus.le_iff.mpr h)).symm
  · rename_i h
    exact (max_eq_right (UsageImpactStatus.le_iff.mpr (Nat.le_of_not_le h))).symm

structure UsageToolSchema where
  inputSchema : Fields
  outputSchema : Fields

def unsupportedSchemaKeys : List String :=
  ["$dynamicRef", "$ref", "allOf", "anyOf", "if", "not", "oneOf", "then", "else"]

mutual

/-- No object in the document has a key of an unsupported keyword. -/
def schemaSupported : Json → Bool
  | .obj fields => fieldsSupported fields
  | .arr items => itemsSupported items
  | _ => true

def fieldsSupported : Fields → Bool
  | [] => true
  | (key, value) :: rest =>
    decide (key ∉ unsupportedSchemaKeys) && schemaSupported value && fieldsSupported rest

def itemsSupported : List Json → Bool
  | [] => true
  | item :: rest => schemaSupported item && itemsSupported rest

end

/-- The members of a list of texts. -/
def requiredIds : List Json → Option (Finset String)
  | [] => some ∅
  | .str name :: rest => (requiredIds rest).map (insert name)
  | _ :: _ => none

/-- The properties of the schema of an object, and those that are required. -/
def objectShape (schema : Fields) : Option (Fields × Finset String) :=
  if schemaSupported (.obj schema) && decide (field? "type" schema = some (.str "object")) then
    match field? "properties" schema, (field? "required" schema).getD (.arr []) with
    | some (.obj properties), .arr names =>
      match requiredIds names with
      | some required =>
        if required ⊆ (properties.map Prod.fst).toFinset then some (properties, required) else none
      | none => none
    | _, _ => none
  else none

/-- Python's equality of the values of a key. -/
def sameProperty (before after : Fields) (key : String) : Bool :=
  match field? key before, field? key after with
  | some x, some y => pyEqual x y
  | _, _ => false

/-- Only properties that are not required may have been added. -/
def onlyAdds (before after : Fields × Finset String) : Bool :=
  let retained := (before.1.map Prod.fst).toFinset
  let additions := (after.1.map Prod.fst).toFinset \ retained
  decide (retained ⊆ (after.1.map Prod.fst).toFinset) &&
    decide (∀ key ∈ retained, sameProperty before.1 after.1 key = true) &&
    decide (before.2 = after.2) && decide (additions ∩ after.2 = ∅)

def classifyToolSchema (before after : UsageToolSchema) : UsageImpactStatus :=
  if pyEqual (.obj before.inputSchema) (.obj after.inputSchema) &&
      pyEqual (.obj before.outputSchema) (.obj after.outputSchema) then .unaffected
  else
    match objectShape before.inputSchema, objectShape after.inputSchema,
      objectShape before.outputSchema, objectShape after.outputSchema with
    | some _, some _, some beforeOutput, some afterOutput =>
      if !pyEqual (.obj before.inputSchema) (.obj after.inputSchema) then .regenerate
      else if onlyAdds beforeOutput afterOutput then .revalidate
      else .regenerate
    | _, _, _, _ => .blocked

end CapabilityCompiler.Usage
