import CapabilityCompiler.Actions.RuntimeExecutor
import CapabilityCompiler.Compiler.SchemaWalks
import CapabilityCompiler.Contracts.Soundness

/-! A pointer that the compiler calls guaranteed, and the value that the runtime finds there. -/
namespace CapabilityCompiler.Actions
open Foundation Foundation.Json Contracts Compiler

/-! The check walks as the runtime does. -/

theorem resolveTokens_eq_valueAt (value : Json) (tokens : List String) :
    resolveTokens value tokens = valueAt arrayIndex? value tokens := by
  induction tokens generalizing value with
  | nil => cases value <;> rfl
  | cons token rest ih =>
    cases value with
    | obj fields => simp only [resolveTokens, valueAt, ih]
    | arr items => simp only [resolveTokens, valueAt, ih]
    | _ => rfl

/-- From a leading slash on, the compiler and the runtime read the same tokens. -/
theorem runtimeTokens_eq_pointerTokens {pointer : String} (h : Text.hasPrefix "/" pointer = true) :
    runtimeTokens pointer = pointerTokens pointer := by
  rw [Text.hasPrefix, List.isPrefixOf_iff_prefix] at h
  obtain ⟨rest, hrest⟩ := h
  have hchars : pointer.toList = '/' :: rest := hrest.symm
  rw [runtimeTokens, pointerTokens, hchars]
  rfl

section Walks
variable {index? : String → Option ℕ} {root fields out : Fields} {schema : Json}
  {tokens : List String}

/-- Dereferencing ends at fields without a reference, and a walk from there is a walk. -/
theorem walk_of_dereferenceFrom {fuel : ℕ} {seen : List String}
    (h : dereferenceFrom root fuel seen schema = some fields) :
    field? "$ref" fields = none ∧
      (SchemaWalk index? root (.obj fields) tokens out → SchemaWalk index? root schema tokens out) := by
  induction fuel generalizing schema seen with
  | zero => exact absurd h (by simp [dereferenceFrom])
  | succ fuel ih =>
    cases schema with
    | obj inner =>
      rw [dereferenceFrom] at h
      split at h
      · rename_i hplain
        obtain rfl := Option.some.inj h
        exact ⟨hplain, id⟩
      · rename_i reference href
        split at h
        · exact absurd h (by simp)
        · obtain ⟨next, hnext, hfollowed⟩ := Option.bind_eq_some_iff.mp h
          obtain ⟨hplain, hwalk⟩ := ih hfollowed
          exact ⟨hplain, fun hend => .reference href hnext (hwalk hend)⟩
      · exact absurd h (by simp)
    | _ => exact absurd h (by simp [dereferenceFrom])

theorem walk_of_dereferenceSchema (h : dereferenceSchema root schema = some fields) :
    field? "$ref" fields = none ∧
      (SchemaWalk index? root (.obj fields) tokens out → SchemaWalk index? root schema tokens out) :=
  walk_of_dereferenceFrom h

/-- The check accepts what a walk leads along, to the schema that the other function finds. -/
theorem walk_of_guaranteedAtTokens (h : guaranteedAtTokens root schema tokens = true) :
    ∃ out, schemaAtTokens root schema tokens = some out ∧
      SchemaWalk arrayIndex? root schema tokens out := by
  induction tokens generalizing schema with
  | nil =>
    obtain ⟨fields, hfields⟩ := Option.isSome_iff_exists.mp h
    obtain ⟨hplain, hwalk⟩ := walk_of_dereferenceSchema hfields
    exact ⟨fields, hfields, hwalk (.done hplain)⟩
  | cons token rest ih =>
    rw [guaranteedAtTokens] at h
    rw [schemaAtTokens]
    cases hfields : dereferenceSchema root schema with
    | none => exact absurd h (by simp [hfields])
    | some fields =>
      rw [hfields] at h
      simp only [Option.bind_some] at h ⊢
      split at h
      · rename_i htype
        rw [if_pos htype]
        split at h
        · rename_i index minimum items hindex hminimum hitems
          rw [Bool.and_eq_true, decide_eq_true_eq] at h
          obtain ⟨out, hout, hrest⟩ := ih h.2
          obtain ⟨hplain, hwalk⟩ := walk_of_dereferenceSchema hfields
          rw [hindex, hitems]
          exact ⟨out, hout, hwalk (.item hplain htype hindex hminimum h.1 hitems hrest)⟩
        · exact absurd h Bool.false_ne_true
      · rename_i htype
        rw [if_neg htype]
        split at h
        · rename_i properties required hproperties hrequired
          split at h
          · rename_i property hproperty
            rw [Bool.and_eq_true, decide_eq_true_eq] at h
            obtain ⟨out, hout, hrest⟩ := ih h.2
            obtain ⟨hplain, hwalk⟩ := walk_of_dereferenceSchema hfields
            rw [hproperties]
            simp only [hproperty]
            exact ⟨out, hout,
              hwalk (.property hplain htype hrequired h.1 hproperties hproperty hrest)⟩
          · exact absurd h Bool.false_ne_true
        · exact absurd h Bool.false_ne_true

end Walks

/-- The pointer starts at the root, and every schema met on the way is one that the check reads as a
validator does. -/
structure ReliablePointer (V : Vocabulary) (decode : String → String) (schema : Fields)
    (pointer : String) : Prop where
  absolute : Text.hasPrefix "/" pointer = true
  met : ∀ fields rest, Meets schema (.obj schema) (pointerTokens pointer) fields rest →
    Reliable V decode arrayIndex? schema fields rest

/-- Every valid instance has a value at the pointer, and it is valid under the schema found there. -/
def PointerHolds (V : Vocabulary) (decode : String → String) (schema : Fields) (pointer : String) :
    Prop :=
  ∀ i, ValidIn V decode (.obj schema) i → ∃ out x, schemaAtDataPointer schema pointer = some out ∧
    resolveJsonPointer i pointer = some x ∧ ValidAt V decode [.obj schema] (.obj out) x

def describedOrder : Fields :=
  [("type", .str "object"), ("required", .arr [.str "order"]),
    ("properties", .obj [("order", .obj [("$ref", .str "#/$defs/order")])]),
    ("$defs", .obj [("order", .obj [("type", .str "integer")])])]

def untypedOrder : Fields :=
  [("required", .arr [.str "order"]), ("properties", .obj [("order", .obj [])])]

def pairedOrder : Fields :=
  [("type", .str "array"), ("minItems", .int 1), ("prefixItems", .arr [.obj []]),
    ("items", .obj [("type", .str "integer")])]

end CapabilityCompiler.Actions
