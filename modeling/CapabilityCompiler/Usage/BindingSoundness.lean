import CapabilityCompiler.Contracts.Soundness
import CapabilityCompiler.Usage.BindingAnalysis

/-! What a binding without diagnostics delivers to its consumer. -/
namespace CapabilityCompiler.Usage
open Foundation Foundation.Json Contracts
open Compiler (pointerTokens spelled valueAt SchemaWalk Meets Reliable)

section Walks
variable {index? : String → Option ℕ} {root out : Fields} {schema : Json} {tokens : List String}
  {resolved : ResolvedSchema}

/-- Resolving ends at a schema without a reference, and a walk from there is a walk. -/
theorem walk_of_resolveFrom {fuel : ℕ} {seen : List String}
    (h : resolveFrom root fuel seen schema = some resolved)
    (hend : SchemaWalk index? root (.obj resolved.fields) tokens out) :
    SchemaWalk index? root schema tokens out := by
  induction fuel generalizing schema seen with
  | zero => exact absurd h (by simp [resolveFrom])
  | succ fuel ih =>
    cases schema with
    | obj inner =>
      rw [resolveFrom] at h
      split at h
      · obtain rfl := Option.some.inj h
        exact hend
      · rename_i reference href
        split at h
        · exact absurd h (by simp)
        · obtain ⟨next, hnext, hfollowed⟩ := Option.bind_eq_some_iff.mp h
          exact .reference href hnext (ih hfollowed)
      · exact absurd h (by simp)
    | _ => exact absurd h (by simp [resolveFrom])

theorem ResolvedSchema.field?_ref (schema : ResolvedSchema) : field? "$ref" schema.fields = none :=
  Option.not_isSome_iff_eq_none.mp (Bool.eq_false_iff.mp schema.plain)

/-- The check accepts what a walk leads along, to the schema that the other function finds. -/
theorem walk_of_guaranteed (h : guaranteedAtTokens root schema tokens = true) :
    ∃ resolved, schemaAtTokens root schema tokens = some resolved ∧
      SchemaWalk Text.decimal? root schema tokens resolved.fields := by
  induction tokens generalizing schema with
  | nil =>
    obtain ⟨resolved, hresolved⟩ := Option.isSome_iff_exists.mp h
    exact ⟨resolved, hresolved, walk_of_resolveFrom hresolved (.done (ResolvedSchema.field?_ref _))⟩
  | cons token rest ih =>
    rw [guaranteedAtTokens] at h
    rw [schemaAtTokens]
    cases hresolved : resolveSchema root schema with
    | none => exact absurd h (by simp [hresolved])
    | some resolved =>
      have hplain := ResolvedSchema.field?_ref resolved
      rw [hresolved] at h
      simp only [Option.bind_some] at h ⊢
      split at h
      · rename_i htype
        rw [if_pos htype]
        split at h
        · rename_i index minimum items hindex hminimum hitems
          rw [Bool.and_eq_true, decide_eq_true_eq] at h
          obtain ⟨out, hout, hrest⟩ := ih h.2
          rw [hindex, hitems]
          exact ⟨out, hout, walk_of_resolveFrom hresolved
            (.item hplain htype hindex hminimum h.1 hitems hrest)⟩
        · exact absurd h Bool.false_ne_true
      · rename_i htype
        rw [if_neg htype]
        split at h
        · rename_i properties required hproperties hrequired
          split at h
          · rename_i property hproperty
            rw [Bool.and_eq_true, decide_eq_true_eq] at h
            obtain ⟨out, hout, hrest⟩ := ih h.2
            rw [hproperties]
            simp only [hproperty]
            exact ⟨out, hout, walk_of_resolveFrom hresolved
              (.property hplain htype hrequired h.1 hproperties hproperty hrest)⟩
          · exact absurd h Bool.false_ne_true
        · exact absurd h Bool.false_ne_true

end Walks

/-! Bindings. -/

/-- The schemas that the steps of a binding were compiled to. -/
structure CompiledBinding (definitions : String → Option Fields) (binding : PlacedBinding)
    (sourceSchema targetSchema : Fields) : Prop where
  source : ∃ source, binding.sourceStepId.bind definitions = some source ∧
    field? "output_schema" source = some (.obj sourceSchema)
  target : ∃ consumer, definitions binding.consumerStepId = some consumer ∧
    field? "input_schema" consumer = some (.obj targetSchema)

/-- Every valid output has a value at the source pointer, and it is valid under the schema at the
target pointer. -/
def BindingHolds (V : Vocabulary) (decode : String → String) (definitions : String → Option Fields)
    (binding : PlacedBinding) : Prop :=
  ∀ sourceSchema targetSchema, CompiledBinding definitions binding sourceSchema targetSchema →
    ∀ i, ValidIn V decode (.obj sourceSchema) i → ∃ x target,
      readPointer i binding.sourcePointer = some x ∧
      schemaAtPointer targetSchema binding.targetPointer = some target ∧
      ValidAt V decode [.obj targetSchema] (.obj target.fields) x

/-- The walk to the source is one that a validator makes too, and the comparison of the two schemas
takes no shortcut. -/
def ReliableBinding (V : Vocabulary) (decode : String → String)
    (definitions : String → Option Fields) (binding : PlacedBinding) : Prop :=
  ∀ sourceSchema targetSchema, CompiledBinding definitions binding sourceSchema targetSchema →
    (∀ fields rest, Meets sourceSchema (.obj sourceSchema)
      (pointerTokens binding.sourcePointer.text) fields rest →
      Reliable V decode Text.decimal? sourceSchema fields rest) ∧
    ∀ l r, schemaAtPointer sourceSchema binding.sourcePointer = some l →
      schemaAtPointer targetSchema binding.targetPointer = some r →
      FrozenClear decode (.obj sourceSchema) (.obj targetSchema) l r

section Analyzed
variable {isValid : Json → Json → Bool} {definitions : String → Option Fields} {index : ℕ}
  {binding : PlacedBinding} {sourceSchema targetSchema : Fields}

theorem compareBinding_of_clean (hprior : binding.sourceKind = .priorStepOutput)
    (hcompiled : CompiledBinding definitions binding sourceSchema targetSchema)
    (hclean : analyzeBinding isValid definitions index binding = []) :
    ∃ pointer, compareBinding isValid pointer binding sourceSchema targetSchema = [] := by
  obtain ⟨⟨source, hsource, houtput⟩, consumer, hconsumer, hinput⟩ := hcompiled
  have hschemas := (List.append_eq_nil_iff.mp hclean).2
  rw [schemaProblems, if_neg (not_not_intro hprior), hsource, hconsumer] at hschemas
  simp only [houtput, hinput] at hschemas
  exact ⟨_, hschemas⟩

/-- Without a diagnostic the source is guaranteed and the comparison is proven. -/
theorem compareBinding_eq_nil {pointer : String} (hmapping : binding.mapping = none)
    (h : compareBinding isValid pointer binding sourceSchema targetSchema = []) :
    ∃ l r, schemaAtPointer sourceSchema binding.sourcePointer = some l ∧
      schemaPointerIsGuaranteed sourceSchema binding.sourcePointer = true ∧
      schemaAtPointer targetSchema binding.targetPointer = some r ∧
      (compareFrozen isValid l r).Proven := by
  unfold compareBinding at h
  split at h
  · rename_i l hl hguaranteed
    split at h
    · exact absurd h (List.cons_ne_nil _ _)
    · rename_i r hr
      rw [if_neg (by simp [hmapping])] at h
      split at h
      · exact absurd h (List.cons_ne_nil _ _)
      · rename_i hproven
        exact ⟨l, r, hl, hguaranteed, hr, not_not.mp hproven⟩
  · exact absurd h (List.cons_ne_nil _ _)

end Analyzed

/-! A count that one step lists and another one takes. -/

open Classical in
/-- The validator that is right about every schema. -/
noncomputable def idealValidator (V : Vocabulary) (decode : String → String) (schema i : Json) :
    Bool := decide (ValidIn V decode schema i)

theorem idealValidator_decides (V : Vocabulary) (decode : String → String) :
    DecidesScalars V decode (idealValidator V decode) :=
  fun _ _ _ => @decide_eq_true_iff _ (Classical.propDecidable _)

def producedCount : Fields :=
  [("type", .str "object"), ("required", .arr [.str "count"]),
    ("properties", .obj [("count", .obj [("type", .str "integer")])])]

/-- The schema of a consumer whose only property has this type. -/
def consumedOf (name : String) (type : Json) : Fields :=
  [("type", .str "object"), ("properties", .obj [(name, .obj [("type", type)])])]

def countPointer : JsonPointer := ⟨"/count", by decide⟩

def countBinding (target : JsonPointer) : PlacedBinding where
  id := "count"
  sourceKind := .priorStepOutput
  sourceStepId := some "list"
  consumerStepId := "show"
  valueKind := .publicValue
  dump := .null
  sourcePointer := countPointer
  targetPointer := target
  mapping := none

def countDefinitions (consumed : Fields) : String → Option Fields
  | "list" => some [("output_schema", .obj producedCount)]
  | "show" => some [("input_schema", .obj consumed)]
  | _ => none

theorem compiledBinding_count {target : JsonPointer} {consumed s t : Fields}
    (h : CompiledBinding (countDefinitions consumed) (countBinding target) s t) :
    s = producedCount ∧ t = consumed := by
  obtain ⟨⟨source, hsource, houtput⟩, consumer, hconsumer, hinput⟩ := h
  obtain rfl := Option.some.inj hsource
  obtain rfl := Option.some.inj hconsumer
  exact ⟨(Json.obj.inj (Option.some.inj houtput)).symm, (Json.obj.inj (Option.some.inj hinput)).symm⟩

def labelPointer : JsonPointer := ⟨"/label", by decide⟩

end CapabilityCompiler.Usage
