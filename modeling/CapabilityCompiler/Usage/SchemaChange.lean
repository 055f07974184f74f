import CapabilityCompiler.Contracts.Validity
import CapabilityCompiler.Usage.ToolSchemas

/-! What a change of schemas that the classification lets pass does to inputs and outputs. -/
namespace CapabilityCompiler.Usage
open Contracts Foundation Foundation.Json

/-- A validator of schema documents. Equal JSON is all the same to it, and under a document without
references and branches it finds valid what the vocabulary does. -/
structure SchemaValidator extends Vocabulary where
  accepts : Fields → Json → Bool
  accepts_congr : ∀ schema other i j, jsonEqual (.obj schema) (.obj other) = true →
    jsonEqual i j = true → accepts schema i = accepts other j
  accepts_supported : ∀ schema i, schemaSupported (.obj schema) = true →
    accepts schema i = valid toVocabulary (.obj schema) i

/-- The fields that the schema declares as properties. -/
def declaredPart (schema fields : Fields) : Fields :=
  fields.filter (·.1 ∈ propertyNames schema "properties")

/-- The inputs stay what they are, and the declared part of an output fits the schema before. -/
structure Conserves (validator : SchemaValidator) (before after : UsageToolSchema) : Prop where
  inputs : ∀ i, validator.accepts before.inputSchema i = validator.accepts after.inputSchema i
  outputs : ∀ fields, validator.accepts after.outputSchema (.obj fields) = true →
    validator.accepts before.outputSchema (.obj (declaredPart before.outputSchema fields)) = true

/-! The change passes. -/

/-- Properties that are declared before are declared after with a value that Python takes for equal,
and the required ones are the same. -/
structure Extends (before after : Fields × Finset String) : Prop where
  retained : ∀ key s, field? key before.1 = some s →
    ∃ t, field? key after.1 = some t ∧ pyEqual s t = true
  required : before.2 = after.2

section Shapes
variable {schema properties : Fields} {required : Finset String}

theorem mem_requiredIds {names : List Json} {required : Finset String}
    (h : requiredIds names = some required) :
    ∃ texts, stringList? names = some texts ∧ ∀ name, name ∈ required ↔ name ∈ texts := by
  induction names generalizing required with
  | nil =>
    obtain rfl := Option.some.inj h
    exact ⟨[], rfl, by simp⟩
  | cons item rest ih =>
    cases item with
    | str name =>
      rw [requiredIds, Option.map_eq_some_iff] at h
      obtain ⟨others, hothers, rfl⟩ := h
      obtain ⟨texts, htexts, hmem⟩ := ih hothers
      refine ⟨name :: texts, by rw [stringList?, htexts, Option.map_some], fun other => ?_⟩
      rw [Finset.mem_insert, List.mem_cons, hmem]
    | _ => simp [requiredIds] at h

/-- The schema of an object is free of references and branches, and declares its properties, among
them the required ones. -/
structure Shaped (schema properties : Fields) (required : Finset String) : Prop where
  supported : schemaSupported (.obj schema) = true
  object : field? "type" schema = some (.str "object")
  declares : field? "properties" schema = some (.obj properties)
  requires : ∃ names, (field? "required" schema).getD (.arr []) = .arr names ∧
    requiredIds names = some required
  declared : required ⊆ (properties.map Prod.fst).toFinset

theorem objectShape_eq_some_iff :
    objectShape schema = some (properties, required) ↔ Shaped schema properties required := by
  unfold objectShape
  constructor
  · intro h
    split at h
    · rename_i hobject
      rw [Bool.and_eq_true, decide_eq_true_eq] at hobject
      split at h
      · rename_i hproperties hnames
        split at h
        · rename_i hrequired
          split at h
          · rename_i hdeclared
            obtain ⟨rfl, rfl⟩ := Prod.mk.inj (Option.some.inj h)
            exact ⟨hobject.1, hobject.2, hproperties, ⟨_, hnames, hrequired⟩, hdeclared⟩
          · exact absurd h (by simp)
        · exact absurd h (by simp)
      · exact absurd h (by simp)
    · exact absurd h (by simp)
  · rintro ⟨hsupported, htype, hproperties, ⟨names, hnames, hrequired⟩, hdeclared⟩
    rw [if_pos (by rw [hsupported, htype]; rfl)]
    simp only [hproperties, hnames, hrequired, if_pos hdeclared]

end Shapes

theorem pyEqual_field? {fs gs : Fields} (h : pyEqual (.obj fs) (.obj gs) = true) (key : String) :
    (field? key fs = none ∧ field? key gs = none) ∨
      ∃ x y, field? key fs = some x ∧ field? key gs = some y ∧ pyEqual x y = true := by
  have hkey := eqWith_obj_iff.mp h key
  generalize field? key fs = x at hkey
  generalize field? key gs = y at hkey
  cases hkey with
  | none => exact .inl ⟨rfl, rfl⟩
  | some hxy => exact .inr ⟨_, _, rfl, rfl, hxy⟩

theorem pyEqual_str {s : String} {b : Json} (h : pyEqual (.str s) b = true) : b = .str s := by
  cases b <;> simp_all [pyEqual, eqWith, pyLeaf, pyLeaf.pyNum?, num?]

/-- Lists of texts that Python takes for equal are the same. -/
theorem requiredIds_of_pyEqual {names others : List Json} {required : Finset String}
    (h : pyEqual (.arr names) (.arr others) = true) (hnames : requiredIds names = some required) :
    requiredIds others = some required := by
  rw [pyEqual, eqWith, eqItems_iff] at h
  induction h generalizing required with
  | nil => exact hnames
  | @cons item other names others hitem _ ih =>
    cases item with
    | str name =>
      obtain rfl := pyEqual_str hitem
      rw [requiredIds, Option.map_eq_some_iff] at hnames ⊢
      obtain ⟨rest, hrest, rfl⟩ := hnames
      exact ⟨rest, ih hrest, rfl⟩
    | _ => simp [requiredIds] at hnames

theorem extends_of_pyEqual {schema other properties others : Fields}
    {required demanded : Finset String} (h : pyEqual (.obj schema) (.obj other) = true)
    (hschema : Shaped schema properties required) (hother : Shaped other others demanded) :
    Extends (properties, required) (others, demanded) := by
  constructor
  · intro key s hs
    rcases pyEqual_field? h "properties" with ⟨hnone, -⟩ | ⟨x, y, hx, hy, hxy⟩
    · exact absurd (hschema.declares.symm.trans hnone) (by simp)
    · obtain rfl := Option.some.inj (hschema.declares.symm.trans hx)
      obtain rfl := Option.some.inj (hother.declares.symm.trans hy)
      rcases pyEqual_field? hxy key with ⟨hnone, -⟩ | ⟨a, b, ha, hb, hab⟩
      · exact absurd (hs.symm.trans hnone) (by simp)
      · obtain rfl := Option.some.inj (hs.symm.trans ha)
        exact ⟨b, hb, hab⟩
  · obtain ⟨names, hnames, hrequired⟩ := hschema.requires
    obtain ⟨texts, htexts, hdemanded⟩ := hother.requires
    have hlists : pyEqual (.arr names) (.arr texts) = true := by
      rw [← hnames, ← htexts]
      rcases pyEqual_field? h "required" with ⟨hx, hy⟩ | ⟨x, y, hx, hy, hxy⟩
      · rw [hx, hy]
        exact pyEqual_refl _
      · rw [hx, hy]
        exact hxy
    exact Option.some.inj ((requiredIds_of_pyEqual hlists hrequired).symm.trans hdemanded)

theorem extends_of_onlyAdds {before after : Fields × Finset String}
    (h : onlyAdds before after = true) : Extends before after := by
  simp only [onlyAdds, Bool.and_eq_true, decide_eq_true_eq] at h
  obtain ⟨⟨⟨-, hsame⟩, hrequired⟩, -⟩ := h
  refine ⟨fun key s hs => ?_, hrequired⟩
  have hkey : key ∈ (before.1.map Prod.fst).toFinset := by
    rw [List.mem_toFinset, ← field?_isSome_iff, hs]
    rfl
  have hequal := hsame key hkey
  rw [sameProperty, hs] at hequal
  cases ht : field? key after.1 with
  | none => simp [ht] at hequal
  | some t => exact ⟨t, rfl, by simpa [ht] using hequal⟩

/-- The classification finds the change harmless. -/
structure Passes (before after : UsageToolSchema) : Prop where
  inputs : pyEqual (.obj before.inputSchema) (.obj after.inputSchema) = true
  outputs : pyEqual (.obj before.outputSchema) (.obj after.outputSchema) = true ∨
    (objectShape before.inputSchema).isSome = true ∧ (objectShape after.inputSchema).isSome = true ∧
      ∃ beforeOutput afterOutput, objectShape before.outputSchema = some beforeOutput ∧
        objectShape after.outputSchema = some afterOutput ∧ onlyAdds beforeOutput afterOutput = true

theorem classifyToolSchema_le_iff {before after : UsageToolSchema} :
    classifyToolSchema before after ≤ .revalidate ↔ Passes before after := by
  unfold classifyToolSchema
  constructor
  · intro h
    split at h
    · rename_i hequal
      rw [Bool.and_eq_true] at hequal
      exact ⟨hequal.1, .inl hequal.2⟩
    · split at h
      · rename_i beforeOutput afterOutput hbeforeInput hafterInput hbefore hafter
        split at h
        · exact absurd h (by decide)
        · rename_i hinputs
          split at h
          · rename_i hadds
            exact ⟨by simpa using hinputs, .inr ⟨by rw [hbeforeInput]; rfl, by rw [hafterInput]; rfl,
              beforeOutput, afterOutput, hbefore, hafter, hadds⟩⟩
          · exact absurd h (by decide)
      · exact absurd h (by decide)
  · rintro ⟨hinputs, houtputs⟩
    split
    · exact UsageImpactStatus.unaffected_le _
    · rename_i hdiffer
      rcases houtputs with hequal | ⟨hbeforeInput, hafterInput, beforeOutput, afterOutput, hbefore,
        hafter, hadds⟩
      · exact absurd (by rw [hinputs, hequal]; rfl) hdiffer
      · obtain ⟨beforeInput, hbeforeInput⟩ := Option.isSome_iff_exists.mp hbeforeInput
        obtain ⟨afterInput, hafterInput⟩ := Option.isSome_iff_exists.mp hafterInput
        simp only [hbeforeInput, hafterInput, hbefore, hafter, hinputs, hadds, Bool.not_true,
          Bool.false_eq_true, if_false, if_true, le_refl]

/-- The outputs of a change that passes extend each other where both are shaped. -/
theorem Passes.extends {before after : UsageToolSchema} {properties others : Fields}
    {required demanded : Finset String} (h : Passes before after)
    (hbefore : Shaped before.outputSchema properties required)
    (hafter : Shaped after.outputSchema others demanded) :
    Extends (properties, required) (others, demanded) := by
  rcases h.outputs with hequal | ⟨-, -, beforeOutput, afterOutput, hb, ha, hadds⟩
  · exact extends_of_pyEqual hequal hbefore hafter
  · obtain rfl := Option.some.inj (hb.symm.trans (objectShape_eq_some_iff.mpr hbefore))
    obtain rfl := Option.some.inj (ha.symm.trans (objectShape_eq_some_iff.mpr hafter))
    exact extends_of_onlyAdds hadds

/-! What a shaped schema says of the declared part of an output. -/

section Declared
variable {V : Vocabulary} {schema properties fields : Fields} {required : Finset String}

theorem not_mem_unsupported {key : String} {value : Json} {fields : Fields}
    (h : fieldsSupported fields = true) (hvalue : field? key fields = some value) :
    key ∉ unsupportedSchemaKeys := by
  induction fields with
  | nil => simp at hvalue
  | cons p rest ih =>
    obtain ⟨k, v⟩ := p
    simp only [fieldsSupported, Bool.and_eq_true, decide_eq_true_eq] at h
    rw [field?_cons] at hvalue
    split at hvalue
    · rename_i hkey
      exact hkey ▸ h.1.1
    · exact ih h.2 hvalue

theorem Shaped.propertyNames_eq (h : Shaped schema properties required) :
    propertyNames schema "properties" = properties.map Prod.fst := by
  rw [propertyNames, h.declares]

theorem Shaped.field?_declaredPart (h : Shaped schema properties required) (key : String) :
    field? key (declaredPart schema fields) =
      if (field? key properties).isSome then field? key fields else none := by
  simp only [declaredPart, h.propertyNames_eq, ← field?_isSome_iff]
  induction fields with
  | nil => simp
  | cons p rest ih =>
    obtain ⟨k, v⟩ := p
    by_cases hkept : (field? k properties).isSome = true
    · rw [List.filter_cons_of_pos (by simpa using hkept), field?_cons, field?_cons, ih]
      split
      · rename_i hkey
        rw [← hkey, if_pos hkept]
      · rfl
    · rw [List.filter_cons_of_neg (by simpa using hkept), ih, field?_cons]
      by_cases hkey : k = key
      · rw [← hkey, if_neg hkept, if_neg hkept]
      · rw [if_neg hkey]

/-- The keywords that bound the quantity of an instance say nothing of an object. -/
theorem boundHolds_obj (keyword : String) (value : Json) (fields : Fields) :
    boundHolds keyword value (.obj fields) = true := by
  have hmeasured : measured? keyword (.obj fields) = none := by
    simp [measured?, num?]
  unfold boundHolds
  rw [hmeasured]
  split
  · rename_i hsome
    exact absurd hsome (by simp)
  · rfl

/-- A required property is there, and it is declared. -/
theorem Shaped.required_declaredPart (h : Shaped schema properties required)
    (hthere : ∀ name ∈ required, (field? name fields).isSome = true) {value : Json}
    (hvalue : field? "required" schema = some value) :
    requiredHolds value (.obj (declaredPart schema fields)) = true := by
  obtain ⟨names, hnames, hrequired⟩ := h.requires
  obtain ⟨texts, htexts, hmem⟩ := mem_requiredIds hrequired
  rw [hvalue, Option.getD_some] at hnames
  subst hnames
  simp only [requiredHolds, htexts, Option.map_some, Option.getD_some, List.all_eq_true]
  intro name hname
  have hrequired := (hmem name).mpr hname
  have hdeclared := List.mem_toFinset.mp (h.declared hrequired)
  rw [h.field?_declaredPart, if_pos (field?_isSome_iff.mpr hdeclared)]
  exact hthere name hrequired

/-- No field of the declared part is an additional one. -/
theorem additional_declaredPart (value : Json) :
    keywordHolds V schema "additionalProperties" value (.obj (declaredPart schema fields)) = true := by
  rw [keywordHolds_additionalProperties_iff]
  intro name x hx hadditional
  obtain ⟨-, hdeclared⟩ := List.mem_filter.mp (mem_of_field? hx)
  exact absurd (by simpa using hdeclared) hadditional.1

/-- The constants of the schema, and its keywords that are not core ones, hold. -/
def ConstantsHold (V : Vocabulary) (schema : Fields) (i : Json) : Prop :=
  V.others schema i = true ∧ ∀ keyword ∈ ["const", "enum"], ∀ value,
    field? keyword schema = some value → leafHolds keyword value i = true

/-- Apart from its properties, only constants and other keywords can speak against the declared
part. -/
theorem Shaped.valid_declaredPart_iff (h : Shaped schema properties required)
    (hthere : ∀ name ∈ required, (field? name fields).isSome = true) :
    valid V (.obj schema) (.obj (declaredPart schema fields)) = true ↔
      (∀ key s x, field? key properties = some s → field? key fields = some x →
        valid V s x = true) ∧ ConstantsHold V schema (.obj (declaredPart schema fields)) := by
  have hproperties : keywordHolds V schema "properties" (.obj properties)
        (.obj (declaredPart schema fields)) = true ↔
      ∀ key s x, field? key properties = some s → field? key fields = some x →
        valid V s x = true := by
    rw [keywordHolds_properties_iff]
    constructor
    · intro hvalid key s x hs hx
      refine hvalid key s hs x ?_
      rw [Json.get?, h.field?_declaredPart, hs]
      exact hx
    · intro hvalid key s hs x hx
      rw [Json.get?, h.field?_declaredPart, hs] at hx
      exact hvalid key s x hs hx
  rw [valid_obj_iff]
  constructor
  · rintro ⟨hothers, hkeywords⟩
    refine ⟨hproperties.mp (hkeywords _ _ h.declares), hothers, fun keyword hmem value hvalue => ?_⟩
    have hholds := hkeywords keyword value hvalue
    rwa [keywordHolds_leaf] at hholds
    simp only [List.mem_cons, List.not_mem_nil, or_false] at hmem
    rcases hmem with rfl | rfl <;> decide
  · rintro ⟨hvalid, hothers, hconstants⟩
    refine ⟨hothers, fun keyword value hvalue => ?_⟩
    have hsupported := not_mem_unsupported h.supported hvalue
    by_cases hkey : keyword = "properties"
    · subst hkey
      obtain rfl := Option.some.inj (h.declares.symm.trans hvalue)
      exact hproperties.mpr hvalid
    by_cases hadditional : keyword = "additionalProperties"
    · subst hadditional
      exact additional_declaredPart value
    by_cases hitems : keyword = "items"
    · subst hitems
      rfl
    rw [keywordHolds_leaf]
    · by_cases hmem : keyword ∈ ["const", "enum"]
      · exact hconstants keyword hmem value hvalue
      · simp only [List.mem_cons, List.not_mem_nil, or_false, not_or] at hmem
        unfold leafHolds
        rw [if_neg hmem.1, if_neg hmem.2]
        split
        · rename_i htype
          obtain rfl := Option.some.inj (h.object.symm.trans (htype ▸ hvalue))
          rfl
        · split
          · rename_i hrequired
            exact h.required_declaredPart hthere (hrequired ▸ hvalue)
          · exact boundHolds_obj keyword value _
    · simp only [unsupportedSchemaKeys, List.mem_cons, List.not_mem_nil, or_false, not_or] at hsupported
      simp [hkey, hadditional, hitems, hsupported]

/-- What is valid has the required fields. -/
theorem Shaped.required_of_valid (h : Shaped schema properties required)
    (hvalid : valid V (.obj schema) (.obj fields) = true) {name : String} (hname : name ∈ required) :
    (field? name fields).isSome = true := by
  obtain ⟨names, hnames, hrequired⟩ := h.requires
  obtain ⟨texts, htexts, hmem⟩ := mem_requiredIds hrequired
  cases hvalue : field? "required" schema with
  | none =>
    rw [hvalue] at hnames
    obtain rfl := Json.arr.inj hnames
    obtain rfl := Option.some.inj hrequired
    exact absurd hname (Finset.notMem_empty name)
  | some value =>
    rw [hvalue, Option.getD_some] at hnames
    subst hnames
    have hholds := (valid_obj_iff.mp hvalid).2 _ _ hvalue
    rw [keywordHolds_leaf (by decide)] at hholds
    have hall : requiredHolds (.arr names) (.obj fields) = true := hholds
    simp only [requiredHolds, htexts, Option.map_some, Option.getD_some, List.all_eq_true] at hall
    exact hall name ((hmem name).mp hname)

theorem Shaped.property_of_valid (h : Shaped schema properties required)
    (hvalid : valid V (.obj schema) (.obj fields) = true) {key : String} {s x : Json}
    (hs : field? key properties = some s) (hx : field? key fields = some x) :
    valid V s x = true :=
  keywordHolds_properties_iff.mp ((valid_obj_iff.mp hvalid).2 _ _ h.declares) key s hs x hx

end Declared

/-! The changes that conserve. -/

/-- What the classification does not look at does no harm: input schemas that are equal in Python
only, outputs without a shape, properties that are equal in Python only, and the keywords of an
output next to its properties. -/
structure Harmless (validator : SchemaValidator) (before after : UsageToolSchema) : Prop where
  inputs : jsonEqual (.obj before.inputSchema) (.obj after.inputSchema) = false →
    ∀ i, validator.accepts before.inputSchema i = validator.accepts after.inputSchema i
  unshaped : objectShape before.outputSchema = none ∨ objectShape after.outputSchema = none →
    ∀ fields, validator.accepts after.outputSchema (.obj fields) = true →
      validator.accepts before.outputSchema (.obj (declaredPart before.outputSchema fields)) = true
  properties : ∀ beforeOutput afterOutput, objectShape before.outputSchema = some beforeOutput →
    objectShape after.outputSchema = some afterOutput →
    ∀ fields, validator.accepts after.outputSchema (.obj fields) = true →
      ∀ key s t x, field? key beforeOutput.1 = some s → field? key afterOutput.1 = some t →
        jsonEqual s t = false → field? key fields = some x →
          valid validator.toVocabulary s x = true
  constants : ∀ beforeOutput afterOutput, objectShape before.outputSchema = some beforeOutput →
    objectShape after.outputSchema = some afterOutput →
    ∀ fields, validator.accepts after.outputSchema (.obj fields) = true →
      ConstantsHold validator.toVocabulary before.outputSchema
        (.obj (declaredPart before.outputSchema fields))

section Conserves
variable {validator : SchemaValidator} {before after : UsageToolSchema}

/-- Where both outputs are shaped, the declared part fits the schema before if the properties that
are equal in Python only, and the constants, agree with it. -/
theorem Passes.accepts_declaredPart_iff {properties others fields : Fields}
    {required demanded : Finset String} (h : Passes before after)
    (hbefore : Shaped before.outputSchema properties required)
    (hafter : Shaped after.outputSchema others demanded)
    (haccepts : validator.accepts after.outputSchema (.obj fields) = true) :
    validator.accepts before.outputSchema (.obj (declaredPart before.outputSchema fields)) = true ↔
      (∀ key s t x, field? key properties = some s → field? key others = some t →
        jsonEqual s t = false → field? key fields = some x →
          valid validator.toVocabulary s x = true) ∧
      ConstantsHold validator.toVocabulary before.outputSchema
        (.obj (declaredPart before.outputSchema fields)) := by
  obtain ⟨hretained, hrequired⟩ := h.extends hbefore hafter
  obtain rfl : required = demanded := hrequired
  rw [validator.accepts_supported _ _ hafter.supported] at haccepts
  have hthere : ∀ name ∈ required, (field? name fields).isSome = true :=
    fun name hname => hafter.required_of_valid haccepts hname
  rw [validator.accepts_supported _ _ hbefore.supported, hbefore.valid_declaredPart_iff hthere]
  refine and_congr_left' ?_
  constructor
  · intro hvalid key s t x hs _ _ hx
    exact hvalid key s x hs hx
  · intro hdiffering key s x hs hx
    obtain ⟨t, ht, -⟩ := hretained key s hs
    cases hsame : jsonEqual s t with
    | false => exact hdiffering key s t x hs ht hsame hx
    | true =>
      rw [valid_congr hsame (jsonEqual_refl x)]
      exact hafter.property_of_valid haccepts ht hx

/-- A change that passes conserves inputs and outputs exactly if what the classification does not
look at does no harm. -/
theorem conserves_iff_harmless (validator : SchemaValidator) (before after : UsageToolSchema) :
    (classifyToolSchema before after ≤ .revalidate → Conserves validator before after) ↔
      (Passes before after → Harmless validator before after) := by
  rw [classifyToolSchema_le_iff]
  refine imp_congr_right fun hpasses => ?_
  constructor
  · rintro ⟨hinputs, houtputs⟩
    refine ⟨fun _ => hinputs, fun _ => houtputs, ?_, ?_⟩
    · intro beforeOutput afterOutput hbefore hafter fields haccepts
      exact ((hpasses.accepts_declaredPart_iff (objectShape_eq_some_iff.mp hbefore)
        (objectShape_eq_some_iff.mp hafter) haccepts).mp (houtputs fields haccepts)).1
    · intro beforeOutput afterOutput hbefore hafter fields haccepts
      exact ((hpasses.accepts_declaredPart_iff (objectShape_eq_some_iff.mp hbefore)
        (objectShape_eq_some_iff.mp hafter) haccepts).mp (houtputs fields haccepts)).2
  · intro hharmless
    constructor
    · intro i
      cases hsame : jsonEqual (.obj before.inputSchema) (.obj after.inputSchema) with
      | false => exact hharmless.inputs hsame i
      | true => exact validator.accepts_congr _ _ _ _ hsame (jsonEqual_refl i)
    · intro fields haccepts
      cases hbefore : objectShape before.outputSchema with
      | none => exact hharmless.unshaped (.inl hbefore) fields haccepts
      | some beforeOutput =>
        cases hafter : objectShape after.outputSchema with
        | none => exact hharmless.unshaped (.inr hafter) fields haccepts
        | some afterOutput =>
          exact (hpasses.accepts_declaredPart_iff (objectShape_eq_some_iff.mp hbefore)
            (objectShape_eq_some_iff.mp hafter) haccepts).mpr
            ⟨hharmless.properties _ _ hbefore hafter fields haccepts,
              hharmless.constants _ _ hbefore hafter fields haccepts⟩

end Conserves

/-! A constant that is `true` and then 1, and an output whose values are no longer enumerated. -/

section Example

private def coreValidator : SchemaValidator where
  patternMatches _ _ := false
  others _ _ := true
  others_congr _ _ _ _ _ _ := rfl
  others_silent _ _ _ := rfl
  accepts schema i := valid
    { patternMatches := fun _ _ => false
      others := fun _ _ => true
      others_congr := fun _ _ _ _ _ _ => rfl
      others_silent := fun _ _ _ => rfl } (.obj schema) i
  accepts_congr _ _ _ _ hschema hij := valid_congr hschema hij
  accepts_supported _ _ _ := rfl

private def confirming (constant : Json) : UsageToolSchema where
  inputSchema := [("type", .str "object"),
    ("properties", .obj [("confirm", .obj [("const", constant)])])]
  outputSchema := [("type", .str "object"), ("properties", .obj [])]

private def showingState (keywords : Fields) : UsageToolSchema where
  inputSchema := [("type", .str "object"), ("properties", .obj [])]
  outputSchema := [("type", .str "object"),
    ("properties", .obj [("state", .obj [("type", .str "string")])])] ++ keywords

theorem constant_and_enumeration_missed :
    (classifyToolSchema (confirming (.bool true)) (confirming (.int 1)) = .unaffected ∧
      ¬ Conserves coreValidator (confirming (.bool true)) (confirming (.int 1))) ∧
    (classifyToolSchema (showingState [("enum", .arr [.obj [("state", .str "open")]])])
        (showingState []) = .revalidate ∧
      ¬ Conserves coreValidator (showingState [("enum", .arr [.obj [("state", .str "open")]])])
        (showingState [])) := by
  refine ⟨⟨by decide, fun h => ?_⟩, by decide, fun h => ?_⟩
  · exact absurd (h.inputs (.obj [("confirm", .bool true)])) (by decide)
  · exact absurd (h.outputs [("state", .str "lost")] (by decide)) (by decide)

end Example
end CapabilityCompiler.Usage
