import CapabilityCompiler.Foundation.JsonEquality

/-! Draft 2020-12 validity of an instance, for reference-free schemas. -/
namespace CapabilityCompiler.Contracts
open Foundation Foundation.Json

/-- The keywords given a meaning below, and the ones that assert nothing. -/
def coreKeywords : List String :=
  ["$ref", "additionalProperties", "allOf", "anyOf", "const", "enum", "exclusiveMaximum",
    "exclusiveMinimum", "items", "maxItems", "maxLength", "maximum", "minItems", "minLength",
    "minimum", "oneOf", "properties", "required", "type", "$comment", "$defs", "$id", "$schema",
    "default", "deprecated", "description", "examples", "readOnly", "title", "writeOnly"]

/-- The rest of the vocabulary: regular expressions, and the joint assertion of the keywords of a
schema object that are not core ones. JSON equality is all they can see of a document. -/
structure Vocabulary where
  patternMatches : String → String → Bool
  others : Fields → Json → Bool
  others_congr : ∀ fs gs i j, jsonEqual (.obj fs) (.obj gs) = true → jsonEqual i j = true →
    others fs i = others gs j
  others_silent : ∀ fs i, (∀ k, (field? k fs).isSome = true → k ∈ coreKeywords) →
    others fs i = true

/-- The members of a list of strings. -/
def stringList? : List Json → Option (List String)
  | [] => some []
  | .str s :: rest => (stringList? rest).map (s :: ·)
  | _ :: _ => none

def hasType (i : Json) (type : String) : Bool :=
  match i with
  | .null => type = "null"
  | .bool _ => type = "boolean"
  | .int _ => type = "integer" ∨ type = "number"
  | .float q => type = "number" ∨ (type = "integer" ∧ q.den = 1)
  | .str _ => type = "string"
  | .arr _ => type = "array"
  | .obj _ => type = "object"

/-- The quantity of an instance that a bound keyword is about. -/
def measured? (keyword : String) : Json → Option ℚ
  | .str s => if keyword ∈ ["minLength", "maxLength"] then some s.length else none
  | .arr items => if keyword ∈ ["minItems", "maxItems"] then some items.length else none
  | i =>
    if keyword ∈ ["minimum", "maximum", "exclusiveMinimum", "exclusiveMaximum"] then i.num?
    else none

def withinBound (keyword : String) (bound x : ℚ) : Bool :=
  if keyword ∈ ["minimum", "minLength", "minItems"] then bound ≤ x
  else if keyword ∈ ["maximum", "maxLength", "maxItems"] then x ≤ bound
  else if keyword = "exclusiveMinimum" then bound < x
  else if keyword = "exclusiveMaximum" then x < bound
  else true

def typeHolds (value i : Json) : Bool :=
  match value with
  | .str type => hasType i type
  | .arr types => ((stringList? types).map fun names => names.any (hasType i)).getD true
  | _ => true

def enumHolds (value i : Json) : Bool :=
  match value with
  | .arr values => values.any (jsonEqual · i)
  | _ => true

def requiredHolds (value i : Json) : Bool :=
  match value, i with
  | .arr names, .obj fields =>
    ((stringList? names).map fun names => names.all fun n => (field? n fields).isSome).getD true
  | _, _ => true

def boundHolds (keyword : String) (value i : Json) : Bool :=
  match value.num?, measured? keyword i with
  | some bound, some x => withinBound keyword bound x
  | _, _ => true

/-- The keywords without subschemas; one whose value has the wrong form asserts nothing. -/
def leafHolds (keyword : String) (value i : Json) : Bool :=
  if keyword = "type" then typeHolds value i
  else if keyword = "const" then jsonEqual value i
  else if keyword = "enum" then enumHolds value i
  else if keyword = "required" then requiredHolds value i
  else boundHolds keyword value i

def propertyNames (schema : Fields) (keyword : String) : List String :=
  match field? keyword schema with
  | some (.obj properties) => properties.map Prod.fst
  | _ => []

/-- The property values no `properties` or `patternProperties` of the schema speaks about. -/
def additionalValues (V : Vocabulary) (schema : Fields) (i : Json) : List Json :=
  match i with
  | .obj fields =>
    (fields.filter fun p => p.1 ∉ propertyNames schema "properties" ∧
      ¬ (propertyNames schema "patternProperties").any (V.patternMatches · p.1)).filterMap
      fun p => field? p.1 fields
  | _ => []

/-- The items behind the positions `prefixItems` speaks about. -/
def remainingItems (schema : Fields) (i : Json) : List Json :=
  match i, field? "prefixItems" schema with
  | .arr items, some (.arr positions) => items.drop positions.length
  | .arr items, _ => items
  | _, _ => []

mutual

def valid (V : Vocabulary) : Json → Json → Bool
  | .bool b, _ => b
  | .obj schema, i => V.others schema i && validKeywords V schema [] schema i
  | _, _ => true
termination_by structural s _ => s

/-- An inlined reference asserts what its target asserts. -/
def validKeywords (V : Vocabulary) (schema : Fields) (seen : List String) : Fields → Json → Bool
  | [], _ => true
  | (keyword, value) :: rest, i =>
    (keyword ∈ seen ||
      if keyword = "$ref" then valid V value i
      else if keyword = "additionalProperties" then
        (additionalValues V schema i).all fun x => valid V value x
      else if keyword = "items" then (remainingItems schema i).all fun x => valid V value x
      else if keyword = "properties" then
        match value with
        | .obj properties => validProperties V [] properties i
        | _ => true
      else if keyword = "allOf" then
        match value with
        | .arr branches => validBranches V branches i = branches.length
        | _ => true
      else if keyword = "anyOf" then
        match value with
        | .arr branches => 1 ≤ validBranches V branches i
        | _ => true
      else if keyword = "oneOf" then
        match value with
        | .arr branches => validBranches V branches i = 1
        | _ => true
      else leafHolds keyword value i) && validKeywords V schema (keyword :: seen) rest i
termination_by structural s _ => s

def validProperties (V : Vocabulary) (seen : List String) : Fields → Json → Bool
  | [], _ => true
  | (name, property) :: rest, i =>
    (name ∈ seen || match get? name i with
      | some x => valid V property x
      | none => true) && validProperties V (name :: seen) rest i
termination_by structural s _ => s

/-- The number of branches an instance is valid under. -/
def validBranches (V : Vocabulary) : List Json → Json → ℕ
  | [], _ => 0
  | branch :: rest, i => (if valid V branch i then 1 else 0) + validBranches V rest i
termination_by structural s _ => s

end

/-- What one keyword of a schema object asserts. -/
def keywordHolds (V : Vocabulary) (schema : Fields) (keyword : String) (value i : Json) : Bool :=
  if keyword = "$ref" then valid V value i
  else if keyword = "additionalProperties" then
    (additionalValues V schema i).all fun x => valid V value x
  else if keyword = "items" then (remainingItems schema i).all fun x => valid V value x
  else if keyword = "properties" then
    match value with
    | .obj properties => validProperties V [] properties i
    | _ => true
  else if keyword = "allOf" then
    match value with
    | .arr branches => validBranches V branches i = branches.length
    | _ => true
  else if keyword = "anyOf" then
    match value with
    | .arr branches => 1 ≤ validBranches V branches i
    | _ => true
  else if keyword = "oneOf" then
    match value with
    | .arr branches => validBranches V branches i = 1
    | _ => true
  else leafHolds keyword value i

section Meaning
variable {V : Vocabulary}

theorem validKeywords_iff {schema fields : Fields} {seen : List String} {i : Json} :
    validKeywords V schema seen fields i = true ↔
      ∀ k v, k ∉ seen → field? k fields = some v → keywordHolds V schema k v i = true := by
  induction fields generalizing seen with
  | nil => simp [validKeywords]
  | cons p rest ih =>
    obtain ⟨l, w⟩ := p
    have hhead : validKeywords V schema seen ((l, w) :: rest) i =
        ((l ∈ seen || keywordHolds V schema l w i) &&
          validKeywords V schema (l :: seen) rest i) := by
      cases w <;> simp only [validKeywords, keywordHolds]
    simp only [hhead, Bool.and_eq_true, Bool.or_eq_true, decide_eq_true_eq, ih, field?_cons]
    constructor
    · rintro ⟨hl, hrest⟩ k v hseen hv
      by_cases hk : l = k
      · subst hk
        simp only [if_true, Option.some.injEq] at hv
        exact hv ▸ hl.resolve_left hseen
      · exact hrest k v (by simp [hseen, Ne.symm hk]) (by simpa [hk] using hv)
    · intro h
      refine ⟨or_iff_not_imp_left.mpr fun hl => h l w hl (by simp), fun k v hseen hv => ?_⟩
      rw [List.mem_cons, not_or] at hseen
      exact h k v hseen.2 (by simpa [Ne.symm hseen.1] using hv)

theorem valid_obj_iff {schema : Fields} {i : Json} :
    valid V (.obj schema) i = true ↔ V.others schema i = true ∧
      ∀ k v, field? k schema = some v → keywordHolds V schema k v i = true := by
  rw [valid, Bool.and_eq_true, validKeywords_iff]
  simp

theorem validProperties_iff {properties : Fields} {seen : List String} {i : Json} :
    validProperties V seen properties i = true ↔
      ∀ name s, name ∉ seen → field? name properties = some s →
        ∀ x, get? name i = some x → valid V s x = true := by
  induction properties generalizing seen with
  | nil => simp [validProperties]
  | cons p rest ih =>
    obtain ⟨l, w⟩ := p
    simp only [validProperties, Bool.and_eq_true, Bool.or_eq_true, decide_eq_true_eq, ih,
      field?_cons]
    constructor
    · rintro ⟨hl, hrest⟩ k v hseen hv x hx
      by_cases hk : l = k
      · subst hk
        simp only [if_true, Option.some.injEq] at hv
        have hw := hl.resolve_left hseen
        rw [hx] at hw
        exact hv ▸ hw
      · exact hrest k v (by simp [hseen, Ne.symm hk]) (by simpa [hk] using hv) x hx
    · intro h
      refine ⟨or_iff_not_imp_left.mpr fun hl => ?_, fun k v hseen hv => ?_⟩
      · cases hx : get? l i with
        | none => rfl
        | some x => exact h l w hl (by simp) x hx
      · rw [List.mem_cons, not_or] at hseen
        exact h k v hseen.2 (by simpa [Ne.symm hseen.1] using hv)

theorem validBranches_le_length (branches : List Json) (i : Json) :
    validBranches V branches i ≤ branches.length := by
  induction branches with
  | nil => simp [validBranches]
  | cons branch rest ih =>
    simp only [validBranches, List.length_cons]
    split <;> omega

theorem validBranches_eq_length_iff {branches : List Json} {i : Json} :
    validBranches V branches i = branches.length ↔ ∀ b ∈ branches, valid V b i = true := by
  induction branches with
  | nil => simp [validBranches]
  | cons branch rest ih =>
    have hle := validBranches_le_length (V := V) rest i
    simp only [validBranches, List.length_cons, List.mem_cons, forall_eq_or_imp, ← ih]
    by_cases hb : valid V branch i = true
    · simp only [hb, if_true, true_and]
      omega
    · simp only [hb, Bool.false_eq_true, if_false, false_and, iff_false]
      omega

theorem validBranches_pos_iff {branches : List Json} {i : Json} :
    1 ≤ validBranches V branches i ↔ ∃ b ∈ branches, valid V b i = true := by
  induction branches with
  | nil => simp [validBranches]
  | cons branch rest ih =>
    simp only [validBranches, List.mem_cons, exists_eq_or_imp, ← ih]
    by_cases hb : valid V branch i = true
    · simp [hb]
    · simp [hb]

/-- The property is one that only `additionalProperties` speaks about. -/
def Additional (V : Vocabulary) (schema : Fields) (name : String) : Prop :=
  name ∉ propertyNames schema "properties" ∧
    ¬ (propertyNames schema "patternProperties").any (V.patternMatches · name) = true

theorem mem_additionalValues {schema : Fields} {i x : Json} :
    x ∈ additionalValues V schema i ↔
      ∃ name, get? name i = some x ∧ Additional V schema name := by
  cases i with
  | obj fields =>
    simp only [additionalValues, List.mem_filterMap, List.mem_filter, decide_eq_true_eq, get?]
    constructor
    · rintro ⟨p, ⟨-, hp⟩, hx⟩
      exact ⟨p.1, hx, hp⟩
    · rintro ⟨name, hx, hname⟩
      exact ⟨(name, x), ⟨mem_of_field? hx, hname⟩, hx⟩
  | _ => simp [additionalValues, get?]

theorem keywordHolds_ref {schema : Fields} {value i : Json} :
    keywordHolds V schema "$ref" value i = valid V value i := rfl

theorem keywordHolds_additionalProperties_iff {schema : Fields} {value i : Json} :
    keywordHolds V schema "additionalProperties" value i = true ↔
      ∀ name x, get? name i = some x → Additional V schema name → valid V value x = true := by
  change ((additionalValues V schema i).all fun x => valid V value x) = true ↔ _
  rw [List.all_eq_true]
  constructor
  · exact fun h name x hx hname => h x (mem_additionalValues.mpr ⟨name, hx, hname⟩)
  · intro h x hx
    obtain ⟨name, hget, hname⟩ := mem_additionalValues.mp hx
    exact h name x hget hname

theorem keywordHolds_items_iff {schema : Fields} {value i : Json} :
    keywordHolds V schema "items" value i = true ↔
      ∀ x ∈ remainingItems schema i, valid V value x = true :=
  List.all_eq_true

theorem keywordHolds_properties_iff {schema properties : Fields} {i : Json} :
    keywordHolds V schema "properties" (.obj properties) i = true ↔
      ∀ name s, field? name properties = some s → ∀ x, get? name i = some x →
        valid V s x = true := by
  change validProperties V [] properties i = true ↔ _
  rw [validProperties_iff]
  simp

theorem keywordHolds_allOf_iff {schema : Fields} {branches : List Json} {i : Json} :
    keywordHolds V schema "allOf" (.arr branches) i = true ↔
      ∀ b ∈ branches, valid V b i = true :=
  decide_eq_true_iff.trans validBranches_eq_length_iff

theorem keywordHolds_anyOf_iff {schema : Fields} {branches : List Json} {i : Json} :
    keywordHolds V schema "anyOf" (.arr branches) i = true ↔
      ∃ b ∈ branches, valid V b i = true :=
  decide_eq_true_iff.trans validBranches_pos_iff

theorem exists_valid_of_oneOf {schema : Fields} {branches : List Json} {i : Json}
    (h : keywordHolds V schema "oneOf" (.arr branches) i = true) :
    ∃ b ∈ branches, valid V b i = true := by
  have hone : validBranches V branches i = 1 := decide_eq_true_iff.mp h
  exact validBranches_pos_iff.mp hone.ge

theorem keywordHolds_leaf {schema : Fields} {keyword : String} {value i : Json}
    (h : keyword ∉ ["$ref", "additionalProperties", "items", "properties", "allOf", "anyOf",
      "oneOf"]) : keywordHolds V schema keyword value i = leafHolds keyword value i := by
  simp only [List.mem_cons, List.not_mem_nil, or_false, not_or] at h
  obtain ⟨h1, h2, h3, h4, h5, h6, h7⟩ := h
  unfold keywordHolds
  rw [if_neg h1, if_neg h2, if_neg h3, if_neg h4, if_neg h5, if_neg h6, if_neg h7]

end Meaning

theorem mem_of_stringList? {items : List Json} {names : List String}
    (h : stringList? items = some names) {name : String} (hmem : .str name ∈ items) :
    name ∈ names := by
  induction items generalizing names with
  | nil => exact absurd hmem List.not_mem_nil
  | cons item rest ih =>
    cases item with
    | str text =>
      rw [stringList?, Option.map_eq_some_iff] at h
      obtain ⟨others, hothers, rfl⟩ := h
      rcases List.mem_cons.mp hmem with heq | hrest
      · rw [Json.str.inj heq]
        exact List.mem_cons_self
      · exact List.mem_cons_of_mem _ (ih hothers hrest)
    | _ => exact absurd h (by simp [stringList?])

section Congruence
variable {V : Vocabulary} {i j : Json}

theorem stringList?_congr {xs ys : List Json}
    (h : List.Forall₂ (fun x y => jsonEqual x y = true) xs ys) : stringList? xs = stringList? ys := by
  induction h with
  | nil => rfl
  | @cons x y xs ys hxy _ ih =>
    cases x with
    | str s => rw [jsonEqual_str hxy, stringList?, stringList?, ih]
    | _ => cases y <;> first | rfl | exact absurd (jsonEqual_str (jsonEqual_symm hxy)) (by simp)

theorem hasType_congr (h : jsonEqual i j = true) (type : String) :
    hasType i type = hasType j type := by
  have hint : ∀ n : ℤ, (n : ℚ).den = 1 := fun n => Rat.den_intCast n
  rcases jsonEqual_shape h with ⟨hi, hj, hleaf⟩ | ⟨xs, ys, rfl, rfl⟩ | ⟨fs, gs, rfl, rfl⟩
  · cases i <;> cases j <;> simp [jsonLeaf, num?, isScalar] at hleaf hi hj <;>
      simp only [hasType, hleaf]
    all_goals subst hleaf; simp [hint, or_comm]
  · rfl
  · rfl

theorem measured?_congr (h : jsonEqual i j = true) (keyword : String) :
    measured? keyword i = measured? keyword j := by
  have hnum := jsonEqual_num? h
  rcases jsonEqual_shape h with ⟨hi, hj, hleaf⟩ | ⟨xs, ys, rfl, rfl⟩ | ⟨fs, gs, rfl, rfl⟩
  · cases i <;> cases j <;> simp_all [measured?, isScalar, jsonLeaf, num?]
  · simp [measured?, (jsonEqual_arr_iff.mp h).length_eq]
  · rfl

theorem jsonEqual_congr {a b : Json} (hab : jsonEqual a b = true) (hij : jsonEqual i j = true) :
    jsonEqual a i = jsonEqual b j := by
  rw [Bool.eq_iff_iff]
  constructor
  · exact fun h => jsonEqual_trans (jsonEqual_symm hab) (jsonEqual_trans h hij)
  · exact fun h => jsonEqual_trans hab (jsonEqual_trans h (jsonEqual_symm hij))

theorem any_congr {xs ys : List Json} {f g : Json → Bool}
    (h : List.Forall₂ (fun x y => f x = g y) xs ys) : xs.any f = ys.any g := by
  induction h with
  | nil => rfl
  | cons hxy _ ih => rw [List.any_cons, List.any_cons, hxy, ih]

theorem all_congr {xs ys : List Json} {f g : Json → Bool}
    (h : List.Forall₂ (fun x y => f x = g y) xs ys) : xs.all f = ys.all g := by
  induction h with
  | nil => rfl
  | cons hxy _ ih => rw [List.all_cons, List.all_cons, hxy, ih]

theorem field?_isSome_congr {fs gs : Fields} (h : jsonEqual (.obj fs) (.obj gs) = true)
    (name : String) : (field? name fs).isSome = (field? name gs).isSome := by
  have hrel := jsonEqual_obj_iff.mp h name
  generalize field? name fs = x at hrel
  generalize field? name gs = y at hrel
  cases hrel <;> rfl

theorem typeHolds_congr {v w : Json} (hvw : jsonEqual v w = true) (hij : jsonEqual i j = true) :
    typeHolds v i = typeHolds w j := by
  have htype : hasType i = hasType j := funext (hasType_congr hij)
  rcases jsonEqual_shape hvw with ⟨hv, hw, hleaf⟩ | ⟨xs, ys, rfl, rfl⟩ | ⟨fs, gs, rfl, rfl⟩
  · cases v <;> cases w <;> simp_all [isScalar, jsonLeaf, num?, typeHolds]
  · simp only [typeHolds, htype, stringList?_congr (jsonEqual_arr_iff.mp hvw)]
  · rfl

theorem enumHolds_congr {v w : Json} (hvw : jsonEqual v w = true) (hij : jsonEqual i j = true) :
    enumHolds v i = enumHolds w j := by
  rcases jsonEqual_shape hvw with ⟨hv, hw, -⟩ | ⟨xs, ys, rfl, rfl⟩ | ⟨fs, gs, rfl, rfl⟩
  · cases v <;> cases w <;> simp_all [isScalar, enumHolds]
  · exact any_congr ((jsonEqual_arr_iff.mp hvw).imp fun x y hxy => jsonEqual_congr hxy hij)
  · rfl

theorem requiredHolds_congr {v w : Json} (hvw : jsonEqual v w = true)
    (hij : jsonEqual i j = true) : requiredHolds v i = requiredHolds w j := by
  rcases jsonEqual_shape hvw with ⟨hv, hw, -⟩ | ⟨xs, ys, rfl, rfl⟩ | ⟨fs, gs, rfl, rfl⟩
  · cases v <;> cases w <;> simp_all [isScalar, requiredHolds]
  · rcases jsonEqual_shape hij with ⟨hi, hj, -⟩ | ⟨is, js, rfl, rfl⟩ | ⟨fs, gs, rfl, rfl⟩
    · cases i <;> cases j <;> simp_all [isScalar, requiredHolds]
    · rfl
    · simp only [requiredHolds, field?_isSome_congr hij,
        stringList?_congr (jsonEqual_arr_iff.mp hvw)]
  · rfl

theorem leafHolds_congr {v w : Json} (hvw : jsonEqual v w = true) (hij : jsonEqual i j = true)
    (keyword : String) : leafHolds keyword v i = leafHolds keyword w j := by
  rw [leafHolds, leafHolds, typeHolds_congr hvw hij, jsonEqual_congr hvw hij,
    enumHolds_congr hvw hij, requiredHolds_congr hvw hij, boundHolds, boundHolds,
    jsonEqual_num? hvw, measured?_congr hij]

theorem mem_propertyNames_congr {fs gs : Fields} (h : jsonEqual (.obj fs) (.obj gs) = true)
    (keyword name : String) :
    name ∈ propertyNames fs keyword ↔ name ∈ propertyNames gs keyword := by
  have hrel := jsonEqual_obj_iff.mp h keyword
  unfold propertyNames
  generalize field? keyword fs = x at hrel
  generalize field? keyword gs = y at hrel
  cases hrel with
  | none => rfl
  | @some a b hab =>
    rcases jsonEqual_shape hab with ⟨ha, hb, -⟩ | ⟨xs, ys, rfl, rfl⟩ | ⟨ps, qs, rfl, rfl⟩
    · cases a <;> cases b <;> simp_all [isScalar]
    · rfl
    · rw [← field?_isSome_iff, ← field?_isSome_iff, field?_isSome_congr hab]

theorem additional_congr {fs gs : Fields} (h : jsonEqual (.obj fs) (.obj gs) = true)
    (name : String) : Additional V fs name ↔ Additional V gs name := by
  simp only [Additional, List.any_eq_true, mem_propertyNames_congr h]

theorem remainingItems_congr {fs gs : Fields} (h : jsonEqual (.obj fs) (.obj gs) = true)
    (hij : jsonEqual i j = true) :
    List.Forall₂ (fun x y => jsonEqual x y = true) (remainingItems fs i) (remainingItems gs j) := by
  have hrel := jsonEqual_obj_iff.mp h "prefixItems"
  unfold remainingItems
  generalize field? "prefixItems" fs = x at hrel
  generalize field? "prefixItems" gs = y at hrel
  rcases jsonEqual_shape hij with ⟨hi, hj, -⟩ | ⟨xs, ys, rfl, rfl⟩ | ⟨ps, qs, rfl, rfl⟩
  · cases i <;> cases j <;> simp_all [isScalar]
  · have hitems := jsonEqual_arr_iff.mp hij
    cases hrel with
    | none => exact hitems
    | @some a b hab =>
      rcases jsonEqual_shape hab with ⟨ha, hb, -⟩ | ⟨as, bs, rfl, rfl⟩ | ⟨ps, qs, rfl, rfl⟩
      · cases a <;> cases b <;> simp_all [isScalar]
      · simp only [(jsonEqual_arr_iff.mp hab).length_eq]
        exact List.forall₂_drop _ hitems
      · exact hitems
  · simp

/-- Validity under this schema is a matter of JSON values. -/
def RespectsEquality (V : Vocabulary) (s : Json) : Prop :=
  ∀ t i j, jsonEqual s t = true → jsonEqual i j = true → valid V s i = valid V t j

theorem validBranches_congr {bs cs : List Json} (hij : jsonEqual i j = true)
    (h : List.Forall₂ (fun x y => jsonEqual x y = true) bs cs)
    (hbs : ∀ b ∈ bs, RespectsEquality V b) : validBranches V bs i = validBranches V cs j := by
  induction h with
  | nil => rfl
  | @cons b c bs cs hbc _ ih =>
    rw [validBranches, validBranches, hbs b List.mem_cons_self c i j hbc hij,
      ih fun b hb => hbs b (List.mem_cons_of_mem _ hb)]

/-- One direction for property maps and for the values of additional properties: a property of the
second instance has an equal counterpart in the first. -/
theorem exists_get?_of_jsonEqual (hij : jsonEqual i j = true) {name : String} {y : Json}
    (hy : get? name j = some y) : ∃ x, get? name i = some x ∧ jsonEqual x y = true := by
  have hrel := jsonEqual_get? hij name
  rw [hy] at hrel
  generalize get? name i = x at hrel
  cases hrel with
  | some hxy => exact ⟨_, rfl, hxy⟩

theorem validProperties_congr {ps qs : Fields} (hij : jsonEqual i j = true)
    (h : jsonEqual (.obj ps) (.obj qs) = true)
    (hps : ∀ c ∈ (Json.obj ps).parts, RespectsEquality V c)
    (hvalid : validProperties V [] ps i = true) : validProperties V [] qs j = true := by
  rw [validProperties_iff] at hvalid ⊢
  intro name t hseen ht y hy
  obtain ⟨s, hs, hst⟩ := exists_get?_of_jsonEqual (i := .obj ps) (j := .obj qs) h ht
  obtain ⟨x, hx, hxy⟩ := exists_get?_of_jsonEqual hij hy
  have hsx := hvalid name s hseen hs x hx
  rwa [hps s (mem_parts_of_field? hs) t x y hst hxy] at hsx

theorem validProperties_congr' {ps qs : Fields} (hij : jsonEqual i j = true)
    (h : jsonEqual (.obj ps) (.obj qs) = true)
    (hps : ∀ c ∈ (Json.obj ps).parts, RespectsEquality V c)
    (hvalid : validProperties V [] qs j = true) : validProperties V [] ps i = true := by
  rw [validProperties_iff] at hvalid ⊢
  intro name s hseen hs x hx
  obtain ⟨t, ht, hts⟩ := exists_get?_of_jsonEqual (i := .obj qs) (j := .obj ps)
    (jsonEqual_symm h) hs
  obtain ⟨y, hy, hyx⟩ := exists_get?_of_jsonEqual (jsonEqual_symm hij) hx
  have hty := hvalid name t hseen ht y hy
  rwa [← hps s (mem_parts_of_field? hs) t x y (jsonEqual_symm hts) (jsonEqual_symm hyx)] at hty

theorem keywordHolds_additionalProperties_congr {fs gs : Fields} {v w : Json}
    (hschema : jsonEqual (.obj fs) (.obj gs) = true) (hij : jsonEqual i j = true)
    (hvw : ∀ x y, jsonEqual x y = true → valid V v x = valid V w y)
    (h : keywordHolds V fs "additionalProperties" v i = true) :
    keywordHolds V gs "additionalProperties" w j = true := by
  rw [keywordHolds_additionalProperties_iff] at h ⊢
  intro name y hy hname
  obtain ⟨x, hx, hxy⟩ := exists_get?_of_jsonEqual hij hy
  rw [← hvw x y hxy]
  exact h name x hx ((additional_congr hschema name).mpr hname)

theorem keywordHolds_congr {fs gs : Fields} {v w : Json} {k : String}
    (hschema : jsonEqual (.obj fs) (.obj gs) = true) (hvw : jsonEqual v w = true)
    (hij : jsonEqual i j = true) (hv : RespectsEquality V v)
    (hparts : ∀ c ∈ v.parts, RespectsEquality V c) :
    keywordHolds V fs k v i = keywordHolds V gs k w j := by
  have hadditional : keywordHolds V fs "additionalProperties" v i =
      keywordHolds V gs "additionalProperties" w j :=
    Bool.eq_iff_iff.mpr ⟨keywordHolds_additionalProperties_congr hschema hij
        fun x y hxy => hv w x y hvw hxy,
      keywordHolds_additionalProperties_congr (jsonEqual_symm hschema) (jsonEqual_symm hij)
        fun y x hyx => (hv w x y hvw (jsonEqual_symm hyx)).symm⟩
  by_cases h1 : k = "$ref"
  · subst h1
    exact hv w i j hvw hij
  by_cases h2 : k = "additionalProperties"
  · subst h2
    exact hadditional
  by_cases h3 : k = "items"
  · subst h3
    exact all_congr ((remainingItems_congr hschema hij).imp fun x y hxy => hv w x y hvw hxy)
  unfold keywordHolds
  rw [if_neg h1, if_neg h2, if_neg h3, if_neg h1, if_neg h2, if_neg h3, leafHolds_congr hvw hij k]
  rcases jsonEqual_shape hvw with ⟨hv', hw', -⟩ | ⟨bs, cs, rfl, rfl⟩ | ⟨ps, qs, rfl, rfl⟩
  · cases v <;> cases w <;> simp_all [isScalar]
  · have hitems := jsonEqual_arr_iff.mp hvw
    simp only [validBranches_congr hij hitems hparts, hitems.length_eq]
  · have hproperties : validProperties V [] ps i = validProperties V [] qs j :=
      Bool.eq_iff_iff.mpr ⟨validProperties_congr hij hvw hparts,
        validProperties_congr' hij hvw hparts⟩
    simp only [hproperties]

theorem valid_congr {s t : Json} (hst : jsonEqual s t = true) (hij : jsonEqual i j = true) :
    valid V s i = valid V t j := by
  suffices h : RespectsEquality V s from h t i j hst hij
  clear hst hij
  induction s using parts_induction with
  | h s ih =>
    intro t i j hst hij
    rcases jsonEqual_shape hst with ⟨hs, ht, hleaf⟩ | ⟨xs, ys, rfl, rfl⟩ | ⟨fs, gs, rfl, rfl⟩
    · cases s <;> cases t <;> simp_all [isScalar, jsonLeaf, valid, num?]
    · rfl
    · have hkeyword : ∀ k v w, field? k fs = some v → field? k gs = some w →
          keywordHolds V fs k v i = keywordHolds V gs k w j := by
        intro k v w hv hw
        have hrel := jsonEqual_obj_iff.mp hst k
        rw [hv, hw] at hrel
        have hparts := ih v (mem_parts_of_field? hv)
        exact keywordHolds_congr hst (by simpa using hrel) hij hparts.1 hparts.2
      rw [Bool.eq_iff_iff, valid_obj_iff, valid_obj_iff, V.others_congr fs gs i j hst hij]
      refine and_congr Iff.rfl ⟨fun h k w hw => ?_, fun h k v hv => ?_⟩
      · obtain ⟨v, hv⟩ := Option.isSome_iff_exists.mp
          ((field?_isSome_congr hst k).trans (by rw [hw]; rfl))
        exact hkeyword k v w hv hw ▸ h k v hv
      · obtain ⟨w, hw⟩ := Option.isSome_iff_exists.mp
          ((field?_isSome_congr hst k).symm.trans (by rw [hv]; rfl))
        exact hkeyword k v w hv hw ▸ h k w hw

end Congruence

end CapabilityCompiler.Contracts
