import CapabilityCompiler.Contracts.Inlining
import Mathlib.Tactic.Linarith

/-! What a proven report on each group of keywords says about the instances of the left schema. -/
namespace CapabilityCompiler.Contracts
open Foundation Foundation.Json Foundation.Search

def RelationReport.Proven (report : RelationReport) : Prop := report.relation = .proven

instance (report : RelationReport) : Decidable report.Proven :=
  inferInstanceAs (Decidable (report.relation = .proven))

theorem not_proven_finding_conflict (pointer message : String) :
    ¬ (finding .conflict pointer message).Proven := by simp [finding, RelationReport.Proven]

theorem not_proven_finding_unknown (pointer message : String) :
    ¬ (finding .unknown pointer message).Proven := by simp [finding, RelationReport.Proven]

/-- The keywords with a measure. -/
def boundKeywords : List String :=
  ["minLength", "maxLength", "minItems", "maxItems", "minimum", "maximum", "exclusiveMinimum",
    "exclusiveMaximum"]

theorem measured?_eq_none {keyword : String} (h : keyword ∉ boundKeywords) (i : Json) :
    measured? keyword i = none := by
  simp only [boundKeywords, List.mem_cons, List.not_mem_nil, or_false, not_or] at h
  cases i <;> simp [measured?, h]

theorem leafHolds_bound_iff {keyword : String} (h : keyword ∈ boundKeywords) (value i : Json) :
    leafHolds keyword value i = true ↔
      ∀ bound x, value.num? = some bound → measured? keyword i = some x →
        withinBound keyword bound x = true := by
  have hbound : ∀ k ∈ boundKeywords, k ≠ "type" ∧ k ≠ "const" ∧ k ≠ "enum" ∧ k ≠ "required" := by
    decide
  obtain ⟨h1, h2, h3, h4⟩ := hbound keyword h
  rw [leafHolds, if_neg h1, if_neg h2, if_neg h3, if_neg h4, boundHolds]
  cases value.num? <;> cases measured? keyword i <;> simp

theorem keywordHolds_annotation {V : Vocabulary} {schema : Fields} {keyword : String}
    (h : keyword ∈ annotationKeywords) (value i : Json) :
    keywordHolds V schema keyword value i = true := by
  have hannotation : ∀ k ∈ annotationKeywords,
      k ∉ ["$ref", "additionalProperties", "items", "properties", "allOf", "anyOf", "oneOf"] ∧
        k ≠ "type" ∧ k ≠ "const" ∧ k ≠ "enum" ∧ k ≠ "required" ∧ k ∉ boundKeywords := by decide
  obtain ⟨hleaf, h1, h2, h3, h4, hbound⟩ := hannotation keyword h
  rw [keywordHolds_leaf hleaf, leafHolds, if_neg h1, if_neg h2, if_neg h3, if_neg h4,
    boundHolds, measured?_eq_none hbound]
  cases value.num? <;> rfl

section Bounds
variable {l r : Fields} {pointer : String} {i : Json}

/-- Every instance value under a keyword of this schema object holds. -/
def LeafHolds (schema : Fields) (keyword : String) (i : Json) : Prop :=
  ∀ v, field? keyword schema = some v → leafHolds keyword v i = true

theorem leafHolds_iff_numberAt {schema : Fields} {keyword : String} (h : keyword ∈ boundKeywords) :
    LeafHolds schema keyword i ↔
      ∀ bound x, numberAt schema keyword = some bound → measured? keyword i = some x →
        withinBound keyword bound x = true := by
  simp only [LeafHolds, leafHolds_bound_iff h, numberAt, Option.bind_eq_some_iff]
  constructor
  · rintro hv bound x ⟨v, hfield, hnum⟩ hx
    exact hv v hfield bound x hnum hx
  · intro hv v hfield bound x hnum hx
    exact hv bound x ⟨v, hfield, hnum⟩ hx

theorem compareBound_sound {keyword tooWeak : String} {contained : ℚ → ℚ → Bool}
    (hk : keyword ∈ boundKeywords)
    (hcontained : ∀ a b x, contained a b = true → withinBound keyword a x = true →
      withinBound keyword b x = true)
    (h : (compareBound l r pointer keyword tooWeak contained).Proven)
    (hl : LeafHolds l keyword i) : LeafHolds r keyword i := by
  rw [leafHolds_iff_numberAt hk] at hl ⊢
  intro b x hb hx
  simp only [compareBound, hb] at h
  cases ha : numberAt l keyword with
  | none =>
    rw [ha] at h
    exact absurd h (not_proven_finding_conflict _ _)
  | some a =>
    rw [ha] at h
    by_cases hab : contained a b = true
    · exact hcontained a b x hab (hl a x ha hx)
    · simp only [hab, Bool.false_eq_true, if_false] at h
      exact absurd h (not_proven_finding_conflict _ _)

theorem compareLowerBound_sound {keyword : String} (hk : keyword ∈ ["minLength", "minItems"])
    (h : (compareLowerBound l r pointer keyword).Proven) (hl : LeafHolds l keyword i) :
    LeafHolds r keyword i := by
  have hlower : ∀ k ∈ ["minLength", "minItems"],
      k ∈ boundKeywords ∧ k ∈ ["minimum", "minLength", "minItems"] := by decide
  obtain ⟨hbound, hmin⟩ := hlower keyword hk
  refine compareBound_sound hbound (fun a b x hab hax => ?_) h hl
  simp only [withinBound, if_pos hmin, decide_eq_true_eq] at hab hax ⊢
  exact hab.trans hax

theorem compareUpperBound_sound {keyword : String} (hk : keyword ∈ ["maxLength", "maxItems"])
    (h : (compareUpperBound l r pointer keyword).Proven) (hl : LeafHolds l keyword i) :
    LeafHolds r keyword i := by
  have hupper : ∀ k ∈ ["maxLength", "maxItems"],
      k ∈ boundKeywords ∧ k ∉ ["minimum", "minLength", "minItems"] ∧
        k ∈ ["maximum", "maxLength", "maxItems"] := by decide
  obtain ⟨hbound, hmin, hmax⟩ := hupper keyword hk
  refine compareBound_sound hbound (fun a b x hab hax => ?_) h hl
  simp only [withinBound, if_neg hmin, if_pos hmax, decide_eq_true_eq] at hab hax ⊢
  exact hax.trans hab

/-- The number lies on the right side of a bound. -/
def Beyond (lower : Bool) (bound : ℚ) (exclusive : Bool) (x : ℚ) : Prop :=
  if lower then bound ≤ x ∧ (exclusive = true → bound < x)
  else x ≤ bound ∧ (exclusive = true → x < bound)

/-- The number meets both bounds of a schema on one side. -/
def MeetsBounds (schema : Fields) (lower : Bool) (x : ℚ) : Prop :=
  (∀ b, numberAt schema (if lower then "minimum" else "maximum") = some b →
    Beyond lower b false x) ∧
  ∀ b, numberAt schema (if lower then "exclusiveMinimum" else "exclusiveMaximum") = some b →
    Beyond lower b true x

theorem Beyond.of_tie {lower : Bool} {v w x : ℚ} (hvw : if lower then v ≤ w else w ≤ v)
    (h : Beyond lower w true x) : Beyond lower v false x := by
  cases lower <;> simp only [Beyond, if_true, Bool.false_eq_true, if_false] at hvw h ⊢
  · exact ⟨h.1.trans hvw, by simp⟩
  · exact ⟨hvw.trans h.1, by simp⟩

theorem Beyond.of_stronger {lower : Bool} {v w x : ℚ}
    (hvw : ¬ if lower then v ≤ w else w ≤ v) (h : Beyond lower v false x) :
    Beyond lower w true x := by
  cases lower <;> simp only [Beyond, if_true, Bool.false_eq_true, if_false, not_le] at hvw h ⊢
  · exact ⟨(h.1.trans_lt hvw).le, fun _ => h.1.trans_lt hvw⟩
  · exact ⟨(hvw.trans_le h.1).le, fun _ => hvw.trans_le h.1⟩

/-- The stronger of two bounds stands for both. -/
theorem meetsBounds_iff {schema : Fields} {lower : Bool} {x : ℚ} :
    MeetsBounds schema lower x ↔
      ∀ b e k, numericBound schema lower = some (b, e, k) → Beyond lower b e x := by
  unfold MeetsBounds numericBound
  dsimp only
  generalize numberAt schema (if lower then "minimum" else "maximum") = inclusive
  generalize numberAt schema (if lower then "exclusiveMinimum" else "exclusiveMaximum") = exclusive
  rcases inclusive with _ | v <;> rcases exclusive with _ | w
  · simp
  · simp
  · simp
  · by_cases hvw : if lower then v ≤ w else w ≤ v
    · simp only [if_pos hvw, Option.some.injEq, Prod.mk.injEq]
      constructor
      · rintro ⟨-, hw⟩ b e k ⟨rfl, rfl, -⟩
        exact hw _ rfl
      · intro h
        have hw := h w true _ ⟨rfl, rfl, rfl⟩
        exact ⟨by rintro b rfl; exact hw.of_tie hvw, by rintro b rfl; exact hw⟩
    · simp only [if_neg hvw, Option.some.injEq, Prod.mk.injEq]
      constructor
      · rintro ⟨hv, -⟩ b e k ⟨rfl, rfl, -⟩
        exact hv _ rfl
      · intro h
        have hv := h v false _ ⟨rfl, rfl, rfl⟩
        exact ⟨by rintro b rfl; exact hv, by rintro b rfl; exact hv.of_stronger hvw⟩

theorem compareNumericBound_sound {lower : Bool} {x : ℚ}
    (h : (compareNumericBound l r pointer lower).Proven) (hl : MeetsBounds l lower x) :
    MeetsBounds r lower x := by
  rw [meetsBounds_iff] at hl ⊢
  intro b e k hb
  simp only [compareNumericBound, hb] at h
  cases ha : numericBound l lower with
  | none =>
    rw [ha] at h
    exact absurd h (not_proven_finding_conflict _ _)
  | some bound =>
    obtain ⟨a, f, k'⟩ := bound
    have hax := hl a f k' ha
    rw [ha] at h
    cases lower <;>
      simp only [Bool.false_eq_true, if_true, if_false, Bool.or_eq_true, Bool.and_eq_true,
        decide_eq_true_eq, Bool.not_eq_true'] at h
    · by_cases hcontained : a < b ∨ a = b ∧ (e = false ∨ f = true)
      · simp only [Beyond, Bool.false_eq_true, if_false] at hax ⊢
        rcases hcontained with hlt | ⟨rfl, hexclusive⟩
        · exact ⟨(hax.1.trans_lt hlt).le, fun _ => hax.1.trans_lt hlt⟩
        · exact ⟨hax.1, fun he => hax.2 (hexclusive.resolve_left (by simp [he]))⟩
      · rw [if_neg hcontained] at h
        exact absurd h (not_proven_finding_conflict _ _)
    · by_cases hcontained : b < a ∨ a = b ∧ (e = false ∨ f = true)
      · simp only [Beyond, if_true] at hax ⊢
        rcases hcontained with hlt | ⟨rfl, hexclusive⟩
        · exact ⟨(hlt.trans_le hax.1).le, fun _ => hlt.trans_le hax.1⟩
        · exact ⟨hax.1, fun he => hax.2 (hexclusive.resolve_left (by simp [he]))⟩
      · rw [if_neg hcontained] at h
        exact absurd h (not_proven_finding_conflict _ _)

end Bounds

section Leaves
variable {l r : Fields} {pointer : String} {i : Json}

theorem measured?_number {keyword : String}
    (h : keyword ∈ ["minimum", "maximum", "exclusiveMinimum", "exclusiveMaximum"]) (i : Json) :
    measured? keyword i = i.num? := by
  have hnumber : ∀ k ∈ ["minimum", "maximum", "exclusiveMinimum", "exclusiveMaximum"],
      k ∉ ["minLength", "maxLength"] ∧ k ∉ ["minItems", "maxItems"] := by decide
  obtain ⟨hlength, hitems⟩ := hnumber keyword h
  cases i with
  | str s => simp only [measured?, if_neg hlength, num?]
  | arr items => simp only [measured?, if_neg hitems, num?]
  | _ => simp only [measured?, if_pos h]

theorem leafHolds_numeric_iff {schema : Fields} {lower : Bool} :
    (LeafHolds schema (if lower then "minimum" else "maximum") i ∧
      LeafHolds schema (if lower then "exclusiveMinimum" else "exclusiveMaximum") i) ↔
      ∀ x, i.num? = some x → MeetsBounds schema lower x := by
  have hinclusive : ∀ b x, withinBound (if lower then "minimum" else "maximum") b x = true ↔
      Beyond lower b false x := by cases lower <;> simp [withinBound, Beyond]
  have hexclusive : ∀ b x,
      withinBound (if lower then "exclusiveMinimum" else "exclusiveMaximum") b x = true ↔
        Beyond lower b true x := by
    cases lower <;> simp only [withinBound, Beyond] <;> simp <;> intros <;> exact le_of_lt ‹_›
  have hmem : (if lower then "minimum" else "maximum") ∈ boundKeywords ∧
      (if lower then "exclusiveMinimum" else "exclusiveMaximum") ∈ boundKeywords ∧
      (if lower then "minimum" else "maximum") ∈
        ["minimum", "maximum", "exclusiveMinimum", "exclusiveMaximum"] ∧
      (if lower then "exclusiveMinimum" else "exclusiveMaximum") ∈
        ["minimum", "maximum", "exclusiveMinimum", "exclusiveMaximum"] := by
    cases lower <;> decide
  rw [leafHolds_iff_numberAt hmem.1, leafHolds_iff_numberAt hmem.2.1,
    measured?_number hmem.2.2.1, measured?_number hmem.2.2.2]
  simp only [hinclusive, hexclusive, MeetsBounds]
  grind

theorem stringList?_eq (items : List Json) :
    stringList? items = if allStrings items then some (strings items) else none := by
  induction items with
  | nil => rfl
  | cons item rest ih =>
    cases item with
    | str s => by_cases h : allStrings rest = true <;> simp_all [stringList?, allStrings, strings]
    | _ => simp [stringList?, allStrings]

theorem leafHolds_type_iff {schema : Fields} :
    LeafHolds schema "type" i ↔ ∀ ts, types schema = some ts → ∃ t ∈ ts, hasType i t = true := by
  have hleaf : ∀ v, leafHolds "type" v i = typeHolds v i := fun v => rfl
  simp only [LeafHolds, hleaf, types]
  cases field? "type" schema with
  | none => simp
  | some v =>
    cases v with
    | str type => simp [typeHolds]
    | arr items =>
      by_cases h : allStrings items = true <;> simp [typeHolds, stringList?_eq, h]
    | _ => simp [typeHolds]

theorem hasType_number_of_integer (h : hasType i "integer" = true) : hasType i "number" = true := by
  cases i <;> simp [hasType] at h ⊢

theorem compareTypes_sound (h : (compareTypes l r pointer).Proven)
    (hl : LeafHolds l "type" i) : LeafHolds r "type" i := by
  rw [leafHolds_type_iff] at hl ⊢
  intro rs hrs
  simp only [compareTypes, hrs] at h
  cases hls : types l with
  | none =>
    rw [hls] at h
    exact absurd h (not_proven_finding_unknown _ _)
  | some ls =>
    rw [hls] at h
    dsimp only at h
    split_ifs at h with hall
    · obtain ⟨t, ht, htype⟩ := hl ls hls
      have hcovered := List.all_eq_true.mp hall t ht
      simp only [Bool.or_eq_true, Bool.and_eq_true, decide_eq_true_eq] at hcovered
      rcases hcovered with hmem | ⟨rfl, hmem⟩
      · exact ⟨t, hmem, htype⟩
      · exact ⟨"number", hmem, hasType_number_of_integer htype⟩
    · exact absurd h (not_proven_finding_conflict _ _)

/-- A typed instance shows one of its types, so an untyped left schema has an untyped right one. -/
theorem types_of_compareTypes (h : (compareTypes l r pointer).Proven) (hl : types l = none) :
    types r = none := by
  by_contra hr
  obtain ⟨rs, hrs⟩ := Option.ne_none_iff_exists'.mp hr
  simp only [compareTypes, hrs, hl] at h
  exact not_proven_finding_unknown _ _ h

theorem sortedSet_eq_nil_iff {values : List String} : Text.sortedSet values = [] ↔ values = [] := by
  simp only [List.eq_nil_iff_forall_not_mem, Text.mem_sortedSet]

theorem requiredHolds_iff {names : List Json} (h : allStrings names = true) :
    requiredHolds (.arr names) i = true ↔
      ∀ fields, i = .obj fields → ∀ n ∈ strings names, (field? n fields).isSome = true := by
  cases i <;> simp [requiredHolds, stringList?_eq, h]

/-- The names a well-formed `required` lists; an absent one lists none. -/
theorem leafHolds_required_iff {schema : Fields} {names : List Json}
    (hnames : (field? "required" schema).getD (.arr []) = .arr names)
    (h : allStrings names = true) :
    LeafHolds schema "required" i ↔
      ∀ fields, i = .obj fields → ∀ n ∈ strings names, (field? n fields).isSome = true := by
  have hleaf : ∀ v, leafHolds "required" v i = requiredHolds v i := fun v => rfl
  simp only [LeafHolds, hleaf]
  cases hfield : field? "required" schema with
  | none =>
    rw [hfield, Option.getD_none, Json.arr.injEq] at hnames
    simp [← hnames, strings]
  | some v =>
    rw [hfield, Option.getD_some] at hnames
    simp [hnames, requiredHolds_iff h]

theorem compareRequired_sound (h : (compareRequired l r pointer).Proven)
    (hl : LeafHolds l "required" i) : LeafHolds r "required" i := by
  unfold compareRequired at h
  split at h
  next rightRequired leftRequired hr hl' =>
    by_cases hstrings : ¬ allStrings rightRequired = true ∨ ¬ allStrings leftRequired = true
    · rw [if_pos hstrings] at h
      exact absurd h (not_proven_finding_unknown _ _)
    rw [if_neg hstrings] at h
    dsimp only at h
    split at h
    next hmissing =>
      simp only [not_or, not_not] at hstrings
      rw [sortedSet_eq_nil_iff, List.filter_eq_nil_iff] at hmissing
      rw [leafHolds_required_iff hr hstrings.1]
      rw [leafHolds_required_iff hl' hstrings.2] at hl
      intro fields hi n hn
      exact hl fields hi n (by simpa using hmissing n hn)
    next => exact absurd h (not_proven_finding_conflict _ _)
  next => exact absurd h (not_proven_finding_unknown _ _)

end Leaves

/-- Every instance of the first schema, inlined against its root, is one of the second. -/
def Contained (V : Vocabulary) (leftTarget rightTarget : String → Option Json) (left right : Json) :
    Prop :=
  ∀ left' right', Inlines leftTarget left left' → Inlines rightTarget right right' →
    ∀ i, valid V left' i = true → valid V right' i = true

section Objects
variable {V : Vocabulary} {target : String → Option Json} {n : ℕ} {fs fs' : Fields} {i : Json}

theorem keywordHolds_of_valid (h : valid V (.obj fs) i = true) {k : String} {v : Json}
    (hv : field? k fs = some v) : keywordHolds V fs k v i = true :=
  (valid_obj_iff.mp h).2 k v hv

theorem valid_false (i : Json) : ¬ valid V (.bool false) i = true := by simp [valid]

theorem valid_true (i : Json) : valid V (.bool true) i = true := rfl

theorem mem_propertyNames_inlined (hfs : InlinedFields target n fs fs') {ps : Fields}
    (hps : propertiesOf fs = .obj ps) (name : String) :
    name ∈ propertyNames fs' "properties" ↔ (field? name ps).isSome = true := by
  have hrel := hfs "properties"
  unfold propertiesOf at hps
  unfold propertyNames
  generalize field? "properties" fs = v at hps hrel
  generalize field? "properties" fs' = v' at hrel
  cases hrel with
  | none =>
    obtain rfl : [] = ps := by simpa using hps
    simp
  | some hv =>
    obtain rfl : _ = Json.obj ps := by simpa using hps
    rcases inlineKeyword_map (by decide) hv with ⟨qs, qs', hqs, rfl, hnames⟩ | ⟨hne, -⟩
    · obtain rfl := Json.obj.inj hqs
      rw [← field?_isSome_iff]
      have hname := hnames name
      generalize field? name ps = s at hname
      generalize field? name qs' = s' at hname
      cases hname <;> simp
    · exact absurd rfl (hne ps)

theorem additional_inlined (hfs : InlinedFields target n fs fs') {ps : Fields}
    (hps : propertiesOf fs = .obj ps) (hpattern : hasKey "patternProperties" fs = false)
    (name : String) : Additional V fs' name ↔ field? name ps = none := by
  have hnone : field? "patternProperties" fs' = none := by
    rw [← Option.not_isSome_iff_eq_none, hfs.isSome]
    simpa [hasKey] using hpattern
  rw [Additional, mem_propertyNames_inlined hfs hps]
  simp [propertyNames, hnone]

/-- The schema that governs a property: its own, or that of the additional properties. -/
def governing (fields properties : Fields) (name : String) : Json :=
  match field? name properties with
  | some schema => schema
  | none => subschemaOf fields "additionalProperties"

theorem propertyOrAdditional_schema (place : Place) (fields properties : Fields) (name : String) :
    (place.propertyOrAdditional fields properties name).schema =
      governing fields properties name := by
  unfold Place.propertyOrAdditional governing
  cases field? name properties <;> rfl

theorem exists_governing (hfs : InlinedFields target n fs fs') {ps : Fields}
    (hps : propertiesOf fs = .obj ps) (hpattern : hasKey "patternProperties" fs = false)
    (hvalid : valid V (.obj fs') i = true) {name : String} {x : Json}
    (hx : get? name i = some x) :
    ∃ s', Inlines target (governing fs ps name) s' ∧ valid V s' x = true := by
  unfold governing subschemaOf
  cases hs : field? name ps with
  | some s =>
    have hfield : field? "properties" fs = some (.obj ps) := by
      unfold propertiesOf at hps
      cases hf : field? "properties" fs with
      | none =>
        obtain rfl : [] = ps := by simpa [hf] using hps
        simp at hs
      | some v => rw [← hps, hf]; rfl
    obtain ⟨v', hv', hinl⟩ := hfs.of_some hfield
    rcases inlineKeyword_map (by decide) hinl with ⟨qs, qs', hqs, rfl, hnames⟩ | ⟨hne, -⟩
    · obtain rfl := Json.obj.inj hqs
      have hname := hnames name
      rw [hs] at hname
      generalize hs' : field? name qs' = s' at hname
      cases hname with
      | some hinl' =>
        exact ⟨_, ⟨n, hinl'⟩,
          keywordHolds_properties_iff.mp (keywordHolds_of_valid hvalid hv') name _ hs' x hx⟩
    · exact absurd rfl (hne ps)
  | none =>
    cases ha : field? "additionalProperties" fs with
    | none => exact ⟨.bool true, inlines_bool true, valid_true x⟩
    | some a =>
      obtain ⟨a', ha', hinl⟩ := hfs.of_some ha
      have hadditional := keywordHolds_additionalProperties_iff.mp
        (keywordHolds_of_valid hvalid ha') name x hx
        ((additional_inlined hfs hps hpattern name).mpr hs)
      exact ⟨a', ⟨n, inlineKeyword_schema (by decide) hinl⟩, hadditional⟩

theorem mem_compareDeclared {left right : Place} {l lps rps : Fields} {pointer : String}
    {part : Part} :
    part ∈ compareDeclared left right l pointer lps rps ↔
      ∃ name s, field? name rps = some s ∧ governing l lps name ≠ .bool false ∧
        part = .goal ⟨left.propertyOrAdditional l lps name, right.property name s,
          child (child pointer "properties") name⟩ := by
  simp only [compareDeclared, List.mem_filterMap, Text.mem_sortedSet,
    propertyOrAdditional_schema]
  constructor
  · rintro ⟨name, -, hpart⟩
    split_ifs at hpart with hfalse
    obtain ⟨s, hs, rfl⟩ := Option.map_eq_some_iff.mp hpart
    exact ⟨name, s, hs, hfalse, rfl⟩
  · rintro ⟨name, s, hs, hfalse, rfl⟩
    have hsome : (field? name rps).isSome = true := by rw [hs]; rfl
    exact ⟨name, field?_isSome_iff.mp hsome, by rw [if_neg hfalse, hs]; rfl⟩

theorem mem_compareUndeclared {left right : Place} {r lps rps : Fields} {pointer : String}
    {part : Part} :
    part ∈ compareUndeclared left right r pointer lps rps ↔
      ∃ name s, field? name lps = some s ∧ field? name rps = none ∧
        ((subschemaOf r "additionalProperties" = .bool false ∧
            part = .report (finding .conflict (child pointer "additionalProperties")
              ("declared schema rejects left property: " ++ name))) ∨
          (∃ fields, subschemaOf r "additionalProperties" = .obj fields ∧
            part = .goal ⟨left.property name s, right.subschema r "additionalProperties",
              child (child pointer "properties") name⟩)) := by
  simp only [compareUndeclared, List.mem_filterMap, Text.mem_sortedSet, hasKey]
  have hschema : (right.subschema r "additionalProperties").schema =
      subschemaOf r "additionalProperties" := rfl
  rw [hschema]
  constructor
  · rintro ⟨name, hname, hpart⟩
    obtain ⟨s, hs⟩ := Option.isSome_iff_exists.mp (field?_isSome_iff.mpr hname)
    refine ⟨name, s, hs, ?_⟩
    cases hr : field? name rps with
    | some t => simp [hr] at hpart
    | none =>
      refine ⟨rfl, ?_⟩
      simp only [hr, Option.isSome_none, Bool.false_eq_true, if_false, hs, Option.map_some] at hpart
      split at hpart
      next hfalse => exact .inl ⟨hfalse, (Option.some.inj hpart).symm⟩
      next fields hobj => exact .inr ⟨fields, hobj, (Option.some.inj hpart).symm⟩
      next => simp at hpart
  · rintro ⟨name, s, hs, hr, hcase⟩
    have hsome : (field? name lps).isSome = true := by rw [hs]; rfl
    refine ⟨name, field?_isSome_iff.mp hsome, ?_⟩
    rcases hcase with ⟨hfalse, rfl⟩ | ⟨fields, hobj, rfl⟩
    · simp [hr, hfalse]
    · simp [hr, hobj, hs]

theorem mem_compareAdditional {left right : Place} {l r : Fields} {pointer : String}
    {part : Part} :
    part ∈ compareAdditional left right l r pointer ↔
      subschemaOf l "additionalProperties" ≠ .bool false ∧
        ((subschemaOf r "additionalProperties" = .bool false ∧
            part = .report (finding .conflict (child pointer "additionalProperties")
              "left schema permits undeclared properties")) ∨
          (∃ fields, subschemaOf r "additionalProperties" = .obj fields ∧
            part = .goal ⟨left.subschema l "additionalProperties",
              right.subschema r "additionalProperties",
              child pointer "additionalProperties"⟩)) := by
  unfold compareAdditional
  have hleft : (left.subschema l "additionalProperties").schema =
      subschemaOf l "additionalProperties" := rfl
  have hright : (right.subschema r "additionalProperties").schema =
      subschemaOf r "additionalProperties" := rfl
  dsimp only
  rw [hleft, hright]
  by_cases hfalse : subschemaOf l "additionalProperties" = .bool false
  · simp [hfalse]
  · rw [if_neg hfalse]
    split
    next hr => simp [hfalse, hr]
    next fields hr => simp [hfalse, hr]
    next h1 h2 => simpa [hfalse] using ⟨fun h => absurd h h1, fun fields h => absurd h (h2 fields)⟩

theorem not_valid_of_inlines_false {s' : Json} (h : Inlines target (.bool false) s') :
    ¬ valid V s' i = true := by
  obtain ⟨fuel, hfuel⟩ := h
  rw [inline_of_not_obj (by simp) hfuel]
  exact valid_false i

/-- A schema other than `false` and the schema objects asserts nothing. -/
theorem valid_of_trivial {s : Json} (hfalse : s ≠ .bool false) (hobj : ∀ fields, s ≠ .obj fields) :
    valid V s i = true := by
  cases s with
  | bool b => cases b <;> simp_all [valid]
  | obj fields => exact absurd rfl (hobj fields)
  | _ => rfl

end Objects

section Compounds
variable {V : Vocabulary} {leftTarget rightTarget : String → Option Json} {n m : ℕ}
  {left right : Place} {l l' r r' : Fields} {pointer : String} {i : Json}

/-- Every part of a combined report is proven, and every goal among them holds. -/
structure PartsHold (V : Vocabulary) (leftTarget rightTarget : String → Option Json)
    (parts : List Part) : Prop where
  report : ∀ report, Item.report report ∈ parts → report.Proven
  goal : ∀ c, Item.goal c ∈ parts → Contained V leftTarget rightTarget c.left.schema c.right.schema

theorem PartsHold.subset {parts : List Part} (h : PartsHold V leftTarget rightTarget parts)
    (parts' : List Part)
    (hsub : parts' ⊆ parts) : PartsHold V leftTarget rightTarget parts' :=
  ⟨fun report hr => h.report report (hsub hr), fun c hc => h.goal c (hsub hc)⟩

/-- The object comparison in its regular case, where both sides have property maps. -/
theorem compareObjects_regular
    (h : PartsHold V leftTarget rightTarget (compareObjects left right l r pointer)) :
    ∃ lps rps, propertiesOf l = .obj lps ∧ propertiesOf r = .obj rps ∧
      (compareRequired l r pointer).Proven ∧
      PartsHold V leftTarget rightTarget (compareDeclared left right l pointer lps rps) ∧
      PartsHold V leftTarget rightTarget (compareUndeclared left right r pointer lps rps) ∧
      PartsHold V leftTarget rightTarget (compareAdditional left right l r pointer) := by
  unfold compareObjects at h
  split at h
  next lps rps hl hr =>
    refine ⟨lps, rps, hl, hr, h.report _ (by simp), h.subset _ ?_, h.subset _ ?_, h.subset _ ?_⟩
    all_goals intro part hpart; simp [hpart]
  next => exact absurd (h.report _ List.mem_cons_self) (not_proven_finding_unknown _ _)

theorem compareObjects_properties (hl : InlinedFields leftTarget n l l')
    (hr : InlinedFields rightTarget m r r') (hpattern : hasKey "patternProperties" l = false)
    (hparts : PartsHold V leftTarget rightTarget (compareObjects left right l r pointer))
    (hvalid : valid V (.obj l') i = true) {v' : Json} (hv' : field? "properties" r' = some v') :
    keywordHolds V r' "properties" v' i = true := by
  obtain ⟨lps, rps, hlps, hrps, -, hdeclared, -, -⟩ := compareObjects_regular hparts
  obtain ⟨v, hv, hinl⟩ := hr.to_some hv'
  obtain rfl : v = .obj rps := by simpa [propertiesOf, hv] using hrps
  rcases inlineKeyword_map (by decide) hinl with ⟨qs, qs', hqs, rfl, hnames⟩ | ⟨hne, -⟩
  · obtain rfl := Json.obj.inj hqs
    refine keywordHolds_properties_iff.mpr fun name s' hs' x hx => ?_
    have hname := hnames name
    rw [hs'] at hname
    generalize hs : field? name rps = s at hname
    cases hname with
    | some hinl' =>
      obtain ⟨g', hg', hgx⟩ := exists_governing hl hlps hpattern hvalid hx
      by_cases hfalse : governing l lps name = .bool false
      · rw [hfalse] at hg'
        exact absurd hgx (not_valid_of_inlines_false hg')
      · have hgoal := hdeclared.goal _ (mem_compareDeclared.mpr ⟨name, _, hs, hfalse, rfl⟩)
        rw [propertyOrAdditional_schema] at hgoal
        exact hgoal g' s' hg' ⟨m, hinl'⟩ x hgx
  · exact absurd rfl (hne rps)

theorem compareObjects_additionalProperties (hl : InlinedFields leftTarget n l l')
    (hr : InlinedFields rightTarget m r r') (hlpattern : hasKey "patternProperties" l = false)
    (hrpattern : hasKey "patternProperties" r = false)
    (hparts : PartsHold V leftTarget rightTarget (compareObjects left right l r pointer))
    (hvalid : valid V (.obj l') i = true) {v' : Json}
    (hv' : field? "additionalProperties" r' = some v') :
    keywordHolds V r' "additionalProperties" v' i = true := by
  obtain ⟨lps, rps, hlps, hrps, -, -, hundeclared, hadditional⟩ := compareObjects_regular hparts
  obtain ⟨a, ha, hinl⟩ := hr.to_some hv'
  have hinl' := inlineKeyword_schema (by decide) hinl
  have hsub : subschemaOf r "additionalProperties" = a := by simp [subschemaOf, ha]
  refine keywordHolds_additionalProperties_iff.mpr fun name x hx hname => ?_
  rw [additional_inlined hr hrps hrpattern] at hname
  obtain ⟨g', hg', hgx⟩ := exists_governing hl hlps hlpattern hvalid hx
  -- Where the left side rejects the property, there is nothing to show.
  have hgoverned : governing l lps name ≠ .bool false := fun hfalse =>
    not_valid_of_inlines_false (hfalse ▸ hg') hgx
  by_cases hfalse : a = .bool false
  · have hnone : field? name lps = none := by
      by_contra hsome
      obtain ⟨s, hs⟩ := Option.ne_none_iff_exists'.mp hsome
      exact not_proven_finding_conflict _ _ (hundeclared.report _
        (mem_compareUndeclared.mpr ⟨name, s, hs, hname, .inl ⟨hsub.trans hfalse, rfl⟩⟩))
    have hclosed : subschemaOf l "additionalProperties" = .bool false := by
      by_contra hopen
      exact not_proven_finding_conflict _ _ (hadditional.report _
        (mem_compareAdditional.mpr ⟨hopen, .inl ⟨hsub.trans hfalse, rfl⟩⟩))
    exact absurd (by rw [governing, hnone]; exact hclosed) hgoverned
  by_cases hobj : ∃ fields, a = .obj fields
  · obtain ⟨fields, rfl⟩ := hobj
    have hright : Inlines rightTarget (subschemaOf r "additionalProperties") v' :=
      ⟨m, by rw [hsub]; exact hinl'⟩
    cases hs : field? name lps with
    | some s =>
      simp only [governing, hs] at hg'
      have hgoal := hundeclared.goal _
        (mem_compareUndeclared.mpr ⟨name, s, hs, hname, .inr ⟨fields, hsub, rfl⟩⟩)
      exact hgoal g' v' hg' hright x hgx
    | none =>
      simp only [governing, hs] at hg' hgoverned
      have hgoal := hadditional.goal _
        (mem_compareAdditional.mpr ⟨hgoverned, .inr ⟨fields, hsub, rfl⟩⟩)
      exact hgoal g' v' hg' hright x hgx
  · rw [not_exists] at hobj
    rw [inline_of_not_obj hobj hinl']
    exact valid_of_trivial hfalse hobj

theorem remainingItems_inlined {target : String → Option Json} {fs fs' : Fields}
    (hfs : InlinedFields target n fs fs') (hnamed : hasKey "prefixItems" fs = false) (i : Json) :
    remainingItems fs' i = remainingItems [] i := by
  have hnone : field? "prefixItems" fs' = none := by
    rw [← Option.not_isSome_iff_eq_none, hfs.isSome]
    simpa [hasKey] using hnamed
  cases i <;> simp [remainingItems, hnone]

theorem compareItems_sound (hl : InlinedFields leftTarget n l l')
    (hr : InlinedFields rightTarget m r r') (hlitems : hasKey "prefixItems" l = false)
    (hritems : hasKey "prefixItems" r = false)
    (hparts : PartsHold V leftTarget rightTarget (compareItems left right l r pointer))
    (hvalid : valid V (.obj l') i = true) {v' : Json} (hv' : field? "items" r' = some v') :
    keywordHolds V r' "items" v' i = true := by
  obtain ⟨a, ha, hinl⟩ := hr.to_some hv'
  have hinl' := inlineKeyword_schema (by decide) hinl
  have hsub : subschemaOf r "items" = a := by simp [subschemaOf, ha]
  have hgoal := hparts.goal _ List.mem_cons_self
  refine keywordHolds_items_iff.mpr fun x hx => ?_
  rw [remainingItems_inlined hr hritems, ← remainingItems_inlined hl hlitems] at hx
  have hright : Inlines rightTarget (subschemaOf r "items") v' := ⟨m, by rw [hsub]; exact hinl'⟩
  cases hb : field? "items" l with
  | none =>
    have hleft : subschemaOf l "items" = .bool true := by simp [subschemaOf, hb]
    refine hgoal (.bool true) v' ?_ hright x (valid_true x)
    rw [Place.subschema, Place.child, hleft]
    exact inlines_bool true
  | some b =>
    obtain ⟨b', hb', hinlb⟩ := hl.of_some hb
    have hleft : subschemaOf l "items" = b := by simp [subschemaOf, hb]
    refine hgoal b' v' ⟨n, ?_⟩ hright x
      (keywordHolds_items_iff.mp (keywordHolds_of_valid hvalid hb') x hx)
    rw [Place.subschema, Place.child, hleft]
    exact inlineKeyword_schema (by decide) hinlb

theorem compareConst_sound
    (hequal : ∀ a b, field? "const" l = some a → field? "const" r = some b →
      pyEqual a b = true → jsonEqual a b = true)
    (hparts : PartsHold V leftTarget rightTarget (compareConst l r pointer))
    (hl : LeafHolds l "const" i) : LeafHolds r "const" i := by
  intro b hb
  have hreport := fun report => hparts.report report
  simp only [compareConst, hb] at hreport
  cases ha : field? "const" l with
  | none =>
    rw [ha] at hreport
    exact absurd (hreport _ List.mem_cons_self) (not_proven_finding_conflict _ _)
  | some a =>
    simp only [ha] at hreport
    by_cases hab : pyEqual a b = true
    · exact jsonEqual_trans (jsonEqual_symm (hequal a b ha hb hab)) (hl a ha)
    · rw [if_neg hab] at hreport
      exact absurd (hreport _ List.mem_cons_self) (not_proven_finding_conflict _ _)

theorem compareEnum_sound
    (hequal : ∀ as bs, field? "enum" l = some (.arr as) → field? "enum" r = some (.arr bs) →
      ∀ a ∈ as, (∃ b ∈ bs, pyEqual b a = true) → ∃ b ∈ bs, jsonEqual b a = true)
    (hparts : PartsHold V leftTarget rightTarget (compareEnum l r pointer))
    (hl : LeafHolds l "enum" i) : LeafHolds r "enum" i := by
  intro v hv
  have hreport := fun report => hparts.report report
  unfold compareEnum at hreport
  rw [hv] at hreport
  split at hreport
  next hnone => simp at hnone
  next bs as hr ha =>
    obtain rfl := Option.some.inj hr
    by_cases hmissing : (as.any fun value => ! bs.any (pyEqual · value)) = true
    · rw [if_pos hmissing] at hreport
      exact absurd (hreport _ List.mem_cons_self) (not_proven_finding_conflict _ _)
    · obtain ⟨a, hmem, hai⟩ := List.any_eq_true.mp (hl (.arr as) ha : as.any (jsonEqual · i) = true)
      have hfound : ∃ b ∈ bs, pyEqual b a = true := by
        by_contra hnot
        exact hmissing (List.any_eq_true.mpr ⟨a, hmem, by simpa using hnot⟩)
      obtain ⟨b, hbmem, hba⟩ := hequal as bs ha hv a hmem hfound
      exact List.any_eq_true.mpr ⟨b, hbmem, jsonEqual_trans hba hai⟩
  next => exact absurd (hreport _ List.mem_cons_self) (not_proven_finding_unknown _ _)

end Compounds

section Together
variable {V : Vocabulary} {leftTarget rightTarget : String → Option Json} {n m : ℕ}
  {left right : Place} {l l' r r' : Fields} {pointer : String} {i : Json}

/-- The keywords whose values the comparison skips when neither side has a type. -/
def structuralKeywords : List String := ["required", "properties", "additionalProperties", "items"]

/-- The comparison of assertions is sound for schema objects such as these. -/
structure Comparable (l r : Fields) : Prop where
  supported : ∀ k, hasKey k l = true ∨ hasKey k r = true → k ∈ handledKeywords ++ annotationKeywords
  no_ref : hasKey "$ref" r = false
  no_all : ∀ branches, field? "allOf" r ≠ some (.arr branches)
  no_any : hasKey "anyOf" r = false
  no_one : hasKey "oneOf" r = false
  typed : types l = none → types r = none → ∀ k ∈ structuralKeywords, hasKey k r = false
  const : ∀ a b, field? "const" l = some a → field? "const" r = some b →
    pyEqual a b = true → jsonEqual a b = true
  enum : ∀ as bs, field? "enum" l = some (.arr as) → field? "enum" r = some (.arr bs) →
    ∀ a ∈ as, (∃ b ∈ bs, pyEqual b a = true) → ∃ b ∈ bs, jsonEqual b a = true

theorem leafHolds_of_valid (hl : InlinedFields leftTarget n l l')
    (hvalid : valid V (.obj l') i = true) {k : String}
    (hk : k ∉ "$ref" :: schemaKeywords ++ schemaListKeywords ++ schemaMapKeywords) :
    LeafHolds l k i := by
  have happlicators : ["$ref", "additionalProperties", "items", "properties", "allOf", "anyOf",
      "oneOf"] ⊆ "$ref" :: schemaKeywords ++ schemaListKeywords ++ schemaMapKeywords := by decide
  intro v hv
  rw [← hl.leaf hk] at hv
  have hholds := keywordHolds_of_valid hvalid hv
  rwa [keywordHolds_leaf fun hmem => hk (happlicators hmem)] at hholds

/-- An instance of a type that neither side names shows that both sides are untyped. -/
theorem untyped_of_not_named (htypes : (compareTypes l r pointer).Proven)
    (hl : LeafHolds l "type" i) {type : String} (hi : ∀ t, hasType i t = true → t = type)
    (hnamed : (hasTypeName l type || hasTypeName r type) = false) :
    types l = none ∧ types r = none := by
  cases hls : types l with
  | none => exact ⟨rfl, types_of_compareTypes htypes hls⟩
  | some ls =>
    obtain ⟨t, ht, htype⟩ := leafHolds_type_iff.mp hl ls hls
    obtain rfl := hi t htype
    rw [Bool.or_eq_false_iff] at hnamed
    simp [hasTypeName, hls, ht] at hnamed

theorem keywordHolds_of_not_obj (hi : ∀ fields, i ≠ .obj fields) {k : String}
    (hk : k ∈ ["required", "properties", "additionalProperties"]) (v : Json) :
    keywordHolds V r' k v i = true := by
  have hget : ∀ name, get? name i = none := by
    intro name
    cases i with
    | obj fields => exact absurd rfl (hi fields)
    | _ => rfl
  simp only [List.mem_cons, List.not_mem_nil, or_false] at hk
  rcases hk with rfl | rfl | rfl
  · cases i with
    | obj fields => exact absurd rfl (hi fields)
    | _ => cases v <;> rfl
  · cases v with
    | obj ps =>
      refine keywordHolds_properties_iff.mpr fun name s hs x hx => ?_
      simp [hget] at hx
    | _ => rfl
  · refine keywordHolds_additionalProperties_iff.mpr fun name x hx => ?_
    simp [hget] at hx

theorem keywordHolds_of_not_arr (hi : ∀ items, i ≠ .arr items) (v : Json) :
    keywordHolds V r' "items" v i = true := by
  refine keywordHolds_items_iff.mpr fun x hx => ?_
  cases i with
  | arr items => exact absurd rfl (hi items)
  | _ => simp [remainingItems] at hx

theorem keywordHolds_of_leafHolds (hr : InlinedFields rightTarget m r r') {k : String}
    (hk : k ∉ "$ref" :: schemaKeywords ++ schemaListKeywords ++ schemaMapKeywords)
    (h : LeafHolds r k i) {v' : Json} (hv' : field? k r' = some v') :
    keywordHolds V r' k v' i = true := by
  have happlicators : ["$ref", "additionalProperties", "items", "properties", "allOf", "anyOf",
      "oneOf"] ⊆ "$ref" :: schemaKeywords ++ schemaListKeywords ++ schemaMapKeywords := by decide
  rw [hr.leaf hk] at hv'
  rw [keywordHolds_leaf fun hmem => hk (happlicators hmem)]
  exact h v' hv'

theorem keywordHolds_allOf_of_not_arr (hr : InlinedFields rightTarget m r r')
    (hall : ∀ branches, field? "allOf" r ≠ some (.arr branches)) {v' : Json}
    (hv' : field? "allOf" r' = some v') : keywordHolds V r' "allOf" v' i = true := by
  obtain ⟨v, hv, hinl⟩ := hr.to_some hv'
  rcases inlineKeyword_list (by decide) hinl with ⟨items, items', rfl, rfl, -⟩ | ⟨hne, rfl⟩
  · exact absurd hv (hall items)
  · cases v' with
    | arr items => exact absurd rfl (hne items)
    | _ => rfl

/-- The keywords about objects hold once the compared parts do. -/
theorem objectKeywords_sound (hl : InlinedFields leftTarget n l l')
    (hr : InlinedFields rightTarget m r r') (hcomparable : Comparable l r)
    (htypes : (compareTypes l r pointer).Proven)
    (hparts : PartsHold V leftTarget rightTarget
      (if hasTypeName l "object" || hasTypeName r "object" then
        compareObjects left right l r pointer else []))
    (hvalid : valid V (.obj l') i = true) {k : String}
    (hk : k ∈ ["required", "properties", "additionalProperties"]) {v' : Json}
    (hv' : field? k r' = some v') : keywordHolds V r' k v' i = true := by
  have hpattern : ∀ fs, (∀ k, hasKey k fs = true → hasKey k l = true ∨ hasKey k r = true) →
      hasKey "patternProperties" fs = false := by
    intro fs hfs
    by_contra hsome
    have hmem := hcomparable.supported _ (hfs _ (by simpa using hsome))
    exact absurd hmem (by decide)
  by_cases hobj : ∀ fields, i ≠ .obj fields
  · exact keywordHolds_of_not_obj hobj hk v'
  by_cases hnamed : (hasTypeName l "object" || hasTypeName r "object") = true
  · rw [if_pos hnamed] at hparts
    simp only [List.mem_cons, List.not_mem_nil, or_false] at hk
    rcases hk with rfl | rfl | rfl
    · obtain ⟨lps, rps, -, -, hrequired, -⟩ := compareObjects_regular hparts
      exact keywordHolds_of_leafHolds hr (by decide)
        (compareRequired_sound hrequired (leafHolds_of_valid hl hvalid (by decide))) hv'
    · exact compareObjects_properties hl hr (hpattern l fun _ => .inl) hparts hvalid hv'
    · exact compareObjects_additionalProperties hl hr (hpattern l fun _ => .inl)
        (hpattern r fun _ => .inr) hparts hvalid hv'
  · have hobject : ∀ t, hasType i t = true → t = "object" := by
      intro t ht
      simp only [not_forall, not_not] at hobj
      obtain ⟨fields, rfl⟩ := hobj
      simpa [hasType] using ht
    obtain ⟨hluntyped, hruntyped⟩ := untyped_of_not_named htypes
      (leafHolds_of_valid hl hvalid (by decide)) hobject (by simpa using hnamed)
    have hstructural : k ∈ structuralKeywords := by
      have hsub : ["required", "properties", "additionalProperties"] ⊆ structuralKeywords := by
        decide
      exact hsub hk
    have hskipped := hcomparable.typed hluntyped hruntyped k hstructural
    rw [hasKey, ← hr.isSome, hv'] at hskipped
    simp at hskipped

theorem itemsKeyword_sound (hl : InlinedFields leftTarget n l l')
    (hr : InlinedFields rightTarget m r r') (hcomparable : Comparable l r)
    (htypes : (compareTypes l r pointer).Proven)
    (hparts : PartsHold V leftTarget rightTarget
      (if hasTypeName l "array" || hasTypeName r "array" then
        compareItems left right l r pointer else []))
    (hvalid : valid V (.obj l') i = true) {v' : Json} (hv' : field? "items" r' = some v') :
    keywordHolds V r' "items" v' i = true := by
  have hplain : ∀ fs, (∀ k, hasKey k fs = true → hasKey k l = true ∨ hasKey k r = true) →
      hasKey "prefixItems" fs = false := by
    intro fs hfs
    by_contra hsome
    have hmem := hcomparable.supported _ (hfs _ (by simpa using hsome))
    exact absurd hmem (by decide)
  by_cases harr : ∀ items, i ≠ .arr items
  · exact keywordHolds_of_not_arr harr v'
  by_cases hnamed : (hasTypeName l "array" || hasTypeName r "array") = true
  · rw [if_pos hnamed] at hparts
    exact compareItems_sound hl hr (hplain l fun _ => .inl) (hplain r fun _ => .inr) hparts
      hvalid hv'
  · have harray : ∀ t, hasType i t = true → t = "array" := by
      intro t ht
      simp only [not_forall, not_not] at harr
      obtain ⟨items, rfl⟩ := harr
      simpa [hasType] using ht
    obtain ⟨hluntyped, hruntyped⟩ := untyped_of_not_named htypes
      (leafHolds_of_valid hl hvalid (by decide)) harray (by simpa using hnamed)
    have hskipped := hcomparable.typed hluntyped hruntyped "items" (by decide)
    rw [hasKey, ← hr.isSome, hv'] at hskipped
    simp at hskipped

theorem compareAssertions_sound (hl : InlinedFields leftTarget n l l')
    (hr : InlinedFields rightTarget m r r') (hcomparable : Comparable l r)
    (hparts : PartsHold V leftTarget rightTarget (compareAssertions left right l r pointer))
    (hvalid : valid V (.obj l') i = true) : valid V (.obj r') i = true := by
  have hkeys : ∀ k, (field? k r').isSome = true → k ∈ handledKeywords ++ annotationKeywords :=
    fun k hk => hcomparable.supported k (.inr (by rwa [hr.isSome] at hk))
  have hcore : handledKeywords ++ annotationKeywords ⊆ coreKeywords := by decide
  have hleft : ∀ {k}, k ∉ "$ref" :: schemaKeywords ++ schemaListKeywords ++ schemaMapKeywords →
      LeafHolds l k i := leafHolds_of_valid hl hvalid
  have hreport : ∀ report, Item.report report ∈ compareAssertions left right l r pointer →
      report.Proven := hparts.report
  simp only [compareAssertions, List.append_assoc, List.cons_append, List.nil_append,
    List.mem_cons, Item.report.injEq] at hreport
  have htypes := hreport _ (.inl rfl)
  have hlower := hreport _ (.inr (.inl rfl))
  have hupper := hreport _ (.inr (.inr (.inl rfl)))
  have hminLength := hreport _ (.inr (.inr (.inr (.inl rfl))))
  have hminItems := hreport _ (.inr (.inr (.inr (.inr (.inl rfl)))))
  have hmaxLength := hreport _ (.inr (.inr (.inr (.inr (.inr (.inl rfl))))))
  have hmaxItems := hreport _ (.inr (.inr (.inr (.inr (.inr (.inr (.inl rfl)))))))
  have hconst := hparts.subset (compareConst l r pointer)
    fun part h => by simp [compareAssertions, h]
  have henum := hparts.subset (compareEnum l r pointer)
    fun part h => by simp [compareAssertions, h]
  have hobjects := hparts.subset (if hasTypeName l "object" || hasTypeName r "object" then
    compareObjects left right l r pointer else []) fun part h => by
      unfold compareAssertions; exact List.mem_append_left _ (List.mem_append_right _ h)
  have hitems := hparts.subset (if hasTypeName l "array" || hasTypeName r "array" then
    compareItems left right l r pointer else []) fun part h => by
      unfold compareAssertions; exact List.mem_append_right _ h
  have hnumeric : ∀ lower, (compareNumericBound l r pointer lower).Proven →
      LeafHolds r (if lower then "minimum" else "maximum") i ∧
        LeafHolds r (if lower then "exclusiveMinimum" else "exclusiveMaximum") i := by
    intro lower hproven
    refine leafHolds_numeric_iff.mpr fun x hx => compareNumericBound_sound hproven ?_
    exact leafHolds_numeric_iff.mp
      ⟨hleft (by cases lower <;> decide), hleft (by cases lower <;> decide)⟩ x hx
  refine valid_obj_iff.mpr ⟨V.others_silent _ _ fun k hk => hcore (hkeys k hk), ?_⟩
  intro k v' hv'
  have hk := hkeys k (by rw [hv']; rfl)
  have habsent : ∀ k, hasKey k r = false → field? k r' = some v' → keywordHolds V r' k v' i = true := by
    intro k hnone hsome
    rw [hasKey, ← hr.isSome, hsome] at hnone
    simp at hnone
  rcases List.mem_append.mp hk with hk | hk
  · simp only [handledKeywords, List.mem_cons, List.not_mem_nil, or_false] at hk
    rcases hk with rfl | rfl | rfl | rfl | rfl | rfl | rfl | rfl | rfl | rfl | rfl | rfl | rfl |
      rfl | rfl | rfl | rfl | rfl | rfl
    · exact habsent _ hcomparable.no_ref hv'
    · exact objectKeywords_sound hl hr hcomparable htypes hobjects hvalid (by decide) hv'
    · exact keywordHolds_allOf_of_not_arr hr hcomparable.no_all hv'
    · exact habsent _ hcomparable.no_any hv'
    · exact keywordHolds_of_leafHolds hr (by decide)
        (compareConst_sound hcomparable.const hconst (hleft (by decide))) hv'
    · exact keywordHolds_of_leafHolds hr (by decide)
        (compareEnum_sound hcomparable.enum henum (hleft (by decide))) hv'
    · exact keywordHolds_of_leafHolds hr (by decide) (hnumeric false hupper).2 hv'
    · exact keywordHolds_of_leafHolds hr (by decide) (hnumeric true hlower).2 hv'
    · exact itemsKeyword_sound hl hr hcomparable htypes hitems hvalid hv'
    · exact keywordHolds_of_leafHolds hr (by decide)
        (compareUpperBound_sound (by decide) hmaxItems (hleft (by decide))) hv'
    · exact keywordHolds_of_leafHolds hr (by decide)
        (compareUpperBound_sound (by decide) hmaxLength (hleft (by decide))) hv'
    · exact keywordHolds_of_leafHolds hr (by decide) (hnumeric false hupper).1 hv'
    · exact keywordHolds_of_leafHolds hr (by decide)
        (compareLowerBound_sound (by decide) hminItems (hleft (by decide))) hv'
    · exact keywordHolds_of_leafHolds hr (by decide)
        (compareLowerBound_sound (by decide) hminLength (hleft (by decide))) hv'
    · exact keywordHolds_of_leafHolds hr (by decide) (hnumeric true hlower).1 hv'
    · exact habsent _ hcomparable.no_one hv'
    · exact objectKeywords_sound hl hr hcomparable htypes hobjects hvalid (by decide) hv'
    · exact objectKeywords_sound hl hr hcomparable htypes hobjects hvalid (by decide) hv'
    · exact keywordHolds_of_leafHolds hr (by decide)
        (compareTypes_sound htypes (hleft (by decide))) hv'
  · exact keywordHolds_annotation hk v' i

end Together



end CapabilityCompiler.Contracts
