import CapabilityCompiler.Contracts.Containment
import CapabilityCompiler.Contracts.Following
import CapabilityCompiler.Contracts.FrozenRelation

/-! When a proven comparison of frozen schemas means containment. -/
namespace CapabilityCompiler.Contracts
open Foundation Foundation.Json Foundation.Search

/-! Seen values. -/

theorem field?_seenFields (key : String) (fields : Fields) :
    field? key (seenFields fields) = (field? key fields).map seen :=
  field?_map (fun _ => seen) key fields

theorem seen_ne_obj (value : Json) (fields : Fields) : seen value ≠ .obj fields := by
  cases value <;> simp [seen]

theorem seen_ne_arr (value : Json) (items : List Json) : seen value ≠ .arr items := by
  cases value <;> simp [seen]

theorem eq_of_seen_bool {value : Json} {b : Bool} (h : seen value = .bool b) :
    value = .bool b := by
  cases value <;> simp [seen] at h ⊢
  exact h

theorem num?_seen (value : Json) : (seen value).num? = value.num? := by
  cases value <;> rfl

theorem leafHolds_null {key : String} (h : key ≠ "const") (i : Json) :
    leafHolds key .null i = true := by
  unfold leafHolds
  rw [if_neg h]
  split
  · rfl
  · split
    · rfl
    · split
      · cases i <;> rfl
      · rfl

/-- What is not seen asserts nothing. -/
theorem leafHolds_seen {key : String} {value i : Json} (hkey : key ≠ "const")
    (h : leafHolds key value i = true) : leafHolds key (seen value) i = true := by
  cases value with
  | arr items => exact leafHolds_null hkey i
  | obj fields => exact leafHolds_null hkey i
  | _ => exact h

theorem leafHolds_bound_seen {key : String} (h : key ∈ boundKeywords) (value i : Json) :
    leafHolds key (seen value) i = leafHolds key value i := by
  rw [Bool.eq_iff_iff, leafHolds_bound_iff h, leafHolds_bound_iff h, num?_seen]

/-! Assertions. -/

/-- The comparison of assertions passes over nothing that the right side asserts: its type is no
list, it has no `allOf`, its additional properties are no object where objects are compared, and
where neither side has a type that is seen, it has no object or array keywords. -/
structure FlatClear (l r : Fields) : Prop where
  type : ∀ names, field? "type" r ≠ some (.arr names)
  all : ∀ branches, field? "allOf" r ≠ some (.arr branches)
  additional : (hasTypeName (seenFields l) "object" || hasTypeName (seenFields r) "object") = true →
    ∀ fields, field? "additionalProperties" r ≠ some (.obj fields)
  untyped : types (seenFields l) = none → types (seenFields r) = none →
    ∀ k ∈ structuralKeywords, hasKey k r = false

/-- The schemas whose assertions are compared. -/
structure FlatCompared (l r : Fields) : Prop where
  supported : ∀ k, hasKey k l = true ∨ hasKey k r = true → k ∈ handledKeywords ++ annotationKeywords
  no_ref : hasKey "$ref" r = false
  no_any : hasKey "anyOf" r = false
  no_one : hasKey "oneOf" r = false
  no_const : hasKey "const" l = false

section Assertions
variable {l r : Fields}

theorem report_of_proven (h : (compareAssertionsFrozen l r).Proven) {part : Part}
    (hpart : part ∈ compareAssertions ⟨[], .obj (seenFields l)⟩ ⟨[], .obj (seenFields r)⟩
      (seenFields l) (seenFields r) "") : (settleFrozen part).Proven :=
  combine_proven h _ (List.mem_map_of_mem hpart)

theorem not_settled_seen {value other : Json} {pointer : String} {left right : Node}
    (h : (settleFrozen (.goal ⟨⟨left, seen value⟩, ⟨right, seen other⟩, pointer⟩)).Proven) :
    seen value = .bool false ∨ seen other = .bool true := by
  unfold settleFrozen settle at h
  by_contra hneither
  simp only [if_neg hneither] at h
  split at h
  · split at h
    · exact not_proven_finding_conflict _ _ h
    · exact not_proven_finding_unknown _ _ h
  · split at h
    · exact not_proven_finding_conflict _ _ h
    · split at h
      · rename_i hl _
        exact seen_ne_obj _ _ hl
      · exact not_proven_finding_unknown _ _ h

theorem subschemaOf_seen (fields : Fields) (keyword : String) :
    subschemaOf (seenFields fields) keyword = seen (subschemaOf fields keyword) := by
  unfold subschemaOf
  rw [field?_seenFields]
  cases field? keyword fields with
  | none => rfl
  | some value => rfl

theorem absent_of_seen_obj {fields inner : Fields}
    (h : propertiesOf (seenFields fields) = .obj inner) : field? "properties" fields = none := by
  unfold propertiesOf at h
  rw [field?_seenFields] at h
  cases hvalue : field? "properties" fields with
  | none => rfl
  | some value =>
    rw [hvalue] at h
    exact absurd h (seen_ne_obj value inner)

theorem required_absent {pointer : String}
    (h : (compareRequired (seenFields l) (seenFields r) pointer).Proven) :
    field? "required" r = none := by
  cases hvalue : field? "required" r with
  | none => rfl
  | some value =>
    exfalso
    unfold compareRequired at h
    rw [field?_seenFields, hvalue] at h
    simp only [Option.map_some, Option.getD_some] at h
    split at h
    · rename_i items _ hitems _
      exact seen_ne_arr value items hitems
    · exact not_proven_finding_unknown _ _ h

/-- Where objects are compared, neither side has properties, nothing is required, and the right
side forbids additional properties only where the left side does. -/
theorem objects_of_proven (h : (compareAssertionsFrozen l r).Proven)
    (hnamed : (hasTypeName (seenFields l) "object" || hasTypeName (seenFields r) "object") = true) :
    field? "properties" l = none ∧ field? "properties" r = none ∧ field? "required" r = none ∧
      (subschemaOf r "additionalProperties" = .bool false →
        subschemaOf l "additionalProperties" = .bool false) := by
  have hparts : ∀ part ∈ compareObjects ⟨[], .obj (seenFields l)⟩ ⟨[], .obj (seenFields r)⟩
      (seenFields l) (seenFields r) "", (settleFrozen part).Proven := by
    intro part hpart
    refine report_of_proven h ?_
    unfold compareAssertions
    rw [if_pos hnamed]
    exact List.mem_append_left _ (List.mem_append_right _ hpart)
  unfold compareObjects at hparts
  split at hparts
  · rename_i lps rps hl hr
    refine ⟨absent_of_seen_obj hl, absent_of_seen_obj hr,
      required_absent (hparts _ List.mem_cons_self), fun hfalse => ?_⟩
    by_contra hleft
    have hseenₗ : subschemaOf (seenFields l) "additionalProperties" ≠ .bool false := by
      rw [subschemaOf_seen]
      exact fun heq => hleft (eq_of_seen_bool heq)
    have hseenᵣ : subschemaOf (seenFields r) "additionalProperties" = .bool false := by
      rw [subschemaOf_seen, hfalse]
      rfl
    have hadditional : compareAdditional ⟨[], .obj (seenFields l)⟩ ⟨[], .obj (seenFields r)⟩
        (seenFields l) (seenFields r) "" = [.report (finding .conflict
          (child "" "additionalProperties") "left schema permits undeclared properties")] := by
      simp only [compareAdditional, Place.subschema, Place.child, if_neg hseenₗ, hseenᵣ]
    have hlast := hparts (.report (finding .conflict (child "" "additionalProperties")
        "left schema permits undeclared properties")) (List.mem_append_right _ (by
          rw [hadditional]
          exact List.mem_singleton.mpr rfl))
    exact not_proven_finding_conflict _ _ hlast
  · exact absurd (hparts _ List.mem_cons_self) (not_proven_finding_unknown _ _)

/-- Where arrays are compared, the left side forbids items or the right side permits all. -/
theorem items_of_proven (h : (compareAssertionsFrozen l r).Proven)
    (hnamed : (hasTypeName (seenFields l) "array" || hasTypeName (seenFields r) "array") = true) :
    subschemaOf l "items" = .bool false ∨ subschemaOf r "items" = .bool true := by
  have hgoal : (settleFrozen (.goal ⟨⟨[.key "items"], seen (subschemaOf l "items")⟩,
      ⟨[.key "items"], seen (subschemaOf r "items")⟩, child "" "items"⟩)).Proven := by
    refine report_of_proven h ?_
    unfold compareAssertions
    rw [if_pos hnamed, ← subschemaOf_seen, ← subschemaOf_seen]
    exact List.mem_append_right _ (List.mem_singleton.mpr rfl)
  rcases not_settled_seen hgoal with hl | hr
  · exact .inl (eq_of_seen_bool hl)
  · exact .inr (eq_of_seen_bool hr)

theorem proven_of_values (h : (compareAssertionsFrozen l r).Proven) {report : RelationReport}
    (hreport : Item.report report ∈ compareConst (seenFields l) (seenFields r) "" ++
      compareEnum (seenFields l) (seenFields r) "") : report.Proven := by
  have hpart : Item.report report ∈ compareAssertions ⟨[], .obj (seenFields l)⟩
      ⟨[], .obj (seenFields r)⟩ (seenFields l) (seenFields r) "" := by
    unfold compareAssertions
    refine List.mem_append_left _ (List.mem_append_left _ ?_)
    rw [List.append_assoc]
    exact List.mem_append_right _ hreport
  exact report_of_proven h hpart

/-- Values are not compared: the right side has neither a constant nor an enumeration. -/
theorem values_of_proven (h : (compareAssertionsFrozen l r).Proven)
    (hconst : hasKey "const" l = false) : hasKey "const" r = false ∧ hasKey "enum" r = false := by
  have hnone : field? "const" (seenFields l) = none := by
    rw [field?_seenFields, Option.map_eq_none_iff, ← Option.not_isSome_iff_eq_none]
    exact Bool.eq_false_iff.mp hconst
  constructor
  · by_contra hsome
    obtain ⟨value, hvalue⟩ := Option.isSome_iff_exists.mp ((Bool.not_eq_false _).mp hsome)
    have hreport : Item.report (finding .conflict (child "" "const")
        "left schema does not prove the declared constant") ∈
          compareConst (seenFields l) (seenFields r) "" := by
      unfold compareConst
      rw [field?_seenFields, hvalue, Option.map_some]
      simp only [hnone]
      exact List.mem_singleton.mpr rfl
    exact not_proven_finding_conflict _ _ (proven_of_values h (List.mem_append_left _ hreport))
  · by_contra hsome
    obtain ⟨value, hvalue⟩ := Option.isSome_iff_exists.mp ((Bool.not_eq_false _).mp hsome)
    have hreport : Item.report (finding .unknown (child "" "enum")
        "enum containment is not decidable") ∈
          compareEnum (seenFields l) (seenFields r) "" := by
      unfold compareEnum
      rw [field?_seenFields, hvalue, Option.map_some]
      split
      · rename_i heq
        exact absurd heq (by simp)
      · rename_i items _ heq _
        exact absurd (Option.some.inj heq) (seen_ne_arr value items)
      · exact List.mem_singleton.mpr rfl
    exact not_proven_finding_unknown _ _ (proven_of_values h (List.mem_append_right _ hreport))

/-- The leaf keywords of the right side hold where those of the left side do. -/
theorem leaves_of_proven (h : (compareAssertionsFrozen l r).Proven) (hclear : FlatClear l r)
    {i : Json} (hl : ∀ k, k ≠ "const" → k ∈ "type" :: boundKeywords →
      LeafHolds (seenFields l) k i) :
    ∀ k ∈ "type" :: boundKeywords, LeafHolds r k i := by
  have hreport : ∀ report,
      Item.report report ∈ compareAssertions ⟨[], .obj (seenFields l)⟩ ⟨[], .obj (seenFields r)⟩
        (seenFields l) (seenFields r) "" → report.Proven := fun _ hmem => report_of_proven h hmem
  simp only [compareAssertions, List.append_assoc, List.cons_append, List.nil_append,
    List.mem_cons, Item.report.injEq] at hreport
  have hnumeric : ∀ lower, (compareNumericBound (seenFields l) (seenFields r) "" lower).Proven →
      LeafHolds (seenFields r) (if lower then "minimum" else "maximum") i ∧
        LeafHolds (seenFields r) (if lower then "exclusiveMinimum" else "exclusiveMaximum") i := by
    intro lower hproven
    refine leafHolds_numeric_iff.mpr fun x hx => compareNumericBound_sound hproven ?_
    exact leafHolds_numeric_iff.mp
      ⟨hl _ (by cases lower <;> decide) (by cases lower <;> decide),
        hl _ (by cases lower <;> decide) (by cases lower <;> decide)⟩ x hx
  have hbound : ∀ k ∈ boundKeywords, LeafHolds (seenFields r) k i → LeafHolds r k i := by
    intro k hk hseen value hvalue
    have hsame := hseen (seen value) (by rw [field?_seenFields, hvalue]; rfl)
    rwa [leafHolds_bound_seen hk] at hsame
  have hlower := hnumeric true (hreport _ (.inr (.inl rfl)))
  have hupper := hnumeric false (hreport _ (.inr (.inr (.inl rfl))))
  intro k hk
  simp only [boundKeywords, List.mem_cons, List.not_mem_nil, or_false] at hk
  rcases hk with rfl | rfl | rfl | rfl | rfl | rfl | rfl | rfl | rfl
  · have htypes := compareTypes_sound (hreport _ (.inl rfl)) (hl _ (by decide) (by decide))
    intro value hvalue
    have hsame := htypes (seen value) (by rw [field?_seenFields, hvalue]; rfl)
    cases value with
    | arr names => exact absurd hvalue (hclear.type names)
    | obj fields => rfl
    | _ => exact hsame
  · exact hbound _ (by decide) (compareLowerBound_sound (by decide)
      (hreport _ (.inr (.inr (.inr (.inl rfl))))) (hl _ (by decide) (by decide)))
  · exact hbound _ (by decide) (compareUpperBound_sound (by decide)
      (hreport _ (.inr (.inr (.inr (.inr (.inr (.inl rfl)))))))
      (hl _ (by decide) (by decide)))
  · exact hbound _ (by decide) (compareLowerBound_sound (by decide)
      (hreport _ (.inr (.inr (.inr (.inr (.inl rfl)))))) (hl _ (by decide) (by decide)))
  · exact hbound _ (by decide) (compareUpperBound_sound (by decide)
      (hreport _ (.inr (.inr (.inr (.inr (.inr (.inr (.inl rfl))))))))
      (hl _ (by decide) (by decide)))
  · exact hbound _ (by decide) hlower.1
  · exact hbound _ (by decide) hupper.1
  · exact hbound _ (by decide) hlower.2
  · exact hbound _ (by decide) hupper.2

end Assertions

section Flat
variable {V : Vocabulary} {decode : String → String} {l r : Fields} {p s : ResourceScope}
  {n m : ℕ} {rest rest' : Json} {i : Json}

/-- A leaf keyword of the unrolled left side holds of what is seen of it. -/
theorem seen_leaf_of_valid (hvalid : valid V (.obj (unrollFields decode rest n p l)) i = true)
    {k : String} (hconst : k ≠ "const") (hk : k ∈ "type" :: boundKeywords) :
    LeafHolds (seenFields l) k i := by
  have hleaf : ∀ k ∈ "type" :: boundKeywords, k ∉ referenceKeywords ∧ positionOf k = .other ∧
      k ∉ namingKeywords ∧ k ∉ ["$ref", "additionalProperties", "items", "properties", "allOf",
        "anyOf", "oneOf"] := by decide
  obtain ⟨hreference, hposition, hnaming, happlicator⟩ := hleaf k hk
  intro value hvalue
  rw [field?_seenFields] at hvalue
  obtain ⟨w, hw, rfl⟩ := Option.map_eq_some_iff.mp hvalue
  refine leafHolds_seen hconst ?_
  have hfield : field? k (unrollFields decode rest n p l) = some w := by
    rw [field?_unrollFields hnaming, hw, Option.map_some, unrollKeyword_leaf hreference hposition]
  have hkeyword := keywordHolds_of_valid hvalid hfield
  rwa [keywordHolds_leaf happlicator] at hkeyword

/-- An object that is valid where additional properties are forbidden, and none are declared, is
empty. -/
theorem get?_eq_none_of_closed
    (hvalid : valid V (.obj (unrollFields decode rest (n + 1) p l)) i = true)
    (hproperties : field? "properties" l = none) (hpattern : field? "patternProperties" l = none)
    (hclosed : field? "additionalProperties" l = some (.bool false)) (name : String) :
    get? name i = none := by
  by_contra hsome
  obtain ⟨x, hx⟩ := Option.ne_none_iff_exists'.mp hsome
  have hfield : field? "additionalProperties" (unrollFields decode rest (n + 1) p l) =
      some (.bool false) := by
    rw [field?_unrollFields (by decide), hclosed]
    rfl
  have hnames : ∀ k, k ∉ namingKeywords → field? k l = none →
      propertyNames (unrollFields decode rest (n + 1) p l) k = [] := by
    intro k hk hnone
    unfold propertyNames
    rw [field?_unrollFields hk, hnone]
    rfl
  have hkeyword := keywordHolds_additionalProperties_iff.mp (keywordHolds_of_valid hvalid hfield)
  refine valid_false x (hkeyword name x hx ⟨?_, ?_⟩)
  · rw [hnames _ (by decide) hproperties]
    exact List.not_mem_nil
  · rw [hnames _ (by decide) hpattern]
    simp

/-- An array that is valid where items are forbidden is empty. -/
theorem eq_nil_of_closed {items : List Json}
    (hvalid : valid V (.obj (unrollFields decode rest (n + 1) p l)) (.arr items) = true)
    (htuple : field? "prefixItems" l = none) (hclosed : field? "items" l = some (.bool false)) :
    items = [] := by
  have hfield : field? "items" (unrollFields decode rest (n + 1) p l) = some (.bool false) := by
    rw [field?_unrollFields (by decide), hclosed]
    rfl
  have hkeyword := keywordHolds_items_iff.mp (keywordHolds_of_valid hvalid hfield)
  have hall : remainingItems (unrollFields decode rest (n + 1) p l) (.arr items) = items := by
    unfold remainingItems
    rw [field?_unrollFields (by decide), htuple]
    rfl
  rw [hall] at hkeyword
  refine List.eq_nil_iff_forall_not_mem.mpr fun x hx => ?_
  exact valid_false x (hkeyword x hx)

/-- The object keywords of the right side hold. -/
theorem objects_sound (hcompared : FlatCompared l r) (hproven : (compareAssertionsFrozen l r).Proven)
    (hclear : FlatClear l r)
    (hvalid : valid V (.obj (unrollFields decode rest (n + 1) p l)) i = true) {k : String}
    (hk : k ∈ ["required", "properties", "additionalProperties"]) {v : Json}
    (hv : field? k (unrollFields decode rest' (m + 1) s r) = some v) :
    keywordHolds V (unrollFields decode rest' (m + 1) s r) k v i = true := by
  obtain ⟨w, hw, hunrolled⟩ := hasKey_of_unrollFields hv
  by_cases hi : ∀ fields, i ≠ .obj fields
  · exact keywordHolds_of_not_obj hi hk v
  by_cases hnamed : (hasTypeName (seenFields l) "object" ||
      hasTypeName (seenFields r) "object") = true
  · obtain ⟨hlnone, hrnone, hrequired, hclosed⟩ := objects_of_proven hproven hnamed
    simp only [List.mem_cons, List.not_mem_nil, or_false] at hk
    rcases hk with rfl | rfl | rfl
    · rw [hrequired] at hw
      exact absurd hw (by simp)
    · rw [hrnone] at hw
      exact absurd hw (by simp)
    · have hsub : subschemaOf r "additionalProperties" = w := by
        rw [subschemaOf, hw, Option.getD_some]
      refine keywordHolds_additionalProperties_iff.mpr fun name x hx _ => ?_
      cases w with
      | obj fields => exact absurd hw (hclear.additional hnamed fields)
      | bool b =>
        cases b with
        | true => rw [hunrolled]; exact valid_true x
        | false =>
          -- The left side forbids them as well, so the object has no property.
          have hleft := hclosed hsub
          have hfield : field? "additionalProperties" l = some (.bool false) := by
            unfold subschemaOf at hleft
            cases hvalue : field? "additionalProperties" l with
            | none => rw [hvalue] at hleft; exact absurd hleft (by simp)
            | some value => rw [hvalue] at hleft; exact congrArg some hleft
          have hpattern : field? "patternProperties" l = none := by
            by_contra hsome
            have hmem := hcompared.supported "patternProperties"
              (.inl (Option.isSome_iff_ne_none.mpr hsome))
            exact absurd hmem (by decide)
          have hnone := get?_eq_none_of_closed hvalid hlnone hpattern hfield name
          rw [hnone] at hx
          exact absurd hx (by simp)
      | _ => rw [hunrolled]; rfl
  · have hobject : ∀ t, hasType i t = true → t = "object" := by
      intro t ht
      rw [not_forall] at hi
      obtain ⟨fields, hfields⟩ := hi
      rw [not_not.mp hfields] at ht
      simpa [hasType] using ht
    obtain ⟨hluntyped, hruntyped⟩ := untyped_of_not_named
      (report_of_proven hproven List.mem_cons_self)
      (seen_leaf_of_valid hvalid (by decide) List.mem_cons_self) hobject
      (Bool.not_eq_true _ ▸ hnamed)
    have hsub : ["required", "properties", "additionalProperties"] ⊆ structuralKeywords := by decide
    have hskipped := hclear.untyped hluntyped hruntyped k (hsub hk)
    rw [hasKey, hw] at hskipped
    exact absurd hskipped (by simp)

/-- The items of the right side hold. -/
theorem items_sound (hcompared : FlatCompared l r) (hproven : (compareAssertionsFrozen l r).Proven)
    (hclear : FlatClear l r)
    (hvalid : valid V (.obj (unrollFields decode rest (n + 1) p l)) i = true) {v : Json}
    (hv : field? "items" (unrollFields decode rest' (m + 1) s r) = some v) :
    keywordHolds V (unrollFields decode rest' (m + 1) s r) "items" v i = true := by
  obtain ⟨w, hw, hunrolled⟩ := hasKey_of_unrollFields hv
  by_cases hi : ∀ items, i ≠ .arr items
  · exact keywordHolds_of_not_arr hi v
  rw [not_forall] at hi
  obtain ⟨items, hitems⟩ := hi
  obtain rfl := not_not.mp hitems
  by_cases hnamed : (hasTypeName (seenFields l) "array" || hasTypeName (seenFields r) "array") = true
  · refine keywordHolds_items_iff.mpr fun x hx => ?_
    rcases items_of_proven hproven hnamed with hleft | hright
    · have hfield : field? "items" l = some (.bool false) := by
        unfold subschemaOf at hleft
        cases hvalue : field? "items" l with
        | none => rw [hvalue] at hleft; exact absurd hleft (by simp)
        | some value => rw [hvalue] at hleft; exact congrArg some hleft
      have htuple : field? "prefixItems" l = none := by
        by_contra hsome
        have hmem := hcompared.supported "prefixItems"
          (.inl (Option.isSome_iff_ne_none.mpr hsome))
        exact absurd hmem (by decide)
      obtain rfl := eq_nil_of_closed hvalid htuple hfield
      unfold remainingItems at hx
      split at hx
      · rename_i heq _
        rw [← Json.arr.inj heq] at hx
        simp at hx
      · rename_i heq _
        rw [← Json.arr.inj heq] at hx
        exact absurd hx List.not_mem_nil
      · exact absurd hx List.not_mem_nil
    · rw [subschemaOf, hw, Option.getD_some] at hright
      rw [hunrolled, hright]
      exact valid_true x
  · have harray : ∀ t, hasType (.arr items) t = true → t = "array" := by
      intro t ht
      simpa [hasType] using ht
    obtain ⟨hluntyped, hruntyped⟩ := untyped_of_not_named
      (report_of_proven hproven List.mem_cons_self)
      (seen_leaf_of_valid hvalid (by decide) List.mem_cons_self) harray
      (Bool.not_eq_true _ ▸ hnamed)
    have hskipped := hclear.untyped hluntyped hruntyped "items" (by decide)
    rw [hasKey, hw] at hskipped
    exact absurd hskipped (by simp)

/-- A proven comparison of assertions is a containment, at every depth. -/
theorem assertions_sound (hcompared : FlatCompared l r)
    (hproven : (compareAssertionsFrozen l r).Proven) (hclear : FlatClear l r)
    (hvalid : valid V (.obj (unrollFields decode rest (n + 1) p l)) i = true) :
    valid V (.obj (unrollFields decode rest' (m + 1) s r)) i = true := by
  have hcore : handledKeywords ++ annotationKeywords ⊆ coreKeywords := by decide
  have hkeys : ∀ k v, field? k (unrollFields decode rest' (m + 1) s r) = some v →
      k ∈ handledKeywords ++ annotationKeywords := by
    intro k v hv
    obtain ⟨w, hw, -⟩ := hasKey_of_unrollFields hv
    exact hcompared.supported k (.inr (by rw [hasKey, hw]; rfl))
  have hleaves := leaves_of_proven hproven hclear fun k => seen_leaf_of_valid hvalid
  refine valid_obj_iff.mpr ⟨V.others_silent _ _ fun k hk => ?_, fun k v hv => ?_⟩
  · obtain ⟨v, hv⟩ := Option.isSome_iff_exists.mp hk
    exact hcore (hkeys k v hv)
  obtain ⟨w, hw, hunrolled⟩ := hasKey_of_unrollFields hv
  have habsent : hasKey k r = false → keywordHolds V (unrollFields decode rest' (m + 1) s r) k v i =
      true := by
    intro hnone
    rw [hasKey, hw] at hnone
    exact absurd hnone (by simp)
  have hleaf : k ∈ "type" :: boundKeywords →
      keywordHolds V (unrollFields decode rest' (m + 1) s r) k v i = true := by
    intro hk
    have hother : ∀ k ∈ "type" :: boundKeywords, k ∉ referenceKeywords ∧ positionOf k = .other ∧
        k ∉ ["$ref", "additionalProperties", "items", "properties", "allOf", "anyOf", "oneOf"] := by
      decide
    obtain ⟨hreference, hposition, happlicator⟩ := hother k hk
    rw [keywordHolds_leaf happlicator, hunrolled, unrollKeyword_leaf hreference hposition]
    exact hleaves k hk w hw
  have hobjects : k ∈ ["required", "properties", "additionalProperties"] →
      keywordHolds V (unrollFields decode rest' (m + 1) s r) k v i = true :=
    fun hk => objects_sound hcompared hproven hclear hvalid hk hv
  have hvalues := values_of_proven hproven hcompared.no_const
  rcases List.mem_append.mp (hkeys k v hv) with hk | hk
  · simp only [handledKeywords, List.mem_cons, List.not_mem_nil, or_false] at hk
    rcases hk with rfl | rfl | rfl | rfl | rfl | rfl | rfl | rfl | rfl | rfl | rfl | rfl | rfl |
      rfl | rfl | rfl | rfl | rfl | rfl
    · exact habsent hcompared.no_ref
    · exact hobjects (by decide)
    · -- An `allOf` that is no array asserts nothing.
      cases w with
      | arr branches => exact absurd hw (hclear.all branches)
      | obj fields => rw [hunrolled]; rfl
      | _ => rw [hunrolled]; rfl
    · exact habsent hcompared.no_any
    · exact habsent hvalues.1
    · exact habsent hvalues.2
    · exact hleaf (by decide)
    · exact hleaf (by decide)
    · exact items_sound hcompared hproven hclear hvalid hv
    · exact hleaf (by decide)
    · exact hleaf (by decide)
    · exact hleaf (by decide)
    · exact hleaf (by decide)
    · exact hleaf (by decide)
    · exact hleaf (by decide)
    · exact habsent hcompared.no_one
    · exact hobjects (by decide)
    · exact hobjects (by decide)
    · exact hleaf (by decide)
  · exact keywordHolds_annotation hk v i

end Flat

/-! Schemas without references. -/

mutual

/-- A member with one of these names is somewhere in the document. -/
def mentions (names : List String) : Json → Bool
  | .obj fields => mentionsFields names fields
  | .arr items => mentionsItems names items
  | _ => false

def mentionsItems (names : List String) : List Json → Bool
  | [] => false
  | item :: rest => mentions names item || mentionsItems names rest

def mentionsFields (names : List String) : Fields → Bool
  | [] => false
  | (key, value) :: rest => key ∈ names || mentions names value || mentionsFields names rest

end

theorem mentionsFields_eq_false_iff {names : List String} {fields : Fields} :
    mentionsFields names fields = false ↔
      ∀ f ∈ fields, f.1 ∉ names ∧ mentions names f.2 = false := by
  induction fields with
  | nil => simp [mentionsFields]
  | cons f rest ih =>
    obtain ⟨key, value⟩ := f
    simp [mentionsFields, ih, and_assoc]

theorem mentionsItems_eq_false_iff {names : List String} {items : List Json} :
    mentionsItems names items = false ↔ ∀ item ∈ items, mentions names item = false := by
  induction items with
  | nil => simp [mentionsItems]
  | cons item rest ih => simp [mentionsItems, ih]

/-- Without references the scope makes no difference. -/
theorem referenceFree_simulation (decode : String → String) :
    Simulation decode fun _ x _ y => x = y ∧ mentions referenceKeywords x = false where
  shape := by
    rintro p x s y ⟨rfl, -⟩
    exact shape_self x
  under := by
    rintro p f s g ⟨hfg, hfree⟩ field hfield schema hschema
    refine ⟨rfl, ?_⟩
    have hvalue := (mentionsFields_eq_false_iff.mp hfree field (List.mem_filter.mp hfield).1).2
    cases hposition : positionOf field.1 with
    | schema =>
      rw [hposition] at hschema
      rw [List.mem_singleton.mp hschema]
      exact hvalue
    | schemas =>
      rw [hposition] at hschema
      cases hcase : field.2 with
      | arr items =>
        rw [hcase] at hschema hvalue
        exact mentionsItems_eq_false_iff.mp hvalue schema hschema
      | obj inner =>
        rw [hcase] at hschema hvalue
        obtain ⟨g, hg, rfl⟩ := List.mem_map.mp hschema
        exact (mentionsFields_eq_false_iff.mp hvalue g hg).2
      | _ => rw [hcase] at hschema; exact absurd hschema List.not_mem_nil
    | other =>
      rw [hposition] at hschema
      exact absurd hschema List.not_mem_nil
  targets := by
    rintro p f s g ⟨-, hfree⟩ keyword reference hmem hkeyword
    exact absurd hkeyword (mentionsFields_eq_false_iff.mp hfree _ (List.mem_filter.mp hmem).1).1

section Compared
variable {V : Vocabulary} {decode : String → String} {isValid : Json → Json → Bool}
  {sourceRoot targetRoot : Json} {l r : ResolvedSchema} {i : Json}

theorem ValidAt.of_referenceFree {scope : ResourceScope} {schema : Json}
    (h : ValidAt V decode scope schema i) (hfree : mentions referenceKeywords schema = false)
    (scope' : ResourceScope) : ValidAt V decode scope' schema i := by
  obtain ⟨depth, h⟩ := h
  refine ⟨depth, fun n hn rest => ?_⟩
  have hsame : unroll decode rest n scope schema = unroll decode rest n scope' schema :=
    (referenceFree_simulation decode).unroll_eq rest n ⟨rfl, hfree⟩
  rw [← hsame]
  exact h n hn rest

theorem ValidAt.congr {scope : ResourceScope} {schema j : Json}
    (h : ValidAt V decode scope schema i) (hij : jsonEqual i j = true) :
    ValidAt V decode scope schema j := by
  obtain ⟨depth, h⟩ := h
  refine ⟨depth, fun n hn rest => ?_⟩
  rw [← valid_congr (jsonEqual_refl _) hij]
  exact h n hn rest

/-- The validator decides validity under a schema that is its own document. Freezing changes no
instance that is neither an array nor an object. -/
def DecidesScalars (V : Vocabulary) (decode : String → String) (isValid : Json → Json → Bool) :
    Prop :=
  ∀ schema i, i.isScalar = true → (isValid schema i = true ↔ ValidIn V decode schema i)

/-- None of the shortcuts is taken that the comparison of frozen schemas is unsound by. Equal
schemas stay equal when their references are followed; a constant is no array and no object, and
the references around it are not resolved in the wrong document; and the assertions are clear. -/
structure FrozenClear (decode : String → String) (sourceRoot targetRoot : Json)
    (l r : ResolvedSchema) : Prop where
  equal : pyEqual (.obj l.fields) (.obj r.fields) = true → ∀ depth rest,
    jsonEqual (unroll decode rest depth [sourceRoot] (.obj l.fields))
      (unroll decode rest depth [targetRoot] (.obj r.fields)) = true
  constant : pyEqual (.obj l.fields) (.obj r.fields) = false →
    ∀ c, field? "const" l.fields = some c → c.isScalar = true ∧
      mentions referenceKeywords (.obj l.fields) = false ∧
      mentions referenceKeywords (.obj r.fields) = false
  flat : pyEqual (.obj l.fields) (.obj r.fields) = false → hasKey "const" l.fields = false →
    FlatClear l.fields r.fields

/-- A constant that both validators accept is the only instance. -/
theorem constant_sound (hisValid : DecidesScalars V decode isValid) {c : Json}
    (hconst : field? "const" l.fields = some c) (hscalar : c.isScalar = true)
    (hlfree : mentions referenceKeywords (.obj l.fields) = false)
    (hrfree : mentions referenceKeywords (.obj r.fields) = false) {report : RelationReport}
    (hfinite : compareFiniteFrozen l.fields r.fields isValid = some report)
    (hproven : report.Proven) (h : ValidAt V decode [sourceRoot] (.obj l.fields) i) :
    ValidAt V decode [targetRoot] (.obj r.fields) i := by
  have hci : jsonEqual c i = true := h.leaf (by decide) hconst
  have hleft : isValid (.obj l.fields) c = true :=
    (hisValid _ _ hscalar).mpr ((h.congr (jsonEqual_symm hci)).of_referenceFree hlfree _)
  have hright : isValid (.obj r.fields) c = true := by
    unfold compareFiniteFrozen at hfinite
    rw [hconst, Option.map_some, Option.some.injEq] at hfinite
    by_contra hrejected
    rw [Bool.not_eq_true] at hrejected
    rw [hleft, hrejected] at hfinite
    rw [← hfinite] at hproven
    exact not_proven_finding_conflict _ _ hproven
  have hdocument : ValidAt V decode [.obj r.fields] (.obj r.fields) c :=
    (hisValid _ _ hscalar).mp hright
  exact (hdocument.of_referenceFree hrfree _).congr hci

/-- Where the comparison is clear, a proven relation is a containment, each schema in its own
document. -/
theorem compareFrozen_contained (hisValid : DecidesScalars V decode isValid)
    (hclear : FrozenClear decode sourceRoot targetRoot l r)
    (hproven : (compareFrozen isValid l r).Proven)
    (h : ValidAt V decode [sourceRoot] (.obj l.fields) i) :
    ValidAt V decode [targetRoot] (.obj r.fields) i := by
  unfold compareFrozen at hproven
  simp only at hproven
  split at hproven
  · rename_i hequal
    obtain ⟨depth, h⟩ := h
    refine ⟨depth, fun n hn rest => ?_⟩
    rw [← valid_congr (hclear.equal hequal n rest) (jsonEqual_refl i)]
    exact h n hn rest
  · rename_i hequal
    rw [Bool.not_eq_true] at hequal
    split at hproven
    · exact absurd hproven (not_proven_finding_unknown _ _)
    · rename_i hnone
      split at hproven
      · exact absurd hproven (not_proven_finding_unknown _ _)
      · rename_i hunions
        rw [Bool.or_eq_true, not_or, Bool.not_eq_true, Bool.not_eq_true] at hunions
        cases hfinite : compareFiniteFrozen l.fields r.fields isValid with
        | some report =>
          rw [hfinite, Option.getD_some] at hproven
          obtain ⟨c, hc, -⟩ := Option.map_eq_some_iff.mp hfinite
          obtain ⟨hscalar, hlfree, hrfree⟩ := hclear.constant hequal c hc
          exact constant_sound hisValid hc hscalar hlfree hrfree hfinite hproven h
        | none =>
          rw [hfinite, Option.getD_none] at hproven
          have hconst : hasKey "const" l.fields = false := by
            rw [hasKey, Option.map_eq_none_iff.mp hfinite]
            rfl
          have hsupported : ∀ k, hasKey k l.fields = true ∨ hasKey k r.fields = true →
              k ∈ handledKeywords ++ annotationKeywords := by
            intro k hk
            by_contra houtside
            rw [sortedSet_eq_nil_iff] at hnone
            have hmem : k ∈ keywordsOutside (handledKeywords ++ annotationKeywords)
                (l.fields ++ r.fields) := by
              refine List.mem_filter.mpr ⟨?_, by simpa using houtside⟩
              rw [List.map_append, List.mem_append]
              exact hk.imp field?_isSome_iff.mp field?_isSome_iff.mp
            rw [hnone] at hmem
            exact absurd hmem List.not_mem_nil
          obtain ⟨depth, h⟩ := validAt_obj_iff.mp h
          refine validAt_obj_iff.mpr ⟨1, fun n hn rest => ?_⟩
          obtain ⟨m, rfl⟩ := Nat.exists_eq_add_of_le' hn
          exact assertions_sound ⟨hsupported, r.plain, hunions.1, hunions.2, hconst⟩ hproven
            (hclear.flat hequal hconst) (h (depth + 1) (by omega) rest)

end Compared

end CapabilityCompiler.Contracts
