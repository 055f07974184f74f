import CapabilityCompiler.Contracts.Resources
import CapabilityCompiler.Mcp.ReservedNames

/-! The argument names that an input schema declares or can require, at any depth. -/
namespace CapabilityCompiler.Mcp
open Foundation Foundation.Json Contracts

/-! The schemas of a document. -/

/-- The reference leads to the schema from resources around it. -/
def RefersTo (decode : String → String) (scope : ResourceScope) (fields : Fields) (part : Json) :
    Prop :=
  ∃ keyword ∈ referenceKeywords, ∃ reference found,
    field? keyword fields = some (.str reference) ∧
      target decode keyword scope reference = some (found, part)

/-- The schemas that the keywords of a document hold, and those that its references lead to. -/
inductive Subschema (decode : String → String) (root : Json) : Json → Prop where
  | root : Subschema decode root root
  | under {fields : Fields} {keyword : String} {value part : Json}
      (h : Subschema decode root (.obj fields)) (hvalue : field? keyword fields = some value)
      (hpart : part ∈ schemasUnder (positionOf keyword) value) : Subschema decode root part
  | target {fields : Fields} {scope : ResourceScope} {part : Json}
      (h : Subschema decode root (.obj fields))
      (hscope : ∀ resource ∈ scope, Subschema decode root resource)
      (hpart : RefersTo decode scope fields part) : Subschema decode root part

/-- What a schema of names asserts together with its own keywords. -/
inductive Combines (decode : String → String) (root : Json) (fields : Fields) (part : Json) :
    Prop where
  | branch {keyword : String} {items : List Json} (hkeyword : keyword ∈ ["allOf", "anyOf", "oneOf"])
      (hvalue : field? keyword fields = some (.arr items)) (hpart : part ∈ items)
  | consequent {keyword : String} (hkeyword : keyword ∈ ["then", "else"])
      (hvalue : field? keyword fields = some part)
  | target {scope : ResourceScope} (hscope : ∀ resource ∈ scope, Subschema decode root resource)
      (hpart : RefersTo decode scope fields part)

/-- The schemas that property names have to meet. -/
inductive NameSchema (decode : String → String) (root : Json) : Json → Prop where
  | own {fields : Fields} {constraint : Json} (h : Subschema decode root (.obj fields))
      (hvalue : field? "propertyNames" fields = some constraint) :
      NameSchema decode root constraint
  | combined {fields : Fields} {part : Json} (h : NameSchema decode root (.obj fields))
      (hpart : Combines decode root fields part) : NameSchema decode root part

/-! The names. -/

/-- A name that a schema of names gives itself. -/
inductive GivesName (host : NameHost) (constraint : Fields) (name : String) : Prop where
  | const (h : field? "const" constraint = some (.str name))
  | enum {items : List Json} (h : field? "enum" constraint = some (.arr items))
      (hname : .str name ∈ items)
  | pattern {pattern : String} (h : field? "pattern" constraint = some (.str pattern))
      (hsearch : host.search pattern name = true)

/-- Some argument makes this one required. -/
def RequiresWith (fields : Fields) (name : String) : Prop :=
  ∃ triggers trigger items, field? "dependentRequired" fields = some (.obj triggers) ∧
    (trigger, Json.arr items) ∈ triggers ∧ Json.str name ∈ items

/-- An argument name that the schema declares or can require. -/
inductive Declares (host : NameHost) (decode : String → String) (root : Json) (name : String) :
    Prop where
  | property {fields properties : Fields} (h : Subschema decode root (.obj fields))
      (hvalue : field? "properties" fields = some (.obj properties))
      (hname : name ∈ properties.map Prod.fst)
  | required {fields : Fields} {items : List Json} (h : Subschema decode root (.obj fields))
      (hvalue : field? "required" fields = some (.arr items)) (hname : .str name ∈ items)
  | dependent {fields : Fields} (h : Subschema decode root (.obj fields))
      (hname : RequiresWith fields name)
  | pattern {fields patterns : Fields} {pattern : String} (h : Subschema decode root (.obj fields))
      (hvalue : field? "patternProperties" fields = some (.obj patterns))
      (hpattern : pattern ∈ patterns.map Prod.fst) (hsearch : host.search pattern name = true)
  | constrained {constraint : Fields} (h : NameSchema decode root (.obj constraint))
      (hname : GivesName host constraint name)

/-- The keywords that the scan does not look at give no reserved name: `dependentRequired`, and what a
schema of names combines. -/
structure HidesNone (host : NameHost) (decode : String → String) (root : Json) : Prop where
  dependent : ∀ fields, Subschema decode root (.obj fields) → ∀ name, RequiresWith fields name →
    reservedArgumentName host name = none
  combined : ∀ fields part, NameSchema decode root (.obj fields) →
    Combines decode root fields (.obj part) → ∀ name, GivesName host part name →
      reservedArgumentName host name = none

/-! Every schema of a document is one of its values. -/

theorem mem_valuesIn_of_field? {fields : Fields} {keyword : String} {value : Json}
    (h : field? keyword fields = some value) : value ∈ valuesIn (.obj fields) :=
  mem_valuesIn_obj.mpr (.inr ⟨_, mem_of_field? h, mem_valuesIn_self _⟩)

theorem mem_valuesIn_of_schemasUnder {position : Position} {value part : Json}
    (h : part ∈ schemasUnder position value) : part ∈ valuesIn value := by
  cases position with
  | schema =>
    obtain rfl := List.mem_singleton.mp h
    exact mem_valuesIn_self _
  | schemas =>
    cases value with
    | arr items => exact mem_valuesIn_arr.mpr (.inr ⟨part, h, mem_valuesIn_self _⟩)
    | obj fields =>
      obtain ⟨field, hfield, rfl⟩ := List.mem_map.mp h
      exact mem_valuesIn_obj.mpr (.inr ⟨field, hfield, mem_valuesIn_self _⟩)
    | _ => exact absurd h List.not_mem_nil
  | other => exact absurd h (by cases value <;> exact List.not_mem_nil)

theorem mem_valuesIn_of_locate {tokens : List String} {position : Position}
    {scope found : ResourceScope} {value part : Json}
    (h : locate position scope value tokens = some (found, part)) : part ∈ valuesIn value := by
  induction tokens generalizing position scope value with
  | nil =>
    simp only [locate] at h
    split_ifs at h
    obtain ⟨-, rfl⟩ := Prod.mk.inj (Option.some.inj h)
    exact mem_valuesIn_self _
  | cons token rest ih =>
    cases value with
    | obj fields =>
      rw [locate, Option.bind_eq_some_iff] at h
      obtain ⟨inner, hinner, h⟩ := h
      exact valuesIn_trans (mem_valuesIn_of_field? hinner) (ih h)
    | arr items =>
      rw [locate, Option.bind_eq_some_iff] at h
      obtain ⟨n, -, h⟩ := h
      obtain ⟨inner, hinner, h⟩ := Option.bind_eq_some_iff.mp h
      exact mem_valuesIn_arr.mpr (.inr ⟨inner, List.mem_of_getElem? hinner, ih h⟩)
    | _ => exact absurd h (by simp [locate])

theorem membersFields_subset_of {fields : Fields}
    (h : ∀ field ∈ fields, ∀ position, membersAt position field.2 ⊆ valuesIn field.2)
    (position : Position) : membersFields position fields ⊆ valuesInFields fields := by
  induction fields with
  | nil => exact List.nil_subset _
  | cons field rest ih =>
    obtain ⟨key, value⟩ := field
    have hrest := ih fun other hother => h other (List.mem_cons_of_mem _ hother)
    rw [membersFields, valuesInFields]
    exact List.append_subset.mpr
      ⟨List.subset_append_of_subset_left _ (h _ List.mem_cons_self _),
        List.subset_append_of_subset_right _ hrest⟩

theorem membersItems_subset_of {items : List Json}
    (h : ∀ item ∈ items, membersAt .schema item ⊆ valuesIn item) :
    membersItems items ⊆ valuesInItems items := by
  induction items with
  | nil => exact List.nil_subset _
  | cons item rest ih =>
    have hrest := ih fun other hother => h other (List.mem_cons_of_mem _ hother)
    rw [membersItems, valuesInItems]
    exact List.append_subset.mpr
      ⟨List.subset_append_of_subset_left _ (h _ List.mem_cons_self),
        List.subset_append_of_subset_right _ hrest⟩

theorem membersAt_subset (value : Json) (position : Position) :
    membersAt position value ⊆ valuesIn value := by
  induction value generalizing position with
  | obj fields ih =>
    have hfields := membersFields_subset_of ih
    cases position with
    | schema =>
      rw [membersAt_schema, valuesIn]
      split_ifs
      · exact List.nil_subset _
      · exact List.cons_subset_cons _ (hfields _)
    | schemas =>
      rw [membersAt_fields, valuesIn]
      exact List.subset_cons_of_subset _ (hfields _)
    | other => exact List.nil_subset _
  | arr items ih =>
    cases position with
    | schemas =>
      rw [membersAt_items, valuesIn]
      exact List.subset_cons_of_subset _ (membersItems_subset_of fun item hitem => ih item hitem _)
    | _ => exact List.nil_subset _
  | _ => cases position <;> exact List.nil_subset _

theorem members_subset (document : Json) : members document ⊆ valuesIn document := by
  cases document with
  | obj fields =>
    have hfields : membersFields .schema fields ⊆ valuesInFields fields :=
      membersFields_subset_of (fun field _ position => membersAt_subset field.2 position) .schema
    rw [members, valuesIn]
    exact List.cons_subset_cons _ hfields
  | _ => exact List.nil_subset _

theorem mem_valuesIn_of_anchored {keywords : List String} {document part : Json} {name : String}
    (h : anchored keywords document name = some part) : part ∈ valuesIn document :=
  members_subset document (List.mem_of_find?_eq_some h)

theorem mem_valuesIn_of_outermost {scope : ResourceScope} {name : String} {document part : Json}
    (h : outermost scope name = some (document, part)) :
    ∃ resource ∈ scope, part ∈ valuesIn resource := by
  induction scope with
  | nil => exact absurd h (by simp [outermost])
  | cons first outer ih =>
    rw [outermost, Option.or_eq_some_iff] at h
    rcases h with h | ⟨-, h⟩
    · obtain ⟨resource, hresource, hpart⟩ := ih h
      exact ⟨resource, List.mem_cons_of_mem _ hresource, hpart⟩
    · obtain ⟨found, hfound, hpair⟩ := Option.map_eq_some_iff.mp h
      obtain ⟨-, rfl⟩ := Prod.mk.inj hpair
      exact ⟨first, List.mem_cons_self, mem_valuesIn_of_anchored hfound⟩

/-- A reference leads to a value of a resource around it. -/
theorem mem_valuesIn_of_target {decode : String → String} {keyword reference : String}
    {scope found : ResourceScope} {part : Json}
    (h : target decode keyword scope reference = some (found, part)) :
    ∃ resource ∈ scope, part ∈ valuesIn resource := by
  cases scope with
  | nil => exact absurd h (by simp [target])
  | cons document outer =>
    rw [target] at h
    split at h
    · exact absurd h (by simp)
    · obtain ⟨-, rfl⟩ := Prod.mk.inj (Option.some.inj h)
      exact ⟨document, List.mem_cons_self, mem_valuesIn_self _⟩
    · exact ⟨document, List.mem_cons_self, mem_valuesIn_of_locate h⟩
    · obtain ⟨schema, hschema, h⟩ := Option.bind_eq_some_iff.mp h
      split_ifs at h
      · obtain ⟨pair, hpair, hfound⟩ := Option.map_eq_some_iff.mp h
        obtain ⟨-, rfl⟩ := Prod.mk.inj hfound
        exact mem_valuesIn_of_outermost hpair
      · obtain ⟨-, rfl⟩ := Prod.mk.inj (Option.some.inj h)
        exact ⟨document, List.mem_cons_self, mem_valuesIn_of_anchored hschema⟩

theorem Subschema.mem_valuesIn {decode : String → String} {root part : Json}
    (h : Subschema decode root part) : part ∈ valuesIn root := by
  induction h with
  | root => exact mem_valuesIn_self _
  | under _ hvalue hpart ih =>
    have hunder := valuesIn_trans (mem_valuesIn_of_field? hvalue) (mem_valuesIn_of_schemasUnder hpart)
    exact valuesIn_trans ih hunder
  | target _ _ hpart _ ihscope =>
    obtain ⟨keyword, -, reference, found, -, htarget⟩ := hpart
    obtain ⟨resource, hresource, hmem⟩ := mem_valuesIn_of_target htarget
    exact valuesIn_trans (ihscope resource hresource) hmem

/-- Neither keyword that hides names stands anywhere in the document. -/
def plainNames (root : Json) : Bool :=
  (valuesIn root).all fun
    | .obj fields =>
      (field? "dependentRequired" fields).isNone && (field? "propertyNames" fields).isNone
    | _ => true

theorem hidesNone_of_plain {host : NameHost} {decode : String → String} {root : Json}
    (h : plainNames root = true) : HidesNone host decode root := by
  have hplain : ∀ fields, Subschema decode root (.obj fields) →
      field? "dependentRequired" fields = none ∧ field? "propertyNames" fields = none := by
    intro fields hsub
    simpa using List.all_eq_true.mp h (.obj fields) hsub.mem_valuesIn
  have hnone : ∀ constraint, ¬ NameSchema decode root constraint := by
    intro constraint hname
    induction hname with
    | own hsub hvalue => simp [(hplain _ hsub).2] at hvalue
    | combined _ _ ih => exact ih
  refine { dependent := ?_, combined := ?_ }
  · rintro fields hsub name ⟨triggers, trigger, items, hvalue, -⟩
    simp [(hplain fields hsub).1] at hvalue
  · exact fun fields part hname => absurd hname (hnone _)

/-! Accepted schemas. -/

theorem objectFound_of_accepted {host : NameHost} {decode : String → String}
    {schema fields : Fields} (haccepted : reservedSchemaPropertyNames host schema = [])
    (h : Subschema decode (.obj schema) (.obj fields)) : objectFound host fields = [] := by
  rw [reservedSchemaPropertyNames, sortedSet_eq_nil, List.flatMap_eq_nil_iff] at haccepted
  exact haccepted (.obj fields) h.mem_valuesIn

/-- What the scan of one object rules out. -/
structure ObjectPasses (host : NameHost) (fields : Fields) : Prop where
  properties : ∀ properties name, field? "properties" fields = some (.obj properties) →
    name ∈ properties.map Prod.fst → reservedArgumentName host name = none
  required : ∀ items name, field? "required" fields = some (.arr items) → Json.str name ∈ items →
    reservedArgumentName host name = none
  patterns : ∀ patterns pattern, field? "patternProperties" fields = some (.obj patterns) →
    pattern ∈ patterns.map Prod.fst → patternIsProvablySafe host pattern = true
  constraint : ∀ constraint, field? "propertyNames" fields = some (.obj constraint) →
    propertyNamesFound host constraint = []

theorem objectPasses_of_found {host : NameHost} {fields : Fields} (h : objectFound host fields = []) :
    ObjectPasses host fields := by
  simp only [objectFound, List.append_eq_nil_iff] at h
  obtain ⟨⟨⟨hproperties, hrequired⟩, hpatterns⟩, hnames⟩ := h
  refine { properties := ?_, required := ?_, patterns := ?_, constraint := ?_ }
  · intro properties name hvalue hname
    rw [hvalue] at hproperties
    exact reservedAmong_eq_nil.mp hproperties name hname
  · intro items name hvalue hname
    rw [hvalue] at hrequired
    obtain ⟨others, hitems, hall⟩ := sequenceFound_eq_nil hrequired
    obtain rfl := Json.arr.inj hitems
    exact hall name hname
  · intro patterns pattern hvalue hpattern
    rw [hvalue] at hpatterns
    exact patternsFound_eq_nil.mp hpatterns pattern hpattern
  · intro constraint hvalue
    rw [hvalue] at hnames
    exact hnames

theorem reservedArgumentName_of_givesName {host : NameHost} {constraint : Fields} {name : String}
    (h : propertyNamesFound host constraint = []) (hname : GivesName host constraint name) :
    reservedArgumentName host name = none := by
  simp only [propertyNamesFound, List.append_eq_nil_iff] at h
  obtain ⟨⟨hconst, henum⟩, hpattern⟩ := h
  cases hname with
  | const hvalue =>
    rw [hvalue] at hconst
    exact reservedAmong_eq_nil.mp hconst name (List.mem_singleton_self _)
  | enum hvalue hmem =>
    rw [hvalue] at henum
    obtain ⟨others, hitems, hall⟩ := sequenceFound_eq_nil henum
    obtain rfl := Json.arr.inj hitems
    exact hall name hmem
  | @pattern pattern hvalue hsearch =>
    rw [hvalue] at hpattern
    have hsafe := patternsFound_eq_nil.mp hpattern pattern (List.mem_singleton_self _)
    exact reservedArgumentName_of_search hsafe hsearch

/-- An accepted schema declares no reserved name just when the keywords that are not looked at give
none. -/
theorem declares_iff {host : NameHost} {decode : String → String} {schema : Fields}
    (haccepted : reservedSchemaPropertyNames host schema = []) :
    (∀ name, Declares host decode (.obj schema) name → reservedArgumentName host name = none) ↔
      HidesNone host decode (.obj schema) := by
  have hpasses : ∀ fields, Subschema decode (.obj schema) (.obj fields) →
      ObjectPasses host fields :=
    fun fields h => objectPasses_of_found (objectFound_of_accepted haccepted h)
  constructor
  · intro hall
    exact
      { dependent := fun fields h name hname => hall name (.dependent h hname)
        combined := fun fields part h hpart name hname =>
          hall name (.constrained (.combined h hpart) hname) }
  · intro hnone name hname
    cases hname with
    | @property fields properties h hvalue hname => exact (hpasses fields h).properties _ _ hvalue hname
    | @required fields items h hvalue hname => exact (hpasses fields h).required _ _ hvalue hname
    | @dependent fields h hname => exact hnone.dependent fields h name hname
    | @pattern fields patterns pattern h hvalue hpattern hsearch =>
      have hsafe := (hpasses fields h).patterns _ _ hvalue hpattern
      exact reservedArgumentName_of_search hsafe hsearch
    | @constrained constraint h hname =>
      cases h with
      | @own fields _ h hvalue =>
        exact reservedArgumentName_of_givesName ((hpasses fields h).constraint _ hvalue) hname
      | @combined fields _ h hpart => exact hnone.combined fields constraint h hpart name hname

end CapabilityCompiler.Mcp
