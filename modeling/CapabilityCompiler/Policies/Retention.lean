import CapabilityCompiler.Compiler.SchemaWalks
import CapabilityCompiler.Foundation.JsonPatch
import CapabilityCompiler.Policies.Refiltering

/-! Which positions of a value are still there when it has been filtered. -/
namespace CapabilityCompiler.Policies
open Foundation Compiler

/-- One step down a value. The last one is to a property of every item of an array. -/
inductive Descent where
  | item (index : ℕ)
  | property (name : String)
  | itemProperty (name : String)
deriving DecidableEq

/-- The names on the way; array positions have none. -/
def names : List Descent → FieldPath
  | [] => []
  | .item _ :: rest => names rest
  | .property name :: rest => name :: names rest
  | .itemProperty name :: rest => name :: names rest

/-- The field paths of the containers on the way. -/
def entered (path : FieldPath) : List Descent → List FieldPath
  | [] => []
  | .item _ :: rest => path :: entered path rest
  | .property name :: rest => path :: entered (path ++ [name]) rest
  | .itemProperty name :: rest => path :: entered (path ++ [name]) rest

/-- The descents lead to this position of the value. -/
inductive Arrives : List Descent → Json → List String → Prop where
  | here {v : Json} : Arrives [] v []
  | item {index : ℕ} {items : List Json} {item : Json} {rest : List Descent}
      {position : List String} : items[index]? = some item → Arrives rest item position →
      Arrives (.item index :: rest) (.arr items) (toString index :: position)
  | property {name : String} {fields : Fields} {child : Json} {rest : List Descent}
      {position : List String} : Json.field? name fields = some child →
      Arrives rest child position →
      Arrives (.property name :: rest) (.obj fields) (name :: position)
  | itemProperty {name : String} {index : ℕ} {items : List Json} {fields : Fields} {child : Json}
      {rest : List Descent} {position : List String} : items[index]? = some (.obj fields) →
      Json.field? name fields = some child → Arrives rest child position →
      Arrives (.itemProperty name :: rest) (.arr items) (toString index :: name :: position)

/-- The value at a position, whose array indices are spelled as JSON Pointers spell them. -/
def atPosition (value : Json) (position : List String) : Option Json :=
  valueAt JsonPointer.index? value position

/-- The filter removes a value at this path, whatever it is. -/
def Rules.Removes (rules : Rules) (path : FieldPath) : Prop :=
  hasAncestor path rules.denied = true ∨ (path ≠ [] ∧ isReadable path rules.readable = false) ∨
    rules.redaction? path = some .remove

/-- The rules leave the end of the way in its place: it is neither denied nor unreadable, no container
on the way is redacted, and the end itself is not removed. -/
structure Rules.Spares (rules : Rules) (way : List Descent) : Prop where
  kept : hasAncestor (names way) rules.denied = false
  readable : names way = [] ∨ isReadable (names way) rules.readable = true
  unredacted : ∀ path ∈ entered [] way, rules.redaction? path = none
  remains : rules.redaction? (names way) ≠ some .remove

theorem entered_names {path r : FieldPath} {way : List Descent} (h : r ∈ entered path way) :
    path <+: r ∧ r <+: path ++ names way := by
  induction way generalizing path with
  | nil => exact absurd h List.not_mem_nil
  | cons descent rest ih =>
    cases descent with
    | item index =>
      rcases List.mem_cons.mp h with rfl | hrest
      · exact ⟨List.prefix_rfl, List.prefix_append r _⟩
      · exact ih hrest
    | property name =>
      rcases List.mem_cons.mp h with rfl | hrest
      · exact ⟨List.prefix_rfl, List.prefix_append r _⟩
      · obtain ⟨hfrom, hto⟩ := ih hrest
        refine ⟨(List.prefix_append path [name]).trans hfrom, ?_⟩
        simpa [names] using hto
    | itemProperty name =>
      rcases List.mem_cons.mp h with rfl | hrest
      · exact ⟨List.prefix_rfl, List.prefix_append r _⟩
      · obtain ⟨hfrom, hto⟩ := ih hrest
        refine ⟨(List.prefix_append path [name]).trans hfrom, ?_⟩
        simpa [names] using hto

theorem isReadable_anti {r q : FieldPath} {readable : List FieldPath} (hrq : r <+: q)
    (h : isReadable q readable = true) : isReadable r readable = true := by
  rcases isReadable_iff.mp h with hunder | ⟨rule, hmem, habove⟩
  · obtain ⟨rule, hmem, hrule⟩ := hasAncestor_iff.mp hunder
    rcases List.prefix_or_prefix_of_prefix hrule hrq with hshort | hlong
    · exact isReadable_iff.mpr (.inl (hasAncestor_iff.mpr ⟨rule, hmem, hshort⟩))
    · exact isReadable_iff.mpr (.inr ⟨rule, hmem, hlong⟩)
  · exact isReadable_iff.mpr (.inr ⟨rule, hmem, hrq.trans habove⟩)

/-- The containers on the way are entered just when they are not redacted. -/
theorem Rules.spares_iff {rules : Rules} {way : List Descent} :
    rules.Spares way ↔
      (∀ path ∈ entered [] way, rules.Passes path) ∧ ¬ rules.Removes (names way) := by
  constructor
  · intro h
    refine ⟨fun path hpath => ?_, ?_⟩
    · have hto : path <+: names way := (entered_names hpath).2
      refine ⟨not_hasAncestor_anti hto h.kept, ?_, h.unredacted path hpath⟩
      rcases h.readable with hroot | hreadable
      · rw [hroot] at hto
        exact .inl (List.prefix_nil.mp hto)
      · exact .inr (isReadable_anti hto hreadable)
    · rintro (hdenied | ⟨hne, hhidden⟩ | hremove)
      · rw [h.kept] at hdenied
        exact absurd hdenied (by simp)
      · rcases h.readable with hroot | hreadable
        · exact hne hroot
        · rw [hhidden] at hreadable
          exact absurd hreadable (by simp)
      · exact h.remains hremove
  · rintro ⟨hpasses, hnot⟩
    refine ⟨?_, ?_, fun path hpath => (hpasses path hpath).unredacted, ?_⟩
    · rw [Bool.eq_false_iff]
      exact fun hdenied => hnot (.inl hdenied)
    · by_contra hhidden
      rw [not_or, Bool.not_eq_true] at hhidden
      exact hnot (.inr (.inl hhidden))
    · exact fun hremove => hnot (.inr (.inr hremove))

section Node
variable (digest : Digest) {rules : Rules} {path : FieldPath}

theorem filterNode_eq_none_iff_removes {v : Json} :
    filterNode digest rules path v = none ↔ rules.Removes path := by
  unfold Rules.Removes
  by_cases hdenied : hasAncestor path rules.denied = true
  · simp [filterNode_of_denied digest hdenied, hdenied]
  by_cases hread : path ≠ [] ∧ isReadable path rules.readable = false
  · have hhidden : ¬ isReadable path rules.readable = true := by simp [hread.2]
    exact iff_of_true (filterNode_of_not_readable digest hread.1 hhidden v) (.inr (.inl hread))
  have hshown : ¬ (path ≠ [] ∧ ¬ isReadable path rules.readable = true) := by simpa using hread
  unfold filterNode
  rw [if_neg hdenied, if_neg hshown]
  simp only [hdenied, hread, false_or, Bool.false_eq_true]
  cases hrule : rules.redaction? path with
  | none => cases v <;> simp
  | some strategy => cases strategy <;> simp

variable (rules path)

/-- The filtered value still has something at the position. -/
def Retains (v : Json) (position : List String) : Prop :=
  ∃ out, filterNode digest rules path v = some out ∧ (atPosition out position).isSome = true

variable {rules path}

theorem retains_nil {v : Json} : Retains digest rules path v [] ↔ ¬ rules.Removes path := by
  rw [← @filterNode_eq_none_iff_removes digest rules path v]
  constructor
  · rintro ⟨out, hout, -⟩ hnone
    rw [hnone] at hout
    exact absurd hout (by simp)
  · intro h
    obtain ⟨out, hout⟩ := Option.ne_none_iff_exists'.mp h
    exact ⟨out, hout, by cases out <;> rfl⟩

/-- Below a value that is not entered there is nothing. -/
theorem not_retains {v : Json} {token : String} {rest : List String} (h : ¬ rules.Passes path) :
    ¬ Retains digest rules path v (token :: rest) := by
  rintro ⟨out, hout, hsome⟩
  rcases filterNode_of_not_passes digest h v with hnone | ⟨-, text, htext⟩
  · rw [hnone] at hout
    exact absurd hout (by simp)
  · obtain rfl := Option.some.inj (htext.symm.trans hout)
    exact absurd hsome (by simp [atPosition, valueAt])

theorem retains_property {name : String} {fields : Fields} {child : Json} {rest : List String}
    (h : rules.Passes path) (hchild : Json.field? name fields = some child) :
    Retains digest rules path (.obj fields) (name :: rest) ↔
      Retains digest rules (path ++ [name]) child rest := by
  have hfield : Json.field? name (Printer.sortKeys (filterFields digest rules path fields)) =
      filterNode digest rules (path ++ [name]) child := by
    rw [Json.field?_sortKeys, field?_filterFields, hchild, Option.bind_some]
  simp only [Retains, filterNode_obj digest h, Option.some.injEq, exists_eq_left', atPosition,
    valueAt, hfield]
  cases filterNode digest rules (path ++ [name]) child <;> simp

theorem retains_item {index : ℕ} {items : List Json} {item : Json} {rest : List String}
    (h : rules.Passes path) (hitem : items[index]? = some item) :
    Retains digest rules path (.arr items) (toString index :: rest) ↔
      Retains digest rules path item rest := by
  obtain ⟨w, hw⟩ : ∃ w, filterNode digest rules path item = some w := by
    rw [filterNode_of_passes digest h]
    cases item <;> exact ⟨_, rfl⟩
  have hfound := filterItems_getElem? digest hitem hw
  simp only [Retains, filterNode_arr digest h, Option.some.injEq, exists_eq_left', atPosition,
    valueAt, JsonPointer.index?_repr, Option.bind_some, hfound, hw]

/-- The values the filter keeps are those at the end of a way whose containers it all enters. -/
theorem retains_iff {way : List Descent} {v : Json} {position : List String}
    (h : Arrives way v position) :
    Retains digest rules path v position ↔
      (∀ r ∈ entered path way, rules.Passes r) ∧ ¬ rules.Removes (path ++ names way) := by
  induction h generalizing path with
  | here => simp [retains_nil, entered, names]
  | item hitem _ ih =>
    by_cases hpass : rules.Passes path
    · rw [retains_item digest hpass hitem, ih]
      simp [entered, names, hpass]
    · refine iff_of_false (not_retains digest hpass) fun hall => hpass ?_
      exact hall.1 path List.mem_cons_self
  | property hchild _ ih =>
    by_cases hpass : rules.Passes path
    · rw [retains_property digest hpass hchild, ih]
      simp [entered, names, hpass]
    · refine iff_of_false (not_retains digest hpass) fun hall => hpass ?_
      exact hall.1 path List.mem_cons_self
  | itemProperty hitem hchild _ ih =>
    by_cases hpass : rules.Passes path
    · rw [retains_item digest hpass hitem, retains_property digest hpass hchild, ih]
      simp [entered, names, hpass]
    · refine iff_of_false (not_retains digest hpass) fun hall => hpass ?_
      exact hall.1 path List.mem_cons_self

end Node

theorem Arrives.ne_nil {way : List Descent} {v : Json} {position : List String}
    (h : Arrives way v position) (hway : way ≠ []) : position ≠ [] := by
  cases h with
  | here => exact absurd rfl hway
  | item => exact List.cons_ne_nil _ _
  | property => exact List.cons_ne_nil _ _
  | itemProperty => exact List.cons_ne_nil _ _

/-- A filtered output keeps what stands below its root just when the rules spare the way there. -/
theorem atPosition_filterOutput (digest : Digest) (policy : Policy) {way : List Descent}
    {v : Json} {position : List String} (h : Arrives way v position) (hway : way ≠ []) :
    (atPosition (filterOutput digest policy v) position).isSome = true ↔
      policy.rules.Spares way := by
  have hretains : (atPosition (filterOutput digest policy v) position).isSome = true ↔
      Retains digest policy.rules [] v position := by
    unfold filterOutput Retains
    cases filterNode digest policy.rules [] v with
    | some out => simp
    | none =>
      -- The object in the place of a removed root is empty.
      obtain ⟨token, rest, rfl⟩ := List.exists_cons_of_ne_nil (h.ne_nil hway)
      simp [atPosition, valueAt]
  rw [hretains, retains_iff digest h, Rules.spares_iff, List.nil_append]

end CapabilityCompiler.Policies
