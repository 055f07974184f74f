import CapabilityCompiler.Contracts.FrozenSoundness
import CapabilityCompiler.Compiler.SchemaPointers

/-! Walking a schema and a valid instance in step, along the tokens of a pointer. The reading of an
array index is a parameter. -/
namespace CapabilityCompiler.Compiler
open Foundation Foundation.Json Contracts

/-- The value at the tokens, where indices are read by `index?`. -/
def valueAt (index? : String → Option ℕ) : Json → List String → Option Json
  | value, [] => some value
  | .obj fields, token :: rest => (field? token fields).bind fun value => valueAt index? value rest
  | .arr items, token :: rest =>
    (index? token).bind fun index => items[index]?.bind fun value => valueAt index? value rest
  | _, _ :: _ => none

/-- The schema that the tokens of a local reference spell. -/
def spelled (root : Fields) (reference : String) : Option Json :=
  lookupTokens (.obj root) (pointerTokens (String.ofList (reference.toList.drop 1)))

section Relations
variable (index? : String → Option ℕ) (root : Fields)

/-- The walk along the tokens ends at these fields, and every step of it is to a property that is
required or an item below the least length. -/
inductive SchemaWalk : Json → List String → Fields → Prop where
  | done {fields : Fields} : field? "$ref" fields = none → SchemaWalk (.obj fields) [] fields
  | reference {fields : Fields} {reference : String} {schema : Json} {tokens : List String}
      {out : Fields} : field? "$ref" fields = some (.str reference) →
      spelled root reference = some schema → SchemaWalk schema tokens out →
      SchemaWalk (.obj fields) tokens out
  | item {fields : Fields} {token : String} {index : ℕ} {minimum : ℤ} {items : Json}
      {rest : List String} {out : Fields} : field? "$ref" fields = none →
      field? "type" fields = some (.str "array") → index? token = some index →
      field? "minItems" fields = some (.int minimum) → (index : ℤ) < minimum →
      field? "items" fields = some items → SchemaWalk items rest out →
      SchemaWalk (.obj fields) (token :: rest) out
  | property {fields : Fields} {token : String} {required : List Json} {properties : Fields}
      {property : Json} {rest : List String} {out : Fields} : field? "$ref" fields = none →
      field? "type" fields ≠ some (.str "array") →
      field? "required" fields = some (.arr required) → .str token ∈ required →
      field? "properties" fields = some (.obj properties) →
      field? token properties = some property → SchemaWalk property rest out →
      SchemaWalk (.obj fields) (token :: rest) out

/-- The walk along the tokens meets these fields while these tokens are still to come. -/
inductive Meets : Json → List String → Fields → List String → Prop where
  | here {fields : Fields} {tokens : List String} : Meets (.obj fields) tokens fields tokens
  | reference {fields : Fields} {reference : String} {schema : Json} {tokens : List String}
      {met : Fields} {rest : List String} : field? "$ref" fields = some (.str reference) →
      spelled root reference = some schema → Meets schema tokens met rest →
      Meets (.obj fields) tokens met rest
  | item {fields : Fields} {token : String} {items : Json} {tokens : List String} {met : Fields}
      {rest : List String} : field? "$ref" fields = none →
      field? "type" fields = some (.str "array") → field? "items" fields = some items →
      Meets items tokens met rest → Meets (.obj fields) (token :: tokens) met rest
  | property {fields : Fields} {token : String} {properties : Fields} {property : Json}
      {tokens : List String} {met : Fields} {rest : List String} : field? "$ref" fields = none →
      field? "type" fields ≠ some (.str "array") →
      field? "properties" fields = some (.obj properties) →
      field? token properties = some property → Meets property tokens met rest →
      Meets (.obj fields) (token :: tokens) met rest

end Relations

/-- What the walk relies on at the fields it meets: they belong to the resource of the root, their
reference resolves to what its tokens spell, what goes on to a property admits nothing but objects
with the required names, and an item has no schema of its own position. -/
structure Reliable (V : Vocabulary) (decode : String → String) (index? : String → Option ℕ)
    (root fields : Fields) (tokens : List String) : Prop where
  home : opensResource (.obj fields) = true → fields = root
  reference : ∀ reference schema, field? "$ref" fields = some (.str reference) →
    spelled root reference = some schema →
    target decode "$ref" (enter [.obj root] (.obj fields)) reference =
      some (enter [.obj root] (.obj fields), schema)
  objects : tokens ≠ [] → field? "$ref" fields = none →
    field? "type" fields ≠ some (.str "array") →
    ∀ i, ValidAt V decode [.obj root] (.obj fields) i → ∃ members, i = .obj members
  names : ∀ required, field? "required" fields = some (.arr required) →
    (stringList? required).isSome = true
  positions : ∀ token rest index positions, tokens = token :: rest → index? token = some index →
    field? "prefixItems" fields = some (.arr positions) → positions.length ≤ index

section Soundness
variable {V : Vocabulary} {decode : String → String} {index? : String → Option ℕ}
  {root fields : Fields} {schema i : Json} {tokens : List String}

/-- A resource that is entered again means what it meant. -/
theorem unroll_again (decode : String → String) (rest : Json) (depth : ℕ) (document schema : Json)
    (outer : ResourceScope) :
    unroll decode rest depth (document :: document :: outer) schema =
      unroll decode rest depth (document :: outer) schema := by
  have hconfigured : Configured SilentPair (document :: document :: outer) schema
      (document :: outer) schema := by
    refine ⟨document, _, document, _, rfl, rfl, silent_pairing.refl _ _, fun name => ?_⟩
    rw [outermost_cons_of_mem List.mem_cons_self]
    cases outermost (document :: outer) name with
    | none => exact .none
    | some found => exact .some (silent_pairing.refl _ _)
  exact (silent_pairing.simulation decode).unroll_eq rest depth (hconfigured.enter silent_pairing)

/-- Fields of the resource of the root do not change the scope. -/
theorem validAt_home (h : ValidAt V decode (enter [.obj root] (.obj fields)) schema i)
    (hhome : opensResource (.obj fields) = true → fields = root) :
    ValidAt V decode [.obj root] schema i := by
  unfold enter at h
  split at h
  · rename_i hopens
    obtain rfl := hhome hopens
    obtain ⟨depth, h⟩ := h
    refine ⟨depth, fun n hn rest => ?_⟩
    rw [← unroll_again]
    exact h n hn rest
  · exact h

theorem exists_item {minimum : ℤ} {index : ℕ}
    (h : ValidAt V decode [.obj root] (.obj fields) i)
    (htype : field? "type" fields = some (.str "array"))
    (hminimum : field? "minItems" fields = some (.int minimum)) (hindex : (index : ℤ) < minimum) :
    ∃ items x, i = .arr items ∧ items[index]? = some x := by
  have harray : hasType i "array" = true := h.leaf (by decide) htype
  have hlength := h.leaf (by decide) hminimum
  cases i with
  | arr items =>
    have hle : minimum ≤ items.length := by
      have hcast : (minimum : ℚ) ≤ (items.length : ℚ) := by
        simpa [leafHolds, boundHolds, measured?, withinBound, num?] using hlength
      exact_mod_cast hcast
    have hlt : index < items.length := by omega
    exact ⟨items, items[index], rfl, List.getElem?_eq_getElem hlt⟩
  | _ => simp [hasType] at harray

theorem exists_property {required : List Json} {token : String}
    {members : Fields} (h : ValidAt V decode [.obj root] (.obj fields) (.obj members))
    (hrequired : field? "required" fields = some (.arr required))
    (hnames : (stringList? required).isSome = true) (hmem : .str token ∈ required) :
    ∃ x, field? token members = some x := by
  have hholds := h.leaf (by decide) hrequired
  obtain ⟨names, hstrings⟩ := Option.isSome_iff_exists.mp hnames
  have hall : ∀ name ∈ names, (field? name members).isSome = true := by
    simpa [leafHolds, requiredHolds, hstrings] using hholds
  exact Option.isSome_iff_exists.mp (hall token (mem_of_stringList? hstrings hmem))

/-- A declared type of its own is enough to admit nothing but objects. -/
theorem objects_of_type (htype : field? "type" fields = some (.str "object"))
    (h : ValidAt V decode [.obj root] (.obj fields) i) : ∃ members, i = .obj members := by
  have hobject : hasType i "object" = true := h.leaf (by decide) htype
  cases i with
  | obj members => exact ⟨members, rfl⟩
  | _ => simp [hasType] at hobject

/-- A typed schema of the resource, without a reference of its own, is reliable. -/
theorem reliable_of_plain
    (hhome : opensResource (.obj fields) = false) (hplain : field? "$ref" fields = none)
    (htyped : tokens = [] ∨ field? "type" fields = some (.str "object"))
    (hnames : ∀ required, field? "required" fields = some (.arr required) →
      (stringList? required).isSome = true)
    (hpositions : field? "prefixItems" fields = none) :
    Reliable V decode index? root fields tokens where
  home := fun h => absurd h (by rw [hhome]; exact Bool.false_ne_true)
  reference := fun _ _ h => absurd h (by simp [hplain])
  objects := fun hsome _ _ _ hi => objects_of_type (htyped.resolve_left hsome) hi
  names := hnames
  positions := fun _ _ _ _ _ _ h => absurd h (by simp [hpositions])

/-- Along a walk that meets nothing unreliable, every valid instance has a value, and it is valid
where the walk ends. -/
theorem SchemaWalk.sound {out : Fields} (hwalk : SchemaWalk index? root schema tokens out)
    (hreliable : ∀ met rest, Meets root schema tokens met rest →
      Reliable V decode index? root met rest)
    (h : ValidAt V decode [.obj root] schema i) :
    ∃ x, valueAt index? i tokens = some x ∧ ValidAt V decode [.obj root] (.obj out) x := by
  induction hwalk generalizing i with
  | done _ => exact ⟨i, by cases i <;> rfl, h⟩
  | reference href hspelled _ ih =>
    have hhere := hreliable _ _ .here
    refine ih (fun met rest hmet => hreliable met rest (.reference href hspelled hmet)) ?_
    exact validAt_home (h.reference href (hhere.reference _ _ href hspelled)) hhere.home
  | @item fields token index minimum items rest out hplain htype hindex hminimum hlt hitems _ ih =>
    have hhere := hreliable _ _ .here
    obtain ⟨values, x, rfl, hx⟩ := exists_item h htype hminimum hlt
    have hitem : ValidAt V decode (enter [.obj root] (.obj fields)) items x := by
      refine h.item hitems (fun positions hpositions => ?_) (List.mem_of_getElem? hx)
      have hle := hhere.positions token rest index positions rfl hindex hpositions
      exact List.mem_of_getElem? (i := index - positions.length) (by
        rw [List.getElem?_drop, Nat.add_sub_cancel' hle, hx])
    obtain ⟨v, hv, hvalid⟩ :=
      ih (fun met rest hmet => hreliable met rest (.item hplain htype hitems hmet))
        (validAt_home hitem hhere.home)
    exact ⟨v, by simp only [valueAt, hindex, hx, Option.bind_some, hv], hvalid⟩
  | @property fields token required properties property rest out hplain htype hrequired hmem
      hproperties hproperty _ ih =>
    have hhere := hreliable _ _ .here
    obtain ⟨members, rfl⟩ := hhere.objects (List.cons_ne_nil _ _) hplain htype i h
    obtain ⟨x, hx⟩ := exists_property h hrequired (hhere.names required hrequired) hmem
    obtain ⟨v, hv, hvalid⟩ :=
      ih (fun met rest hmet => hreliable met rest (.property hplain htype hproperties hproperty hmet))
        (validAt_home (h.property hproperties hproperty hx) hhere.home)
    exact ⟨v, by simp only [valueAt, hx, Option.bind_some, hv], hvalid⟩

end Soundness

end CapabilityCompiler.Compiler
