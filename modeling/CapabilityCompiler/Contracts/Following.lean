import CapabilityCompiler.Contracts.Assertions
import CapabilityCompiler.Contracts.Unrolling

/-! What the validity of a schema object says about its parts, while references are followed. -/
namespace CapabilityCompiler.Contracts
open Foundation Foundation.Json

/-- The fields of an unrolled schema object. -/
def unrollFields (decode : String → String) (rest : Json) (depth : ℕ) (scope : ResourceScope)
    (fields : Fields) : Fields :=
  (kept fields).map fun f =>
    (f.1, unrollKeyword decode rest (unroll decode rest depth) (enter scope (.obj fields)) f.1 f.2)

/-- The instance is valid under a schema that stands in this scope. -/
def ValidAt (V : Vocabulary) (decode : String → String) (scope : ResourceScope) (schema i : Json) :
    Prop :=
  ∃ depth, ∀ n, depth ≤ n → ∀ rest, valid V (unroll decode rest n scope schema) i = true

theorem validIn_iff {V : Vocabulary} {decode : String → String} {document i : Json} :
    ValidIn V decode document i ↔ ValidAt V decode [document] document i := Iff.rfl

section Fields
variable {decode : String → String} {rest : Json} {depth : ℕ} {scope : ResourceScope}
  {fields : Fields}

theorem unroll_obj (decode : String → String) (rest : Json) (depth : ℕ) (scope : ResourceScope)
    (fields : Fields) : unroll decode rest (depth + 1) scope (.obj fields) =
      .obj (unrollFields decode rest depth scope fields) := rfl

theorem field?_map (f : String → Json → Json) (key : String) (fields : Fields) :
    field? key (fields.map fun p => (p.1, f p.1 p.2)) = (field? key fields).map (f key) := by
  induction fields with
  | nil => rfl
  | cons p rest ih =>
    obtain ⟨k, v⟩ := p
    rw [List.map_cons, field?_cons, field?_cons, ih]
    split
    · rename_i hkey
      rw [hkey]
      rfl
    · rfl

theorem field?_kept {key : String} (h : key ∉ namingKeywords) :
    field? key (kept fields) = field? key fields := by
  unfold kept
  induction fields with
  | nil => rfl
  | cons p rest ih =>
    obtain ⟨k, v⟩ := p
    by_cases hkey : k = key
    · subst hkey
      rw [List.filter_cons_of_pos (by simpa using h), field?_cons, field?_cons, if_pos rfl,
        if_pos rfl]
    · by_cases hk : k ∈ namingKeywords
      · rw [List.filter_cons_of_neg (by simpa using hk), field?_cons, if_neg hkey, ih]
      · rw [List.filter_cons_of_pos (by simpa using hk), field?_cons, field?_cons, if_neg hkey,
          if_neg hkey, ih]

theorem field?_kept_naming {key : String} (h : key ∈ namingKeywords) :
    field? key (kept fields) = none := by
  rw [field?_eq_none_iff]
  rintro hmem
  obtain ⟨p, hp, rfl⟩ := List.mem_map.mp hmem
  have hfresh := (List.mem_filter.mp hp).2
  rw [decide_eq_true_eq] at hfresh
  exact hfresh h

/-- An unrolled field is the field of the schema with its references followed. -/
theorem field?_unrollFields {key : String} (h : key ∉ namingKeywords) :
    field? key (unrollFields decode rest depth scope fields) = (field? key fields).map
      (unrollKeyword decode rest (unroll decode rest depth) (enter scope (.obj fields)) key) := by
  rw [unrollFields, field?_map, field?_kept h]

theorem hasKey_of_unrollFields {key : String} {v : Json}
    (h : field? key (unrollFields decode rest depth scope fields) = some v) :
    ∃ w, field? key fields = some w ∧ v =
      unrollKeyword decode rest (unroll decode rest depth) (enter scope (.obj fields)) key w := by
  by_cases hkey : key ∈ namingKeywords
  · rw [unrollFields, field?_map, field?_kept_naming hkey] at h
    exact absurd h (by simp)
  · rw [field?_unrollFields hkey] at h
    obtain ⟨w, hw, rfl⟩ := Option.map_eq_some_iff.mp h
    exact ⟨w, hw, rfl⟩

/-- A keyword without schemas keeps its value. -/
theorem unrollKeyword_leaf {follow : ResourceScope → Json → Json} {key : String} {value : Json}
    (hreference : key ∉ referenceKeywords) (hposition : positionOf key = .other) :
    unrollKeyword decode rest follow scope key value = value := by
  unfold unrollKeyword
  rw [if_neg hreference]
  simp only [hposition]

end Fields

section Steps
variable {V : Vocabulary} {decode : String → String} {scope : ResourceScope} {fields : Fields}
  {schema i : Json}

theorem validAt_obj_iff : ValidAt V decode scope (.obj fields) i ↔
    ∃ depth, ∀ n, depth ≤ n → ∀ rest,
      valid V (.obj (unrollFields decode rest n scope fields)) i = true := by
  constructor
  · rintro ⟨depth, h⟩
    exact ⟨depth, fun n hn rest => h (n + 1) (by omega) rest⟩
  · rintro ⟨depth, h⟩
    refine ⟨depth + 1, fun n hn rest => ?_⟩
    obtain ⟨m, rfl⟩ := Nat.exists_eq_add_of_le' hn
    exact h (m + depth) (by omega) rest

/-- What holds of the unrolled schema at some depth holds of the schema. -/
theorem ValidAt.apply {schema' : Json} {scope' : ResourceScope} {i' : Json}
    (h : ValidAt V decode scope (.obj fields) i)
    (hstep : ∀ n rest, valid V (.obj (unrollFields decode rest n scope fields)) i = true →
      valid V (unroll decode rest n scope' schema') i' = true) :
    ValidAt V decode scope' schema' i' := by
  obtain ⟨depth, h⟩ := validAt_obj_iff.mp h
  exact ⟨depth, fun n hn rest => hstep n rest (h n hn rest)⟩

theorem ValidAt.reference {reference : String} {found : ResourceScope × Json}
    (h : ValidAt V decode scope (.obj fields) i)
    (hreference : field? "$ref" fields = some (.str reference))
    (htarget : target decode "$ref" (enter scope (.obj fields)) reference = some found) :
    ValidAt V decode found.1 found.2 i := by
  refine h.apply fun n rest hvalid => ?_
  have hfield : field? "$ref" (unrollFields decode rest n scope fields) =
      some (unroll decode rest n found.1 found.2) := by
    rw [field?_unrollFields (by decide), hreference, Option.map_some, unrollKeyword,
      if_pos (by decide)]
    simp only [htarget]
  exact keywordHolds_of_valid hvalid hfield

theorem ValidAt.property {properties members : Fields} {name : String} {x : Json}
    (h : ValidAt V decode scope (.obj fields) (.obj members))
    (hproperties : field? "properties" fields = some (.obj properties))
    (hschema : field? name properties = some schema) (hx : field? name members = some x) :
    ValidAt V decode (enter scope (.obj fields)) schema x := by
  refine h.apply fun n rest hvalid => ?_
  have hfield : field? "properties" (unrollFields decode rest n scope fields) =
      some (.obj (properties.map fun f =>
        (f.1, unroll decode rest n (enter scope (.obj fields)) f.2))) := by
    rw [field?_unrollFields (by decide), hproperties, Option.map_some]
    rfl
  have hkeyword := keywordHolds_properties_iff.mp (keywordHolds_of_valid hvalid hfield)
  refine hkeyword name _ ?_ x hx
  rw [field?_map (fun _ => unroll decode rest n (enter scope (.obj fields))), hschema]
  rfl

theorem ValidAt.item {items : List Json} {x : Json}
    (h : ValidAt V decode scope (.obj fields) (.arr items))
    (hschema : field? "items" fields = some schema)
    (hx : ∀ positions, field? "prefixItems" fields = some (.arr positions) →
      x ∈ items.drop positions.length)
    (hmem : x ∈ items) : ValidAt V decode (enter scope (.obj fields)) schema x := by
  refine h.apply fun n rest hvalid => ?_
  have hfield : field? "items" (unrollFields decode rest n scope fields) =
      some (unroll decode rest n (enter scope (.obj fields)) schema) := by
    rw [field?_unrollFields (by decide), hschema, Option.map_some]
    rfl
  have hkeyword := keywordHolds_items_iff.mp (keywordHolds_of_valid hvalid hfield)
  refine hkeyword x ?_
  unfold remainingItems
  rw [field?_unrollFields (by decide)]
  cases hpositions : field? "prefixItems" fields with
  | none => exact hmem
  | some value =>
    cases value with
    | arr positions =>
      have hdropped := hx positions hpositions
      have hlength : unrollKeyword decode rest (unroll decode rest n)
          (enter scope (.obj fields)) "prefixItems" (.arr positions) = .arr (positions.map
            (unroll decode rest n (enter scope (.obj fields)))) := rfl
      rw [Option.map_some, hlength]
      simpa using hdropped
    | _ => exact hmem

/-- A keyword without schemas holds. -/
theorem ValidAt.leaf {key : String} {value : Json} (h : ValidAt V decode scope (.obj fields) i)
    (hkey : key ∉ referenceKeywords ∧ positionOf key = .other ∧ key ∉ namingKeywords)
    (hvalue : field? key fields = some value) :
    leafHolds key value i = true := by
  obtain ⟨depth, h⟩ := validAt_obj_iff.mp h
  have hfield : field? key (unrollFields decode .null depth scope fields) = some value := by
    rw [field?_unrollFields hkey.2.2, hvalue, Option.map_some, unrollKeyword_leaf hkey.1 hkey.2.1]
  have hkeyword := keywordHolds_of_valid (h depth le_rfl .null) hfield
  rwa [keywordHolds_leaf] at hkeyword
  intro hmem
  have hnone : ∀ k ∈ ["$ref", "additionalProperties", "items", "properties", "allOf", "anyOf",
      "oneOf"], k ∈ referenceKeywords ∨ positionOf k ≠ .other := by decide
  rcases hnone key hmem with hreference | hposition
  · exact hkey.1 hreference
  · exact hposition hkey.2.1

end Steps

end CapabilityCompiler.Contracts
