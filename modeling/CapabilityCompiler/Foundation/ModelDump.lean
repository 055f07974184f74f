import CapabilityCompiler.Foundation.JsonCanonical
import CapabilityCompiler.Foundation.JsonEquality

/-! Dumps of typed models: documents in which the fields of models are told from declared JSON data.
A stripper that goes by key names alone does not see the difference. -/
namespace CapabilityCompiler.Foundation
open Json

/-! Stripping by key names. -/

namespace Json
variable (names : List String)

mutual

/-- Remove the fields with these keys from every object. -/
def stripKeys : Json → Json
  | .arr items => .arr (stripItems items)
  | .obj fields => .obj (stripFields fields)
  | value => value

def stripItems : List Json → List Json
  | [] => []
  | item :: rest => stripKeys item :: stripItems rest

def stripFields : Fields → Fields
  | [] => []
  | (key, value) :: rest =>
    if key ∈ names then stripFields rest else (key, stripKeys value) :: stripFields rest

end

mutual

/-- No object has a field with one of these keys. -/
def lacksKeys : Json → Bool
  | .arr items => itemsLack items
  | .obj fields => fieldsLack fields
  | _ => true

def itemsLack : List Json → Bool
  | [] => true
  | item :: rest => lacksKeys item && itemsLack rest

def fieldsLack : Fields → Bool
  | [] => true
  | (key, value) :: rest => decide (key ∉ names) && lacksKeys value && fieldsLack rest

end

mutual

/-- The fields of all objects. -/
def fieldCount : Json → ℕ
  | .arr items => fieldCountItems items
  | .obj fields => fieldCountFields fields
  | _ => 0

def fieldCountItems : List Json → ℕ
  | [] => 0
  | item :: rest => fieldCount item + fieldCountItems rest

def fieldCountFields : Fields → ℕ
  | [] => 0
  | (_, value) :: rest => 1 + fieldCount value + fieldCountFields rest

end

theorem fieldCount_perm {first second : Fields} (h : first.Perm second) :
    fieldCountFields first = fieldCountFields second := by
  induction h with
  | nil => rfl
  | cons field _ ih => rw [fieldCountFields, fieldCountFields, ih]
  | swap field other rest =>
    simp only [fieldCountFields]
    omega
  | trans _ _ hfirst hsecond => exact hfirst.trans hsecond

mutual

/-- Sorting loses no field. -/
theorem fieldCount_keySorted (value : Json) : fieldCount value.keySorted = fieldCount value := by
  cases value with
  | arr items => rw [keySorted, fieldCount, fieldCount, fieldCount_keySortedItems items]
  | obj fields =>
    rw [keySorted, fieldCount, fieldCount, fieldCount_perm (sortKeys_perm _),
      fieldCount_keySortedFields fields]
  | _ => rfl

theorem fieldCount_keySortedItems (items : List Json) :
    fieldCountItems (keySortedItems items) = fieldCountItems items := by
  cases items with
  | nil => rfl
  | cons item rest =>
    rw [keySortedItems, fieldCountItems, fieldCountItems, fieldCount_keySorted item,
      fieldCount_keySortedItems rest]

theorem fieldCount_keySortedFields (fields : Fields) :
    fieldCountFields (keySortedFields fields) = fieldCountFields fields := by
  cases fields with
  | nil => rfl
  | cons field rest =>
    obtain ⟨key, value⟩ := field
    rw [keySortedFields, fieldCountFields, fieldCountFields, fieldCount_keySorted value,
      fieldCount_keySortedFields rest]

end

variable {names}

mutual

/-- A value without the keys is left as it is. -/
theorem stripKeys_of_lacks {value : Json} (h : lacksKeys names value = true) :
    stripKeys names value = value := by
  cases value with
  | arr items => rw [stripKeys, stripItems_of_lacks h]
  | obj fields => rw [stripKeys, stripFields_of_lacks h]
  | _ => rfl

theorem stripItems_of_lacks {items : List Json} (h : itemsLack names items = true) :
    stripItems names items = items := by
  cases items with
  | nil => rfl
  | cons item rest =>
    rw [itemsLack, Bool.and_eq_true] at h
    rw [stripItems, stripKeys_of_lacks h.1, stripItems_of_lacks h.2]

theorem stripFields_of_lacks {fields : Fields} (h : fieldsLack names fields = true) :
    stripFields names fields = fields := by
  cases fields with
  | nil => rfl
  | cons field rest =>
    obtain ⟨key, value⟩ := field
    rw [fieldsLack, Bool.and_eq_true, Bool.and_eq_true, decide_eq_true_eq] at h
    rw [stripFields, if_neg h.1.1, stripKeys_of_lacks h.1.2, stripFields_of_lacks h.2]

end

mutual

/-- Any other value loses fields. -/
theorem fieldCount_stripKeys (value : Json) :
    fieldCount (stripKeys names value) ≤ fieldCount value ∧
      (fieldCount (stripKeys names value) = fieldCount value → lacksKeys names value = true) := by
  cases value with
  | arr items =>
    rw [stripKeys, fieldCount, fieldCount, lacksKeys]
    exact fieldCount_stripItems items
  | obj fields =>
    rw [stripKeys, fieldCount, fieldCount, lacksKeys]
    exact fieldCount_stripFields fields
  | _ => exact ⟨Nat.le_refl _, fun _ => rfl⟩

theorem fieldCount_stripItems (items : List Json) :
    fieldCountItems (stripItems names items) ≤ fieldCountItems items ∧
      (fieldCountItems (stripItems names items) = fieldCountItems items →
        itemsLack names items = true) := by
  cases items with
  | nil => exact ⟨Nat.le_refl _, fun _ => rfl⟩
  | cons item rest =>
    have hitem := fieldCount_stripKeys item
    have hrest := fieldCount_stripItems rest
    rw [stripItems, fieldCountItems, fieldCountItems, itemsLack]
    refine ⟨by omega, fun hsame => ?_⟩
    rw [hitem.2 (by omega), hrest.2 (by omega), Bool.and_self]

theorem fieldCount_stripFields (fields : Fields) :
    fieldCountFields (stripFields names fields) ≤ fieldCountFields fields ∧
      (fieldCountFields (stripFields names fields) = fieldCountFields fields →
        fieldsLack names fields = true) := by
  cases fields with
  | nil => exact ⟨Nat.le_refl _, fun _ => rfl⟩
  | cons field rest =>
    obtain ⟨key, value⟩ := field
    have hvalue := fieldCount_stripKeys value
    have hrest := fieldCount_stripFields rest
    rw [stripFields, fieldCountFields, fieldsLack]
    split
    · exact ⟨by omega, fun hsame => by omega⟩
    · rename_i hkey
      rw [fieldCountFields]
      refine ⟨by omega, fun hsame => ?_⟩
      rw [hvalue.2 (by omega), hrest.2 (by omega), decide_eq_true hkey]
      rfl

end

theorem stripItems_eq (items : List Json) :
    stripItems names items = items.map (stripKeys names) := by
  induction items with
  | nil => rfl
  | cons item rest ih => rw [stripItems, ih, List.map_cons]

theorem stripFields_eq (fields : Fields) : stripFields names fields =
    (fields.filter fun field => decide (field.1 ∉ names)).map fun field =>
      (field.1, stripKeys names field.2) := by
  induction fields with
  | nil => rfl
  | cons field rest ih =>
    obtain ⟨key, value⟩ := field
    rw [stripFields, ih, List.filter_cons]
    by_cases hkey : key ∈ names
    · simp [hkey]
    · simp [hkey]

theorem field?_stripFields {key : String} (h : key ∉ names) (fields : Fields) :
    field? key (stripFields names fields) = (field? key fields).map (stripKeys names) := by
  induction fields with
  | nil => rfl
  | cons field rest ih =>
    obtain ⟨k, x⟩ := field
    rw [stripFields]
    by_cases hk : k ∈ names
    · have hne : k ≠ key := fun heq => h (heq ▸ hk)
      rw [if_pos hk, ih, field?_cons, if_neg hne]
    · rw [if_neg hk, field?_cons, field?_cons]
      split
      · rfl
      · exact ih

/-- Only a value without the keys is left as it is. -/
theorem stripKeys_eq_self_iff {value : Json} :
    stripKeys names value = value ↔ lacksKeys names value = true :=
  ⟨fun h => (fieldCount_stripKeys value).2 (congrArg fieldCount h), stripKeys_of_lacks⟩

/-- Keys may be removed in two turns. -/
theorem stripKeys_stripKeys {more all : List String}
    (hall : ∀ key, key ∈ all ↔ key ∈ names ∨ key ∈ more) (value : Json) :
    stripKeys more (stripKeys names value) = stripKeys all value := by
  induction value with
  | arr items ih =>
    simp only [stripKeys, stripItems_eq, List.map_map]
    congr 1
    exact List.map_congr_left ih
  | obj fields ih =>
    simp only [stripKeys, stripFields_eq, List.filter_map, List.map_map, List.filter_filter]
    congr 1
    have hkept : (fields.filter fun field =>
        (((fun field : String × Json => decide (field.1 ∉ more)) ∘ fun field : String × Json =>
          (field.1, stripKeys names field.2)) field && decide (field.1 ∉ names))) =
        fields.filter fun field => decide (field.1 ∉ all) := by
      refine List.filter_congr fun field _ => ?_
      simp [hall, Bool.and_comm]
    rw [hkept]
    refine List.map_congr_left fun field hfield => ?_
    exact congrArg (Prod.mk field.1) (ih field (List.mem_of_mem_filter hfield))
  | _ => rfl

/-- Sorting the keys before and after stripping them is sorting them once. -/
theorem keySorted_stripKeys_keySorted (value : Json) :
    (stripKeys names value.keySorted).keySorted = (stripKeys names value).keySorted := by
  induction value with
  | arr items ih =>
    simp only [keySorted, stripKeys, stripItems_eq, keySortedItems_eq, List.map_map]
    congr 1
    exact List.map_congr_left ih
  | obj fields ih =>
    have hkept : ∀ kept : Fields, kept ⊆ fields →
        Printer.sortKeys ((Printer.sortKeys (kept.map fun field => (field.1, keySorted field.2))).map
          fun field => (field.1, (stripKeys names field.2).keySorted)) =
        Printer.sortKeys (kept.map fun field => (field.1, (stripKeys names field.2).keySorted)) := by
      intro kept hkept
      rw [Printer.sortKeys_map fun value => (stripKeys names value).keySorted,
        Printer.sortKeys_sortKeys,
        ← Printer.sortKeys_map fun value => (stripKeys names value).keySorted, List.map_map]
      congr 1
      exact List.map_congr_left fun field hfield =>
        congrArg (Prod.mk field.1) (ih field (hkept hfield))
    have hfilter : (fields.map fun field => (field.1, keySorted field.2)).filter
        (fun field => decide (field.1 ∉ names)) =
          (fields.filter fun field => decide (field.1 ∉ names)).map fun field =>
            (field.1, keySorted field.2) := by
      rw [List.filter_map]
      rfl
    simp only [keySorted, stripKeys, stripFields_eq, keySortedFields_eq, List.map_map,
      Function.comp_def]
    congr 1
    rw [Printer.sortKeys_filter (fun key => decide (key ∉ names)), hfilter]
    exact hkept _ (List.filter_sublist.subset)
  | _ => rfl

end Json

/-! Dumps. -/

/-- A dumped model: its fields are structure; a value is data, whatever its keys are. -/
inductive Dump where
  | value (json : Json)
  | list (items : List Dump)
  | model (fields : List (String × Dump))

namespace Dump

mutual

def toJson : Dump → Json
  | .value json => json
  | .list items => .arr (itemsToJson items)
  | .model fields => .obj (fieldsToJson fields)

def itemsToJson : List Dump → List Json
  | [] => []
  | item :: rest => toJson item :: itemsToJson rest

def fieldsToJson : List (String × Dump) → Fields
  | [] => []
  | (name, field) :: rest => (name, toJson field) :: fieldsToJson rest

end

section Fields
variable (names : List String)

mutual

/-- The dump without these fields of its models. -/
def withoutFields : Dump → Dump
  | .value json => .value json
  | .list items => .list (itemsWithout items)
  | .model fields => .model (fieldsWithout fields)

def itemsWithout : List Dump → List Dump
  | [] => []
  | item :: rest => withoutFields item :: itemsWithout rest

def fieldsWithout : List (String × Dump) → List (String × Dump)
  | [] => []
  | (name, field) :: rest =>
    if name ∈ names then fieldsWithout rest else (name, withoutFields field) :: fieldsWithout rest

end

mutual

/-- No value in the other fields has one of the names as a key. -/
def intact : Dump → Bool
  | .value json => lacksKeys names json
  | .list items => itemsIntact items
  | .model fields => fieldsIntact fields

def itemsIntact : List Dump → Bool
  | [] => true
  | item :: rest => intact item && itemsIntact rest

def fieldsIntact : List (String × Dump) → Bool
  | [] => true
  | (name, field) :: rest => (decide (name ∈ names) || intact field) && fieldsIntact rest

end

end Fields

/-! Fields of a model that are no models. -/

def text (text : String) : Dump := .value (.str text)

def optionalText : Option String → Dump
  | some text => .value (.str text)
  | none => .value .null

def texts (texts : List String) : Dump := .value (.arr (texts.map .str))

variable {names : List String}

@[simp] theorem intact_text (content : String) : (text content).intact names = true := rfl

@[simp] theorem intact_optionalText (content : Option String) :
    (optionalText content).intact names = true := by
  cases content <;> rfl

@[simp] theorem intact_texts (contents : List String) : (texts contents).intact names = true := by
  rw [texts, intact, lacksKeys]
  induction contents with
  | nil => rfl
  | cons content rest ih => exact ih

/-- The field of a model. -/
def get? (name : String) : Dump → Option Dump
  | .model fields => fields.lookup name
  | _ => none

theorem field?_fieldsToJson (name : String) (fields : List (String × Dump)) :
    field? name (fieldsToJson fields) = (fields.lookup name).map toJson := by
  induction fields with
  | nil => rfl
  | cons entry rest ih =>
    obtain ⟨key, field⟩ := entry
    rw [fieldsToJson, field?_cons, List.lookup_cons, ih]
    by_cases hkey : key = name
    · simp [hkey]
    · simp [hkey, beq_eq_false_iff_ne.mpr (Ne.symm hkey)]

/-- A field that is not removed is found in the document, without what is removed below it. -/
theorem get?_stripKeys_toJson {dump part : Dump} {name : String} (hname : name ∉ names)
    (h : dump.get? name = some part) :
    Json.get? name (stripKeys names dump.toJson) = some (stripKeys names part.toJson) := by
  cases dump with
  | model fields =>
    rw [toJson, stripKeys, Json.get?, field?_stripFields hname, field?_fieldsToJson]
    rw [get?] at h
    rw [h]
    rfl
  | _ => cases h

mutual

theorem stripKeys_toJson {dump : Dump} (h : dump.intact names = true) :
    stripKeys names dump.toJson = (dump.withoutFields names).toJson := by
  cases dump with
  | value json => exact stripKeys_of_lacks h
  | list items => rw [toJson, stripKeys, withoutFields, toJson, stripItems_toJson h]
  | model fields => rw [toJson, stripKeys, withoutFields, toJson, stripFields_toJson h]

theorem stripItems_toJson {items : List Dump} (h : itemsIntact names items = true) :
    stripItems names (itemsToJson items) = itemsToJson (itemsWithout names items) := by
  cases items with
  | nil => rfl
  | cons item rest =>
    rw [itemsIntact, Bool.and_eq_true] at h
    rw [itemsToJson, stripItems, itemsWithout, itemsToJson, stripKeys_toJson h.1,
      stripItems_toJson h.2]

theorem stripFields_toJson {fields : List (String × Dump)}
    (h : fieldsIntact names fields = true) :
    stripFields names (fieldsToJson fields) = fieldsToJson (fieldsWithout names fields) := by
  cases fields with
  | nil => rfl
  | cons entry rest =>
    obtain ⟨name, field⟩ := entry
    rw [fieldsIntact, Bool.and_eq_true, Bool.or_eq_true, decide_eq_true_eq] at h
    rw [fieldsToJson, stripFields, fieldsWithout]
    split
    · exact stripFields_toJson h.2
    · rename_i hname
      rw [fieldsToJson, stripKeys_toJson (h.1.resolve_left hname), stripFields_toJson h.2]

end

mutual

/-- A dump that is not intact loses fields of its values. -/
theorem fieldCount_stripKeys_toJson (dump : Dump) :
    fieldCount (stripKeys names dump.toJson) ≤ fieldCount (dump.withoutFields names).toJson ∧
      (fieldCount (stripKeys names dump.toJson) = fieldCount (dump.withoutFields names).toJson →
        dump.intact names = true) := by
  cases dump with
  | value json => exact fieldCount_stripKeys json
  | list items =>
    rw [toJson, stripKeys, withoutFields, toJson, fieldCount, fieldCount, intact]
    exact fieldCount_stripItems_toJson items
  | model fields =>
    rw [toJson, stripKeys, withoutFields, toJson, fieldCount, fieldCount, intact]
    exact fieldCount_stripFields_toJson fields

theorem fieldCount_stripItems_toJson (items : List Dump) :
    fieldCountItems (stripItems names (itemsToJson items)) ≤
        fieldCountItems (itemsToJson (itemsWithout names items)) ∧
      (fieldCountItems (stripItems names (itemsToJson items)) =
        fieldCountItems (itemsToJson (itemsWithout names items)) →
          itemsIntact names items = true) := by
  cases items with
  | nil => exact ⟨Nat.le_refl _, fun _ => rfl⟩
  | cons item rest =>
    have hitem := fieldCount_stripKeys_toJson item
    have hrest := fieldCount_stripItems_toJson rest
    rw [itemsToJson, stripItems, itemsWithout, itemsToJson, fieldCountItems, fieldCountItems,
      itemsIntact]
    refine ⟨by omega, fun hsame => ?_⟩
    rw [hitem.2 (by omega), hrest.2 (by omega), Bool.and_self]

theorem fieldCount_stripFields_toJson (fields : List (String × Dump)) :
    fieldCountFields (stripFields names (fieldsToJson fields)) ≤
        fieldCountFields (fieldsToJson (fieldsWithout names fields)) ∧
      (fieldCountFields (stripFields names (fieldsToJson fields)) =
        fieldCountFields (fieldsToJson (fieldsWithout names fields)) →
          fieldsIntact names fields = true) := by
  cases fields with
  | nil => exact ⟨Nat.le_refl _, fun _ => rfl⟩
  | cons entry rest =>
    obtain ⟨name, field⟩ := entry
    have hfield := fieldCount_stripKeys_toJson field
    have hrest := fieldCount_stripFields_toJson rest
    rw [fieldsToJson, stripFields, fieldsWithout, fieldsIntact]
    split
    · rename_i hname
      exact ⟨hrest.1, fun hsame => by rw [hrest.2 hsame, decide_eq_true hname]; rfl⟩
    · rw [fieldCountFields, fieldsToJson, fieldCountFields]
      refine ⟨by omega, fun hsame => ?_⟩
      rw [hfield.2 (by omega), hrest.2 (by omega), Bool.or_true, Bool.and_self]

end

/-- Stripping by names removes the fields of the models and nothing else just when the dump is
intact. -/
theorem stripKeys_toJson_iff {dump : Dump} :
    stripKeys names dump.toJson = (dump.withoutFields names).toJson ↔ dump.intact names = true :=
  ⟨fun h => (fieldCount_stripKeys_toJson dump).2 (congrArg fieldCount h), stripKeys_toJson⟩

/-- So it is when keys are sorted. -/
theorem keySorted_stripKeys_toJson_iff {dump : Dump} :
    (stripKeys names dump.toJson).keySorted = (dump.withoutFields names).toJson.keySorted ↔
      dump.intact names = true := by
  refine ⟨fun h => (fieldCount_stripKeys_toJson dump).2 ?_, fun h => by rw [stripKeys_toJson h]⟩
  have hcount := congrArg fieldCount h
  rwa [fieldCount_keySorted, fieldCount_keySorted] at hcount

theorem itemsIntact_iff {items : List Dump} :
    itemsIntact names items = true ↔ ∀ item ∈ items, item.intact names = true := by
  induction items with
  | nil => simp [itemsIntact]
  | cons item rest ih => simp [itemsIntact, ih]

theorem itemsToJson_eq (items : List Dump) : itemsToJson items = items.map toJson := by
  induction items with
  | nil => rfl
  | cons item rest ih => rw [itemsToJson, ih, List.map_cons]

theorem itemsWithout_eq (items : List Dump) :
    itemsWithout names items = items.map (withoutFields names) := by
  induction items with
  | nil => rfl
  | cons item rest ih => rw [itemsWithout, ih, List.map_cons]

end Dump
end CapabilityCompiler.Foundation
