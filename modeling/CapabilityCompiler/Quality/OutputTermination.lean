import CapabilityCompiler.Foundation.JsonPatch
import CapabilityCompiler.Quality.OutputSize

/-! The estimate of an output size ends: references are followed once on every way, and between two
of them the schema gets smaller, also where a list of types is replaced by one of them. -/
namespace CapabilityCompiler.Quality
open Foundation Foundation.Json Contracts

section Parts
variable {value part : Json} {fields : Fields} {items : List Json} {text : String}

/-- The text is a value somewhere in the document. -/
def HasText (value : Json) (text : String) : Prop := ∃ node, at? value node = some (.str text)

theorem mem_textsOf : text ∈ textsOf value ↔ HasText value text := by
  unfold textsOf
  rw [List.mem_filterMap]
  constructor
  · rintro ⟨node, -, hnode⟩
    split at hnode
    next found hat => exact ⟨node, by rw [hat, Option.some.inj hnode]⟩
    next => simp at hnode
  · rintro ⟨node, hat⟩
    exact ⟨node, mem_positions hat, by rw [hat]⟩

theorem HasText.of_at? {node : Node} (hat : at? value node = some part) (h : HasText part text) :
    HasText value text := by
  obtain ⟨rest, hrest⟩ := h
  exact ⟨node ++ rest, by rw [at?_append hat, hrest]⟩

theorem at?_field {key : String} (h : field? key fields = some part) :
    at? (.obj fields) [.key key] = some part := by
  simp [at?, h]

theorem at?_item {index : ℕ} (h : items[index]? = some part) :
    at? (.arr items) [.index index] = some part := by
  simp [at?, h]

theorem extent_le_positionsOfFields {key : String} (h : field? key fields = some part) :
    extent part ≤ (positionsOfFields fields).length := by
  induction fields with
  | nil => simp at h
  | cons field rest ih =>
    obtain ⟨k, item⟩ := field
    rw [positionsOfFields, List.length_append, List.length_map]
    by_cases hkey : k = key
    · subst hkey
      obtain rfl : item = part := by simpa using h
      exact Nat.le_add_right _ _
    · have hrest := ih (by simpa [hkey] using h)
      omega

theorem extent_lt_of_field? {key : String} (h : field? key fields = some part) :
    extent part < extent (.obj fields) := by
  have hle := extent_le_positionsOfFields h
  unfold extent at hle ⊢
  rw [positions, List.length_cons]
  omega

theorem extent_le_positionsOfItems {start : ℕ} (h : part ∈ items) :
    extent part ≤ (positionsOfItems start items).length := by
  induction items generalizing start with
  | nil => cases h
  | cons item rest ih =>
    rw [positionsOfItems, List.length_append, List.length_map]
    rcases List.mem_cons.mp h with rfl | h
    · exact Nat.le_add_right _ _
    · have hrest : extent part ≤ (positionsOfItems (start + 1) rest).length := ih h
      omega

theorem extent_lt_of_mem (h : part ∈ items) : extent part < extent (.arr items) := by
  have hle : extent part ≤ (positionsOfItems 0 items).length := extent_le_positionsOfItems h
  unfold extent at hle ⊢
  rw [positions, List.length_cons]
  omega

theorem extent_le_of_at? {node : Node} (hat : at? value node = some part) :
    extent part ≤ extent value := by
  induction node generalizing value with
  | nil =>
    obtain rfl : value = part := by simpa [at?] using hat
    exact le_rfl
  | cons step rest ih =>
    cases value <;> cases step <;> simp only [at?, reduceCtorEq] at hat
    · obtain ⟨v, hv, hrest⟩ := Option.bind_eq_some_iff.mp hat
      exact (ih hrest).trans (extent_lt_of_mem (List.mem_of_getElem? hv)).le
    · obtain ⟨v, hv, hrest⟩ := Option.bind_eq_some_iff.mp hat
      exact (ih hrest).trans (extent_lt_of_field? hv).le

/-- Another value at a key changes the extent by the difference of the two. -/
theorem length_positionsOfFields_put {key : String} {old : Json} (h : field? key fields = some old)
    (new : Json) :
    (positionsOfFields (Table.put key new fields)).length + extent old =
      (positionsOfFields fields).length + extent new := by
  induction fields with
  | nil => simp at h
  | cons field rest ih =>
    obtain ⟨k, item⟩ := field
    rw [Table.put]
    by_cases hkey : k = key
    · obtain rfl : item = old := by simpa [hkey] using h
      rw [if_pos hkey]
      simp only [positionsOfFields, List.length_append, List.length_map, extent]
      omega
    · have hrest := ih (by simpa [hkey] using h)
      rw [if_neg hkey]
      simp only [positionsOfFields, List.length_append, List.length_map]
      omega

end Parts

section TypeLists
variable {fields : Fields} {items : List Json} {item text : String}

theorem mem_strings : item ∈ strings items ↔ .str item ∈ items := by
  unfold strings
  rw [List.mem_filterMap]
  constructor
  · rintro ⟨value, hvalue, hitem⟩
    split at hitem
    next found => rwa [← Option.some.inj hitem]
    next => simp at hitem
  · exact fun h => ⟨.str item, h, rfl⟩

/-- A schema with one type in place of the list of types is smaller. -/
theorem extent_put_type_lt (h : field? "type" fields = some (.arr items))
    (hitem : item ∈ strings items) :
    extent (.obj (Table.put "type" (.str item) fields)) < extent (.obj fields) := by
  have hput := length_positionsOfFields_put h (.str item)
  have hless := extent_lt_of_mem (mem_strings.mp hitem)
  unfold extent at hput hless ⊢
  simp only [positions, List.length_cons] at hput hless ⊢
  omega

theorem hasText_of_put_type (h : field? "type" fields = some (.arr items))
    (hitem : item ∈ strings items) (htext : HasText (.obj (Table.put "type" (.str item) fields)) text) :
    HasText (.obj fields) text := by
  obtain ⟨node, hat⟩ := htext
  cases node with
  | nil => simp [at?] at hat
  | cons step rest =>
    cases step with
    | index n => simp [at?] at hat
    | key key =>
      obtain ⟨part, hpart, hrest⟩ := Option.bind_eq_some_iff.mp hat
      by_cases hkey : key = "type"
      · -- the type itself is one of the items of the list
        subst hkey
        obtain rfl : .str item = part := by simpa [field?_put] using hpart
        obtain ⟨index, hindex⟩ := List.getElem?_of_mem (mem_strings.mp hitem)
        have hlist : HasText (.arr items) text := .of_at? (at?_item hindex) ⟨rest, hrest⟩
        exact hlist.of_at? (at?_field h)
      · have hsame : field? key fields = some part := by
          simpa [field?_put, Ne.symm hkey, hkey] using hpart
        exact .of_at? (at?_field hsame) ⟨rest, hrest⟩

end TypeLists

/-- A recursive call says nothing new and comes closer to the end. -/
structure Descends (root : Json) (call part : EstimateCall) : Prop where
  texts : ∀ text, HasText part.rawSchema text → HasText call.rawSchema text ∨ HasText root text
  less : estimateMeasure root part < estimateMeasure root call

section Calls
variable {root : Json} {schema : Fields} {pointer : String} {resolving : List String}
  {part : EstimateCall}

theorem descends_of_smaller {call : EstimateCall} (hresolving : part.resolving = call.resolving)
    (htexts : ∀ text, HasText part.rawSchema text → HasText call.rawSchema text)
    (hless : extent part.rawSchema < extent call.rawSchema) : Descends root call part where
  texts text htext := .inl (htexts text htext)
  less := by
    unfold estimateMeasure
    rw [hresolving]
    omega

theorem descends_field {key : String} {value : Json} {location : String}
    (h : field? key schema = some value) :
    Descends root ⟨.obj schema, pointer, resolving⟩ ⟨value, location, resolving⟩ :=
  descends_of_smaller rfl (fun _ => .of_at? (at?_field h)) (extent_lt_of_field? h)

theorem descends_branch {keyword : String} {branches : List Json}
    (h : field? keyword schema = some (.arr branches))
    (hpart : part ∈ branchCalls pointer resolving keyword branches) :
    Descends root ⟨.obj schema, pointer, resolving⟩ part := by
  obtain ⟨index, hindex, rfl⟩ := List.mem_mapIdx.mp hpart
  refine descends_of_smaller rfl (fun text htext => ?_) ?_
  · have hlist := htext.of_at? (at?_item (List.getElem?_eq_getElem hindex))
    exact hlist.of_at? (at?_field h)
  · exact (extent_lt_of_mem (List.getElem_mem hindex)).trans (extent_lt_of_field? h)

/-- A new reference uses up one descent, and its target is no larger than the document. -/
theorem descends_reference {text : String} (htext : HasText root text)
    (hnew : text ∉ resolving) {resolved : Place}
    (hresolved : resolveLocalRef root (.str text) = some resolved) {raw : Json} :
    Descends root ⟨raw, pointer, resolving⟩ ⟨resolved.schema, pointer, text :: resolving⟩ := by
  have hat := at?_of_resolveLocalRef hresolved
  refine ⟨fun _ h => .inr (h.of_at? hat), ?_⟩
  have hextent := extent_le_of_at? hat
  have hfewer : ((textsOf root).filter (· ∉ text :: resolving)).length <
      ((textsOf root).filter (· ∉ resolving)).length := by
    have hnested : (textsOf root).filter (· ∉ text :: resolving) =
        ((textsOf root).filter (· ∉ resolving)).filter (· ≠ text) := by
      rw [List.filter_filter]
      exact List.filter_congr fun other _ => by simp
    rw [hnested, List.length_filter_lt_length_iff_exists]
    refine ⟨text, ?_, by simp⟩
    simpa using ⟨mem_textsOf.mpr htext, hnew⟩
  unfold estimateMeasure
  dsimp only
  calc ((textsOf root).filter (· ∉ text :: resolving)).length * (extent root + 1) +
        extent resolved.schema
      < ((textsOf root).filter (· ∉ text :: resolving)).length * (extent root + 1) +
        (extent root + 1) := by omega
    _ = (((textsOf root).filter (· ∉ text :: resolving)).length + 1) * (extent root + 1) :=
        (Nat.succ_mul _ _).symm
    _ ≤ ((textsOf root).filter (· ∉ resolving)).length * (extent root + 1) :=
        Nat.mul_le_mul_right _ hfewer
    _ ≤ ((textsOf root).filter (· ∉ resolving)).length * (extent root + 1) + extent raw :=
        Nat.le_add_right _ _

theorem descends_object (h : part ∈ (estimateObject schema pointer resolving).goals) :
    Descends root ⟨.obj schema, pointer, resolving⟩ part := by
  unfold estimateObject at h
  split_ifs at h
  · cases h
  · cases h
  split at h
  next properties hproperties =>
    obtain ⟨name, -, hpart⟩ := List.mem_filterMap.mp h
    obtain ⟨property, hproperty, rfl⟩ := Option.map_eq_some_iff.mp hpart
    have hfield := field?_of_propertiesOf hproperties hproperty
    refine descends_of_smaller rfl (fun text htext => ?_) ?_
    · have hlist := htext.of_at? (at?_field hproperty)
      exact hlist.of_at? (at?_field hfield)
    · exact (extent_lt_of_field? hproperty).trans (extent_lt_of_field? hfield)
  next => cases h

theorem not_hasText_bool {b : Bool} {text : String} : ¬ HasText (.bool b) text := by
  rintro ⟨node, hat⟩
  cases node <;> simp [at?] at hat

/-- Absent items are the schema `true`, which is smaller than any object with a `maxItems`. -/
theorem descends_array (h : part ∈ (estimateArray schema pointer resolving).goals) :
    Descends root ⟨.obj schema, pointer, resolving⟩ part := by
  unfold estimateArray at h
  split at h
  next maxItems hmax =>
    split_ifs at h
    · cases h
    · cases h
    obtain rfl := List.mem_singleton.mp h
    unfold subschemaOf
    cases hitems : field? "items" schema with
    | some items => exact descends_field hitems
    | none =>
      have hone : extent (.bool true) = extent (.int maxItems) := rfl
      refine descends_of_smaller rfl (fun text htext => absurd htext not_hasText_bool) ?_
      exact hone.trans_lt (extent_lt_of_field? hmax)
  next => cases h

theorem descends_type {type : Option Json}
    (h : part ∈ (estimateType schema pointer resolving type).goals) :
    Descends root ⟨.obj schema, pointer, resolving⟩ part := by
  unfold estimateType at h
  split at h
  case h_5 => exact descends_array h
  case h_6 => exact descends_object h
  all_goals cases h

theorem descends_types (h : part ∈ (estimateTypes schema pointer resolving).goals) :
    Descends root ⟨.obj schema, pointer, resolving⟩ part := by
  unfold estimateTypes at h
  split at h
  next items htype =>
    split_ifs at h
    · obtain ⟨item, hitem, rfl⟩ := List.mem_map.mp h
      exact descends_of_smaller rfl (fun _ => hasText_of_put_type htype hitem)
        (extent_put_type_lt htype hitem)
    · exact descends_type h
  next => exact descends_type h

theorem descends_combinations (h : part ∈ (estimateCombinations schema pointer resolving).goals) :
    Descends root ⟨.obj schema, pointer, resolving⟩ part := by
  unfold estimateCombinations at h
  split at h
  next keyword branches hunion => exact descends_branch (unionBranches?_ne hunion).2 h
  next =>
    split at h
    next => cases h
    next branches _ hall => exact descends_branch hall h
    next => exact descends_types h

theorem descends_estimateReference {reference : Json} (href : field? "$ref" schema = some reference)
    (hroot : ∀ text, HasText (.obj schema) text → HasText root text)
    (h : part ∈ (estimateReference root schema pointer resolving reference).goals) :
    Descends root ⟨.obj schema, pointer, resolving⟩ part := by
  unfold estimateReference at h
  split at h
  next text =>
    split_ifs at h with hstop
    · cases h
    rw [not_or] at hstop
    split at h
    next => cases h
    next resolved hresolved =>
      obtain rfl := List.mem_singleton.mp h
      exact descends_reference (hroot text ⟨_, at?_field href⟩) hstop.2 hresolved
  next => cases h

end Calls

/-- What is estimated says nothing that the document does not say. -/
def TextsWithin (root : Json) (call : EstimateCall) : Prop :=
  ∀ text, HasText call.rawSchema text → HasText root text

theorem TextsWithin.descends {printer : Printer} {root : Json} {call part : EstimateCall}
    (hcall : TextsWithin root call) (h : part ∈ (estimate printer root call).goals) :
    Descends root call part := by
  obtain ⟨raw, pointer, resolving⟩ := call
  unfold estimate at h
  dsimp only at h
  split at h
  next => cases h
  next schema =>
    unfold estimateFields at h
    split_ifs at h
    · cases h
    split at h
    next => cases h
    next => cases h
    next =>
      split at h
      next reference href => exact descends_estimateReference href hcall h
      next => exact descends_combinations h
  next => cases h

/-- The estimate of every schema ends, with the same result for any fuel that is enough. -/
theorem estimateOutputSize_terminates (printer : Printer) (schema : Json) (more : ℕ) :
    Unfolding.eval (estimate printer schema) (estimateFuel schema + more) ⟨schema, "", []⟩ =
      some (estimateOutputSize printer schema) := by
  have hpart : ∀ call, TextsWithin schema call → ∀ part ∈ (estimate printer schema call).goals,
      TextsWithin schema part ∧ estimateMeasure schema part < estimateMeasure schema call := by
    intro call hcall part hpart
    have hdescends := hcall.descends hpart
    exact ⟨fun text htext => (hdescends.texts text htext).elim (hcall text) id, hdescends.less⟩
  have hroot : TextsWithin schema ⟨schema, "", []⟩ := fun _ htext => htext
  obtain ⟨result, hresult⟩ := Unfolding.eval_terminates hpart hroot
  have henough : estimateMeasure schema ⟨schema, "", []⟩ < estimateFuel schema := Nat.lt_succ_self _
  have hmore := hresult _ (henough.trans_le (Nat.le_add_right _ more))
  rw [hmore, estimateOutputSize, hresult _ henough]

end CapabilityCompiler.Quality
