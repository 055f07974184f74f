import CapabilityCompiler.Contracts.Unrolling
import CapabilityCompiler.Mcp.SchemaProjection

/-! What the projected schema accepts, and the document its references resolve in. -/
namespace CapabilityCompiler.Mcp
open Contracts Foundation Foundation.Json

/-! The scan. -/

def IsLocal (key : String) (child : Json) : Prop :=
  key ∈ ["$ref", "$dynamicRef"] ∧
    ∃ reference, child = .str reference ∧ Text.hasPrefix "#" reference = true

/-- The value has a local reference, and no object around it has a member `$id`. That member of
the document itself does not count. -/
inductive Exposed : Bool → Json → Prop where
  | here {documentRoot : Bool} {fields : Fields} {key : String} {child : Json} :
      (documentRoot = true ∨ (field? "$id" fields).isSome = false) → (key, child) ∈ fields →
        IsLocal key child → Exposed documentRoot (.obj fields)
  | field {documentRoot : Bool} {fields : Fields} {key : String} {child : Json} :
      (documentRoot = true ∨ (field? "$id" fields).isSome = false) → (key, child) ∈ fields →
        Exposed false child → Exposed documentRoot (.obj fields)
  | item {documentRoot : Bool} {items : List Json} {child : Json} :
      child ∈ items → Exposed false child → Exposed documentRoot (.arr items)

theorem rootFragment_merge {state other : ReferenceState} :
    (state.merge other).rootFragment = true ↔
      state.rootFragment = true ∨ other.rootFragment = true := by
  simp [ReferenceState.merge]

theorem rootFragment_visitItems {belongs : Bool} {items : List Json} :
    (visitItems belongs items).rootFragment = true ↔
      ∃ child ∈ items, (visit belongs false child).rootFragment = true := by
  induction items with
  | nil => simp [visitItems]
  | cons child rest ih => simp [visitItems, rootFragment_merge, ih]

theorem rootFragment_visitFields {belongs : Bool} {fields : Fields} :
    (visitFields belongs fields).rootFragment = true ↔
      ∃ f ∈ fields, (if isReference f.1 f.2 then referenceState belongs f.2
        else visit belongs false f.2).rootFragment = true := by
  induction fields with
  | nil => simp [visitFields]
  | cons f rest ih =>
    obtain ⟨key, child⟩ := f
    simp [visitFields, rootFragment_merge, ih]

/-- Below an object with an identifier nothing is found. -/
theorem rootFragment_unowned (value : Json) (documentRoot : Bool) :
    (visit false documentRoot value).rootFragment = false := by
  induction value generalizing documentRoot with
  | arr items ih =>
    rw [Bool.eq_false_iff, visit, ne_eq, rootFragment_visitItems]
    rintro ⟨child, hchild, hfound⟩
    rw [ih child hchild] at hfound
    exact Bool.false_ne_true hfound
  | obj fields ih =>
    rw [Bool.eq_false_iff, visit, ne_eq, Bool.false_and, rootFragment_visitFields]
    rintro ⟨f, hf, hfound⟩
    split at hfound
    · unfold referenceState at hfound
      split at hfound
      · split at hfound <;> exact Bool.false_ne_true hfound
      · exact Bool.false_ne_true hfound
    · rw [ih f hf] at hfound
      exact Bool.false_ne_true hfound
  | _ => rfl

theorem isReference_iff {key : String} {child : Json} :
    isReference key child = true ↔
      key ∈ ["$ref", "$dynamicRef"] ∧ ∃ reference, child = .str reference := by
  cases child <;> simp [isReference]

theorem rootFragment_reference {key : String} {child : Json} (h : isReference key child = true) :
    (referenceState true child).rootFragment = true ↔ IsLocal key child := by
  obtain ⟨hkey, reference, rfl⟩ := isReference_iff.mp h
  simp only [referenceState, IsLocal, hkey, true_and, Json.str.injEq, exists_eq_left']
  cases Text.hasPrefix "#" reference <;> simp

theorem isReference_of_isLocal {key : String} {child : Json} (h : IsLocal key child) :
    isReference key child = true := by
  obtain ⟨hkey, reference, rfl, -⟩ := h
  exact isReference_iff.mpr ⟨hkey, reference, rfl⟩

theorem not_exposed_of_isReference {key : String} {child : Json}
    (h : isReference key child = true) : ¬ Exposed false child := by
  obtain ⟨-, reference, rfl⟩ := isReference_iff.mp h
  rintro ⟨⟩

/-- The scan finds a local reference of the root where one is exposed. -/
theorem rootFragment_iff (value : Json) (documentRoot : Bool) :
    (visit true documentRoot value).rootFragment = true ↔ Exposed documentRoot value := by
  induction value generalizing documentRoot with
  | arr items ih =>
    rw [visit, rootFragment_visitItems]
    constructor
    · rintro ⟨child, hchild, hfound⟩
      exact .item hchild ((ih child hchild false).mp hfound)
    · rintro (_ | _ | ⟨hchild, hexposed⟩)
      exact ⟨_, hchild, (ih _ hchild false).mpr hexposed⟩
  | obj fields ih =>
    rw [visit, Bool.true_and]
    by_cases howned : documentRoot = true ∨ (field? "$id" fields).isSome = false
    · have hbelongs : (!(!documentRoot && (field? "$id" fields).isSome)) = true := by
        rcases howned with h | h <;> simp [h]
      rw [hbelongs, rootFragment_visitFields]
      constructor
      · rintro ⟨⟨key, child⟩, hf, hfound⟩
        split at hfound
        · rename_i hreference
          exact .here howned hf ((rootFragment_reference hreference).mp hfound)
        · exact .field howned hf ((ih _ hf false).mp hfound)
      · rintro (⟨-, hf, hlocal⟩ | ⟨-, hf, hexposed⟩)
        · have hreference := isReference_of_isLocal hlocal
          refine ⟨_, hf, ?_⟩
          rw [if_pos hreference]
          exact (rootFragment_reference hreference).mpr hlocal
        · refine ⟨_, hf, ?_⟩
          rw [if_neg fun hreference => not_exposed_of_isReference hreference hexposed]
          exact (ih _ hf false).mpr hexposed
    · rw [not_or, Bool.not_eq_true, Bool.not_eq_false] at howned
      have hbelongs : (!(!documentRoot && (field? "$id" fields).isSome)) = false := by
        simp [howned.1, howned.2]
      rw [hbelongs]
      have hnone : (visitFields false fields).rootFragment = false := by
        have h := rootFragment_unowned (.obj fields) false
        rwa [visit, Bool.false_and] at h
      rw [hnone]
      refine ⟨fun h => absurd h Bool.false_ne_true, ?_⟩
      rintro (⟨hopen, -, -⟩ | ⟨hopen, -, -⟩)
      · simp [howned.1, howned.2] at hopen
      · simp [howned.1, howned.2] at hopen
  | _ =>
    refine ⟨fun h => absurd h Bool.false_ne_true, ?_⟩
    rintro ⟨⟩

/-! The wrapper. -/

section Wrapper
variable {result : Json}

theorem members_wrap (result : Json) :
    members (wrap result) = wrap result :: membersAt .schema result := by
  have hfields : members (wrap result) =
      wrap result :: ((membersAt .schema result ++ []) ++ []) := rfl
  rw [hfields, List.append_nil, List.append_nil]

theorem members_wrap_opens (h : opensResource result = true) :
    members (wrap result) = [wrap result] := by
  have hnone : membersAt .schema result = [] := by
    cases result with
    | obj fields => rw [membersAt_schema, if_pos h]
    | _ => rfl
  rw [members_wrap, hnone]

theorem members_wrap_closes (h : opensResource result = false) :
    members (wrap result) = wrap result :: members result := by
  have hsome : membersAt .schema result = members result := by
    cases result with
    | obj fields => rw [membersAt_schema, h, members]; rfl
    | _ => rfl
  rw [members_wrap, hsome]

theorem refers_wrap (result : Json) : refers (wrap result) = false := rfl

theorem unnamed_wrap (result : Json) (name : String) :
    (["$dynamicAnchor"].any fun keyword => hasText keyword name (wrap result)) = false := rfl

theorem anchored_wrap_opens (h : opensResource result = true) (name : String) :
    anchored ["$dynamicAnchor"] (wrap result) name = none := by
  rw [anchored, members_wrap_opens h, List.find?_cons, unnamed_wrap]
  rfl

theorem anchored_wrap_closes (h : opensResource result = false) (name : String) :
    anchored ["$dynamicAnchor"] (wrap result) name = anchored ["$dynamicAnchor"] result name := by
  rw [anchored, members_wrap_closes h, List.find?_cons, unnamed_wrap]
  rfl

/-- The wrapper unrolls to the wrapper of the unrolled result. -/
theorem unroll_wrap (decode : String → String) (rest : Json) (depth : ℕ) :
    unroll decode rest (depth + 2) [wrap result] (wrap result) =
      wrap (unroll decode rest (depth + 1) [wrap result] result) :=
  rfl

/-- An object with the result alone is valid under the wrapper where the result is valid. -/
theorem valid_wrap (V : Vocabulary) (i : Json) :
    valid V (wrap result) (.obj [("result", i)]) = true ↔ valid V result i = true := by
  rw [wrap, valid_obj_iff]
  constructor
  · rintro ⟨-, hkeywords⟩
    have hproperties := keywordHolds_properties_iff.mp
      (hkeywords "properties" (.obj [("result", result)]) rfl)
    exact hproperties "result" result rfl i rfl
  · intro hvalid
    constructor
    · refine V.others_silent _ _ fun keyword hkeyword => ?_
      rw [field?_isSome_iff] at hkeyword
      have hcore : ∀ keyword ∈ ["type", "additionalProperties", "required", "properties"],
          keyword ∈ coreKeywords := by decide
      exact hcore keyword hkeyword
    · intro keyword value hvalue
      have hmem := mem_of_field? hvalue
      simp only [List.mem_cons, List.not_mem_nil, or_false, Prod.mk.injEq] at hmem
      rcases hmem with ⟨rfl, rfl⟩ | ⟨rfl, rfl⟩ | ⟨rfl, rfl⟩ | ⟨rfl, rfl⟩
      · rfl
      · rw [keywordHolds_additionalProperties_iff]
        -- The result is the only property, and the wrapper speaks about it.
        rintro name x hx ⟨hname, -⟩
        have hresult : "result" ≠ name := by
          rintro rfl
          exact hname (List.mem_singleton.mpr rfl)
        rw [get?, field?_cons, if_neg hresult] at hx
        exact absurd hx (by simp)
      · rfl
      · rw [keywordHolds_properties_iff]
        intro name schema hschema x hx
        rw [field?_cons] at hschema
        split at hschema
        · obtain rfl := Option.some.inj hschema
          subst name
          obtain rfl := Option.some.inj hx
          exact hvalid
        · exact absurd hschema (by simp)

/-- Where the result unrolls as the schema does, the wrapper accepts what the schema accepts. -/
theorem validIn_wrap {decode : String → String} {schema : Json}
    (h : ∀ rest depth, unroll decode rest depth [wrap result] result =
      unroll decode rest depth [schema] schema) (V : Vocabulary) (i : Json) :
    ValidIn V decode (wrap result) (.obj [("result", i)]) ↔ ValidIn V decode schema i := by
  have hstep : ∀ n rest, valid V (unroll decode rest (n + 2) [wrap result] (wrap result))
      (.obj [("result", i)]) = true ↔
        valid V (unroll decode rest (n + 1) [schema] schema) i = true := by
    intro n rest
    rw [unroll_wrap, h, valid_wrap]
  constructor
  · rintro ⟨depth, hvalid⟩
    refine ⟨depth + 1, fun n hn rest => ?_⟩
    obtain ⟨m, rfl⟩ := Nat.exists_eq_add_of_le hn
    have hm := (hstep (depth + m) rest).mp (hvalid _ (by omega) rest)
    rwa [show depth + 1 + m = depth + m + 1 by omega]
  · rintro ⟨depth, hvalid⟩
    refine ⟨depth + 2, fun n hn rest => ?_⟩
    obtain ⟨m, rfl⟩ := Nat.exists_eq_add_of_le hn
    have hm := (hstep (depth + m) rest).mpr (hvalid _ (by omega) rest)
    rwa [show depth + 2 + m = depth + m + 2 by omega]

end Wrapper

/-! The projection. -/

/-- The projected schema accepts the objects of the results that the schema accepts, and no
reference belongs to the wrapper: each is resolved in the result, or in a resource within it. -/
def Preserves (decode : String → String) (schema projected : Json) : Prop :=
  (∀ V i, ValidIn V decode projected (.obj [("result", i)]) ↔ ValidIn V decode schema i) ∧
    Silent projected

/-- The root of the references is kept: the schema is a resource by its own identifier, none of its
references belong to it, or one of them is exposed to the scan. -/
def RootKept (schema : Json) : Prop :=
  opensResource schema = true ∨ Silent schema ∨
    (Exposed true schema ∧ ∀ fields, schema = .obj fields → field? "$id" fields = none)

theorem opensResource_identified {fields : Fields} {text : String}
    (hnone : field? "$id" fields = none) :
    opensResource (.obj (fields ++ [("$id", .str ("urn:acc:mcp-output:" ++ text))])) = true := by
  have hid : field? "$id" (fields ++ [("$id", .str ("urn:acc:mcp-output:" ++ text))]) =
      some (.str ("urn:acc:mcp-output:" ++ text)) := by
    induction fields with
    | nil => rfl
    | cons f rest ih =>
      obtain ⟨key, value⟩ := f
      rw [field?_cons] at hnone
      split at hnone
      · exact absurd hnone (by simp)
      · rename_i hne
        rw [List.cons_append, field?_cons, if_neg hne]
        exact ih hnone
  rw [opensResource, hid]
  simp only [String.toList_append]
  rw [List.any_append]
  rfl

section Projection
variable {host : ProjectionHost} {toolName : String} {fields : Fields}

/-- The result has an identifier of its own, or it is the schema. -/
theorem projectedResult_cases (host : ProjectionHost) (toolName : String) (fields : Fields) :
    (Exposed true (.obj fields) ∧ field? "$id" fields = none ∧
      Identified (projectedResult host toolName fields) (.obj fields) ∧
      opensResource (projectedResult host toolName fields) = true) ∨
    (¬ (Exposed true (.obj fields) ∧ field? "$id" fields = none) ∧
      projectedResult host toolName fields = .obj fields) := by
  unfold projectedResult
  rw [inspectReferences]
  split
  · rename_i hadded
    rw [Bool.and_eq_true, rootFragment_iff, Option.isNone_iff_eq_none] at hadded
    exact .inl ⟨hadded.1, hadded.2, .inr ⟨fields, _, rfl, hadded.2, rfl⟩,
      opensResource_identified hadded.2⟩
  · rename_i hkept
    rw [Bool.and_eq_true, rootFragment_iff, Option.isNone_iff_eq_none] at hkept
    exact .inr ⟨hkept, rfl⟩

theorem preserves_of_opens (decode : String → String) {result schema : Json}
    (hidentified : Identified result schema) (hopens : opensResource result = true) :
    Preserves decode schema (wrap result) := by
  constructor
  · exact validIn_wrap fun rest depth =>
      unroll_resource hidentified hopens (anchored_wrap_opens hopens) decode rest depth
  · intro member hmember
    rw [members_wrap_opens hopens] at hmember
    rw [List.mem_singleton.mp hmember]
    exact refers_wrap result

theorem preserves_of_silent (decode : String → String) {schema : Json}
    (hcloses : opensResource schema = false) (hsilent : Silent schema) :
    Preserves decode schema (wrap schema) := by
  constructor
  · exact validIn_wrap fun rest depth =>
      unroll_silent hcloses hsilent (anchored_wrap_closes hcloses) decode rest depth
  · intro member hmember
    rw [members_wrap_closes hcloses] at hmember
    rcases List.mem_cons.mp hmember with rfl | hmember
    · exact refers_wrap schema
    · exact hsilent member hmember

/-- The accepted projections that preserve validity and the resolution of references. -/
theorem preserves_iff (host : ProjectionHost) (decode : String → String) (toolName : String)
    (schema projected : Json) (h : projectMcpOutputSchema host toolName schema = .ok projected) :
    Preserves decode schema projected ↔ RootKept schema := by
  obtain ⟨fields, rfl, rfl⟩ : ∃ fields, schema = .obj fields ∧
      projected = wrap (projectedResult host toolName fields) := by
    unfold projectMcpOutputSchema at h
    split at h
    · rename_i fields
      split at h
      · exact absurd h (by simp)
      · split at h
        · exact absurd h (by simp)
        · simp only at h
          split at h
          · exact ⟨fields, rfl, (Except.ok.inj h).symm⟩
          · exact absurd h (by simp)
    · split at h
      · exact absurd h (by simp)
      · exact absurd h (by simp)
  rcases projectedResult_cases host toolName fields with
    ⟨hexposed, hnone, hidentified, hopens⟩ | ⟨hkept, hresult⟩
  · have hroot : RootKept (.obj fields) := by
      refine .inr (.inr ⟨hexposed, ?_⟩)
      rintro fields' heq
      rw [← Json.obj.inj heq]
      exact hnone
    exact ⟨fun _ => hroot, fun _ => preserves_of_opens decode hidentified hopens⟩
  · rw [hresult]
    cases hopens : opensResource (.obj fields) with
    | true => exact ⟨fun _ => .inl hopens, fun _ => preserves_of_opens decode (.inl rfl) hopens⟩
    | false =>
      constructor
      · rintro ⟨-, hsilent⟩
        refine .inr (.inl fun member hmember => hsilent member ?_)
        rw [members_wrap_closes hopens]
        exact List.mem_cons_of_mem _ hmember
      · rintro (hroot | hsilent | ⟨hexposed, hnone⟩)
        · exact absurd hroot (by rw [hopens]; exact Bool.false_ne_true)
        · exact preserves_of_silent decode hopens hsilent
        · exact absurd ⟨hexposed, hnone fields rfl⟩ hkept

end Projection

section Example

private def plainVocabulary : Vocabulary where
  patternMatches := fun _ _ => false
  others := fun _ _ => true
  others_congr := fun _ _ _ _ _ _ => rfl
  others_silent := fun _ _ _ => rfl

private def acceptingHost : ProjectionHost where
  printer := { floatRepr := fun q => toString q.num ++ ".0" }
  sha256 := id
  checkSchema := fun _ => true

/-- An output with a property that is called `$id`. -/
private def itemSchema : Json :=
  .obj [("type", .str "object"),
    ("properties", .obj [("$id", .obj [("type", .str "string")]),
      ("size", .obj [("$ref", .str "#/$defs/size")])]),
    ("$defs", .obj [("size", .obj [("type", .str "integer")])])]

private def item : Json := .obj [("$id", .str "i1"), ("size", .int 3)]

/-- The reference next to the property is not found in the wrapper. -/
theorem property_named_id : projectMcpOutputSchema acceptingHost "get_item" itemSchema =
      .ok (wrap itemSchema) ∧
    ValidIn plainVocabulary id itemSchema item ∧
    ¬ ValidIn plainVocabulary id (wrap itemSchema) (.obj [("result", item)]) := by
  refine ⟨by decide, ⟨4, fun n hn rest => ?_⟩, ?_⟩
  · obtain ⟨m, rfl⟩ := Nat.exists_eq_add_of_le' hn
    rfl
  · rintro ⟨depth, hvalid⟩
    have hfalse := hvalid (depth + 4) (by omega) (.bool false)
    have hrefused : valid plainVocabulary
        (unroll id (.bool false) (depth + 4) [wrap itemSchema] (wrap itemSchema))
        (.obj [("result", item)]) = false := rfl
    rw [hrefused] at hfalse
    exact Bool.false_ne_true hfalse

/-- References below an array of branches are kept. -/
theorem preserves_branches :
    Preserves id (.obj [("anyOf", .arr [.obj [("$ref", .str "#/$defs/a")]]),
        ("$defs", .obj [("a", .obj [("type", .str "integer")])])])
      (wrap (.obj [("anyOf", .arr [.obj [("$ref", .str "#/$defs/a")]]),
        ("$defs", .obj [("a", .obj [("type", .str "integer")])]),
        ("$id", .str (outputIdentifier acceptingHost "count"
          (.obj [("anyOf", .arr [.obj [("$ref", .str "#/$defs/a")]]),
            ("$defs", .obj [("a", .obj [("type", .str "integer")])])])))])) := by
  refine (preserves_iff acceptingHost id "count" _ _ (by decide)).mpr ?_
  refine .inr (.inr ⟨?_, ?_⟩)
  · refine .field (.inl rfl) List.mem_cons_self (.item List.mem_cons_self ?_)
    exact .here (.inr rfl) List.mem_cons_self ⟨List.mem_cons_self, _, rfl, by decide⟩
  · rintro fields heq
    rw [← Json.obj.inj heq]
    rfl

end Example

end CapabilityCompiler.Mcp
