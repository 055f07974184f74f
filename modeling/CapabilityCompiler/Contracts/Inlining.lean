import CapabilityCompiler.Contracts.SchemaRelation
import CapabilityCompiler.Contracts.Validity

/-! Schemas with every reference replaced by its target, where there are no reference cycles. -/
namespace CapabilityCompiler.Contracts
open Foundation Foundation.Json

/-- The keywords whose value is a schema, a list of schemas, or a map to schemas. -/
def schemaKeywords : List String :=
  ["additionalProperties", "items", "not", "if", "then", "else", "contains", "propertyNames",
    "unevaluatedItems", "unevaluatedProperties", "contentSchema"]

def schemaListKeywords : List String := ["allOf", "anyOf", "oneOf", "prefixItems"]

def schemaMapKeywords : List String := ["properties", "patternProperties", "dependentSchemas"]

/-- The fragment of a document that a JSON Pointer names. -/
def pointerTarget : Json → List String → Option Json
  | value, [] => some value
  | .obj fields, token :: rest => (field? token fields).bind fun v => pointerTarget v rest
  | .arr items, token :: rest =>
    token.toNat?.bind fun n => items[n]?.bind fun v => pointerTarget v rest
  | _, _ :: _ => none

/-- The target of a reference into its own document; `decode` undoes percent-encoding. -/
def localTarget (decode : String → String) (root : Json) (reference : String) : Option Json :=
  (Text.dropPrefix? ['#'] reference.toList).bind fun fragment =>
    match Text.splitChars '/' (decode (String.ofList fragment)).toList with
    | [] :: tokens =>
      pointerTarget root (tokens.map fun token => Text.unescapeToken (String.ofList token))
    | _ => none

section Keywords
variable (inl : Json → Option Json)

def inlineItems : List Json → Option (List Json)
  | [] => some []
  | item :: rest => do return (← inl item) :: (← inlineItems rest)

def inlineFields (inlKeyword : String → Json → Option Json) : Fields → Option Fields
  | [] => some []
  | (key, value) :: rest => do
    return (key, ← inlKeyword key value) :: (← inlineFields inlKeyword rest)

/-- A reference keeps its keyword, with the inlined target as its value. -/
def inlineKeyword (target : String → Option Json) (keyword : String) (value : Json) :
    Option Json :=
  if keyword = "$ref" then
    match value with
    | .str reference => (target reference).bind inl
    | _ => none
  else if keyword ∈ schemaKeywords then inl value
  else if keyword ∈ schemaListKeywords then
    match value with
    | .arr items => (inlineItems inl items).map .arr
    | _ => some value
  else if keyword ∈ schemaMapKeywords then
    match value with
    | .obj fields => (inlineFields (fun _ => inl) fields).map .obj
    | _ => some value
  else some value

end Keywords

/-- The inlined schema; `none` when the fuel runs out or a reference has no target. -/
def inline (target : String → Option Json) : ℕ → Json → Option Json
  | 0, _ => none
  | fuel + 1, .obj fields =>
    (inlineFields (inlineKeyword (inline target fuel) target) fields).map .obj
  | _ + 1, schema => some schema

/-- The schema inlines to a finite schema: its references resolve and none leads back to itself. -/
def Inlines (target : String → Option Json) (schema inlined : Json) : Prop :=
  ∃ fuel, inline target fuel schema = some inlined

section Lookup
variable {inl : Json → Option Json} {target : String → Option Json}

theorem inlineFields_field? {inlKeyword : String → Json → Option Json} {fs fs' : Fields}
    (h : inlineFields inlKeyword fs = some fs') (k : String) :
    Option.Rel (fun v v' => inlKeyword k v = some v') (field? k fs) (field? k fs') := by
  induction fs generalizing fs' with
  | nil =>
    obtain rfl : [] = fs' := by simpa [inlineFields] using h
    exact .none
  | cons p rest ih =>
    obtain ⟨l, v⟩ := p
    simp only [inlineFields, Option.bind_eq_bind, Option.bind_eq_some_iff, Option.pure_def,
      Option.some.injEq] at h
    obtain ⟨v', hv', rest', hrest', rfl⟩ := h
    by_cases hk : l = k
    · subst hk
      simpa using hv'
    · simpa [hk] using ih hrest'

theorem inlineItems_forall₂ {items items' : List Json} (h : inlineItems inl items = some items') :
    List.Forall₂ (fun v v' => inl v = some v') items items' := by
  induction items generalizing items' with
  | nil =>
    obtain rfl : [] = items' := by simpa [inlineItems] using h
    exact .nil
  | cons item rest ih =>
    simp only [inlineItems, Option.bind_eq_bind, Option.bind_eq_some_iff, Option.pure_def,
      Option.some.injEq] at h
    obtain ⟨v', hv', rest', hrest', rfl⟩ := h
    exact .cons hv' (ih hrest')

/-- The two schema objects have the same keywords, the second with inlined values. -/
def InlinedFields (target : String → Option Json) (fuel : ℕ) (fs fs' : Fields) : Prop :=
  ∀ k, Option.Rel (fun v v' => inlineKeyword (inline target fuel) target k v = some v')
    (field? k fs) (field? k fs')

theorem inlined_obj {fuel : ℕ} {fs : Fields} {s' : Json}
    (h : inline target fuel (.obj fs) = some s') :
    ∃ n fs', fuel = n + 1 ∧ s' = .obj fs' ∧ InlinedFields target n fs fs' := by
  cases fuel with
  | zero => simp [inline] at h
  | succ n =>
    simp only [inline, Option.map_eq_some_iff] at h
    obtain ⟨fs', hfs', rfl⟩ := h
    exact ⟨n, fs', rfl, rfl, inlineFields_field? hfs'⟩

theorem inline_of_not_obj {fuel : ℕ} {s s' : Json} (hs : ∀ fields, s ≠ .obj fields)
    (h : inline target fuel s = some s') : s' = s := by
  cases fuel with
  | zero => simp [inline] at h
  | succ n =>
    cases s with
    | obj fields => exact absurd rfl (hs fields)
    | _ => simpa [inline, eq_comm] using h

theorem inlines_bool (b : Bool) : Inlines target (.bool b) (.bool b) := ⟨1, rfl⟩

section Fields
variable {fuel : ℕ} {fs fs' : Fields}

theorem InlinedFields.isSome (h : InlinedFields target fuel fs fs') (k : String) :
    (field? k fs').isSome = (field? k fs).isSome := by
  have hk := h k
  generalize field? k fs = v at hk
  generalize field? k fs' = v' at hk
  cases hk <;> rfl

theorem InlinedFields.of_some (h : InlinedFields target fuel fs fs') {k : String} {v : Json}
    (hv : field? k fs = some v) :
    ∃ v', field? k fs' = some v' ∧ inlineKeyword (inline target fuel) target k v = some v' := by
  have hk := h k
  rw [hv] at hk
  generalize field? k fs' = v' at hk
  cases hk with
  | some hv' => exact ⟨_, rfl, hv'⟩

theorem InlinedFields.to_some (h : InlinedFields target fuel fs fs') {k : String} {v' : Json}
    (hv' : field? k fs' = some v') :
    ∃ v, field? k fs = some v ∧ inlineKeyword (inline target fuel) target k v = some v' := by
  have hk := h k
  rw [hv'] at hk
  generalize field? k fs = v at hk
  cases hk with
  | some hv => exact ⟨_, rfl, hv⟩

theorem InlinedFields.leaf (h : InlinedFields target fuel fs fs') {k : String}
    (hk : k ∉ "$ref" :: schemaKeywords ++ schemaListKeywords ++ schemaMapKeywords) :
    field? k fs' = field? k fs := by
  have hrel := h k
  simp only [List.mem_append, List.mem_cons, not_or] at hk
  generalize field? k fs = v at hrel
  generalize field? k fs' = v' at hrel
  cases hrel with
  | none => rfl
  | some hv =>
    unfold inlineKeyword at hv
    rw [if_neg hk.1.1.1, if_neg hk.1.1.2, if_neg hk.1.2, if_neg hk.2] at hv
    exact hv.symm

theorem inlineKeyword_ref {v v' : Json} (h : inlineKeyword inl target "$ref" v = some v') :
    ∃ reference t, v = .str reference ∧ target reference = some t ∧ inl t = some v' := by
  unfold inlineKeyword at h
  rw [if_pos rfl] at h
  cases v with
  | str reference =>
    simp only [Option.bind_eq_some_iff] at h
    obtain ⟨t, ht, hv'⟩ := h
    exact ⟨reference, t, rfl, ht, hv'⟩
  | _ => simp at h

theorem inlineKeyword_schema {k : String} {v v' : Json} (hk : k ∈ schemaKeywords)
    (h : inlineKeyword inl target k v = some v') : inl v = some v' := by
  have hne : k ≠ "$ref" := by rintro rfl; simp [schemaKeywords] at hk
  unfold inlineKeyword at h
  rwa [if_neg hne, if_pos hk] at h

theorem inlineKeyword_list {k : String} {v v' : Json} (hk : k ∈ schemaListKeywords)
    (h : inlineKeyword inl target k v = some v') :
    (∃ items items', v = .arr items ∧ v' = .arr items' ∧
      List.Forall₂ (fun s s' => inl s = some s') items items') ∨
      ((∀ items, v ≠ .arr items) ∧ v' = v) := by
  have hlist : ∀ k ∈ schemaListKeywords, k ≠ "$ref" ∧ k ∉ schemaKeywords := by decide
  have hne := hlist k hk
  unfold inlineKeyword at h
  rw [if_neg hne.1, if_neg hne.2, if_pos hk] at h
  cases v with
  | arr items =>
    simp only [Option.map_eq_some_iff] at h
    obtain ⟨items', hitems, rfl⟩ := h
    exact .inl ⟨items, items', rfl, rfl, inlineItems_forall₂ hitems⟩
  | _ => exact .inr ⟨by simp, by simpa [eq_comm] using h⟩

theorem inlineKeyword_map {k : String} {v v' : Json} (hk : k ∈ schemaMapKeywords)
    (h : inlineKeyword inl target k v = some v') :
    (∃ ps ps', v = .obj ps ∧ v' = .obj ps' ∧
      ∀ name, Option.Rel (fun s s' => inl s = some s') (field? name ps) (field? name ps')) ∨
      ((∀ ps, v ≠ .obj ps) ∧ v' = v) := by
  have hmap : ∀ k ∈ schemaMapKeywords,
      k ≠ "$ref" ∧ k ∉ schemaKeywords ∧ k ∉ schemaListKeywords := by decide
  have hne := hmap k hk
  unfold inlineKeyword at h
  rw [if_neg hne.1, if_neg hne.2.1, if_neg hne.2.2, if_pos hk] at h
  cases v with
  | obj ps =>
    simp only [Option.map_eq_some_iff] at h
    obtain ⟨ps', hps, rfl⟩ := h
    exact .inl ⟨ps, ps', rfl, rfl, inlineFields_field? hps⟩
  | _ => exact .inr ⟨by simp, by simpa [eq_comm] using h⟩

end Fields
end Lookup

section ReferenceFree
variable {inl : Json → Option Json} {target : String → Option Json}

theorem containsReferenceFields_eq_false_iff {fs : Fields} :
    containsReferenceFields fs = false ↔
      ∀ p ∈ fs, p.1 ≠ "$ref" ∧ containsReference p.2 = false := by
  induction fs with
  | nil => simp [containsReferenceFields]
  | cons p rest ih =>
    obtain ⟨k, v⟩ := p
    simp [containsReferenceFields, ih, and_assoc]

theorem containsReferenceItems_eq_false_iff {items : List Json} :
    containsReferenceItems items = false ↔ ∀ item ∈ items, containsReference item = false := by
  induction items with
  | nil => simp [containsReferenceItems]
  | cons item rest ih => simp [containsReferenceItems, ih]

theorem containsReference_part {s c : Json} (h : containsReference s = false) (hc : c ∈ s.parts) :
    containsReference c = false := by
  cases s with
  | arr items => exact containsReferenceItems_eq_false_iff.mp h c hc
  | obj fs =>
    obtain ⟨p, hp, rfl⟩ := List.mem_map.mp hc
    exact (containsReferenceFields_eq_false_iff.mp h p hp).2
  | _ => simp [parts] at hc

theorem inlineItems_eq_self {items items' : List Json}
    (hself : ∀ c ∈ items, ∀ c', inl c = some c' → c' = c) (h : inlineItems inl items = some items') :
    items' = items := by
  have hall := inlineItems_forall₂ h
  clear h
  induction hall with
  | nil => rfl
  | @cons c c' rest rest' hc _ ih =>
    rw [hself c List.mem_cons_self c' hc, ih fun d hd => hself d (List.mem_cons_of_mem c hd)]

theorem inlineFields_eq_self {inlKeyword : String → Json → Option Json} {fs fs' : Fields}
    (hself : ∀ p ∈ fs, ∀ v', inlKeyword p.1 p.2 = some v' → v' = p.2)
    (h : inlineFields inlKeyword fs = some fs') : fs' = fs := by
  induction fs generalizing fs' with
  | nil => simpa [inlineFields, eq_comm] using h
  | cons p rest ih =>
    obtain ⟨k, v⟩ := p
    simp only [inlineFields, Option.bind_eq_bind, Option.bind_eq_some_iff, Option.pure_def,
      Option.some.injEq] at h
    obtain ⟨v', hv', rest', hrest', rfl⟩ := h
    rw [hself (k, v) List.mem_cons_self v' hv',
      ih (fun q hq => hself q (List.mem_cons_of_mem _ hq)) hrest']

theorem inlineKeyword_eq_self {k : String} {v v' : Json} (hk : k ≠ "$ref")
    (hself : ∀ c, c = v ∨ c ∈ v.parts → ∀ c', inl c = some c' → c' = c)
    (h : inlineKeyword inl target k v = some v') : v' = v := by
  by_cases hschema : k ∈ schemaKeywords
  · exact hself v (.inl rfl) v' (inlineKeyword_schema hschema h)
  by_cases hlist : k ∈ schemaListKeywords
  · unfold inlineKeyword at h
    rw [if_neg hk, if_neg hschema, if_pos hlist] at h
    cases v with
    | arr items =>
      obtain ⟨items', hitems, rfl⟩ := Option.map_eq_some_iff.mp h
      have hparts : ∀ c ∈ items, ∀ c', inl c = some c' → c' = c := fun c hc => hself c (.inr hc)
      rw [inlineItems_eq_self hparts hitems]
    | _ => simpa [eq_comm] using h
  by_cases hmap : k ∈ schemaMapKeywords
  · unfold inlineKeyword at h
    rw [if_neg hk, if_neg hschema, if_neg hlist, if_pos hmap] at h
    cases v with
    | obj fs =>
      obtain ⟨fs', hfs, rfl⟩ := Option.map_eq_some_iff.mp h
      rw [inlineFields_eq_self (fun p hp => hself p.2 (.inr (List.mem_map_of_mem hp))) hfs]
    | _ => simpa [eq_comm] using h
  unfold inlineKeyword at h
  rw [if_neg hk, if_neg hschema, if_neg hlist, if_neg hmap] at h
  exact (Option.some.inj h).symm

/-- A schema without references is its own inlining. -/
theorem inlines_eq_self {s s' : Json} (hs : containsReference s = false)
    (h : Inlines target s s') : s' = s := by
  obtain ⟨fuel, h⟩ := h
  induction fuel generalizing s s' with
  | zero => simp [inline] at h
  | succ n ih =>
    by_cases hobj : ∃ fs, s = .obj fs
    · obtain ⟨fs, rfl⟩ := hobj
      simp only [inline, Option.map_eq_some_iff] at h
      obtain ⟨fs', hfs, rfl⟩ := h
      rw [inlineFields_eq_self (fun p hp v' hv' => ?_) hfs]
      obtain ⟨hne, hfree⟩ := containsReferenceFields_eq_false_iff.mp hs p hp
      refine inlineKeyword_eq_self hne (fun c hc c' hc' => ?_) hv'
      rcases hc with rfl | hc
      · exact ih hfree hc'
      · exact ih (containsReference_part hfree hc) hc'
    · exact inline_of_not_obj (not_exists.mp hobj) h

theorem inlineItems_self {items : List Json} (h : ∀ c ∈ items, inl c = some c) :
    inlineItems inl items = some items := by
  induction items with
  | nil => rfl
  | cons c rest ih =>
    simp [inlineItems, h c List.mem_cons_self, ih fun d hd => h d (List.mem_cons_of_mem c hd)]

theorem inlineFields_self {inlKeyword : String → Json → Option Json} {fs : Fields}
    (h : ∀ p ∈ fs, inlKeyword p.1 p.2 = some p.2) : inlineFields inlKeyword fs = some fs := by
  induction fs with
  | nil => rfl
  | cons p rest ih =>
    obtain ⟨k, v⟩ := p
    have hv := h (k, v) List.mem_cons_self
    simp only at hv
    simp [inlineFields, hv, ih fun q hq => h q (List.mem_cons_of_mem _ hq)]

theorem inlineKeyword_self {k : String} {v : Json} (hk : k ≠ "$ref")
    (h : ∀ c, c = v ∨ c ∈ v.parts → inl c = some c) : inlineKeyword inl target k v = some v := by
  by_cases hschema : k ∈ schemaKeywords
  · unfold inlineKeyword
    rw [if_neg hk, if_pos hschema]
    exact h v (.inl rfl)
  by_cases hlist : k ∈ schemaListKeywords
  · unfold inlineKeyword
    rw [if_neg hk, if_neg hschema, if_pos hlist]
    cases v with
    | arr items =>
      have hparts : ∀ c ∈ items, inl c = some c := fun c hc => h c (.inr hc)
      simp [inlineItems_self hparts]
    | _ => rfl
  by_cases hmap : k ∈ schemaMapKeywords
  · unfold inlineKeyword
    rw [if_neg hk, if_neg hschema, if_neg hlist, if_pos hmap]
    cases v with
    | obj fs =>
      simp only
      rw [inlineFields_self fun p hp => h p.2 (.inr (List.mem_map_of_mem hp))]
      rfl
    | _ => rfl
  unfold inlineKeyword
  rw [if_neg hk, if_neg hschema, if_neg hlist, if_neg hmap]

theorem sizeOf_part_lt {s c : Json} (h : c ∈ s.parts) : sizeOf c < sizeOf s := by
  cases s with
  | arr items =>
    have hitem : sizeOf c < sizeOf items := List.sizeOf_lt_of_mem h
    simp only [Json.arr.sizeOf_spec]
    omega
  | obj fs =>
    obtain ⟨⟨k, v⟩, hp, rfl⟩ := List.mem_map.mp h
    have hitem := List.sizeOf_lt_of_mem hp
    simp only [Json.obj.sizeOf_spec, Prod.mk.sizeOf_spec] at hitem ⊢
    omega
  | _ => simp [parts] at h

theorem inlines_self {s : Json} (hs : containsReference s = false) : Inlines target s s := by
  suffices h : ∀ n (s : Json), containsReference s = false → sizeOf s < n →
      inline target n s = some s from ⟨_, h _ s hs (Nat.lt_succ_self _)⟩
  intro n
  induction n with
  | zero => exact fun s _ h => absurd h (Nat.not_lt_zero _)
  | succ n ih =>
    intro s hs hsize
    cases s with
    | obj fs =>
      rw [inline, inlineFields_self fun p hp => ?_]
      · rfl
      · obtain ⟨hne, hfree⟩ := containsReferenceFields_eq_false_iff.mp hs p hp
        have hvalue : sizeOf p.2 < sizeOf (Json.obj fs) := sizeOf_part_lt (List.mem_map_of_mem hp)
        refine inlineKeyword_self hne fun c hc => ?_
        rcases hc with rfl | hc
        · exact ih _ hfree (by omega)
        · have hpart := sizeOf_part_lt hc
          exact ih c (containsReference_part hfree hc) (by omega)
    | _ => rfl

end ReferenceFree

end CapabilityCompiler.Contracts
