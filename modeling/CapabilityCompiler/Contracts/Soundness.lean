import CapabilityCompiler.Contracts.ReferenceFree

/-! When a proven comparison means containment, and how it fails to. -/
namespace CapabilityCompiler.Contracts
open Foundation Foundation.Json Foundation.Search

/-- None of the comparator's unsound shortcuts is taken between two schema objects without
references: they are not equal as dictionaries and yet different as JSON, nothing stands beside a
right `allOf`, and object and array keywords of an untyped right side are not passed over. -/
structure PlainlyClear (l r : Fields) : Prop where
  equal : pyEqual (.obj l) (.obj r) = true → jsonEqual (.obj l) (.obj r) = true
  siblings : Compared l r → unionBranches? l = none →
    ∀ branches, field? "allOf" r = some (.arr branches) →
      keywordsOutside ("allOf" :: annotationKeywords) r = []
  typed : Structural l r → types l = none → types r = none →
    ∀ k ∈ structuralKeywords, hasKey k r = false

def PlainlyClearRun (isValid : Json → Json → Bool) (left right : Json) : Prop :=
  ∀ c l r, (compareProblem isValid left right).Reaches (comparison left right) c →
    c.left.schema = .obj l → c.right.schema = .obj r → PlainlyClear l r

theorem PlainlyClear.clear {leftRoot rightRoot : Json} {l r : Fields} (h : PlainlyClear l r)
    (hl : containsReference (.obj l) = false) (hr : containsReference (.obj r) = false) :
    Clear id leftRoot rightRoot l r where
  equal hequal left' right' hleft hright := by
    rw [inlines_eq_self hl hleft, inlines_eq_self hr hright]
    exact h.equal hequal
  siblings := h.siblings
  typed := h.typed
  const hstructural a b ha := by
    have hnone : candidates? l = none := by simpa [hl, hr] using hstructural.infinite
    simp [candidates?, ha] at hnone
  enum hstructural as bs has := by
    have hnone : candidates? l = none := by simpa [hl, hr] using hstructural.infinite
    unfold candidates? at hnone
    cases hconst : field? "const" l <;> simp [hconst, has] at hnone
  left_plain text hsome := by
    have hnone := hasKey_ref_of_reference_free hl
    simp [hasKey, hsome] at hnone
  right_plain text hsome := by
    have hnone := hasKey_ref_of_reference_free hr
    simp [hasKey, hsome] at hnone

theorem PlainlyClearRun.clearRun {isValid : Json → Json → Bool} {left right : Json}
    (h : PlainlyClearRun isValid left right) (hleft : containsReference left = false)
    (hright : containsReference right = false) : ClearRun isValid id left right := by
  intro c l r hreached hl hr
  have hok := freeOk_of_reaches hleft hright hreached
  exact (h c l r hreached hl hr).clear (hok.left_ok.reference_free hleft hl)
    (hok.right_ok.reference_free hright hr)

/-- A vocabulary without any further keyword. -/
def coreVocabulary : Vocabulary where
  patternMatches _ _ := false
  others _ _ := true
  others_congr _ _ _ _ _ _ := rfl
  others_silent _ _ _ := rfl

/-- A schema pair that is proven although the instance tells the schemas apart. -/
def WronglyProven (left right i : Json) : Prop :=
  (compareOperationInput (valid coreVocabulary) left right).relation = .proven ∧
    valid coreVocabulary left i = true ∧ valid coreVocabulary right i = false

instance (left right i : Json) : Decidable (WronglyProven left right i) :=
  inferInstanceAs (Decidable (_ ∧ _))

/-- Between schemas whose references can be inlined, a proven comparison is a containment of the
inlined schemas. -/
theorem compareSubset_sound (V : Vocabulary) {decode : String → String}
    (hdecode : DecodesPercent decode) {left right left' right' : Json}
    (hleft : Inlines (localTarget decode left) left left')
    (hright : Inlines (localTarget decode right) right right')
    (hclear : ClearRun (valid V) decode left right) (hclean : NoClosedHit (valid V) left right)
    (hproven : (compareSubset (valid V) left right).relation = .proven) :
    ∀ i, valid V left' i = true → valid V right' i = true :=
  contained_of_proven hdecode hclear hclean ⟨left', hleft⟩ ⟨right', hright⟩ hproven left' right'
    hleft hright

/-- Definitions under different names are compared by what they say. -/
theorem compareSubset_sound_definitions :
    let left := Json.obj [("$defs", .obj [("count", .obj [("type", .str "integer")])]),
      ("type", .str "object"), ("properties", .obj [("n", .obj [("$ref", .str "#/$defs/count")])])]
    let right := Json.obj [("$defs", .obj [("amount", .obj [("type", .str "number")])]),
      ("type", .str "object"), ("properties", .obj [("n", .obj [("$ref", .str "#/$defs/amount")])])]
    ∃ left' right', Inlines (localTarget id left) left left' ∧
      Inlines (localTarget id right) right right' ∧
      ∀ i, valid coreVocabulary left' i = true → valid coreVocabulary right' i = true := by
  intro left right
  have hclear : ClearRun (valid coreVocabulary) id left right := by
    intro c l r hreached hl hr
    have hmem := hreached.mem_of_closed [comparison left right,
      ⟨⟨[.key "properties", .key "n"], .obj [("$ref", .str "#/$defs/count")]⟩,
        ⟨[.key "properties", .key "n"], .obj [("$ref", .str "#/$defs/amount")]⟩, "/properties/n"⟩,
      ⟨⟨[.key "$defs", .key "count"], .obj [("type", .str "integer")]⟩,
        ⟨[.key "$defs", .key "amount"], .obj [("type", .str "number")]⟩, "/properties/n"⟩]
      (by decide) (by decide)
    have hplain : '%' ∉ "#/$defs/count".toList ∧ '%' ∉ "#/$defs/amount".toList := by decide
    simp only [List.mem_cons, List.not_mem_nil, or_false] at hmem
    rcases hmem with rfl | rfl | rfl
    all_goals
      obtain rfl := Json.obj.inj hl
      obtain rfl := Json.obj.inj hr
      refine ⟨fun h => absurd h (by decide), fun _ _ _ h => absurd h (by simp), fun _ h => ?_,
        fun _ _ _ h => absurd h (by simp), fun _ _ _ h => absurd h (by simp), ?_, ?_⟩
    · exact absurd h (by decide)
    · intro text htext
      simp at htext
    · intro text htext
      simp at htext
    · intro _ k hk
      revert k hk
      decide
    · intro text htext
      obtain rfl : "#/$defs/count" = text := by simpa using htext
      exact hplain.1
    · intro text htext
      obtain rfl : "#/$defs/amount" = text := by simpa using htext
      exact hplain.2
    · exact absurd h (by decide)
    · intro text htext
      simp at htext
    · intro text htext
      simp at htext
  refine ⟨_, _, ⟨4, rfl⟩, ⟨4, rfl⟩, ?_⟩
  have hdecode : DecodesPercent id := fun _ _ => rfl
  exact compareSubset_sound coreVocabulary hdecode ⟨4, rfl⟩ ⟨4, rfl⟩ hclear
    (by decide) (by decide)

/-- Two equal references to different definitions are taken for equal schemas; and a pair that was
refuted under one branch of a left `allOf` is taken as proven under the next. -/
theorem compareSubset_unsound :
    let text := Json.obj [("type", .str "string")]
    let number := Json.obj [("type", .str "integer")]
    let record := fun (name : String) =>
      [("type", Json.str "object"), ("properties", .obj [("p", .obj [("$ref", .str name)])])]
    let left := Json.obj (("$defs", .obj [("x", text)]) :: record "#/$defs/x")
    let right := Json.obj (("$defs", .obj [("x", number)]) :: record "#/$defs/x")
    let branches := Json.obj [("$defs", .obj [("x", text)]),
      ("allOf", .arr [.obj (record "#/$defs/x"), .obj (record "#/$defs/x")])]
    let declared := Json.obj (("$defs", .obj [("y", number)]) :: record "#/$defs/y")
    let inlined := fun (target : Json) => [("type", Json.str "object"),
      ("properties", .obj [("p", .obj [("$ref", target)])])]
    let i := Json.obj [("p", .str "a")]
    ((compareSubset (valid coreVocabulary) left right).relation = .proven ∧
      Inlines (localTarget id left) left (.obj (("$defs", .obj [("x", text)]) :: inlined text)) ∧
      Inlines (localTarget id right) right
        (.obj (("$defs", .obj [("x", number)]) :: inlined number)) ∧
      valid coreVocabulary (.obj (("$defs", .obj [("x", text)]) :: inlined text)) i = true ∧
      valid coreVocabulary (.obj (("$defs", .obj [("x", number)]) :: inlined number)) i = false) ∧
    ((compareSubset (valid coreVocabulary) branches declared).relation = .proven ∧
      Inlines (localTarget id branches) branches (.obj [("$defs", .obj [("x", text)]),
        ("allOf", .arr [.obj (inlined text), .obj (inlined text)])]) ∧
      Inlines (localTarget id declared) declared
        (.obj (("$defs", .obj [("y", number)]) :: inlined number)) ∧
      valid coreVocabulary (.obj [("$defs", .obj [("x", text)]),
        ("allOf", .arr [.obj (inlined text), .obj (inlined text)])]) i = true ∧
      valid coreVocabulary (.obj (("$defs", .obj [("y", number)]) :: inlined number)) i = false) := by
  refine ⟨⟨by decide, ⟨4, rfl⟩, ⟨4, rfl⟩, by decide, by decide⟩,
    ⟨by decide, ⟨5, rfl⟩, ⟨4, rfl⟩, by decide, by decide⟩⟩

end CapabilityCompiler.Contracts
