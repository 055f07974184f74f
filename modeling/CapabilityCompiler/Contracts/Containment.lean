import CapabilityCompiler.Contracts.Branches
import Mathlib.Order.Nat
import Mathlib.Order.ConditionallyCompletePartialOrder.Defs

/-! A proven comparison is sound wherever it does not take one of its unsound shortcuts. -/
namespace CapabilityCompiler.Contracts
open Foundation Foundation.Json Foundation.Search

/-- The part of a document at a position. -/
def at? : Json → Node → Option Json
  | value, [] => some value
  | .obj fields, .key name :: rest => (field? name fields).bind fun v => at? v rest
  | .arr items, .index n :: rest => items[n]?.bind fun v => at? v rest
  | _, _ :: _ => none

theorem at?_append {root s : Json} {node : Node} (h : at? root node = some s) (rest : Node) :
    at? root (node ++ rest) = at? s rest := by
  induction node generalizing root with
  | nil =>
    obtain rfl : root = s := by simpa [at?] using h
    rfl
  | cons step node ih =>
    cases root <;> cases step <;> simp only [at?, List.cons_append, reduceCtorEq] at h ⊢
    · obtain ⟨v, hv, hrest⟩ := Option.bind_eq_some_iff.mp h
      rw [hv, Option.bind_some, ih hrest]
    · obtain ⟨v, hv, hrest⟩ := Option.bind_eq_some_iff.mp h
      rw [hv, Option.bind_some, ih hrest]

def Inlinable (target : String → Option Json) (schema : Json) : Prop :=
  ∃ inlined, Inlines target schema inlined

open Classical in
/-- The least depth of an inlining of a schema object, and 0 for other schemas. -/
noncomputable def rankOf (target : String → Option Json) : Json → ℕ
  | .obj fields =>
    if h : ∃ n, (inline target n (.obj fields)).isSome = true then Nat.find h else 0
  | _ => 0

section Rank
variable {target : String → Option Json} {fields : Fields}

theorem rankOf_le {s s' : Json} {n : ℕ} (h : inline target n s = some s') : rankOf target s ≤ n := by
  cases s with
  | obj fields =>
    have hex : ∃ n, (inline target n (.obj fields)).isSome = true := ⟨n, by rw [h]; rfl⟩
    rw [rankOf, dif_pos hex]
    exact Nat.find_min' hex (by rw [h]; rfl)
  | _ => exact Nat.zero_le n

theorem inlined_at_rank (h : Inlinable target (.obj fields)) :
    ∃ n fields', rankOf target (.obj fields) = n + 1 ∧ InlinedFields target n fields fields' := by
  obtain ⟨s', fuel, hfuel⟩ := h
  have hex : ∃ n, (inline target n (.obj fields)).isSome = true := ⟨fuel, by rw [hfuel]; rfl⟩
  obtain ⟨t, ht⟩ := Option.isSome_iff_exists.mp (Nat.find_spec hex)
  obtain ⟨n, fields', hn, -, hfields⟩ := inlined_obj ht
  exact ⟨n, fields', by rw [rankOf, dif_pos hex, hn], hfields⟩

end Rank

/-- A fragment that is where its position says, and whose references can be inlined. -/
structure PlaceOk (root : Json) (target : String → Option Json) (place : Place) : Prop where
  located : ∀ fields, place.schema = .obj fields → at? root place.node = some place.schema
  inlinable : Inlinable target place.schema

/-- A part of a fragment that takes less to inline. -/
structure Below (root : Json) (target : String → Option Json) (place part : Place) : Prop
    extends PlaceOk root target part where
  rank : rankOf target part.schema < rankOf target place.schema

section Parts
variable {root : Json} {target : String → Option Json} {place : Place} {fields : Fields}

private theorem below_of_inline {n : ℕ} {node : Node} {s s' : Json}
    (hobj : place.schema = .obj fields) (hrank : rankOf target (.obj fields) = n + 1)
    (hs : inline target n s = some s') (hat : at? root node = some s) :
    Below root target place ⟨node, s⟩ where
  located _ _ := hat
  inlinable := ⟨s', n, hs⟩
  rank := by
    rw [hobj, hrank]
    exact Nat.lt_succ_of_le (rankOf_le hs)

theorem PlaceOk.branch (hplace : PlaceOk root target place) (hobj : place.schema = .obj fields)
    {keyword : String} (hk : keyword ∈ schemaListKeywords) {branches : List Json}
    (hfield : field? keyword fields = some (.arr branches)) {part : Place}
    (hpart : part ∈ place.branches keyword branches) : Below root target place part := by
  obtain ⟨n, fields', hrank, hfields⟩ := inlined_at_rank (hobj ▸ hplace.inlinable)
  obtain ⟨index, hindex, rfl⟩ := List.mem_mapIdx.mp hpart
  obtain ⟨v', -, hinl⟩ := hfields.of_some hfield
  rcases inlineKeyword_list hk hinl with ⟨items, items', hitems, -, hall⟩ | ⟨hne, -⟩
  · obtain rfl := Json.arr.inj hitems
    have hlt : index < items'.length := hall.length_eq ▸ hindex
    refine below_of_inline hobj hrank (hall.get hindex hlt) ?_
    rw [at?_append (hplace.located fields hobj), hobj]
    simp [at?, hfield, hindex]
  · exact absurd rfl (hne branches)

theorem field?_of_propertiesOf {ps : Fields} (hps : propertiesOf fields = .obj ps) {name : String}
    {s : Json} (hs : field? name ps = some s) : field? "properties" fields = some (.obj ps) := by
  unfold propertiesOf at hps
  cases hf : field? "properties" fields with
  | none =>
    obtain rfl : [] = ps := by simpa [hf] using hps
    simp at hs
  | some v => rw [← hps, hf]; rfl

theorem PlaceOk.property (hplace : PlaceOk root target place) (hobj : place.schema = .obj fields)
    {ps : Fields} (hps : propertiesOf fields = .obj ps) {name : String} {s : Json}
    (hs : field? name ps = some s) : Below root target place (place.property name s) := by
  obtain ⟨n, fields', hrank, hfields⟩ := inlined_at_rank (hobj ▸ hplace.inlinable)
  have hfield := field?_of_propertiesOf hps hs
  obtain ⟨v', -, hinl⟩ := hfields.of_some hfield
  rcases inlineKeyword_map (by decide) hinl with ⟨qs, qs', hqs, -, hnames⟩ | ⟨hne, -⟩
  · obtain rfl := Json.obj.inj hqs
    have hname := hnames name
    rw [hs] at hname
    generalize field? name qs' = s' at hname
    cases hname with
    | some hinl' =>
      refine below_of_inline hobj hrank hinl' ?_
      rw [Place.child, List.append_assoc, at?_append (hplace.located fields hobj), hobj]
      simp [at?, hfield, hs]
  · exact absurd rfl (hne ps)

theorem PlaceOk.subschema (hplace : PlaceOk root target place) (hobj : place.schema = .obj fields)
    {keyword : String} (hk : keyword ∈ schemaKeywords) :
    Below root target place (place.subschema fields keyword) := by
  obtain ⟨n, fields', hrank, hfields⟩ := inlined_at_rank (hobj ▸ hplace.inlinable)
  unfold Place.subschema subschemaOf
  cases hfield : field? keyword fields with
  | none =>
    refine ⟨⟨by simp [Place.child], ⟨.bool true, inlines_bool true⟩⟩, ?_⟩
    rw [hobj, hrank]
    exact Nat.succ_pos n
  | some s =>
    obtain ⟨v', -, hinl⟩ := hfields.of_some hfield
    refine below_of_inline hobj hrank (inlineKeyword_schema hk hinl) ?_
    rw [at?_append (hplace.located fields hobj), hobj]
    simp [at?, hfield]

theorem PlaceOk.propertyOrAdditional (hplace : PlaceOk root target place)
    (hobj : place.schema = .obj fields) {ps : Fields} (hps : propertiesOf fields = .obj ps)
    (name : String) : Below root target place (place.propertyOrAdditional fields ps name) := by
  unfold Place.propertyOrAdditional
  cases hs : field? name ps with
  | some s => exact hplace.property hobj hps hs
  | none => exact hplace.subschema hobj (by decide)

theorem lookupTokens_eq_some {root v : Json} {tokens : List String}
    (h : lookupTokens root tokens = some v) :
    pointerTarget root tokens = some v ∧ at? root (tokens.map .key) = some v := by
  induction tokens generalizing root with
  | nil => exact ⟨h, h⟩
  | cons token rest ih =>
    cases root with
    | obj fields =>
      obtain ⟨w, hw, hrest⟩ := Option.bind_eq_some_iff.mp h
      obtain ⟨htarget, hat⟩ := ih hrest
      simp [pointerTarget, at?, hw, htarget, hat]
    | _ => simp [lookupTokens] at h

/-- Decoding leaves a text without percent signs as it is. -/
def DecodesPercent (decode : String → String) : Prop := ∀ s, '%' ∉ s.toList → decode s = s

/-- What the comparator resolves is the target of the reference, unless it is percent-encoded. -/
theorem resolveLocalRef_eq_some {decode : String → String} (hdecode : DecodesPercent decode)
    {reference : String} (hplain : '%' ∉ reference.toList) {part : Place}
    (h : resolveLocalRef root (.str reference) = some part) :
    localTarget decode root reference = some part.schema ∧
      at? root part.node = some part.schema := by
  simp only [resolveLocalRef, Option.bind_eq_some_iff] at h
  obtain ⟨tokens, htokens, hpart⟩ := h
  obtain ⟨rest, hrest, rfl⟩ := Option.map_eq_some_iff.mp htokens
  have hchars := Text.dropPrefix?_eq_some hrest
  split at hpart
  next => simp at hpart
  next => simp at hpart
  next t hlookup =>
    obtain rfl := Option.some.inj hpart
    obtain ⟨htarget, hat⟩ := lookupTokens_eq_some hlookup
    refine ⟨?_, hat⟩
    have hfragment : Text.dropPrefix? ['#'] reference.toList = some ('/' :: rest) := by
      rw [hchars]
      simp [Text.dropPrefix?]
    have hdecoded : decode (String.ofList ('/' :: rest)) = String.ofList ('/' :: rest) := by
      refine hdecode _ fun hmem => hplain ?_
      rw [hchars]
      simpa using hmem
    simp only [localTarget, hfragment, Option.bind_some, hdecoded, String.toList_ofList]
    simpa [Text.splitChars] using htarget

theorem PlaceOk.resolve {decode : String → String} (hdecode : DecodesPercent decode)
    (hplace : PlaceOk root (localTarget decode root) place) (hobj : place.schema = .obj fields)
    (hplain : ∀ text, field? "$ref" fields = some (.str text) → '%' ∉ text.toList) {part : Place}
    (href : hasKey "$ref" fields = true) (hpart : resolvePlace root place fields = some part) :
    Below root (localTarget decode root) place part ∧
      ∀ n fields', InlinedFields (localTarget decode root) n fields fields' →
        ∃ v', field? "$ref" fields' = some v' ∧
          Inlines (localTarget decode root) part.schema v' := by
  obtain ⟨reference, href⟩ := Option.isSome_iff_exists.mp href
  simp only [resolvePlace, href] at hpart
  cases reference with
  | str text =>
    obtain ⟨htarget, hat⟩ := resolveLocalRef_eq_some hdecode (hplain text href) hpart
    have hinlined : ∀ n fields', InlinedFields (localTarget decode root) n fields fields' →
        ∃ v', field? "$ref" fields' = some v' ∧
          inline (localTarget decode root) n part.schema = some v' := by
      intro n fields' hfields
      obtain ⟨v', hv', hinl⟩ := hfields.of_some href
      obtain ⟨text', t, htext, ht, hinl'⟩ := inlineKeyword_ref hinl
      obtain rfl := Json.str.inj htext
      obtain rfl := Option.some.inj (ht.symm.trans htarget)
      exact ⟨v', hv', hinl'⟩
    obtain ⟨n, fields', hrank, hfields⟩ := inlined_at_rank (hobj ▸ hplace.inlinable)
    obtain ⟨v', -, hinl⟩ := hinlined n fields' hfields
    refine ⟨below_of_inline hobj hrank hinl hat, fun n fields' hfields => ?_⟩
    obtain ⟨v', hv', hinl⟩ := hinlined n fields' hfields
    exact ⟨v', hv', n, hinl⟩
  | _ => simp [resolveLocalRef] at hpart

end Parts

theorem resolvePlace_self {root : Json} {place part : Place} {fields : Fields}
    (hnone : hasKey "$ref" fields = false) (h : resolvePlace root place fields = some part) :
    part = place := by
  rw [hasKey, Option.isSome_eq_false_iff, Option.isNone_iff_eq_none] at hnone
  simpa [resolvePlace, hnone, eq_comm] using h

theorem settle_eq_none {c : Comparison} (h : settle c = none) :
    ∃ l r, c.left.schema = .obj l ∧ c.right.schema = .obj r := by
  unfold settle at h
  split_ifs at h
  split at h
  next l r hl hr => exact ⟨l, r, hl, hr⟩
  next => simp at h

theorem goal_notMem_compareConst {l r : Fields} {pointer : String} {c : Comparison} :
    Item.goal c ∉ compareConst l r pointer := by
  unfold compareConst
  split
  · simp
  · split
    · split_ifs <;> simp
    · simp

theorem goal_notMem_compareEnum {l r : Fields} {pointer : String} {c : Comparison} :
    Item.goal c ∉ compareEnum l r pointer := by
  unfold compareEnum
  split
  · simp
  · split_ifs <;> simp
  · simp

theorem goal_mem_compareAssertions {left right : Place} {l r : Fields} {pointer : String}
    {c : Comparison} (h : Item.goal c ∈ compareAssertions left right l r pointer) :
    Item.goal c ∈ compareObjects left right l r pointer ∨
      Item.goal c ∈ compareItems left right l r pointer := by
  unfold compareAssertions at h
  simp only [List.mem_append, List.mem_cons, reduceCtorEq, List.not_mem_nil, or_false, false_or,
    goal_notMem_compareConst, goal_notMem_compareEnum] at h
  rcases h with h | h
  · split_ifs at h
    · exact .inl h
    · simp at h
  · split_ifs at h
    · exact .inr h
    · simp at h

section Steps
variable {leftRoot rightRoot : Json} {leftTarget rightTarget : String → Option Json}
  {left right : Place} {l r : Fields} {pointer : String}

/-- A recursive comparison moves down on at least one side and stays where it is on the other. -/
structure Steps (leftRoot rightRoot : Json) (leftTarget rightTarget : String → Option Json)
    (left right : Place) (c : Comparison) : Prop where
  on_left : Below leftRoot leftTarget left c.left ∨ c.left = left
  on_right : Below rightRoot rightTarget right c.right ∨ c.right = right
  moves : Below leftRoot leftTarget left c.left ∨ Below rightRoot rightTarget right c.right

theorem steps_of_goal_mem_compareObjects (hleft : PlaceOk leftRoot leftTarget left)
    (hright : PlaceOk rightRoot rightTarget right) (hl : left.schema = .obj l)
    (hr : right.schema = .obj r) {c : Comparison}
    (h : Item.goal c ∈ compareObjects left right l r pointer) :
    Steps leftRoot rightRoot leftTarget rightTarget left right c := by
  suffices hboth : Below leftRoot leftTarget left c.left ∧ Below rightRoot rightTarget right c.right
    from ⟨.inl hboth.1, .inl hboth.2, .inl hboth.1⟩
  unfold compareObjects at h
  split at h
  next lps rps hlps hrps =>
    simp only [List.mem_append, List.mem_cons, reduceCtorEq, false_or, mem_compareDeclared,
      mem_compareUndeclared, mem_compareAdditional, Item.goal.injEq, and_false] at h
    rcases h with (⟨name, s, hs, -, rfl⟩ | ⟨name, s, hs, -, -, -, rfl⟩) | ⟨-, -, -, rfl⟩
    · exact ⟨hleft.propertyOrAdditional hl hlps name, hright.property hr hrps hs⟩
    · exact ⟨hleft.property hl hlps hs, hright.subschema hr (by decide)⟩
    · exact ⟨hleft.subschema hl (by decide), hright.subschema hr (by decide)⟩
  next => simp at h

theorem Branch.steps {decode : String → String} (hdecode : DecodesPercent decode)
    {isValid : Json → Json → Bool}
    (hleft : PlaceOk leftRoot (localTarget decode leftRoot) left)
    (hright : PlaceOk rightRoot (localTarget decode rightRoot) right)
    (hl : left.schema = .obj l) (hr : right.schema = .obj r)
    (hlplain : ∀ text, field? "$ref" l = some (.str text) → '%' ∉ text.toList)
    (hrplain : ∀ text, field? "$ref" r = some (.str text) → '%' ∉ text.toList)
    {e : Expansion Comparison RelationReport}
    (he : Branch isValid leftRoot rightRoot left right l r pointer e) {c : Comparison}
    (hc : c ∈ e.goals) :
    Steps leftRoot rightRoot (localTarget decode leftRoot) (localTarget decode rightRoot)
      left right c := by
  cases he with
  | rejected report _ => simp [Expansion.goals] at hc
  | finite => simp [Expansion.goals] at hc
  | reference leftResolved rightResolved hrefs hlres hrres _ _ =>
    obtain rfl := List.mem_singleton.mp hc
    by_cases hlref : hasKey "$ref" l = true
    · have hbelow := (hleft.resolve hdecode hl hlplain hlref hlres).1
      by_cases hrref : hasKey "$ref" r = true
      · exact ⟨.inl hbelow, .inl (hright.resolve hdecode hr hrplain hrref hrres).1, .inl hbelow⟩
      · exact ⟨.inl hbelow, .inr (resolvePlace_self (by simpa using hrref) hrres), .inl hbelow⟩
    · have hrref := hrefs.resolve_left hlref
      have hbelow := (hright.resolve hdecode hr hrplain hrref hrres).1
      exact ⟨.inr (resolvePlace_self (by simpa using hlref) hlres), .inl hbelow, .inr hbelow⟩
  | leftUnion keyword branches _ hunion =>
    rw [Expansion.goals, mem_itemGoals, List.mem_map] at hc
    obtain ⟨branch, hbranch, hc⟩ := hc
    obtain rfl := Item.goal.inj hc
    obtain ⟨hkeyword, hfield⟩ := unionBranches?_ne hunion
    have hlist : keyword ∈ schemaListKeywords := by
      rcases hkeyword with rfl | rfl <;> decide
    have hbelow := hleft.branch hl hlist hfield hbranch
    exact ⟨.inl hbelow, .inr rfl, .inl hbelow⟩
  | rightAll branches _ _ hfield =>
    rw [Expansion.goals, mem_itemGoals, List.mem_map] at hc
    obtain ⟨branch, hbranch, hc⟩ := hc
    obtain rfl := Item.goal.inj hc
    have hbelow := hright.branch hr (by decide) hfield hbranch
    exact ⟨.inr rfl, .inl hbelow, .inr hbelow⟩
  | leftAll branches failure _ hfield _ =>
    rw [Expansion.goals, List.mem_map] at hc
    obtain ⟨branch, hbranch, rfl⟩ := hc
    have hbelow := hleft.branch hl (by decide) hfield hbranch
    exact ⟨.inl hbelow, .inr rfl, .inl hbelow⟩
  | assertions _ =>
    rw [Expansion.goals, mem_itemGoals] at hc
    rcases goal_mem_compareAssertions hc with hc | hc
    · exact steps_of_goal_mem_compareObjects hleft hright hl hr hc
    · obtain rfl := Item.goal.inj (List.mem_singleton.mp hc)
      have hitems : "items" ∈ schemaKeywords := by decide
      have hbelow := hleft.subschema hl hitems
      exact ⟨.inl hbelow, .inl (hright.subschema hr hitems), .inl hbelow⟩

end Steps

section Branches
variable {V : Vocabulary} {leftTarget rightTarget : String → Option Json} {l r : Fields}

/-- The inlined branches of a combinator. -/
theorem InlinedFields.branches {target : String → Option Json} {n : ℕ} {fs fs' : Fields}
    (h : InlinedFields target n fs fs') {keyword : String} (hk : keyword ∈ schemaListKeywords)
    {branches : List Json} (hfield : field? keyword fs = some (.arr branches)) :
    ∃ branches', field? keyword fs' = some (.arr branches') ∧
      List.Forall₂ (fun b b' => inline target n b = some b') branches branches' := by
  obtain ⟨v', hv', hinl⟩ := h.of_some hfield
  rcases inlineKeyword_list hk hinl with ⟨items, items', hitems, rfl, hall⟩ | ⟨hne, -⟩
  · obtain rfl := Json.arr.inj hitems
    exact ⟨items', hv', hall⟩
  · exact absurd rfl (hne branches)

theorem exists_original {target : String → Option Json} {n : ℕ} {bs bs' : List Json}
    (h : List.Forall₂ (fun b b' => inline target n b = some b') bs bs') {b' : Json}
    (hb' : b' ∈ bs') : ∃ b ∈ bs, Inlines target b b' := by
  induction h with
  | nil => simp at hb'
  | @cons c c' bs bs' hc _ ih =>
    rcases List.mem_cons.mp hb' with rfl | hb'
    · exact ⟨c, List.mem_cons_self, n, hc⟩
    · obtain ⟨b, hb, hinl⟩ := ih hb'
      exact ⟨b, List.mem_cons_of_mem c hb, hinl⟩

theorem exists_inlined {target : String → Option Json} {n : ℕ} {bs bs' : List Json}
    (h : List.Forall₂ (fun b b' => inline target n b = some b') bs bs') {b : Json}
    (hb : b ∈ bs) : ∃ b' ∈ bs', Inlines target b b' := by
  induction h with
  | nil => simp at hb
  | @cons c c' bs bs' hc _ ih =>
    rcases List.mem_cons.mp hb with rfl | hb
    · exact ⟨c', List.mem_cons_self, n, hc⟩
    · obtain ⟨b', hb', hinl⟩ := ih hb
      exact ⟨b', List.mem_cons_of_mem c' hb', hinl⟩

theorem leftUnion_sound {keyword : String} {branches : List Json}
    (hunion : unionBranches? l = some (keyword, branches))
    (h : ∀ b ∈ branches, Contained V leftTarget rightTarget b (.obj r)) :
    Contained V leftTarget rightTarget (.obj l) (.obj r) := by
  rintro left' right' ⟨fuel, hfuel⟩ hright i hvalid
  obtain ⟨n, l', -, rfl, hl⟩ := inlined_obj hfuel
  obtain ⟨hkeyword, hfield⟩ := unionBranches?_ne hunion
  have hlist : keyword ∈ schemaListKeywords := by rcases hkeyword with rfl | rfl <;> decide
  obtain ⟨branches', hfield', hall⟩ := hl.branches hlist hfield
  have hholds := keywordHolds_of_valid hvalid hfield'
  have hsome : ∃ b' ∈ branches', valid V b' i = true := by
    rcases hkeyword with rfl | rfl
    · exact keywordHolds_anyOf_iff.mp hholds
    · exact exists_valid_of_oneOf hholds
  obtain ⟨b', hb', hvalid'⟩ := hsome
  obtain ⟨b, hb, hinl⟩ := exists_original hall hb'
  exact h b hb b' right' hinl hright i hvalid'

theorem leftAll_sound {branches : List Json} (hfield : field? "allOf" l = some (.arr branches))
    {b : Json} (hb : b ∈ branches) (h : Contained V leftTarget rightTarget b (.obj r)) :
    Contained V leftTarget rightTarget (.obj l) (.obj r) := by
  rintro left' right' ⟨fuel, hfuel⟩ hright i hvalid
  obtain ⟨n, l', -, rfl, hl⟩ := inlined_obj hfuel
  obtain ⟨branches', hfield', hall⟩ := hl.branches (by decide) hfield
  obtain ⟨b', hb', hinl⟩ := exists_inlined hall hb
  exact h b' right' hinl hright i
    (keywordHolds_allOf_iff.mp (keywordHolds_of_valid hvalid hfield') b' hb')

/-- A schema object asserts what its only assertion keyword asserts. -/
theorem valid_of_single {fs : Fields} {i : Json} {keyword : String} (hcore : keyword ∈ coreKeywords)
    (hkeys : ∀ k, (field? k fs).isSome = true → k = keyword ∨ k ∈ annotationKeywords)
    (h : ∀ v, field? keyword fs = some v → keywordHolds V fs keyword v i = true) :
    valid V (.obj fs) i = true := by
  have hannotation : annotationKeywords ⊆ coreKeywords := by decide
  refine valid_obj_iff.mpr ⟨V.others_silent _ _ fun k hk => ?_, fun k v hv => ?_⟩
  · rcases hkeys k hk with rfl | hmem
    · exact hcore
    · exact hannotation hmem
  · rcases hkeys k (by rw [hv]; rfl) with rfl | hmem
    · exact h v hv
    · exact keywordHolds_annotation hmem v i

theorem keysOf_keywordsOutside {keyword : String} {fs fs' : Fields} {n : ℕ}
    {target : String → Option Json} (hfs : InlinedFields target n fs fs')
    (h : keywordsOutside (keyword :: annotationKeywords) fs = []) (k : String)
    (hk : (field? k fs').isSome = true) : k = keyword ∨ k ∈ annotationKeywords := by
  rw [hfs.isSome, field?_isSome_iff] at hk
  have hall := List.filter_eq_nil_iff.mp h k hk
  simpa [or_iff_not_imp_left] using hall

theorem rightAll_sound {branches : List Json} (hfield : field? "allOf" r = some (.arr branches))
    (hsiblings : keywordsOutside ("allOf" :: annotationKeywords) r = [])
    (h : ∀ b ∈ branches, Contained V leftTarget rightTarget (.obj l) b) :
    Contained V leftTarget rightTarget (.obj l) (.obj r) := by
  rintro left' right' hleft ⟨fuel, hfuel⟩ i hvalid
  obtain ⟨n, r', -, rfl, hr⟩ := inlined_obj hfuel
  obtain ⟨branches', hfield', hall⟩ := hr.branches (by decide) hfield
  refine valid_of_single (by decide) (keysOf_keywordsOutside hr hsiblings) fun v hv => ?_
  obtain rfl := Option.some.inj (hv.symm.trans hfield')
  refine keywordHolds_allOf_iff.mpr fun b' hb' => ?_
  obtain ⟨b, hb, hinl⟩ := exists_original hall hb'
  exact h b hb left' b' hleft hinl i hvalid

theorem exists_candidate {candidates : List Json} (h : candidates? l = some candidates) {i : Json}
    (hvalid : valid V (.obj l) i = true) : ∃ c ∈ candidates, jsonEqual c i = true := by
  unfold candidates? at h
  split at h
  next value hconst =>
    obtain rfl := Option.some.inj h
    exact ⟨value, List.mem_cons_self, keywordHolds_of_valid hvalid hconst⟩
  next values _ henum =>
    obtain rfl := Option.some.inj h
    exact List.any_eq_true.mp (keywordHolds_of_valid hvalid henum)
  next => simp at h

theorem finite_sound {candidates : List Json} (hcandidates : candidates? l = some candidates)
    (hlfree : containsReference (.obj l) = false) (hrfree : containsReference (.obj r) = false)
    (h : ∀ c ∈ candidates, valid V (.obj l) c = true → valid V (.obj r) c = true) :
    Contained V leftTarget rightTarget (.obj l) (.obj r) := by
  intro left' right' hleft hright i hvalid
  rw [inlines_eq_self hlfree hleft] at hvalid
  rw [inlines_eq_self hrfree hright]
  obtain ⟨c, hc, hci⟩ := exists_candidate hcandidates hvalid
  rw [← valid_congr (jsonEqual_refl _) hci] at hvalid ⊢
  exact h c hc hvalid

end Branches

section References
variable {V : Vocabulary} {decode : String → String} {leftRoot rightRoot : Json}
  {left right : Place} {l r : Fields}

/-- An inlined schema with a reference is as strict as the target on the left. -/
theorem exists_resolved_left (hdecode : DecodesPercent decode)
    (hleft : PlaceOk leftRoot (localTarget decode leftRoot) left) (hl : left.schema = .obj l)
    (hplain : ∀ text, field? "$ref" l = some (.str text) → '%' ∉ text.toList) {part : Place}
    (hpart : resolvePlace leftRoot left l = some part) {left' i : Json}
    (hinl : Inlines (localTarget decode leftRoot) left.schema left')
    (hvalid : valid V left' i = true) :
    ∃ s', Inlines (localTarget decode leftRoot) part.schema s' ∧ valid V s' i = true := by
  by_cases href : hasKey "$ref" l = true
  · obtain ⟨fuel, hfuel⟩ := hl ▸ hinl
    obtain ⟨n, l', -, rfl, hfields⟩ := inlined_obj hfuel
    obtain ⟨v', hv', hinl'⟩ := (hleft.resolve hdecode hl hplain href hpart).2 n l' hfields
    exact ⟨v', hinl', keywordHolds_of_valid hvalid hv'⟩
  · rw [resolvePlace_self (by simpa using href) hpart]
    exact ⟨left', hinl, hvalid⟩

/-- Beside annotations, an inlined schema with a reference is no stricter than the target. -/
theorem valid_of_resolved_right (hdecode : DecodesPercent decode)
    (hright : PlaceOk rightRoot (localTarget decode rightRoot) right) (hr : right.schema = .obj r)
    (hplain : ∀ text, field? "$ref" r = some (.str text) → '%' ∉ text.toList)
    (hsiblings : keywordsOutside ("$ref" :: annotationKeywords) r = []) {part : Place}
    (hpart : resolvePlace rightRoot right r = some part) {right' i : Json}
    (hinl : Inlines (localTarget decode rightRoot) right.schema right')
    (h : ∀ s', Inlines (localTarget decode rightRoot) part.schema s' → valid V s' i = true) :
    valid V right' i = true := by
  by_cases href : hasKey "$ref" r = true
  · obtain ⟨fuel, hfuel⟩ := hr ▸ hinl
    obtain ⟨n, r', -, rfl, hfields⟩ := inlined_obj hfuel
    obtain ⟨v', hv', hinl'⟩ := (hright.resolve hdecode hr hplain href hpart).2 n r' hfields
    refine valid_of_single (by decide) (keysOf_keywordsOutside hfields hsiblings) fun v hv => ?_
    obtain rfl := Option.some.inj (hv.symm.trans hv')
    exact h v hinl'
  · rw [resolvePlace_self (by simpa using href) hpart] at h
    exact h right' hinl

end References

/-- None of the comparator's unsound shortcuts is taken between two schema objects: equality of
dictionaries is not trusted beyond JSON equality of what they mean, nothing stands beside a right
`allOf`, object and array keywords of an untyped right side are not passed over, and no reference
is percent-encoded. -/
structure Clear (decode : String → String) (leftRoot rightRoot : Json) (l r : Fields) : Prop where
  equal : pyEqual (.obj l) (.obj r) = true → ∀ left' right',
    Inlines (localTarget decode leftRoot) (.obj l) left' →
    Inlines (localTarget decode rightRoot) (.obj r) right' → jsonEqual left' right' = true
  siblings : Compared l r → unionBranches? l = none →
    ∀ branches, field? "allOf" r = some (.arr branches) →
      keywordsOutside ("allOf" :: annotationKeywords) r = []
  typed : Structural l r → types l = none → types r = none →
    ∀ k ∈ structuralKeywords, hasKey k r = false
  const : Structural l r → ∀ a b, field? "const" l = some a → field? "const" r = some b →
    pyEqual a b = true → jsonEqual a b = true
  enum : Structural l r → ∀ as bs, field? "enum" l = some (.arr as) →
    field? "enum" r = some (.arr bs) →
    ∀ a ∈ as, (∃ b ∈ bs, pyEqual b a = true) → ∃ b ∈ bs, jsonEqual b a = true
  left_plain : ∀ text, field? "$ref" l = some (.str text) → '%' ∉ text.toList
  right_plain : ∀ text, field? "$ref" r = some (.str text) → '%' ∉ text.toList

/-- Every comparison made on the way from the two documents is clear. -/
def ClearRun (isValid : Json → Json → Bool) (decode : String → String) (leftRoot rightRoot : Json) :
    Prop :=
  ∀ c l r, (compareProblem isValid leftRoot rightRoot).Reaches (comparison leftRoot rightRoot) c →
    c.left.schema = .obj l → c.right.schema = .obj r → Clear decode leftRoot rightRoot l r

/-- A comparison the run comes to, of fragments that can be inlined. -/
structure ComparisonOk (isValid : Json → Json → Bool) (decode : String → String)
    (leftRoot rightRoot : Json) (c : Comparison) : Prop where
  reached : (compareProblem isValid leftRoot rightRoot).Reaches (comparison leftRoot rightRoot) c
  left_ok : PlaceOk leftRoot (localTarget decode leftRoot) c.left
  right_ok : PlaceOk rightRoot (localTarget decode rightRoot) c.right

noncomputable def comparisonRank (decode : String → String) (leftRoot rightRoot : Json)
    (c : Comparison) : ℕ :=
  rankOf (localTarget decode leftRoot) c.left.schema +
    rankOf (localTarget decode rightRoot) c.right.schema

theorem Structural.comparable {decode : String → String} {leftRoot rightRoot : Json} {l r : Fields}
    (h : Structural l r) (hclear : Clear decode leftRoot rightRoot l r) : Comparable l r where
  supported k hk := by
    have hall := List.filter_eq_nil_iff.mp h.supported k
    simp only [hasKey, field?_isSome_iff] at hk
    simpa [or_iff_not_imp_left] using hall (by simpa using hk)
  no_ref := h.right_ref
  no_all := h.right_all
  no_any := h.right_any
  no_one := h.right_one
  typed := hclear.typed h
  const := hclear.const h
  enum := hclear.enum h

theorem settle_sound {V : Vocabulary} {decode : String → String} {leftRoot rightRoot : Json}
    {c : Comparison} {report : RelationReport} (h : settle c = some report)
    (hproven : report.Proven)
    (hclear : ∀ l r, c.left.schema = .obj l → c.right.schema = .obj r →
      Clear decode leftRoot rightRoot l r) :
    Contained V (localTarget decode leftRoot) (localTarget decode rightRoot)
      c.left.schema c.right.schema := by
  intro left' right' hleft hright i hvalid
  unfold settle at h
  split_ifs at h with htrivial htrue hfalse hfalse
  · rcases htrivial with hl | hr
    · exact absurd hvalid (not_valid_of_inlines_false (hl ▸ hleft))
    · obtain ⟨fuel, hfuel⟩ := hr ▸ hright
      rw [inline_of_not_obj (by simp) hfuel]
      exact valid_true i
  · obtain rfl := Option.some.inj h
    exact absurd hproven (not_proven_finding_conflict _ _)
  · obtain rfl := Option.some.inj h
    exact absurd hproven (not_proven_finding_unknown _ _)
  · obtain rfl := Option.some.inj h
    exact absurd hproven (not_proven_finding_conflict _ _)
  · split at h
    next l r hl hr =>
      split_ifs at h with hequal
      rw [hl] at hleft
      rw [hr] at hright
      have hsame := (hclear l r hl hr).equal hequal left' right' hleft hright
      rwa [← valid_congr hsame (jsonEqual_refl i)]
    next =>
      obtain rfl := Option.some.inj h
      exact absurd hproven (not_proven_finding_unknown _ _)

theorem combine_proven {reports : List RelationReport} (h : (combine reports).Proven) :
    ∀ report ∈ reports, report.Proven := by
  have hfold : ∀ relation : SchemaRelation,
      reports.foldl (fun relation report => combineRelation relation report.relation) relation =
        .proven → relation = .proven ∧ ∀ report ∈ reports, report.Proven := by
    clear h
    induction reports with
    | nil => simp
    | cons report rest ih =>
      intro relation h
      obtain ⟨hrelation, hrest⟩ := ih _ h
      have hboth : relation = .proven ∧ report.relation = .proven := by
        cases hr : report.relation <;> cases relation <;> simp_all [combineRelation]
      exact ⟨hboth.1, by simpa using ⟨hboth.2, hrest⟩⟩
  exact (hfold _ h).2

/-- The comparison of two documents takes no verdict from a finished alternative of a left
`allOf`: such a pair was not necessarily proven. -/
def NoClosedHit (isValid : Json → Json → Bool) (left right : Json) : Prop :=
  ((compareProblem isValid left right).scan (comparisonFuel left right) Memo.empty
    (comparison left right)).clean = true

instance (isValid : Json → Json → Bool) (left right : Json) :
    Decidable (NoClosedHit isValid left right) :=
  inferInstanceAs (Decidable (_ = true))

/-- A proven verdict comes from the search, not from its fuel running out. -/
theorem eval_of_proven {isValid : Json → Json → Bool} {left right : Json}
    (h : (compareSubset isValid left right).Proven) :
    ∃ visited, (compareProblem isValid left right).eval (comparisonFuel left right) []
      (comparison left right) = some (compareSubset isValid left right, visited) := by
  unfold compareSubset at h ⊢
  cases heval : (compareProblem isValid left right).eval (comparisonFuel left right) []
      (comparison left right) with
  | none =>
    rw [heval] at h
    exact absurd h (not_proven_finding_unknown _ _)
  | some result => exact ⟨result.2, rfl⟩

section Soundness
variable {V : Vocabulary} {decode : String → String} {leftRoot rightRoot : Json}

theorem Below.or_self_ok {root : Json} {target : String → Option Json} {place part : Place}
    (hplace : PlaceOk root target place) (h : Below root target place part ∨ part = place) :
    PlaceOk root target part := by
  rcases h with h | rfl
  · exact h.toPlaceOk
  · exact hplace

theorem Below.rank_le {root : Json} {target : String → Option Json} {place part : Place}
    (h : Below root target place part ∨ part = place) :
    rankOf target part.schema ≤ rankOf target place.schema := by
  rcases h with h | rfl
  · exact h.rank.le
  · exact le_rfl

variable (hdecode : DecodesPercent decode) (hclear : ClearRun (valid V) decode leftRoot rightRoot)

include hdecode hclear

theorem comparison_part {c d : Comparison}
    (hok : ComparisonOk (valid V) decode leftRoot rightRoot c) (hsettle : settle c = none)
    (hd : d ∈ (expand (valid V) leftRoot rightRoot c).goals) :
    ComparisonOk (valid V) decode leftRoot rightRoot d ∧
      comparisonRank decode leftRoot rightRoot d < comparisonRank decode leftRoot rightRoot c := by
  obtain ⟨l, r, hl, hr⟩ := settle_eq_none hsettle
  have hc := hclear c l r hok.reached hl hr
  have hreached := hok.reached.part hsettle hd
  simp only [expand, hl, hr] at hd
  have hbranch := compareSchemas_branch (valid V) leftRoot rightRoot c.left c.right l r c.pointer
  have hsteps := hbranch.steps hdecode hok.left_ok hok.right_ok hl hr hc.left_plain hc.right_plain hd
  refine ⟨⟨hreached, Below.or_self_ok hok.left_ok hsteps.on_left,
    Below.or_self_ok hok.right_ok hsteps.on_right⟩, ?_⟩
  have hleft := Below.rank_le hsteps.on_left
  have hright := Below.rank_le hsteps.on_right
  unfold comparisonRank
  rcases hsteps.moves with hmoves | hmoves
  · have := hmoves.rank
    omega
  · have := hmoves.rank
    omega

omit hdecode in
theorem expand_branch {c : Comparison}
    (hok : ComparisonOk (valid V) decode leftRoot rightRoot c) (hsettle : settle c = none) :
    ∃ l r, c.left.schema = .obj l ∧ c.right.schema = .obj r ∧
      Clear decode leftRoot rightRoot l r ∧
      Branch (valid V) leftRoot rightRoot c.left c.right l r c.pointer
        (expand (valid V) leftRoot rightRoot c) := by
  obtain ⟨l, r, hl, hr⟩ := settle_eq_none hsettle
  refine ⟨l, r, hl, hr, hclear c l r hok.reached hl hr, ?_⟩
  simp only [expand, hl, hr]
  exact compareSchemas_branch _ _ _ _ _ _ _ _

theorem compareProblem_sound :
    (compareProblem (valid V) leftRoot rightRoot).Sound
      (ComparisonOk (valid V) decode leftRoot rightRoot)
      (fun c => Contained V (localTarget decode leftRoot) (localTarget decode rightRoot)
        c.left.schema c.right.schema)
      (comparisonRank decode leftRoot rightRoot) where
  settle c report hok h hproven :=
    settle_sound h (of_decide_eq_true hproven) fun l r hl hr => hclear c l r hok.reached hl hr
  key c d hc hd hcnone hdnone hkey := by
    obtain ⟨l, r, hl, hr⟩ := settle_eq_none hcnone
    obtain ⟨l', r', hl', hr'⟩ := settle_eq_none hdnone
    obtain ⟨hleft, hright⟩ := Prod.mk.inj hkey
    have hleft' : c.left.schema = d.left.schema := Option.some.inj
      ((hc.left_ok.located l hl).symm.trans (hleft ▸ hd.left_ok.located l' hl'))
    have hright' : c.right.schema = d.right.schema := Option.some.inj
      ((hc.right_ok.located r hr).symm.trans (hright ▸ hd.right_ok.located r' hr'))
    rw [comparisonRank, comparisonRank, hleft', hright']
    exact ⟨rfl, id⟩
  combine reports h report hmem :=
    decide_eq_true (combine_proven (of_decide_eq_true h) report hmem)
  part c d hok hsettle hd := comparison_part hdecode hclear hok hsettle hd
  done c report hok hsettle hexpand hproven := by
    obtain ⟨l, r, hl, hr, -, hbranch⟩ := expand_branch hclear hok hsettle
    have hexpand' : expand (valid V) leftRoot rightRoot c = .done report := hexpand
    rw [hexpand'] at hbranch
    rw [hl, hr]
    cases hbranch with
    | rejected _ hnot => exact absurd (of_decide_eq_true hproven) hnot
    | finite candidates _ hcandidates hlfree hrfree h =>
      exact finite_sound hcandidates hlfree hrfree h
  defer c next hok hsettle hexpand hnext := by
    obtain ⟨l, r, hl, hr, hc, hbranch⟩ := expand_branch hclear hok hsettle
    have hexpand' : expand (valid V) leftRoot rightRoot c = .defer next := hexpand
    rw [hexpand'] at hbranch
    cases hbranch with
    | reference leftResolved rightResolved _ hlres hrres _ hsiblings =>
      intro left' right' hleft hright i hvalid
      obtain ⟨s', hs', hvalid'⟩ := exists_resolved_left hdecode hok.left_ok hl hc.left_plain hlres
        hleft hvalid
      exact valid_of_resolved_right hdecode hok.right_ok hr hc.right_plain hsiblings hrres hright
        fun t' ht' => hnext s' t' hs' ht' i hvalid'
  all c items hok hsettle hexpand hreports hgoals := by
    obtain ⟨l, r, hl, hr, hc, hbranch⟩ := expand_branch hclear hok hsettle
    have hexpand' : expand (valid V) leftRoot rightRoot c = .all items := hexpand
    rw [hexpand'] at hbranch
    rw [hl, hr]
    cases hbranch with
    | leftUnion keyword branches _ hunion =>
      refine leftUnion_sound hunion fun b hb => ?_
      obtain ⟨n, hn, rfl⟩ := List.getElem_of_mem hb
      have hgoal := hgoals _ (List.mem_map.mpr
        ⟨_, List.mem_mapIdx.mpr ⟨n, hn, rfl⟩, rfl⟩)
      rwa [hr] at hgoal
    | rightAll branches hcompared hunion hfield =>
      refine rightAll_sound hfield (hc.siblings hcompared hunion branches hfield) fun b hb => ?_
      obtain ⟨n, hn, rfl⟩ := List.getElem_of_mem hb
      have hgoal := hgoals _ (List.mem_map.mpr
        ⟨_, List.mem_mapIdx.mpr ⟨n, hn, rfl⟩, rfl⟩)
      rwa [hl] at hgoal
    | assertions hstructural =>
      rintro left' right' ⟨n, hleft⟩ ⟨m, hright⟩ i hvalid
      obtain ⟨_, l', -, rfl, hlfields⟩ := inlined_obj hleft
      obtain ⟨_, r', -, rfl, hrfields⟩ := inlined_obj hright
      exact compareAssertions_sound hlfields hrfields (hstructural.comparable hc)
        ⟨fun report h => of_decide_eq_true (hreports report h), hgoals⟩ hvalid
  any c goals failure hok hsettle hexpand := by
    obtain ⟨l, r, hl, hr, -, hbranch⟩ := expand_branch hclear hok hsettle
    have hexpand' : expand (valid V) leftRoot rightRoot c = .any goals failure := hexpand
    rw [hexpand'] at hbranch
    rw [hl, hr]
    cases hbranch with
    | leftAll branches _ _ hfield hfailure =>
      refine ⟨decide_eq_false hfailure, fun d hd hholds => ?_⟩
      obtain ⟨part, hpart, rfl⟩ := List.mem_map.mp hd
      obtain ⟨n, hn, rfl⟩ := List.mem_mapIdx.mp hpart
      rw [hr] at hholds
      exact leftAll_sound hfield (List.getElem_mem hn) hholds

theorem contained_of_proven (hclean : NoClosedHit (valid V) leftRoot rightRoot)
    (hleft : Inlinable (localTarget decode leftRoot) leftRoot)
    (hright : Inlinable (localTarget decode rightRoot) rightRoot)
    (hproven : (compareSubset (valid V) leftRoot rightRoot).Proven) :
    Contained V (localTarget decode leftRoot) (localTarget decode rightRoot)
      leftRoot rightRoot := by
  obtain ⟨visited, heval⟩ := eval_of_proven hproven
  have hok : ComparisonOk (valid V) decode leftRoot rightRoot (comparison leftRoot rightRoot) :=
    ⟨.top, ⟨fun _ _ => rfl, hleft⟩, ⟨fun _ _ => rfl, hright⟩⟩
  exact holds_of_proven (compareProblem_sound hdecode hclear) hok heval hclean
    (decide_eq_true hproven)

end Soundness

end CapabilityCompiler.Contracts
