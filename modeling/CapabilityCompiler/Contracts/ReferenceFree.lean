import CapabilityCompiler.Contracts.Containment

/-! Between documents without references no comparison is made twice, so the memo is idle. -/
namespace CapabilityCompiler.Contracts
open Foundation Foundation.Json Foundation.Search

/-- No position is under both. -/
def Incomparable (a b : Node) : Prop := ∀ k, a <+: k → ¬ b <+: k

theorem incomparable_of_ne (stem : Node) {s t : Step} (h : s ≠ t) (xs ys : Node) :
    Incomparable (stem ++ s :: xs) (stem ++ t :: ys) := by
  rintro k ⟨u, rfl⟩ ⟨v, hv⟩
  rw [List.append_assoc, List.append_assoc, List.append_cancel_left_eq, List.cons_append,
    List.cons_append] at hv
  exact h (List.cons.inj hv).1.symm

/-- A pair of positions under another one. -/
def Under (a b : Node × Node) : Prop := b.1 <+: a.1 ∧ b.2 <+: a.2

/-- Comparisons whose recursive comparisons cannot coincide. -/
def Separate (c d : Comparison) : Prop :=
  Incomparable c.left.node d.left.node ∨ Incomparable c.right.node d.right.node

theorem Separate.apart {isValid : Json → Json → Bool} {leftRoot rightRoot : Json}
    {c d : Comparison} (h : Separate c d) :
    Apart (compareProblem isValid leftRoot rightRoot) Under c d := by
  rintro k ⟨hleft, hright⟩ ⟨hleft', hright'⟩
  rcases h with h | h
  · exact h k.1 hleft hleft'
  · exact h k.2 hright hright'

/-- The comparisons among two parts are separate. -/
def SeparateParts (p q : Part) : Prop := ∀ c d, p = .goal c → q = .goal d → Separate c d

theorem pairwise_itemGoals {parts : List Part} (h : parts.Pairwise SeparateParts) :
    (itemGoals parts).Pairwise Separate := by
  induction h with
  | nil => exact .nil
  | @cons part rest hpart _ ih =>
    cases part with
    | report r => exact ih
    | goal c =>
      refine .cons (fun d hd => ?_) ih
      exact hpart (.goal d) (mem_itemGoals.mp hd) c d rfl rfl

section Parts
variable {left right : Place} {l r : Fields} {pointer : String}

theorem branches_separate (place : Place) (keyword : String) (branches : List Json) :
    (place.branches keyword branches).Pairwise fun a b => Incomparable a.node b.node := by
  rw [List.pairwise_iff_getElem]
  intro m n hm hn hlt
  simp only [Place.branches, List.getElem_mapIdx]
  have hne : Step.index m ≠ Step.index n := by simpa using hlt.ne
  have h := incomparable_of_ne (place.node ++ [.key keyword]) hne [] []
  simpa using h

theorem property_incomparable {place : Place} {name name' : String} (h : name ≠ name')
    (s s' : Json) :
    Incomparable (place.property name s).node (place.property name' s').node := by
  have hne : Step.key name ≠ Step.key name' := by simpa using h
  have h := incomparable_of_ne (place.node ++ [.key "properties"]) hne [] []
  simpa only [Place.property, Place.child] using h

theorem property_incomparable_subschema {place : Place} {keyword : String}
    (h : keyword ≠ "properties") (name : String) (s : Json) (fields : Fields) :
    Incomparable (place.property name s).node (place.subschema fields keyword).node := by
  have hne : Step.key "properties" ≠ Step.key keyword := by simpa using h.symm
  simpa [Place.property, Place.child, Place.subschema] using
    incomparable_of_ne place.node hne [.key name] []

theorem Incomparable.symm {a b : Node} (h : Incomparable a b) : Incomparable b a :=
  fun k hb ha => h k ha hb

theorem compareDeclared_separate (lps rps : Fields) :
    (compareDeclared left right l pointer lps rps).Pairwise SeparateParts := by
  unfold compareDeclared
  rw [List.pairwise_filterMap]
  refine (Text.nodup_sortedSet _).imp fun {name name'} hne p hp q hq c d hc hd => ?_
  simp only at hp hq
  split_ifs at hp hq
  obtain ⟨s, -, rfl⟩ := Option.map_eq_some_iff.mp hp
  obtain ⟨s', -, rfl⟩ := Option.map_eq_some_iff.mp hq
  obtain rfl := Item.goal.inj hc
  obtain rfl := Item.goal.inj hd
  exact .inr (property_incomparable hne s s')

theorem compareUndeclared_separate (lps rps : Fields) :
    (compareUndeclared left right r pointer lps rps).Pairwise SeparateParts := by
  unfold compareUndeclared
  rw [List.pairwise_filterMap]
  refine (Text.nodup_sortedSet _).imp fun {name name'} hne p hp q hq c d hc hd => ?_
  subst hc hd
  simp only at hp hq
  split_ifs at hp hq
  split at hp
  next => simp at hp
  next fields hobj =>
    rw [hobj] at hq
    obtain ⟨s, -, hc⟩ := Option.map_eq_some_iff.mp hp
    obtain ⟨s', -, hd⟩ := Option.map_eq_some_iff.mp hq
    obtain rfl := Item.goal.inj hc
    obtain rfl := Item.goal.inj hd
    exact .inl (property_incomparable hne s s')
  next => simp at hp

/-- The left side of a declared property may be the additional one, so the right sides tell. -/
theorem compareObjects_separate :
    (compareObjects left right l r pointer).Pairwise SeparateParts := by
  unfold compareObjects
  split
  next lps rps _ _ =>
    have hadditional : (compareAdditional left right l r pointer).Pairwise SeparateParts := by
      unfold compareAdditional
      dsimp only
      split_ifs
      · exact .nil
      · split <;> simp
    refine List.pairwise_append.mpr ⟨List.pairwise_append.mpr
      ⟨.cons ?_ (compareDeclared_separate lps rps), compareUndeclared_separate lps rps, ?_⟩,
      hadditional, ?_⟩
    · intro q _ c d hc
      simp at hc
    · intro p hp q hq c d hc hd
      subst hc hd
      rcases List.mem_cons.mp hp with hp | hp
      · simp at hp
      obtain ⟨name, s, -, -, hc⟩ := mem_compareDeclared.mp hp
      obtain ⟨name', s', -, -, (⟨-, hd⟩ | ⟨fields, -, hd⟩)⟩ := mem_compareUndeclared.mp hq
      · simp at hd
      obtain rfl := Item.goal.inj hc
      obtain rfl := Item.goal.inj hd
      exact .inr (property_incomparable_subschema (by decide) name s r)
    · intro p hp q hq c d hc hd
      subst hc hd
      obtain ⟨-, (⟨-, hd⟩ | ⟨fields, -, hd⟩)⟩ := mem_compareAdditional.mp hq
      · simp at hd
      obtain rfl := Item.goal.inj hd
      rcases List.mem_append.mp hp with hp | hp
      · rcases List.mem_cons.mp hp with hp | hp
        · simp at hp
        obtain ⟨name, s, -, -, hc⟩ := mem_compareDeclared.mp hp
        obtain rfl := Item.goal.inj hc
        exact .inr (property_incomparable_subschema (by decide) name s r)
      · obtain ⟨name, s, -, -, (⟨-, hc⟩ | ⟨fields, -, hc⟩)⟩ := mem_compareUndeclared.mp hp
        · simp at hc
        obtain rfl := Item.goal.inj hc
        exact .inl (property_incomparable_subschema (by decide) name s l)
  next => simp

/-- The object comparisons look under `properties` and `additionalProperties` of the right side. -/
theorem separate_of_objects_items {c d : Comparison}
    (hc : Item.goal c ∈ compareObjects left right l r pointer)
    (hd : Item.goal d ∈ compareItems left right l r pointer) : Separate c d := by
  obtain rfl := Item.goal.inj (List.mem_singleton.mp hd)
  have hkeyword : ∀ keyword, keyword ≠ "items" → Incomparable
      (right.subschema r keyword).node (right.subschema r "items").node := by
    intro keyword hne
    have hstep : Step.key keyword ≠ Step.key "items" := by simpa using hne
    exact incomparable_of_ne right.node hstep [] []
  unfold compareObjects at hc
  split at hc
  next lps rps _ _ =>
    simp only [List.mem_append, List.mem_cons, reduceCtorEq, false_or, mem_compareDeclared,
      mem_compareUndeclared, mem_compareAdditional, Item.goal.injEq, and_false] at hc
    rcases hc with (⟨name, s, -, -, rfl⟩ | ⟨name, s, -, -, -, -, rfl⟩) | ⟨-, -, -, rfl⟩
    · exact .inr (property_incomparable_subschema (by decide) name s r)
    · exact .inr (hkeyword _ (by decide))
    · exact .inr (hkeyword _ (by decide))
  next => simp at hc

theorem separate_append_of_reports {parts rest : List Part} (hparts : ∀ c, Item.goal c ∉ parts)
    (hrest : rest.Pairwise SeparateParts) : (parts ++ rest).Pairwise SeparateParts := by
  induction parts with
  | nil => exact hrest
  | cons part parts ih =>
    refine .cons (fun q _ c d hc _ => ?_) (ih fun c hc => hparts c (List.mem_cons_of_mem part hc))
    exact absurd (hc ▸ List.mem_cons_self) (hparts c)

theorem compareAssertions_separate :
    (compareAssertions left right l r pointer).Pairwise SeparateParts := by
  have hlast : ((if hasTypeName l "object" || hasTypeName r "object" then
        compareObjects left right l r pointer else []) ++
      (if hasTypeName l "array" || hasTypeName r "array" then
        compareItems left right l r pointer else [])).Pairwise SeparateParts := by
    refine List.pairwise_append.mpr ⟨?_, ?_, fun p hp q hq c d hc hd => ?_⟩
    · split_ifs
      · exact compareObjects_separate
      · exact .nil
    · split_ifs
      · exact List.pairwise_singleton _ _
      · exact .nil
    · subst hc hd
      split_ifs at hp hq <;> first | exact separate_of_objects_items hp hq | simp at hp hq
  unfold compareAssertions
  rw [List.append_assoc, List.append_assoc, List.append_assoc]
  refine separate_append_of_reports (by simp) ?_
  refine separate_append_of_reports (fun c => goal_notMem_compareConst) ?_
  exact separate_append_of_reports (fun c => goal_notMem_compareEnum) hlast

theorem Branch.separate {isValid : Json → Json → Bool} {leftRoot rightRoot : Json}
    {e : Expansion Comparison RelationReport}
    (he : Branch isValid leftRoot rightRoot left right l r pointer e) :
    e.goals.Pairwise Separate := by
  cases he with
  | rejected report _ => exact .nil
  | finite => exact .nil
  | reference => simp [Expansion.goals]
  | leftUnion keyword branches _ _ =>
    refine pairwise_itemGoals (List.pairwise_map.mpr ?_)
    refine (branches_separate left keyword branches).imp fun hne c d hc hd => ?_
    obtain rfl := Item.goal.inj hc
    obtain rfl := Item.goal.inj hd
    exact .inl hne
  | rightAll branches _ _ _ =>
    refine pairwise_itemGoals (List.pairwise_map.mpr ?_)
    refine (branches_separate right "allOf" branches).imp fun hne c d hc hd => ?_
    obtain rfl := Item.goal.inj hc
    obtain rfl := Item.goal.inj hd
    exact .inr hne
  | leftAll branches failure _ _ _ =>
    refine List.pairwise_map.mpr ?_
    exact (branches_separate left "allOf" branches).imp fun hne => .inl hne
  | assertions _ => exact pairwise_itemGoals compareAssertions_separate

end Parts

section Nodes
variable {left right : Place} {l r : Fields} {pointer : String}

/-- The position is under the other one, strictly on one side. -/
structure Extends (left right : Place) (c : Comparison) : Prop where
  on_left : left.node <+: c.left.node
  on_right : right.node <+: c.right.node
  longer : left.node.length + right.node.length < c.left.node.length + c.right.node.length

theorem Place.property_node (place : Place) (name : String) (s : Json) :
    (place.property name s).node = place.node ++ [.key "properties", .key name] := by
  simp [Place.property, Place.child]

theorem Place.subschema_node (place : Place) (fields : Fields) (keyword : String) :
    (place.subschema fields keyword).node = place.node ++ [.key keyword] := rfl

theorem Place.exists_propertyOrAdditional_node (place : Place) (fields properties : Fields)
    (name : String) : ∃ step rest,
      (place.propertyOrAdditional fields properties name).node = place.node ++ step :: rest := by
  unfold Place.propertyOrAdditional
  cases field? name properties with
  | some s => exact ⟨_, _, place.property_node name s⟩
  | none => exact ⟨_, _, place.subschema_node fields "additionalProperties"⟩

theorem Branch.extends {isValid : Json → Json → Bool} {leftRoot rightRoot : Json}
    {e : Expansion Comparison RelationReport} (hl : hasKey "$ref" l = false)
    (hr : hasKey "$ref" r = false)
    (he : Branch isValid leftRoot rightRoot left right l r pointer e) {c : Comparison}
    (hc : c ∈ e.goals) : Extends left right c := by
  have hbranch : ∀ (place part : Place) keyword branches, part ∈ place.branches keyword branches →
      ∃ n, part.node = place.node ++ [.key keyword, .index n] := by
    intro place part keyword branches hpart
    obtain ⟨n, _, rfl⟩ := List.mem_mapIdx.mp hpart
    exact ⟨n, rfl⟩
  cases he with
  | rejected report _ => simp [Expansion.goals] at hc
  | finite => simp [Expansion.goals] at hc
  | reference leftResolved rightResolved hrefs => simp [hl, hr] at hrefs
  | leftUnion keyword branches _ _ =>
    rw [Expansion.goals, mem_itemGoals, List.mem_map] at hc
    obtain ⟨branch, hmem, hc⟩ := hc
    obtain rfl := Item.goal.inj hc
    obtain ⟨n, hn⟩ := hbranch _ _ _ _ hmem
    exact ⟨by simp [hn], List.prefix_rfl, by simp [hn]⟩
  | rightAll branches _ _ _ =>
    rw [Expansion.goals, mem_itemGoals, List.mem_map] at hc
    obtain ⟨branch, hmem, hc⟩ := hc
    obtain rfl := Item.goal.inj hc
    obtain ⟨n, hn⟩ := hbranch _ _ _ _ hmem
    exact ⟨List.prefix_rfl, by simp [hn], by simp [hn]⟩
  | leftAll branches failure _ _ _ =>
    rw [Expansion.goals, List.mem_map] at hc
    obtain ⟨branch, hmem, rfl⟩ := hc
    obtain ⟨n, hn⟩ := hbranch _ _ _ _ hmem
    exact ⟨by simp [hn], List.prefix_rfl, by simp [hn]⟩
  | assertions _ =>
    rw [Expansion.goals, mem_itemGoals] at hc
    rcases goal_mem_compareAssertions hc with hc | hc
    · unfold compareObjects at hc
      split at hc
      next lps rps _ _ =>
        simp only [List.mem_append, List.mem_cons, reduceCtorEq, false_or, mem_compareDeclared,
          mem_compareUndeclared, mem_compareAdditional, Item.goal.injEq, and_false] at hc
        rcases hc with (⟨name, s, -, -, rfl⟩ | ⟨name, s, -, -, -, -, rfl⟩) | ⟨-, -, -, rfl⟩
        · obtain ⟨step, rest, hnode⟩ := left.exists_propertyOrAdditional_node l lps name
          refine ⟨?_, ?_, ?_⟩ <;> simp [hnode, Place.property_node]
          omega
        · refine ⟨?_, ?_, ?_⟩ <;> simp [Place.subschema_node, Place.property_node]
          omega
        · refine ⟨?_, ?_, ?_⟩ <;> simp [Place.subschema_node]
          omega
      next => simp at hc
    · obtain rfl := Item.goal.inj (List.mem_singleton.mp hc)
      refine ⟨?_, ?_, ?_⟩ <;> simp [Place.subschema_node]
      omega

end Nodes

section Documents
variable {leftRoot rightRoot : Json}

theorem containsReference_at? {root s : Json} {node : Node} (hroot : containsReference root = false)
    (h : at? root node = some s) : containsReference s = false := by
  induction node generalizing root with
  | nil =>
    obtain rfl : root = s := by simpa [at?] using h
    exact hroot
  | cons step node ih =>
    cases root <;> cases step <;> simp only [at?, reduceCtorEq] at h
    · obtain ⟨v, hv, hrest⟩ := Option.bind_eq_some_iff.mp h
      exact ih (containsReference_part hroot (List.mem_of_getElem? hv)) hrest
    · obtain ⟨v, hv, hrest⟩ := Option.bind_eq_some_iff.mp h
      exact ih (containsReference_part hroot (mem_parts_of_field? hv)) hrest

theorem PlaceOk.reference_free {root : Json} {target : String → Option Json} {place : Place}
    {fields : Fields} (hplace : PlaceOk root target place) (hroot : containsReference root = false)
    (hobj : place.schema = .obj fields) : containsReference (.obj fields) = false :=
  hobj ▸ containsReference_at? hroot (hplace.located fields hobj)

theorem hasKey_ref_of_reference_free {fields : Fields}
    (h : containsReference (.obj fields) = false) : hasKey "$ref" fields = false := by
  rw [hasKey, ← Bool.not_eq_true, field?_isSome_iff]
  intro hmem
  obtain ⟨p, hp, hk⟩ := List.mem_map.mp hmem
  exact (containsReferenceFields_eq_false_iff.mp h p hp).1 hk

/-- Both fragments of the comparison are where their positions say. -/
structure FreeOk (leftRoot rightRoot : Json) (c : Comparison) : Prop where
  left_ok : PlaceOk leftRoot (localTarget id leftRoot) c.left
  right_ok : PlaceOk rightRoot (localTarget id rightRoot) c.right

variable (hleft : containsReference leftRoot = false) (hright : containsReference rightRoot = false)
  {isValid : Json → Json → Bool}

include hleft hright

theorem FreeOk.branch {c : Comparison} (hok : FreeOk leftRoot rightRoot c)
    (hsettle : settle c = none) :
    ∃ l r, c.left.schema = .obj l ∧ c.right.schema = .obj r ∧
      containsReference (.obj l) = false ∧ containsReference (.obj r) = false ∧
      Branch isValid leftRoot rightRoot c.left c.right l r c.pointer
        (expand isValid leftRoot rightRoot c) := by
  obtain ⟨l, r, hl, hr⟩ := settle_eq_none hsettle
  refine ⟨l, r, hl, hr, hok.left_ok.reference_free hleft hl, hok.right_ok.reference_free hright hr,
    ?_⟩
  simp only [expand, hl, hr]
  exact compareSchemas_branch _ _ _ _ _ _ _ _

theorem FreeOk.part {c d : Comparison} (hok : FreeOk leftRoot rightRoot c)
    (hsettle : settle c = none) (hd : d ∈ (expand isValid leftRoot rightRoot c).goals) :
    FreeOk leftRoot rightRoot d ∧ Extends c.left c.right d := by
  obtain ⟨l, r, hl, hr, hlfree, hrfree, hbranch⟩ := hok.branch hleft hright hsettle
  have hlref := hasKey_ref_of_reference_free hlfree
  have hrref := hasKey_ref_of_reference_free hrfree
  have hplain : ∀ fields, hasKey "$ref" fields = false →
      ∀ text, field? "$ref" fields = some (.str text) → '%' ∉ text.toList := by
    intro fields hnone text hsome
    simp [hasKey, hsome] at hnone
  have hdecode : DecodesPercent id := fun _ _ => rfl
  have hsteps := hbranch.steps hdecode hok.left_ok hok.right_ok hl hr
    (hplain l hlref) (hplain r hrref) hd
  exact ⟨⟨Below.or_self_ok hok.left_ok hsteps.on_left, Below.or_self_ok hok.right_ok hsteps.on_right⟩,
    hbranch.extends hlref hrref hd⟩

theorem compareProblem_tree :
    (compareProblem isValid leftRoot rightRoot).Tree (FreeOk leftRoot rightRoot) Under where
  refl _ := ⟨List.prefix_rfl, List.prefix_rfl⟩
  trans _ _ _ hjk hkl := ⟨hkl.1.trans hjk.1, hkl.2.trans hjk.2⟩
  part c d hok hsettle hd := by
    obtain ⟨hokd, hextends⟩ := hok.part hleft hright hsettle hd
    refine ⟨hokd, ⟨hextends.on_left, hextends.on_right⟩, fun hback => ?_⟩
    have hleftLength := hback.1.length_le
    have hrightLength := hback.2.length_le
    have hlonger := hextends.longer
    simp only [compareProblem, Comparison.key] at hleftLength hrightLength
    omega
  apart c hok hsettle := by
    obtain ⟨l, r, -, -, -, -, hbranch⟩ :=
      @FreeOk.branch leftRoot rightRoot hleft hright isValid c hok hsettle
    exact hbranch.separate.imp fun h => h.apart

theorem freeOk_comparison : FreeOk leftRoot rightRoot (comparison leftRoot rightRoot) :=
  ⟨⟨fun _ _ => rfl, leftRoot, inlines_self hleft⟩, ⟨fun _ _ => rfl, rightRoot, inlines_self hright⟩⟩

theorem noClosedHit_of_reference_free : NoClosedHit isValid leftRoot rightRoot :=
  scan_clean_of_tree (compareProblem_tree hleft hright) _ (freeOk_comparison hleft hright)

theorem freeOk_of_reaches {c : Comparison}
    (h : (compareProblem isValid leftRoot rightRoot).Reaches (comparison leftRoot rightRoot) c) :
    FreeOk leftRoot rightRoot c := by
  induction h with
  | top => exact freeOk_comparison hleft hright
  | part _ hsettle hd ih => exact (ih.part hleft hright hsettle hd).1

end Documents

end CapabilityCompiler.Contracts
