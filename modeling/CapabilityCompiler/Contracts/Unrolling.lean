import CapabilityCompiler.Contracts.Resources

/-! Schemas in different documents that unroll to the same schema. -/
namespace CapabilityCompiler.Contracts
open Foundation Foundation.Json

/-! Members. -/

theorem members_subset_membersAt {schema : Json} (h : opensResource schema = false) :
    members schema ⊆ membersAt .schema schema := by
  cases schema with
  | obj fields =>
    rw [membersAt_schema, h, members]
    exact fun _ hmem => hmem
  | _ => exact List.nil_subset _

theorem membersAt_schema_subset (schema : Json) : membersAt .schema schema ⊆ members schema := by
  cases schema with
  | obj fields =>
    rw [membersAt_schema, members]
    split
    · exact List.nil_subset _
    · exact fun _ hmem => hmem
  | _ => exact List.nil_subset _

theorem mem_membersItems {items : List Json} {schema : Json} :
    schema ∈ membersItems items ↔ ∃ item ∈ items, schema ∈ membersAt .schema item := by
  induction items with
  | nil => simp [membersItems]
  | cons item rest ih => simp [membersItems, ih]

theorem mem_membersFields {position : Position} {fields : Fields} {schema : Json} :
    schema ∈ membersFields position fields ↔
      ∃ f ∈ fields, schema ∈ membersAt (position.below f.1) f.2 := by
  induction fields with
  | nil => simp [membersFields]
  | cons f rest ih =>
    obtain ⟨key, value⟩ := f
    simp [membersFields, ih]

/-- The members of a member are members. -/
theorem members_subset_of_mem {position : Position} {value schema : Json}
    (h : schema ∈ membersAt position value) : members schema ⊆ membersAt position value := by
  induction value generalizing position with
  | arr items ih =>
    cases position with
    | schemas =>
      rw [membersAt_items, mem_membersItems] at h
      obtain ⟨item, hitem, hmem⟩ := h
      intro other hother
      rw [membersAt_items, mem_membersItems]
      exact ⟨item, hitem, ih item hitem hmem hother⟩
    | _ => exact absurd h List.not_mem_nil
  | obj fields ih =>
    have hbelow : ∀ {position : Position}, schema ∈ membersFields position fields →
        members schema ⊆ membersFields position fields := by
      intro position hmem other hother
      obtain ⟨f, hf, hschema⟩ := mem_membersFields.mp hmem
      exact mem_membersFields.mpr ⟨f, hf, ih f hf hschema hother⟩
    cases position with
    | schema =>
      rw [membersAt_schema] at h ⊢
      split at h
      · exact absurd h List.not_mem_nil
      · rename_i hcloses
        rw [if_neg hcloses]
        rcases List.mem_cons.mp h with rfl | hmem
        · exact fun _ hother => hother
        · exact fun other hother => List.mem_cons_of_mem _ (hbelow hmem hother)
    | schemas =>
      rw [membersAt_fields] at h ⊢
      exact hbelow h
    | other => exact absurd h List.not_mem_nil
  | _ => cases position <;> exact absurd h List.not_mem_nil

theorem members_subset_members {document schema : Json} (h : schema ∈ members document) :
    members schema ⊆ members document := by
  cases document with
  | obj fields =>
    rw [members] at h
    rcases List.mem_cons.mp h with rfl | hmem
    · exact fun _ hother => hother
    · obtain ⟨f, hf, hschema⟩ := mem_membersFields.mp hmem
      intro other hother
      rw [members]
      exact List.mem_cons_of_mem _
        (mem_membersFields.mpr ⟨f, hf, members_subset_of_mem hschema hother⟩)
  | _ => exact absurd h (by simp [members])

/-- A schema directly under a field belongs to the resource, unless it is one of its own. -/
theorem members_subset_of_under {fields : Fields} {f : String × Json} {schema : Json}
    (hf : f ∈ fields) (hunder : schema ∈ schemasUnder (positionOf f.1) f.2)
    (hcloses : opensResource schema = false) : members schema ⊆ members (.obj fields) := by
  have hat : members schema ⊆ membersAt (positionOf f.1) f.2 := by
    generalize positionOf f.1 = position at hunder
    have hself := members_subset_membersAt hcloses
    cases position with
    | schema =>
      obtain rfl := List.mem_singleton.mp hunder
      exact hself
    | schemas =>
      cases hvalue : f.2 with
      | arr items =>
        rw [hvalue] at hunder
        intro other hother
        rw [membersAt_items, mem_membersItems]
        exact ⟨schema, hunder, hself hother⟩
      | obj inner =>
        rw [hvalue] at hunder
        obtain ⟨g, hg, rfl⟩ := List.mem_map.mp hunder
        intro other hother
        rw [membersAt_fields, mem_membersFields]
        exact ⟨g, hg, hself hother⟩
      | _ => rw [hvalue] at hunder; exact absurd hunder (by simp [schemasUnder])
    | other => exact absurd hunder (by simp [schemasUnder])
  intro other hother
  rw [members]
  exact List.mem_cons_of_mem _ (mem_membersFields.mpr ⟨f, hf, hat hother⟩)

/-! Simulation. -/

/-- Schemas that are related in their scopes have the same fields, the schemas directly under them
are related, and so are the targets of their references. -/
structure Simulation (decode : String → String)
    (R : ResourceScope → Json → ResourceScope → Json → Prop) : Prop where
  shape : ∀ {p x s y}, R p x s y →
    (∃ f g, x = .obj f ∧ y = .obj g ∧ kept f = kept g) ∨ (x = y ∧ ∀ f, x ≠ .obj f)
  under : ∀ {p f s g}, R p (.obj f) s (.obj g) → ∀ field ∈ kept f,
    ∀ schema ∈ schemasUnder (positionOf field.1) field.2,
      R (enter p (.obj f)) schema (enter s (.obj g)) schema
  targets : ∀ {p f s g}, R p (.obj f) s (.obj g) → ∀ keyword reference,
    (keyword, Json.str reference) ∈ kept f → keyword ∈ referenceKeywords →
      Option.Rel (fun a b => R a.1 a.2 b.1 b.2)
        (target decode keyword (enter p (.obj f)) reference)
        (target decode keyword (enter s (.obj g)) reference)

/-- Related schemas unroll to the same schema. -/
theorem Simulation.unroll_eq {decode : String → String}
    {R : ResourceScope → Json → ResourceScope → Json → Prop} (hsim : Simulation decode R)
    (rest : Json) (depth : ℕ) {p s : ResourceScope} {x y : Json} (h : R p x s y) :
    unroll decode rest depth p x = unroll decode rest depth s y := by
  induction depth generalizing p s x y with
  | zero => rfl
  | succ depth ih =>
    rcases hsim.shape h with ⟨f, g, rfl, rfl, hkept⟩ | ⟨rfl, hleaf⟩
    · rw [unroll, unroll, ← hkept]
      refine congrArg Json.obj (List.map_congr_left fun field hfield => Prod.ext rfl ?_)
      have hunder : ∀ schema ∈ schemasUnder (positionOf field.1) field.2,
          unroll decode rest depth (enter p (.obj f)) schema =
            unroll decode rest depth (enter s (.obj g)) schema :=
        fun schema hschema => ih (hsim.under h field hfield schema hschema)
      obtain ⟨keyword, value⟩ := field
      simp only [unrollKeyword]
      split
      · rename_i hreference
        cases value with
        | str reference =>
          have htarget := hsim.targets h keyword reference hfield hreference
          simp only
          generalize target decode keyword (enter p (.obj f)) reference = found at htarget
          generalize target decode keyword (enter s (.obj g)) reference = other at htarget
          cases htarget with
          | none => rfl
          | some hrelated => exact ih hrelated
        | _ => rfl
      · simp only at hunder
        generalize positionOf keyword = position at hunder
        cases position with
        | schema => exact hunder value (List.mem_singleton.mpr rfl)
        | schemas =>
          cases value with
          | arr items => exact congrArg Json.arr (List.map_congr_left hunder)
          | obj inner =>
            refine congrArg Json.obj (List.map_congr_left fun g hg => Prod.ext rfl ?_)
            exact hunder g.2 (List.mem_map_of_mem hg)
          | _ => rfl
        | other => rfl
    · cases x with
      | obj f => exact absurd rfl (hleaf f)
      | _ => rfl

/-! Documents. -/

/-- The first document is the second one, or the second one with an identifier. -/
def Identified (first second : Json) : Prop :=
  first = second ∨ ∃ fields id, second = .obj fields ∧ field? "$id" fields = none ∧
    first = .obj (fields ++ [("$id", .str id)])

theorem field?_identified {fields : Fields} {id key : String} (h : key ≠ "$id") :
    field? key (fields ++ [("$id", .str id)]) = field? key fields := by
  induction fields with
  | nil => rw [List.nil_append, field?_cons, if_neg (Ne.symm h)]
  | cons f rest ih =>
    obtain ⟨k, v⟩ := f
    rw [List.cons_append, field?_cons, field?_cons, ih]

theorem hasText_identified {first second : Json} (h : Identified first second) {keyword : String}
    (hkeyword : keyword ≠ "$id") (text : String) :
    hasText keyword text first = hasText keyword text second := by
  rcases h with rfl | ⟨fields, id, rfl, -, rfl⟩
  · rfl
  · rw [hasText, hasText, field?_identified hkeyword]

theorem membersFields_append (position : Position) (fields others : Fields) :
    membersFields position (fields ++ others) =
      membersFields position fields ++ membersFields position others := by
  induction fields with
  | nil => rfl
  | cons f rest ih =>
    obtain ⟨key, value⟩ := f
    rw [List.cons_append, membersFields, membersFields, ih, List.append_assoc]

/-- A name is given to the same schema, which is the document itself in each, or the same one. -/
theorem anchored_identified {first second : Json} (h : Identified first second)
    (keywords : List String) (hkeywords : "$id" ∉ keywords) (name : String) :
    Option.Rel (fun x y => x = y ∨ (x = first ∧ y = second)) (anchored keywords first name)
      (anchored keywords second name) := by
  rcases h with rfl | ⟨fields, id, rfl, hnone, rfl⟩
  · cases anchored keywords first name with
    | none => exact .none
    | some schema => exact .some (.inl rfl)
  · have hidentified : Identified (.obj (fields ++ [("$id", .str id)])) (.obj fields) :=
      .inr ⟨fields, id, rfl, hnone, rfl⟩
    have hmembers : membersFields .schema (fields ++ [("$id", .str id)]) =
        membersFields .schema fields := by
      rw [membersFields_append]
      exact List.append_nil _
    have hsame : (keywords.any fun keyword =>
        hasText keyword name (.obj (fields ++ [("$id", .str id)]))) =
          keywords.any fun keyword => hasText keyword name (.obj fields) := by
      rw [Bool.eq_iff_iff, List.any_eq_true, List.any_eq_true]
      refine exists_congr fun keyword => and_congr_right fun hkeyword => ?_
      rw [hasText_identified hidentified (fun heq => hkeywords (heq ▸ hkeyword)) name]
    rw [anchored, anchored, members, members, hmembers, List.find?_cons, List.find?_cons, hsame]
    cases keywords.any fun keyword => hasText keyword name (.obj fields) with
    | true => exact .some (.inr ⟨rfl, rfl⟩)
    | false =>
      cases List.find? _ (membersFields .schema fields) with
      | none => exact .none
      | some schema => exact .some (.inl rfl)

/-! Scopes. -/

theorem anchored_of_outermost_eq_none {scope : ResourceScope} {name : String} {document : Json}
    (h : outermost scope name = none) (hmem : document ∈ scope) :
    anchored ["$dynamicAnchor"] document name = none := by
  induction scope with
  | nil => exact absurd hmem List.not_mem_nil
  | cons first outer ih =>
    rw [outermost, Option.or_eq_none_iff, Option.map_eq_none_iff] at h
    rcases List.mem_cons.mp hmem with rfl | hmem
    · exact h.2
    · exact ih h.1 hmem

theorem mem_of_outermost {scope : ResourceScope} {name : String} {found : Json × Json}
    (h : outermost scope name = some found) :
    found.1 ∈ scope ∧ anchored ["$dynamicAnchor"] found.1 name = some found.2 := by
  induction scope with
  | nil => exact absurd h (by simp [outermost])
  | cons first outer ih =>
    rw [outermost, Option.or_eq_some_iff] at h
    rcases h with houter | ⟨-, hfirst⟩
    · exact ⟨List.mem_cons_of_mem _ (ih houter).1, (ih houter).2⟩
    · obtain ⟨schema, hschema, rfl⟩ := Option.map_eq_some_iff.mp hfirst
      exact ⟨List.mem_cons_self, hschema⟩

/-- A resource of the scope makes no difference when it is entered again. -/
theorem outermost_cons_of_mem {scope : ResourceScope} {document : Json} (h : document ∈ scope)
    (name : String) : outermost (document :: scope) name = outermost scope name := by
  rw [outermost]
  cases hfound : outermost scope name with
  | some found => rfl
  | none => rw [anchored_of_outermost_eq_none hfound h]; rfl

/-- The schema in its resource means the same as the other schema in its own. -/
structure Pairing (Pair : Json → Json → Json → Json → Prop) : Prop where
  refl : ∀ d x, Pair d x d x
  shape : ∀ {d x e y}, Pair d x e y →
    (∃ f g, x = .obj f ∧ y = .obj g ∧ kept f = kept g) ∨ (x = y ∧ ∀ f, x ≠ .obj f)
  under : ∀ {d f e g}, Pair d (.obj f) e (.obj g) → ∀ field ∈ kept f,
    ∀ schema ∈ schemasUnder (positionOf field.1) field.2,
      opensResource schema = true ∨ Pair d schema e schema
  document : ∀ {d x e y}, Pair d x e y → refers x = true →
    (∀ schema, Pair d schema e schema) ∧ Pair d d e e ∧ Identified d e
  entered : ∀ {d x e y}, Pair d x e y → x = y ∨ (x = d ∧ opensResource y = false)

/-- The scopes give paired schemas to every dynamic name. -/
def SameAnchors (Pair : Json → Json → Json → Json → Prop) (p s : ResourceScope) : Prop :=
  ∀ name, Option.Rel (fun a b => Pair a.1 a.2 b.1 b.2) (outermost p name) (outermost s name)

/-- The schemas are paired in the first resources of their scopes. -/
def Configured (Pair : Json → Json → Json → Json → Prop) (p : ResourceScope) (x : Json)
    (s : ResourceScope) (y : Json) : Prop :=
  ∃ d outer e other, p = d :: outer ∧ s = e :: other ∧ Pair d x e y ∧ SameAnchors Pair p s

section Pairs
variable {Pair : Json → Json → Json → Json → Prop} {p s : ResourceScope} {x y : Json}

theorem SameAnchors.cons (hanchors : SameAnchors Pair p s) {d e : Json}
    (h : ∀ name, Option.Rel (fun x y => Pair d x e y) (anchored ["$dynamicAnchor"] d name)
      (anchored ["$dynamicAnchor"] e name)) : SameAnchors Pair (d :: p) (e :: s) := by
  intro name
  have hname := hanchors name
  have hown := h name
  rw [outermost, outermost]
  generalize outermost p name = a at hname
  generalize outermost s name = b at hname
  generalize anchored ["$dynamicAnchor"] d name = t at hown
  generalize anchored ["$dynamicAnchor"] e name = u at hown
  cases hname with
  | some hpair => exact .some hpair
  | none =>
    cases hown with
    | none => exact .none
    | some hpair => exact .some hpair

/-- The same schema is entered on both sides. -/
theorem SameAnchors.enter (hpair : Pairing Pair) (hanchors : SameAnchors Pair p s) (schema : Json) :
    SameAnchors Pair (enter p schema) (enter s schema) := by
  unfold Contracts.enter
  split
  · refine hanchors.cons fun name => ?_
    cases anchored ["$dynamicAnchor"] schema name with
    | none => exact .none
    | some found => exact .some (hpair.refl _ _)
  · exact hanchors

theorem SameAnchors.cons_of_mem (hanchors : SameAnchors Pair p s) {d e : Json} (hd : d ∈ p)
    (he : e ∈ s) : SameAnchors Pair (d :: p) (e :: s) := by
  intro name
  rw [outermost_cons_of_mem hd, outermost_cons_of_mem he]
  exact hanchors name

/-- Entering the schemas of a configuration gives a configuration. -/
theorem Configured.enter (hpair : Pairing Pair) (h : Configured Pair p x s y) :
    Configured Pair (enter p x) x (enter s y) y := by
  obtain ⟨d, outer, e, other, rfl, rfl, hxy, hanchors⟩ := h
  by_cases hopens : opensResource x = true
  · rcases hpair.entered hxy with rfl | ⟨rfl, hcloses⟩
    · have hentered := hanchors.enter hpair x
      unfold Contracts.enter at hentered ⊢
      rw [if_pos hopens, if_pos hopens] at hentered ⊢
      exact ⟨x, _, x, _, rfl, rfl, hpair.refl x x, hentered⟩
    · unfold Contracts.enter
      rw [if_pos hopens, if_neg (by rw [hcloses]; exact Bool.false_ne_true)]
      refine ⟨x, _, e, _, rfl, rfl, hxy, fun name => ?_⟩
      rw [outermost_cons_of_mem List.mem_cons_self]
      exact hanchors name
  · have hsame : opensResource y = false := by
      rcases hpair.entered hxy with rfl | ⟨-, hcloses⟩
      · exact Bool.eq_false_iff.mpr hopens
      · exact hcloses
    unfold Contracts.enter
    rw [if_neg hopens, if_neg (by rw [hsame]; exact Bool.false_ne_true)]
    exact ⟨d, outer, e, other, rfl, rfl, hxy, hanchors⟩

/-- Schemas that are paired once they are entered. -/
def Related (Pair : Json → Json → Json → Json → Prop) (p : ResourceScope) (x : Json)
    (s : ResourceScope) (y : Json) : Prop :=
  Configured Pair (enter p x) x (enter s y) y

/-- The same schema is found at the same place. -/
theorem located_related (hpair : Pairing Pair) {d e : Json} {outer other : ResourceScope}
    (hscopes : p = d :: outer ∧ s = e :: other) (hall : ∀ schema, Pair d schema e schema)
    (hanchors : SameAnchors Pair p s) (position : Position) (value : Json) (tokens : List String) :
    Option.Rel (fun a b => Related Pair a.1 a.2 b.1 b.2) (locate position p value tokens)
      (locate position s value tokens) := by
  induction tokens generalizing position value p s d e outer other with
  | nil =>
    rw [locate, locate]
    split
    · obtain ⟨rfl, rfl⟩ := hscopes
      exact .some (Configured.enter hpair ⟨d, outer, e, other, rfl, rfl, hall value, hanchors⟩)
    · exact .none
  | cons token rest ih =>
    -- Below, the first resources are still these two, or both are the schema that was entered.
    have hbelow : ∀ (below : Position) (next : Json),
        Option.Rel (fun a b => Related Pair a.1 a.2 b.1 b.2)
          (locate below (if below = .schema then enter p next else p) next rest)
          (locate below (if below = .schema then enter s next else s) next rest) := by
      intro below next
      by_cases hschema : below = .schema
      · rw [if_pos hschema, if_pos hschema]
        have hentered := hanchors.enter hpair next
        unfold enter at hentered ⊢
        split at hentered
        · rename_i hopens
          rw [if_pos hopens, if_pos hopens]
          exact ih ⟨rfl, rfl⟩ (hpair.refl next) hentered below next
        · rename_i hcloses
          rw [if_neg hcloses, if_neg hcloses]
          exact ih hscopes hall hanchors below next
      · rw [if_neg hschema, if_neg hschema]
        exact ih hscopes hall hanchors below next
    cases value with
    | obj fields =>
      rw [locate, locate]
      cases field? token fields with
      | none => exact .none
      | some next => exact hbelow _ next
    | arr items =>
      rw [locate, locate]
      cases token.toNat? with
      | none => exact .none
      | some n =>
        simp only [Option.bind_some]
        cases items[n]? with
        | none => exact .none
        | some next => exact hbelow _ next
    | _ => exact .none

section Targets
variable {d e : Json} {outer other : ResourceScope} (hpair : Pairing Pair)
  (hall : ∀ schema, Pair d schema e schema) (hself : Pair d d e e) (hidentified : Identified d e)
  (hanchors : SameAnchors Pair (d :: outer) (e :: other))
include hpair hall hself hidentified hanchors

theorem pointers_related (tokens : List String) :
    Option.Rel (fun a b => Related Pair a.1 a.2 b.1 b.2)
      (locate .schema (d :: outer) d tokens) (locate .schema (e :: other) e tokens) := by
  have hlocated := located_related hpair ⟨rfl, rfl⟩ hall hanchors
  rcases hidentified with rfl | ⟨fields, id, rfl, hnone, rfl⟩
  · exact hlocated .schema d tokens
  · cases tokens with
    | nil => exact .some (Configured.enter hpair ⟨_, outer, _, other, rfl, rfl, hself, hanchors⟩)
    | cons token rest =>
      by_cases htoken : token = "$id"
      · -- The identifier is no schema, and there is nothing under it.
        subst htoken
        have hadded : field? "$id" (fields ++ [("$id", .str id)]) = some (.str id) := by
          clear hall hself hanchors hlocated
          induction fields with
          | nil => simp
          | cons f rest ih =>
            obtain ⟨k, v⟩ := f
            rw [field?_cons] at hnone
            split at hnone
            · exact absurd hnone (by simp)
            · rename_i hne
              rw [List.cons_append, field?_cons, if_neg hne]
              exact ih hnone
        rw [locate, locate, hadded, hnone, Option.bind_some, Option.bind_none]
        cases rest with
        | nil => exact .none
        | cons token rest => exact .none
      · have hsame := hlocated .schema (.obj fields) (token :: rest)
        rw [locate, locate] at hsame ⊢
        rw [field?_identified htoken]
        exact hsame

/-- A reference resolves to related schemas in documents that are the same up to an identifier. -/
theorem targets_related (decode : String → String) (keyword reference : String) :
    Option.Rel (fun a b => Related Pair a.1 a.2 b.1 b.2)
      (target decode keyword (d :: outer) reference)
      (target decode keyword (e :: other) reference) := by
  have hpairs : ∀ {schema schema'}, schema = schema' ∨ (schema = d ∧ schema' = e) →
      Related Pair (d :: outer) schema (e :: other) schema' := by
    rintro schema schema' (rfl | ⟨rfl, rfl⟩)
    · exact Configured.enter hpair ⟨_, outer, _, other, rfl, rfl, hall schema, hanchors⟩
    · exact Configured.enter hpair ⟨_, outer, _, other, rfl, rfl, hself, hanchors⟩
  simp only [target]
  cases fragment? decode reference with
  | none => exact .none
  | some fragment =>
    cases fragment with
    | root => exact .some (hpairs (.inr ⟨rfl, rfl⟩))
    | pointer tokens => exact pointers_related hpair hall hself hidentified hanchors tokens
    | name name =>
      simp only
      have hnamed := anchored_identified hidentified ["$anchor", "$dynamicAnchor"] (by decide) name
      generalize anchored ["$anchor", "$dynamicAnchor"] d name = a at hnamed
      generalize anchored ["$anchor", "$dynamicAnchor"] e name = b at hnamed
      cases hnamed with
      | none => exact .none
      | @some schema schema' hschema =>
        have hdynamic : hasText "$dynamicAnchor" name schema =
            hasText "$dynamicAnchor" name schema' := by
          rcases hschema with rfl | ⟨rfl, rfl⟩
          · rfl
          · exact hasText_identified hidentified (by decide) name
        simp only [Option.bind_some, hdynamic]
        split
        · have houtermost := hanchors name
          have hmemberₚ : ∀ a, outermost (d :: outer) name = some a → a.1 ∈ d :: outer :=
            fun a ha => (mem_of_outermost ha).1
          have hmemberₛ : ∀ b, outermost (e :: other) name = some b → b.1 ∈ e :: other :=
            fun b hb => (mem_of_outermost hb).1
          generalize outermost (d :: outer) name = a at houtermost hmemberₚ
          generalize outermost (e :: other) name = b at houtermost hmemberₛ
          cases houtermost with
          | none => exact .none
          | @some a b hab =>
            have hcons := hanchors.cons_of_mem (hmemberₚ a rfl) (hmemberₛ b rfl)
            exact .some (Configured.enter hpair ⟨a.1, _, b.1, _, rfl, rfl, hab, hcons⟩)
        · exact .some (hpairs hschema)

end Targets

/-- A pairing is a simulation of the schemas as they are entered. -/
theorem Pairing.simulation (hpair : Pairing Pair) (decode : String → String) :
    Simulation decode (Related Pair) where
  shape := by
    rintro p x s y ⟨d, outer, e, other, -, -, hxy, -⟩
    exact hpair.shape hxy
  under := by
    rintro p f s g ⟨d, outer, e, other, hp, hs, hfg, hanchors⟩ field hfield schema hschema
    rw [hp, hs] at hanchors ⊢
    rcases hpair.under hfg field hfield schema hschema with hopens | hunder
    · have hentered := hanchors.enter hpair schema
      unfold enter at hentered
      rw [if_pos hopens, if_pos hopens] at hentered
      unfold Related enter
      rw [if_pos hopens, if_pos hopens]
      exact ⟨schema, _, schema, _, rfl, rfl, hpair.refl _ _, hentered⟩
    · exact Configured.enter hpair ⟨d, outer, e, other, rfl, rfl, hunder, hanchors⟩
  targets := by
    rintro p f s g ⟨d, outer, e, other, hp, hs, hfg, hanchors⟩ keyword reference hmem hkeyword
    rw [hp, hs] at hanchors ⊢
    have hrefers : refers (.obj f) = true := by
      refine List.any_eq_true.mpr ⟨_, (List.mem_filter.mp hmem).1, ?_⟩
      rw [Bool.and_eq_true]
      exact ⟨decide_eq_true hkeyword, rfl⟩
    obtain ⟨hall, hself, hidentified⟩ := hpair.document hfg hrefers
    exact targets_related hpair hall hself hidentified hanchors decode keyword reference

end Pairs

/-! Embedding. -/

theorem kept_identified (fields : Fields) (id : String) :
    kept (fields ++ [("$id", .str id)]) = kept fields := by
  rw [kept, kept, List.filter_append]
  exact List.append_nil _

theorem shape_self (x : Json) :
    (∃ f g, x = .obj f ∧ x = .obj g ∧ kept f = kept g) ∨ (x = x ∧ ∀ f, x ≠ .obj f) := by
  cases x with
  | obj f => exact .inl ⟨f, f, rfl, rfl, rfl⟩
  | _ => exact .inr ⟨rfl, fun _ h => Json.noConfusion h⟩

/-- A document with an identifier stands for the document, in which it has none. -/
def IdentifiedPair (first second d x e y : Json) : Prop :=
  (d = e ∧ x = y) ∨ (d = first ∧ e = second ∧ (x = y ∨ (x = first ∧ y = second)))

theorem identified_pairing {first second : Json} (h : Identified first second) :
    Pairing (IdentifiedPair first second) where
  refl := fun d x => .inl ⟨rfl, rfl⟩
  shape := by
    rintro d x e y (⟨-, rfl⟩ | ⟨-, -, rfl | ⟨rfl, rfl⟩⟩)
    · exact shape_self x
    · exact shape_self x
    · rcases h with rfl | ⟨fields, id, rfl, -, rfl⟩
      · exact shape_self x
      · exact .inl ⟨_, fields, rfl, rfl, kept_identified fields id⟩
  under := by
    rintro d f e g (⟨rfl, -⟩ | ⟨rfl, rfl, -⟩) field - schema -
    · exact .inr (.inl ⟨rfl, rfl⟩)
    · exact .inr (.inr ⟨rfl, rfl, .inl rfl⟩)
  document := by
    rintro d x e y (⟨rfl, -⟩ | ⟨rfl, rfl, -⟩) -
    · exact ⟨fun _ => .inl ⟨rfl, rfl⟩, .inl ⟨rfl, rfl⟩, .inl rfl⟩
    · exact ⟨fun _ => .inr ⟨rfl, rfl, .inl rfl⟩, .inr ⟨rfl, rfl, .inr ⟨rfl, rfl⟩⟩, h⟩
  entered := by
    rintro d x e y (⟨-, rfl⟩ | ⟨rfl, rfl, rfl | ⟨rfl, rfl⟩⟩)
    · exact .inl rfl
    · exact .inl rfl
    · rcases h with rfl | ⟨fields, id, rfl, hnone, rfl⟩
      · exact .inl rfl
      · refine .inr ⟨rfl, ?_⟩
        rw [opensResource, hnone]

/-- No schema of the document refers to anything. -/
def Silent (document : Json) : Prop :=
  ∀ schema ∈ members document, refers schema = false

theorem refers_eq_false_of_silent {document : Json} (h : Silent document) :
    refers document = false := by
  cases document with
  | obj fields => exact h _ List.mem_cons_self
  | _ => rfl

theorem silent_of_mem {document schema : Json} (h : Silent document)
    (hmem : schema ∈ members document) : Silent schema :=
  fun other hother => h other (members_subset_members hmem hother)

/-- A schema without references means the same in every document. -/
def SilentPair (d x e y : Json) : Prop := x = y ∧ (d = e ∨ Silent x)

theorem silent_pairing : Pairing SilentPair where
  refl := fun d x => ⟨rfl, .inl rfl⟩
  shape := by
    rintro d x e y ⟨rfl, -⟩
    exact shape_self x
  under := by
    rintro d f e g ⟨hfg, hdocument⟩ field hfield schema hschema
    rcases hdocument with rfl | hsilent
    · exact .inr ⟨rfl, .inl rfl⟩
    · cases hopens : opensResource schema with
      | true => exact .inl rfl
      | false =>
        have hsubset := members_subset_of_under (List.mem_filter.mp hfield).1 hschema hopens
        exact .inr ⟨rfl, .inr fun other hother => hsilent other (hsubset hother)⟩
  document := by
    rintro d x e y ⟨rfl, rfl | hsilent⟩ hrefers
    · exact ⟨fun _ => ⟨rfl, .inl rfl⟩, ⟨rfl, .inl rfl⟩, .inl rfl⟩
    · exact absurd hrefers (by rw [refers_eq_false_of_silent hsilent]; exact Bool.false_ne_true)
  entered := fun h => .inl h.1

section Embedding
variable {wrapper result document : Json}

/-- A resource unrolls as the document it is made from. -/
theorem unroll_resource (hresult : Identified result document)
    (hopens : opensResource result = true)
    (hwrapper : ∀ name, anchored ["$dynamicAnchor"] wrapper name = none)
    (decode : String → String) (rest : Json) (depth : ℕ) :
    unroll decode rest depth [wrapper] result = unroll decode rest depth [document] document := by
  have hpair := identified_pairing hresult
  have hself : IdentifiedPair result document result result document document :=
    .inr ⟨rfl, rfl, .inr ⟨rfl, rfl⟩⟩
  have hanchors : SameAnchors (IdentifiedPair result document) [result, wrapper] [document] := by
    intro name
    have hnamed := anchored_identified hresult ["$dynamicAnchor"] (by decide) name
    simp only [outermost, hwrapper name, Option.map_none, Option.none_or]
    generalize anchored ["$dynamicAnchor"] result name = a at hnamed
    generalize anchored ["$dynamicAnchor"] document name = b at hnamed
    cases hnamed with
    | none => exact .none
    | some hschema => exact .some (.inr ⟨rfl, rfl, hschema⟩)
  have hconfigured : Configured (IdentifiedPair result document) (enter [wrapper] result) result
      (enter [document] document) document := by
    unfold enter
    rw [if_pos hopens]
    split
    · refine ⟨result, _, document, _, rfl, rfl, hself, fun name => ?_⟩
      rw [outermost_cons_of_mem (List.mem_singleton.mpr rfl)]
      exact hanchors name
    · exact ⟨result, _, document, _, rfl, rfl, hself, hanchors⟩
  exact (hpair.simulation decode).unroll_eq rest depth hconfigured

/-- A schema without references unrolls as in its own document. -/
theorem unroll_silent (hcloses : opensResource document = false) (hsilent : Silent document)
    (hwrapper : ∀ name, anchored ["$dynamicAnchor"] wrapper name =
      anchored ["$dynamicAnchor"] document name)
    (decode : String → String) (rest : Json) (depth : ℕ) :
    unroll decode rest depth [wrapper] document = unroll decode rest depth [document] document := by
  have hanchors : SameAnchors SilentPair [wrapper] [document] := by
    intro name
    simp only [outermost, hwrapper name, Option.none_or]
    cases hfound : anchored ["$dynamicAnchor"] document name with
    | none => exact .none
    | some schema =>
      have hmem : schema ∈ members document := List.mem_of_find?_eq_some hfound
      exact .some ⟨rfl, .inr (silent_of_mem hsilent hmem)⟩
  have hconfigured : Configured SilentPair (enter [wrapper] document) document
      (enter [document] document) document := by
    unfold enter
    rw [if_neg (by rw [hcloses]; exact Bool.false_ne_true),
      if_neg (by rw [hcloses]; exact Bool.false_ne_true)]
    exact ⟨wrapper, [], document, [], rfl, rfl, ⟨rfl, .inr hsilent⟩, hanchors⟩
  exact (silent_pairing.simulation decode).unroll_eq rest depth hconfigured

end Embedding

end CapabilityCompiler.Contracts
