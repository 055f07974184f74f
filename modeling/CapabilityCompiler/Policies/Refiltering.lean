import CapabilityCompiler.Policies.Disclosure

/-! Filtering an output that has been filtered before: only hashes change. -/
namespace CapabilityCompiler.Policies
open Foundation

mutual

/-- The values that the hash rules of a policy are applied to. -/
def hashedAt (rules : Rules) (path : FieldPath) (value : Json) : List Json :=
  if hasAncestor path rules.denied then []
  else if path ≠ [] ∧ ¬ isReadable path rules.readable then []
  else match rules.redaction? path with
    | some .hash => [value]
    | some _ => []
    | none => match value with
      | .obj fields => hashedOfFields rules path fields
      | .arr items => hashedOfItems rules path items
      | _ => []

def hashedOfItems (rules : Rules) (path : FieldPath) : List Json → List Json
  | [] => []
  | item :: rest => hashedAt rules path item ++ hashedOfItems rules path rest

def hashedOfFields (rules : Rules) (path : FieldPath) : Fields → List Json
  | [] => []
  | (key, child) :: rest =>
    hashedAt rules (path ++ [key]) child ++ hashedOfFields rules path rest

end

/-- The hash of a value is its own hash. -/
def Rehashes (digest : Digest) (value : Json) : Prop :=
  stableHash digest (.str (stableHash digest value)) = stableHash digest value

section Node
variable (digest : Digest) {rules : Rules} {path : FieldPath}

theorem mem_hashedOfItems {items : List Json} {x : Json} :
    x ∈ hashedOfItems rules path items ↔ ∃ item ∈ items, x ∈ hashedAt rules path item := by
  induction items with
  | nil => simp [hashedOfItems]
  | cons item rest ih => simp [hashedOfItems, ih]

theorem mem_hashedOfFields {fields : Fields} {x : Json} :
    x ∈ hashedOfFields rules path fields ↔
      ∃ p ∈ fields, x ∈ hashedAt rules (path ++ [p.1]) p.2 := by
  induction fields with
  | nil => simp [hashedOfFields]
  | cons p rest ih => simp [hashedOfFields, ih]

/-- Nothing is hashed where nothing is shown. -/
theorem hashedAt_of_removed {v : Json} (h : filterNode digest rules path v = none) :
    hashedAt rules path v = [] := by
  unfold filterNode at h
  unfold hashedAt
  split
  · rfl
  · rename_i hkept
    rw [if_neg hkept] at h
    split
    · rfl
    · rename_i hreadable
      rw [if_neg hreadable] at h
      cases hrule : rules.redaction? path with
      | none =>
        rw [hrule] at h
        cases v <;> exact absurd h (by simp)
      | some strategy =>
        rw [hrule] at h
        cases strategy with
        | remove => rfl
        | mask => rfl
        | hash => exact absurd h (by simp)

/-- Whether a value is shown does not depend on it. -/
theorem filterNode_eq_none_iff {v w : Json} :
    filterNode digest rules path v = none ↔ filterNode digest rules path w = none := by
  have hone : ∀ a b : Json, filterNode digest rules path a = none →
      filterNode digest rules path b = none := by
    intro a b h
    unfold filterNode at h ⊢
    split
    · rfl
    · rename_i hkept
      rw [if_neg hkept] at h
      split
      · rfl
      · rename_i hreadable
        rw [if_neg hreadable] at h
        cases hrule : rules.redaction? path with
        | none =>
          rw [hrule] at h
          cases a <;> exact absurd h (by simp)
        | some strategy =>
          rw [hrule] at h
          cases strategy with
          | remove => rfl
          | mask => exact absurd h (by simp)
          | hash => exact absurd h (by simp)
  exact ⟨hone v w, hone w v⟩

/-! Filtered containers. -/

theorem field?_filterFields (key : String) (fields : Fields) :
    Json.field? key (filterFields digest rules path fields) =
      (Json.field? key fields).bind fun child => filterNode digest rules (path ++ [key]) child := by
  rw [filterFields_eq]
  induction fields with
  | nil => rfl
  | cons p rest ih =>
    obtain ⟨k, child⟩ := p
    rw [List.filterMap_cons]
    by_cases hk : k = key
    · subst hk
      cases hshown : filterNode digest rules (path ++ [k]) child with
      | some w => simp [hshown]
      | none =>
        -- The other bindings of the key are removed like the first one.
        simp only [hshown, Option.map_none, ih, Json.field?_cons, if_true, Option.bind_some]
        cases hrest : Json.field? k rest with
        | none => rfl
        | some other => exact (filterNode_eq_none_iff digest).mp hshown
    · cases filterNode digest rules (path ++ [k]) child <;> simp [hk, ih]

theorem filterItems_getElem? {items : List Json} {index : ℕ} {item w : Json}
    (hitem : items[index]? = some item) (hw : filterNode digest rules path item = some w) :
    (filterItems digest rules path items)[index]? = some w := by
  have hshown : ∀ other : Json, ∃ out, filterNode digest rules path other = some out := by
    intro other
    refine Option.ne_none_iff_exists'.mp fun hnone => ?_
    rw [(filterNode_eq_none_iff digest).mp hnone] at hw
    exact absurd hw (by simp)
  rw [filterItems_eq]
  induction items generalizing index with
  | nil => exact absurd hitem (by simp)
  | cons other rest ih =>
    obtain ⟨out, hout⟩ := hshown other
    rw [List.filterMap_cons_some hout]
    cases index with
    | zero =>
      obtain rfl : other = item := by simpa using hitem
      rw [List.getElem?_cons_zero, ← hout, hw]
    | succ n =>
      rw [List.getElem?_cons_succ]
      exact ih (by simpa using hitem)

/-! Lists that a partial function leaves as they are. -/

theorem filterMap_eq_self_iff {α : Type} {f : α → Option α} {l : List α} :
    l.filterMap f = l ↔ ∀ a ∈ l, f a = some a := by
  constructor
  · intro h
    induction l with
    | nil => simp
    | cons a rest ih =>
      cases hfa : f a with
      | none =>
        rw [List.filterMap_cons_none hfa] at h
        have hlength := congrArg List.length h
        have hle := List.length_filterMap_le f rest
        rw [List.length_cons] at hlength
        omega
      | some b =>
        rw [List.filterMap_cons_some hfa] at h
        obtain ⟨rfl, hrest⟩ := List.cons.inj h
        intro c hc
        rcases List.mem_cons.mp hc with rfl | hc
        · exact hfa
        · exact ih hrest c hc
  · intro h
    rw [List.filterMap_congr h, List.filterMap_some]

theorem filterItems_eq_self_iff {items : List Json} :
    filterItems digest rules path items = items ↔
      ∀ item ∈ items, filterNode digest rules path item = some item := by
  rw [filterItems_eq]
  exact filterMap_eq_self_iff

/-- Fields in key order stay in key order. -/
theorem sortKeys_filterFields_sortKeys (fields : Fields) :
    Printer.sortKeys (filterFields digest rules path (Printer.sortKeys fields)) =
      filterFields digest rules path (Printer.sortKeys fields) := by
  have hsorted : (Printer.sortKeys fields).Pairwise fun a b => a.1 ≤ b.1 :=
    List.pairwise_insertionSort _ fields
  have hfiltered : (filterFields digest rules path (Printer.sortKeys fields)).Pairwise
      fun a b => a.1 ≤ b.1 := by
    rw [filterFields_eq, List.pairwise_filterMap]
    refine hsorted.imp fun {a b} hab c hc d hd => ?_
    obtain ⟨-, -, rfl⟩ := Option.map_eq_some_iff.mp hc
    obtain ⟨-, -, rfl⟩ := Option.map_eq_some_iff.mp hd
    exact hab
  exact List.Pairwise.insertionSort_eq hfiltered

theorem filterFields_eq_self_iff {fields : Fields} :
    filterFields digest rules path fields = fields ↔
      ∀ p ∈ fields, filterNode digest rules (path ++ [p.1]) p.2 = some p.2 := by
  rw [filterFields_eq, filterMap_eq_self_iff]
  refine forall₂_congr fun p _ => ?_
  cases filterNode digest rules (path ++ [p.1]) p.2 with
  | none => simp
  | some w => simp [Prod.ext_iff]

theorem hashedAt_of_passes (h : rules.Passes path) (v : Json) :
    hashedAt rules path v = match v with
      | .obj fields => hashedOfFields rules path fields
      | .arr items => hashedOfItems rules path items
      | _ => [] := by
  have hread : ¬ (path ≠ [] ∧ ¬ isReadable path rules.readable = true) := by
    rintro ⟨hne, hnot⟩
    exact h.readable.elim hne hnot
  have hkept : ¬ hasAncestor path rules.denied = true := by simp [h.kept]
  cases v <;> simp only [hashedAt, if_neg hkept, if_neg hread, h.unredacted]

/-- What replaces a value stays as it is, unless it is a hash. -/
theorem filterNode_twice_of_not_passes {v w : Json} (hpasses : ¬ rules.Passes path)
    (h : filterNode digest rules path v = some w) :
    filterNode digest rules path w = some w ↔
      ∀ x ∈ hashedAt rules path v, Rehashes digest x := by
  unfold filterNode at h ⊢
  unfold hashedAt
  by_cases hdenied : hasAncestor path rules.denied = true
  · exact absurd h (by simp [hdenied])
  by_cases hread : path ≠ [] ∧ ¬ isReadable path rules.readable = true
  · exact absurd h (by simp [hdenied, hread])
  rw [if_neg hdenied, if_neg hread] at h
  rw [if_neg hdenied, if_neg hread, if_neg hdenied, if_neg hread]
  cases hrule : rules.redaction? path with
  | none => exact absurd ⟨by simpa using hdenied, by tauto, hrule⟩ hpasses
  | some strategy =>
    rw [hrule] at h
    cases strategy with
    | remove => exact absurd h (by simp)
    | mask => simpa using h
    | hash =>
      obtain rfl : .str (stableHash digest v) = w := by simpa using h
      simp [Rehashes]

/-- A value that was filtered stays as it is, unless a hash rule was applied to a part of it. -/
theorem filterNode_twice {v w : Json} (h : filterNode digest rules path v = some w) :
    filterNode digest rules path w = some w ↔
      ∀ x ∈ hashedAt rules path v, Rehashes digest x := by
  induction v generalizing path w with
  | arr items ih =>
    by_cases hpasses : rules.Passes path
    · rw [filterNode_arr digest hpasses] at h
      obtain rfl := Option.some.inj h
      rw [filterNode_arr digest hpasses, hashedAt_of_passes hpasses, Option.some.injEq,
        Json.arr.injEq, filterItems_eq_self_iff]
      constructor
      · intro hkept x hx
        obtain ⟨item, hitem, hx⟩ := mem_hashedOfItems.mp hx
        cases hshown : filterNode digest rules path item with
        | none =>
          rw [hashedAt_of_removed digest hshown] at hx
          exact absurd hx List.not_mem_nil
        | some out =>
          have hout := hkept out ((mem_filterItems digest).mpr ⟨item, hitem, hshown⟩)
          exact (ih item hitem hshown).mp hout x hx
      · intro hhashed out hout
        obtain ⟨item, hitem, hshown⟩ := (mem_filterItems digest).mp hout
        exact (ih item hitem hshown).mpr fun x hx =>
          hhashed x (mem_hashedOfItems.mpr ⟨item, hitem, hx⟩)
    · exact filterNode_twice_of_not_passes digest hpasses h
  | obj fields ih =>
    by_cases hpasses : rules.Passes path
    · rw [filterNode_obj digest hpasses] at h
      obtain rfl := Option.some.inj h
      rw [filterNode_obj digest hpasses, hashedAt_of_passes hpasses, Option.some.injEq,
        Json.obj.injEq, sortKeys_filterFields_sortKeys, filterFields_eq_self_iff]
      constructor
      · intro hkept x hx
        obtain ⟨p, hp, hx⟩ := mem_hashedOfFields.mp hx
        cases hshown : filterNode digest rules (path ++ [p.1]) p.2 with
        | none =>
          rw [hashedAt_of_removed digest hshown] at hx
          exact absurd hx List.not_mem_nil
        | some out =>
          have hout := hkept (p.1, out)
            (mem_sortKeys.mpr ((mem_filterFields digest).mpr ⟨p.2, hp, hshown⟩))
          exact (ih p hp hshown).mp hout x hx
      · rintro hhashed ⟨key, out⟩ hout
        obtain ⟨child, hchild, hshown⟩ := (mem_filterFields digest).mp (mem_sortKeys.mp hout)
        exact (ih (key, child) hchild hshown).mpr fun x hx =>
          hhashed x (mem_hashedOfFields.mpr ⟨(key, child), hchild, hx⟩)
    · exact filterNode_twice_of_not_passes digest hpasses h
  | _ =>
    by_cases hpasses : rules.Passes path
    · rw [filterNode_of_passes digest hpasses] at h
      obtain rfl := Option.some.inj h
      rw [filterNode_of_passes digest hpasses, hashedAt_of_passes hpasses]
      simp
    · exact filterNode_twice_of_not_passes digest hpasses h

/-- Filtering twice is filtering once, unless a hash rule reaches a part of the output. -/
theorem filterOutput_twice (policy : Policy) (value : Json) :
    filterOutput digest policy (filterOutput digest policy value) =
        filterOutput digest policy value ↔
      ∀ x ∈ hashedAt policy.rules [] value, Rehashes digest x := by
  unfold filterOutput
  cases hshown : filterNode digest policy.rules [] value with
  | none =>
    have hempty : filterNode digest policy.rules [] (.obj []) = none :=
      (filterNode_eq_none_iff digest).mp hshown
    simp [hempty, hashedAt_of_removed digest hshown]
  | some w =>
    rw [Option.getD_some, ← filterNode_twice digest hshown]
    cases hagain : filterNode digest policy.rules [] w with
    | none =>
      rw [(filterNode_eq_none_iff digest).mp hagain] at hshown
      exact absurd hshown (by simp)
    | some w' => simp

end Node
end CapabilityCompiler.Policies
