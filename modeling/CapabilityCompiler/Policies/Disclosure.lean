import CapabilityCompiler.Policies.Enforcer
import Mathlib.Data.List.Infix

/-! What a filtered output discloses: its scalars, located in the original document. -/
namespace CapabilityCompiler.Policies
open Foundation

mutual

/-- The scalars of a document with their field paths; array items share the path of the array. -/
def scalarsAt (path : FieldPath) : Json → List (FieldPath × Json)
  | .obj fields => scalarsOfFields path fields
  | .arr items => scalarsOfItems path items
  | scalar => [(path, scalar)]

def scalarsOfItems (path : FieldPath) : List Json → List (FieldPath × Json)
  | [] => []
  | item :: rest => scalarsAt path item ++ scalarsOfItems path rest

def scalarsOfFields (path : FieldPath) : Fields → List (FieldPath × Json)
  | [] => []
  | (key, child) :: rest => scalarsAt (path ++ [key]) child ++ scalarsOfFields path rest

end

theorem mem_scalarsOfItems {path : FieldPath} {items : List Json} {x : FieldPath × Json} :
    x ∈ scalarsOfItems path items ↔ ∃ item ∈ items, x ∈ scalarsAt path item := by
  induction items with
  | nil => simp [scalarsOfItems]
  | cons item rest ih => simp [scalarsOfItems, ih]

theorem mem_scalarsOfFields {path : FieldPath} {fields : Fields} {x : FieldPath × Json} :
    x ∈ scalarsOfFields path fields ↔ ∃ p ∈ fields, x ∈ scalarsAt (path ++ [p.1]) p.2 := by
  induction fields with
  | nil => simp [scalarsOfFields]
  | cons p rest ih =>
    obtain ⟨key, child⟩ := p
    simp [scalarsOfFields, ih]

theorem prefix_of_mem_scalarsAt {v : Json} {path q : FieldPath} {s : Json}
    (h : (q, s) ∈ scalarsAt path v) : path <+: q := by
  induction v generalizing path with
  | arr items ih =>
    simp only [scalarsAt, mem_scalarsOfItems] at h
    obtain ⟨item, hmem, hq⟩ := h
    exact ih item hmem hq
  | obj fields ih =>
    simp only [scalarsAt, mem_scalarsOfFields] at h
    obtain ⟨p, hmem, hq⟩ := h
    exact (List.prefix_append path [p.1]).trans (ih p hmem hq)
  | _ =>
    simp only [scalarsAt, List.mem_singleton, Prod.mk.injEq] at h
    rw [h.1]

theorem filterItems_eq (digest : Digest) (rules : Rules) (path : FieldPath) (items : List Json) :
    filterItems digest rules path items = items.filterMap (filterNode digest rules path) := by
  induction items with
  | nil => simp [filterItems]
  | cons item rest ih =>
    rw [filterItems, ih, List.filterMap_cons]
    cases filterNode digest rules path item <;> simp

theorem filterFields_eq (digest : Digest) (rules : Rules) (path : FieldPath) (fields : Fields) :
    filterFields digest rules path fields =
      fields.filterMap fun p =>
        (filterNode digest rules (path ++ [p.1]) p.2).map fun v => (p.1, v) := by
  induction fields with
  | nil => simp [filterFields]
  | cons p rest ih =>
    obtain ⟨key, child⟩ := p
    rw [filterFields, ih, List.filterMap_cons]
    cases filterNode digest rules (path ++ [key]) child <;> simp

/-- The filter enters a value at this path instead of removing or redacting it. -/
structure Rules.Passes (rules : Rules) (path : FieldPath) : Prop where
  kept : hasAncestor path rules.denied = false
  readable : path = [] ∨ isReadable path rules.readable = true
  unredacted : rules.redaction? path = none

section Node
variable (digest : Digest) {rules : Rules} {path : FieldPath}

theorem filterNode_of_passes (h : rules.Passes path) (v : Json) :
    filterNode digest rules path v = match v with
      | .obj fields => some (.obj (Printer.sortKeys (filterFields digest rules path fields)))
      | .arr items => some (.arr (filterItems digest rules path items))
      | scalar => some scalar := by
  have hread : ¬ (path ≠ [] ∧ ¬ isReadable path rules.readable = true) := by
    rintro ⟨hne, hnot⟩
    exact h.readable.elim hne hnot
  have hkept : ¬ hasAncestor path rules.denied = true := by simp [h.kept]
  cases v <;> simp only [filterNode, if_neg hkept, if_neg hread, h.unredacted]

theorem filterNode_arr (h : rules.Passes path) (items : List Json) :
    filterNode digest rules path (.arr items) =
      some (.arr (filterItems digest rules path items)) :=
  filterNode_of_passes digest h (.arr items)

theorem filterNode_obj (h : rules.Passes path) (fields : Fields) :
    filterNode digest rules path (.obj fields) =
      some (.obj (Printer.sortKeys (filterFields digest rules path fields))) :=
  filterNode_of_passes digest h (.obj fields)

theorem filterNode_of_denied (h : hasAncestor path rules.denied = true) (v : Json) :
    filterNode digest rules path v = none := by
  unfold filterNode
  rw [if_pos h]

theorem filterNode_of_not_readable (hne : path ≠ [])
    (h : ¬ isReadable path rules.readable = true) (v : Json) :
    filterNode digest rules path v = none := by
  unfold filterNode
  by_cases hdenied : hasAncestor path rules.denied = true
  · rw [if_pos hdenied]
  · rw [if_neg hdenied, if_pos ⟨hne, h⟩]

theorem filterNode_of_not_passes (h : ¬ rules.Passes path) (v : Json) :
    filterNode digest rules path v = none ∨
      (rules.redaction? path ≠ none ∧
        ∃ text, filterNode digest rules path v = some (.str text)) := by
  unfold filterNode
  by_cases hdenied : hasAncestor path rules.denied = true
  · simp [hdenied]
  by_cases hread : path ≠ [] ∧ ¬ isReadable path rules.readable = true
  · simp [hread]
  have hsome : rules.redaction? path ≠ none := by
    intro hnone
    exact h ⟨by simpa using hdenied, by tauto, hnone⟩
  obtain ⟨strategy, hstrategy⟩ := Option.ne_none_iff_exists'.mp hsome
  rw [if_neg hdenied, if_neg hread, hstrategy]
  cases strategy <;> simp

theorem mem_filterItems {items : List Json} {out : Json} :
    out ∈ filterItems digest rules path items ↔
      ∃ item ∈ items, filterNode digest rules path item = some out := by
  rw [filterItems_eq, List.mem_filterMap]

theorem mem_sortKeys {α : Type} {fields : List (String × α)} {p : String × α} :
    p ∈ Printer.sortKeys fields ↔ p ∈ fields := by
  unfold Printer.sortKeys
  exact (List.perm_insertionSort _ fields).mem_iff

theorem mem_filterFields {fields : Fields} {p : String × Json} :
    p ∈ filterFields digest rules path fields ↔
      ∃ child, (p.1, child) ∈ fields ∧
        filterNode digest rules (path ++ [p.1]) child = some p.2 := by
  rw [filterFields_eq, List.mem_filterMap]
  constructor
  · rintro ⟨⟨key, child⟩, hmem, hp⟩
    simp only [Option.map_eq_some_iff] at hp
    obtain ⟨v, hv, rfl⟩ := hp
    exact ⟨child, hmem, hv⟩
  · rintro ⟨child, hmem, hv⟩
    exact ⟨(p.1, child), hmem, by simp [hv]⟩

theorem not_exists_disclosed {v s : Json} {q : FieldPath} (h : ¬ rules.Passes path)
    (hred : rules.redaction? q = none) :
    ¬ ∃ out, filterNode digest rules path v = some out ∧ (q, s) ∈ scalarsAt path out := by
  rintro ⟨out, hout, hq⟩
  rcases filterNode_of_not_passes digest h v with hnone | ⟨hsome, text, htext⟩
  · simp [hnone] at hout
  · rw [htext] at hout
    obtain rfl := Option.some.inj hout
    simp only [scalarsAt, List.mem_singleton, Prod.mk.injEq] at hq
    exact hsome (hq.1 ▸ hred)

end Node

private theorem not_reached {rules : Rules} {v s : Json} {path q : FieldPath}
    (h : ¬ rules.Passes path) :
    ¬ ((q, s) ∈ scalarsAt path v ∧ ∀ r, path <+: r → r <+: q → rules.Passes r) := by
  rintro ⟨hin, hall⟩
  exact h (hall path List.prefix_rfl (prefix_of_mem_scalarsAt hin))

/-- A path between a node and a position below one of its fields is the node's or below the field. -/
private theorem eq_or_child_prefix {path r q : FieldPath} {key : String} (hr : path <+: r)
    (hrq : r <+: q) (hq : path ++ [key] <+: q) : r = path ∨ path ++ [key] <+: r := by
  obtain ⟨t, rfl⟩ := hr
  cases t with
  | nil => exact .inl (by simp)
  | cons k t =>
    refine .inr (List.prefix_of_prefix_length_le hq hrq ?_)
    simp

/-- The unredacted scalars of a filtered value are those scalars of the value that the filter
reaches by entering every path on the way. -/
theorem mem_scalarsAt_filterNode (digest : Digest) {rules : Rules} {v : Json}
    {path q : FieldPath} {s : Json} (hred : rules.redaction? q = none) :
    (∃ out, filterNode digest rules path v = some out ∧ (q, s) ∈ scalarsAt path out) ↔
      (q, s) ∈ scalarsAt path v ∧ ∀ r, path <+: r → r <+: q → rules.Passes r := by
  induction v generalizing path with
  | arr items ih =>
    by_cases hpass : rules.Passes path
    · simp only [filterNode_arr digest hpass, Option.some.injEq, exists_eq_left', scalarsAt,
        mem_scalarsOfItems, mem_filterItems]
      constructor
      · rintro ⟨out, ⟨item, hmem, hout⟩, hq⟩
        obtain ⟨hin, hall⟩ := (ih item hmem).mp ⟨out, hout, hq⟩
        exact ⟨⟨item, hmem, hin⟩, hall⟩
      · rintro ⟨⟨item, hmem, hin⟩, hall⟩
        obtain ⟨out, hout, hq⟩ := (ih item hmem).mpr ⟨hin, hall⟩
        exact ⟨out, ⟨item, hmem, hout⟩, hq⟩
    · exact iff_of_false (not_exists_disclosed digest hpass hred) (not_reached hpass)
  | obj fields ih =>
    by_cases hpass : rules.Passes path
    · simp only [filterNode_obj digest hpass, Option.some.injEq, exists_eq_left', scalarsAt,
        mem_scalarsOfFields, mem_sortKeys, mem_filterFields]
      constructor
      · rintro ⟨p, ⟨child, hmem, hout⟩, hq⟩
        obtain ⟨hin, hall⟩ := (ih (p.1, child) hmem).mp ⟨p.2, hout, hq⟩
        refine ⟨⟨(p.1, child), hmem, hin⟩, fun r hr hrq => ?_⟩
        rcases eq_or_child_prefix hr hrq (prefix_of_mem_scalarsAt hin) with rfl | hchild
        · exact hpass
        · exact hall r hchild hrq
      · rintro ⟨⟨p, hmem, hin⟩, hall⟩
        have hchild : ∀ r, path ++ [p.1] <+: r → r <+: q → rules.Passes r := fun r hr hrq =>
          hall r ((List.prefix_append path [p.1]).trans hr) hrq
        obtain ⟨out, hout, hq⟩ := (ih p hmem).mpr ⟨hin, hchild⟩
        exact ⟨(p.1, out), ⟨p.2, hmem, hout⟩, hq⟩
    · exact iff_of_false (not_exists_disclosed digest hpass hred) (not_reached hpass)
  | _ =>
    by_cases hpass : rules.Passes path
    · simp only [filterNode_of_passes digest hpass, Option.some.injEq, exists_eq_left', scalarsAt,
        List.mem_singleton, Prod.mk.injEq]
      constructor
      · rintro ⟨rfl, hs⟩
        refine ⟨⟨rfl, hs⟩, fun r hr hrq => ?_⟩
        rw [hrq.eq_of_length_le hr.length_le]
        exact hpass
      · exact fun h => h.1
    · exact iff_of_false (not_exists_disclosed digest hpass hred) (not_reached hpass)

theorem hasAncestor_iff {path : FieldPath} {candidates : List FieldPath} :
    hasAncestor path candidates = true ↔ ∃ rule ∈ candidates, rule <+: path := by
  simp [hasAncestor]

theorem isReadable_iff {path : FieldPath} {readable : List FieldPath} :
    isReadable path readable = true ↔
      hasAncestor path readable = true ∨ ∃ rule ∈ readable, path <+: rule := by
  simp only [isReadable, hasAncestor_iff, List.any_eq_true, Bool.or_eq_true, List.isPrefixOf_iff_prefix]
  constructor
  · rintro ⟨rule, hmem, h | h⟩
    · exact .inl ⟨rule, hmem, h⟩
    · exact .inr ⟨rule, hmem, h⟩
  · rintro (⟨rule, hmem, h⟩ | ⟨rule, hmem, h⟩)
    · exact ⟨rule, hmem, .inl h⟩
    · exact ⟨rule, hmem, .inr h⟩

theorem hasAncestor_mono {r q : FieldPath} {candidates : List FieldPath} (hrq : r <+: q)
    (h : hasAncestor r candidates = true) : hasAncestor q candidates = true := by
  obtain ⟨rule, hmem, hr⟩ := hasAncestor_iff.mp h
  exact hasAncestor_iff.mpr ⟨rule, hmem, hr.trans hrq⟩

theorem not_hasAncestor_anti {r q : FieldPath} {candidates : List FieldPath} (hrq : r <+: q)
    (h : hasAncestor q candidates = false) : hasAncestor r candidates = false := by
  rw [Bool.eq_false_iff] at h ⊢
  exact fun hr => h (hasAncestor_mono hrq hr)

/-- The position is at or under a readable path and not at or under a denied one. -/
def Rules.Visible (rules : Rules) (path : FieldPath) : Prop :=
  hasAncestor path rules.readable = true ∧ hasAncestor path rules.denied = false

instance (rules : Rules) (path : FieldPath) : Decidable (rules.Visible path) :=
  inferInstanceAs (Decidable (_ ∧ _))

/-- Every scalar that a filtered output shows unredacted is at a visible position. -/
def Nondisclosing (digest : Digest) (policy : Policy) (value : Json) : Prop :=
  ∀ q s, (q, s) ∈ scalarsAt [] (filterOutput digest policy value) →
    policy.rules.redaction? q = none → policy.rules.Visible q

/-- No scalar stands at the root or above a readable path, unless that position is itself readable,
is denied, or lies under a redacted path. -/
def Confined (policy : Policy) (value : Json) : Prop :=
  ∀ q s, (q, s) ∈ scalarsAt [] value → (q = [] ∨ ∃ rule ∈ policy.rules.readable, q <+: rule) →
    hasAncestor q policy.rules.denied = false →
    (∀ r, r <+: q → policy.rules.redaction? r = none) →
    hasAncestor q policy.rules.readable = true

theorem mem_scalarsAt_filterOutput (digest : Digest) (policy : Policy) (value : Json)
    {q : FieldPath} {s : Json} (hred : policy.rules.redaction? q = none) :
    (q, s) ∈ scalarsAt [] (filterOutput digest policy value) ↔
      (q, s) ∈ scalarsAt [] value ∧ ∀ r, r <+: q → policy.rules.Passes r := by
  have h : _ ↔ (q, s) ∈ scalarsAt [] value ∧ _ := mem_scalarsAt_filterNode digest hred
  simp only [List.nil_prefix, forall_const] at h
  rw [← h, filterOutput]
  cases filterNode digest policy.rules [] value <;> simp [scalarsAt, scalarsOfFields]

/-- A scalar above a readable path is reached whenever nothing on its way is denied or redacted. -/
theorem passes_of_above {rules : Rules} {q : FieldPath}
    (habove : q = [] ∨ ∃ rule ∈ rules.readable, q <+: rule)
    (hdenied : hasAncestor q rules.denied = false)
    (hred : ∀ r, r <+: q → rules.redaction? r = none) (r : FieldPath) (hrq : r <+: q) :
    rules.Passes r := by
  refine ⟨not_hasAncestor_anti hrq hdenied, ?_, hred r hrq⟩
  rcases habove with rfl | ⟨rule, hmem, hq⟩
  · exact .inl (List.prefix_nil.mp hrq)
  · exact .inr (isReadable_iff.mpr (.inr ⟨rule, hmem, hrq.trans hq⟩))

theorem Confined.readable {policy : Policy} {value s : Json} {q : FieldPath}
    (h : Confined policy value) (hin : (q, s) ∈ scalarsAt [] value)
    (hpass : ∀ r, r <+: q → policy.rules.Passes r) :
    hasAncestor q policy.rules.readable = true := by
  have hq := hpass q List.prefix_rfl
  have habove := fun habove => h q s hin habove hq.kept fun r hr => (hpass r hr).unredacted
  rcases hq.readable with hroot | hread
  · exact habove (.inl hroot)
  · exact (isReadable_iff.mp hread).elim id fun hrule => habove (.inr hrule)

theorem nondisclosing_iff_confined (digest : Digest) (policy : Policy) (value : Json) :
    Nondisclosing digest policy value ↔ Confined policy value := by
  constructor
  · intro h q s hin habove hdenied hred
    have hpass := passes_of_above habove hdenied hred
    have hq := hred q List.prefix_rfl
    exact (h q s ((mem_scalarsAt_filterOutput digest policy value hq).mpr ⟨hin, hpass⟩) hq).1
  · intro h q s hout hred
    obtain ⟨hin, hpass⟩ := (mem_scalarsAt_filterOutput digest policy value hred).mp hout
    exact ⟨h.readable hin hpass, (hpass q List.prefix_rfl).kept⟩

mutual

/-- The part of a document at visible positions, with the containers above them: a hidden scalar is
blanked out, and a field is left out when no position under it is visible. -/
def visiblePart (rules : Rules) (path : FieldPath) (value : Json) : Json :=
  if hasAncestor path rules.denied then .null
  else match value with
    | .obj fields => .obj (visibleFields rules path fields)
    | .arr items => .arr (visibleItems rules path items)
    | scalar => if hasAncestor path rules.readable then scalar else .null

def visibleItems (rules : Rules) (path : FieldPath) : List Json → List Json
  | [] => []
  | item :: rest => visiblePart rules path item :: visibleItems rules path rest

def visibleFields (rules : Rules) (path : FieldPath) : Fields → Fields
  | [] => []
  | (key, child) :: rest =>
    let childPath := path ++ [key]
    let kept := visibleFields rules path rest
    if hasAncestor childPath rules.denied || !isReadable childPath rules.readable then kept
    else (key, visiblePart rules childPath child) :: kept

end

/-- A hash redaction never digests a hidden position. -/
def HashesVisible (policy : Policy) : Prop :=
  ∀ p, policy.rules.redaction? p = some .hash → ∀ q, p <+: q → policy.rules.Visible q

theorem visibleItems_eq (rules : Rules) (path : FieldPath) (items : List Json) :
    visibleItems rules path items = items.map (visiblePart rules path) := by
  induction items with
  | nil => simp [visibleItems]
  | cons item rest ih => simp [visibleItems, ih]

/-- A document all of whose positions are visible is its own visible part. -/
theorem visiblePart_eq_self {rules : Rules} {path : FieldPath} {v : Json}
    (h : ∀ q, path <+: q → rules.Visible q) : visiblePart rules path v = v := by
  have hpath := h path List.prefix_rfl
  induction v generalizing path with
  | arr items ih =>
    have hitems : items.map (visiblePart rules path) = items :=
      List.map_congr_left (fun item hmem => ih item hmem h hpath) |>.trans (List.map_id items)
    rw [visiblePart, if_neg (by simp [hpath.2])]
    simp only [visibleItems_eq, hitems]
  | obj fields ih =>
    rw [visiblePart, if_neg (by simp [hpath.2])]
    simp only [Json.obj.injEq]
    induction fields with
    | nil => simp [visibleFields]
    | cons p rest ihrest =>
      obtain ⟨key, child⟩ := p
      have hbelow : ∀ q, path ++ [key] <+: q → rules.Visible q := fun q hq =>
        h q ((List.prefix_append path [key]).trans hq)
      have hchild := hbelow (path ++ [key]) List.prefix_rfl
      have hread : isReadable (path ++ [key]) rules.readable = true :=
        isReadable_iff.mpr (.inl hchild.1)
      have hself := ih (key, child) List.mem_cons_self hbelow hchild
      have hrest := ihrest fun p hp => ih p (List.mem_cons_of_mem _ hp)
      simp only at hself
      simp [visibleFields, hchild.2, hread, hself, hrest]
  | _ => simp [visiblePart, hpath.1, hpath.2]

/-- Fields that are filtered alike, and the hidden ones the filter removes anyway. -/
private theorem filterFields_visibleFields (digest : Digest) {rules : Rules} {path : FieldPath}
    {fields : Fields}
    (h : ∀ p ∈ fields, filterNode digest rules (path ++ [p.1])
      (visiblePart rules (path ++ [p.1]) p.2) = filterNode digest rules (path ++ [p.1]) p.2) :
    filterFields digest rules path (visibleFields rules path fields) =
      filterFields digest rules path fields := by
  induction fields with
  | nil => simp [visibleFields]
  | cons p rest ih =>
    obtain ⟨key, child⟩ := p
    have hrest := ih fun p hp => h p (List.mem_cons_of_mem _ hp)
    have hchild := h (key, child) List.mem_cons_self
    simp only at hchild
    by_cases hdenied : hasAncestor (path ++ [key]) rules.denied = true
    · simp [visibleFields, filterFields, hdenied, hrest, filterNode_of_denied digest hdenied child]
    by_cases hread : isReadable (path ++ [key]) rules.readable = true
    · simp [visibleFields, filterFields, hdenied, hread, hrest, hchild]
    · have hnone := filterNode_of_not_readable digest (by simp) hread child
      simp [visibleFields, filterFields, hdenied, hread, hrest, hnone]

/-- Only a hash redaction looks at a value the filter does not enter. -/
private theorem filterNode_visiblePart_of_not_passes (digest : Digest) {policy : Policy}
    (hhash : HashesVisible policy) {path : FieldPath} (hpass : ¬ policy.rules.Passes path)
    (v : Json) :
    filterNode digest policy.rules path (visiblePart policy.rules path v) =
      filterNode digest policy.rules path v := by
  by_cases hstrategy : policy.rules.redaction? path = some .hash
  · rw [visiblePart_eq_self (hhash path hstrategy)]
  · by_cases hdenied : hasAncestor path policy.rules.denied = true
    · rw [filterNode_of_denied digest hdenied, filterNode_of_denied digest hdenied]
    by_cases hread : path ≠ [] ∧ ¬ isReadable path policy.rules.readable = true
    · rw [filterNode_of_not_readable digest hread.1 hread.2,
        filterNode_of_not_readable digest hread.1 hread.2]
    unfold filterNode
    rw [if_neg hdenied, if_neg hread, if_neg hdenied, if_neg hread]
    cases hred : policy.rules.redaction? path with
    | none => exact absurd ⟨by simpa using hdenied, by tauto, hred⟩ hpass
    | some strategy =>
      cases strategy with
      | hash => exact absurd hred hstrategy
      | _ => rfl

/-- The filter sees only the visible part of a value whose reached scalars are readable. -/
theorem filterNode_visiblePart (digest : Digest) {policy : Policy} (hhash : HashesVisible policy)
    {v : Json} {path : FieldPath}
    (hread : ∀ q s, (q, s) ∈ scalarsAt path v →
      (∀ r, path <+: r → r <+: q → policy.rules.Passes r) →
      hasAncestor q policy.rules.readable = true) :
    filterNode digest policy.rules path (visiblePart policy.rules path v) =
      filterNode digest policy.rules path v := by
  induction v generalizing path with
  | arr items ih =>
    by_cases hpass : policy.rules.Passes path
    · rw [visiblePart, if_neg (by simp [hpass.kept])]
      simp only [filterNode_arr digest hpass, Option.some.injEq, Json.arr.injEq, visibleItems_eq,
        filterItems_eq, List.filterMap_map]
      refine List.filterMap_congr fun item hmem => ih item hmem fun q s hin => ?_
      exact hread q s (by simpa [scalarsAt, mem_scalarsOfItems] using ⟨item, hmem, hin⟩)
    · exact filterNode_visiblePart_of_not_passes digest hhash hpass _
  | obj fields ih =>
    by_cases hpass : policy.rules.Passes path
    · rw [visiblePart, if_neg (by simp [hpass.kept])]
      simp only [filterNode_obj digest hpass]
      congr 3
      refine filterFields_visibleFields digest fun p hp => ih p hp fun q s hin hall => ?_
      have hq : (q, s) ∈ scalarsAt path (.obj fields) := by
        simpa [scalarsAt, mem_scalarsOfFields] using ⟨p.1, p.2, hp, hin⟩
      refine hread q s hq fun r hr hrq => ?_
      rcases eq_or_child_prefix hr hrq (prefix_of_mem_scalarsAt hin) with rfl | hchild
      · exact hpass
      · exact hall r hchild hrq
    · exact filterNode_visiblePart_of_not_passes digest hhash hpass _
  | _ =>
    by_cases hpass : policy.rules.Passes path
    · have hpath := hread path _ (List.mem_singleton.mpr rfl) fun r hr hrq =>
        hrq.eq_of_length_le hr.length_le ▸ hpass
      simp [visiblePart, hpass.kept, hpath]
    · exact filterNode_visiblePart_of_not_passes digest hhash hpass _

/-- The filter answers alike on two outputs with the same visible part. -/
theorem filterOutput_eq_of_visiblePart_eq (digest : Digest) {policy : Policy} {v w : Json}
    (hhash : HashesVisible policy) (hv : Confined policy v) (hw : Confined policy w)
    (heq : visiblePart policy.rules [] v = visiblePart policy.rules [] w) :
    filterOutput digest policy v = filterOutput digest policy w := by
  have hroot : ∀ u, Confined policy u →
      filterNode digest policy.rules [] (visiblePart policy.rules [] u) =
        filterNode digest policy.rules [] u := fun u hu =>
    filterNode_visiblePart digest hhash fun q s hin hpass =>
      hu.readable hin fun r => hpass r (List.nil_prefix)
  rw [filterOutput, filterOutput, ← hroot v hv, ← hroot w hw, heq]

/-- The filter discloses nothing hidden exactly when no scalar stands above a readable path, and
two such outputs that differ in hidden positions only are then filtered alike. -/
theorem filterOutput_nondisclosing_iff (digest : Digest) (policy : Policy) (value : Json) :
    (Nondisclosing digest policy value ↔ Confined policy value) ∧
      ∀ other, HashesVisible policy → Confined policy value → Confined policy other →
        visiblePart policy.rules [] value = visiblePart policy.rules [] other →
        filterOutput digest policy value = filterOutput digest policy other :=
  ⟨nondisclosing_iff_confined digest policy value,
    fun _ hhash hvalue hother => filterOutput_eq_of_visiblePart_eq digest hhash hvalue hother⟩

/-- Two customers that differ in a field beside the readable one are shown alike. -/
theorem filterOutput_nondisclosing_customer :
    let policy : Policy := ⟨"customer", [], .none, none, ["a.b"], [], []⟩
    let digest : Digest := ⟨⟨fun _ => ""⟩, fun text => text⟩
    let record := fun secret => Json.obj [("a", .obj [("b", .int 1), ("c", .str secret)])]
    Confined policy (record "x") ∧
      filterOutput digest policy (record "x") = filterOutput digest policy (record "y") := by
  intro policy digest record
  have hconfined : ∀ secret, Confined policy (record secret) := by
    intro secret q s hin habove
    simp only [record, scalarsAt, scalarsOfFields, List.nil_append, List.append_nil,
      List.cons_append, List.mem_cons, List.not_mem_nil, or_false, Prod.mk.injEq] at hin
    rcases hin with ⟨rfl, -⟩ | ⟨rfl, -⟩
    · exact fun _ _ => by decide
    · exact absurd habove (by decide)
  have hhash : HashesVisible policy := fun p hp => absurd hp (by simp [policy, Policy.rules,
    Rules.redaction?])
  exact ⟨hconfined "x", (filterOutput_nondisclosing_iff digest policy (record "x")).2
    (record "y") hhash (hconfined "x") (hconfined "y") (by decide)⟩

/-- A policy that makes only `a.b` readable shows a secret sent in place of the object `a`. -/
theorem scalar_above_readable_disclosed :
    ¬ Nondisclosing ⟨⟨fun _ => ""⟩, fun text => text⟩
        ⟨"customer", [], .none, none, ["a.b"], [], []⟩ (.obj [("a", .str "secret")]) := by
  intro h
  have hvisible := h ["a"] (.str "secret") (by decide) (by decide)
  exact absurd hvisible (by decide)

end CapabilityCompiler.Policies
