import CapabilityCompiler.Actions.RuntimeExecutor
import CapabilityCompiler.Policies.Refiltering

/-! What the compiler shows of a policy against what the filter does: a JSON Pointer goes through
array positions, which the field paths of the filter leave out. -/
namespace CapabilityCompiler.Actions
open Foundation Compiler Policies

/-- The field paths of the values at these tokens: an index is a key or an array position. -/
def fieldPaths : List String → List FieldPath
  | [] => [[]]
  | token :: rest =>
    (fieldPaths rest).map (token :: ·) ++
      if (arrayIndex? token).isSome then fieldPaths rest else []

/-- What is read at this path is shown, and nothing denied or redacted touches it. -/
def disclosesUnmodified (rules : Rules) (path : FieldPath) : Bool :=
  hasAncestor path rules.readable &&
    !(rules.denied ++ rules.redactions.map Prod.fst).any (pathsOverlap path)

/-- The value at the pointer is found again in the filtered output. -/
def ShownUnmodified (digest : Digest) (policy : Policy) (pointer : String) : Prop :=
  ∀ value v, resolveJsonPointer value pointer = some v →
    ∃ w, resolveJsonPointer (filterOutput digest policy value) pointer = some w ∧
      sameText w v = true

/-- The check of the compiler is this check at the tokens of the pointer. -/
theorem policyDisclosesUnmodified_eq (policy : Policy) (pointer : String) :
    policyDisclosesUnmodified policy pointer =
      disclosesUnmodified policy.rules (pointerTokens pointer) := by
  simp only [policyDisclosesUnmodified, disclosesUnmodified, hasAncestor, Policy.rules,
    List.map_map, Function.comp_def]

/-! Paths. -/

theorem fieldPaths_ne_nil (tokens : List String) : fieldPaths tokens ≠ [] := by
  induction tokens with
  | nil => simp [fieldPaths]
  | cons token rest ih => simp [fieldPaths, ih]

theorem pathsOverlap_iff {left right : List String} :
    pathsOverlap left right = true ↔ left <+: right ∨ right <+: left := by
  unfold pathsOverlap
  simp only [decide_eq_true_eq]
  rcases Nat.le_total left.length right.length with hle | hle
  · rw [Nat.min_eq_left hle, List.take_length, ← List.prefix_iff_eq_take]
    constructor
    · exact .inl
    · rintro (h | h)
      · exact h
      · rw [h.eq_of_length_le hle]
  · rw [Nat.min_eq_right hle, List.take_length, eq_comm, ← List.prefix_iff_eq_take]
    constructor
    · exact .inr
    · rintro (h | h)
      · rw [h.eq_of_length_le hle]
      · exact h

theorem redaction?_eq_none_iff {rules : Rules} {path : FieldPath} :
    rules.redaction? path = none ↔ path ∉ rules.redactions.map Prod.fst := by
  simp only [Rules.redaction?, Option.map_eq_none_iff, List.find?_eq_none, List.mem_reverse,
    decide_eq_true_eq, List.mem_map, not_exists, not_and]

section Paths
variable {rules : Rules} {path : FieldPath}

theorem disclosesUnmodified_iff :
    disclosesUnmodified rules path = true ↔ hasAncestor path rules.readable = true ∧
      ∀ rule ∈ rules.denied ++ rules.redactions.map Prod.fst, ¬ path <+: rule ∧ ¬ rule <+: path := by
  simp only [disclosesUnmodified, Bool.and_eq_true, Bool.not_eq_true', List.any_eq_false,
    pathsOverlap_iff, not_or]

/-- What is disclosed here is disclosed below. -/
theorem discloses_append (h : disclosesUnmodified rules path = true) (below : FieldPath) :
    disclosesUnmodified rules (path ++ below) = true := by
  rw [disclosesUnmodified_iff] at h ⊢
  refine ⟨hasAncestor_mono (List.prefix_append path below) h.1, fun rule hrule => ⟨?_, ?_⟩⟩
  · exact fun hbelow => (h.2 rule hrule).1 ((List.prefix_append path below).trans hbelow)
  · intro hbelow
    rcases List.prefix_or_prefix_of_prefix hbelow (List.prefix_append path below) with hup | hdown
    · exact (h.2 rule hrule).2 hup
    · exact (h.2 rule hrule).1 hdown

/-- The filter enters every value on the way to a disclosed one. -/
theorem passes_of_discloses {below : FieldPath}
    (h : disclosesUnmodified rules (path ++ below) = true) : rules.Passes path := by
  rw [disclosesUnmodified_iff] at h
  have hup : path <+: path ++ below := List.prefix_append path below
  refine ⟨?_, ?_, ?_⟩
  · rw [Bool.eq_false_iff]
    intro hdenied
    obtain ⟨rule, hmem, hrule⟩ := hasAncestor_iff.mp hdenied
    exact (h.2 rule (List.mem_append_left _ hmem)).2 (hrule.trans hup)
  · obtain ⟨rule, hmem, hrule⟩ := hasAncestor_iff.mp h.1
    right
    rw [isReadable_iff]
    rcases List.prefix_or_prefix_of_prefix hrule hup with habove | hbelow
    · exact .inl (hasAncestor_iff.mpr ⟨rule, hmem, habove⟩)
    · exact .inr ⟨rule, hmem, hbelow⟩
  · rw [redaction?_eq_none_iff]
    intro hmem
    exact (h.2 path (List.mem_append_right _ hmem)).2 hup

end Paths

/-! Filtered values. -/

section Values
variable (digest : Digest) {rules : Rules} {path : FieldPath}

/-- What is disclosed comes out with its keys in order and nothing else changed. -/
theorem filterNode_of_discloses (h : disclosesUnmodified rules path = true) (v : Json) :
    ∃ w, filterNode digest rules path v = some w ∧ sameText w v = true := by
  have hpasses : rules.Passes path :=
    @passes_of_discloses _ _ [] (by rwa [List.append_nil])
  induction v generalizing path with
  | arr items ih =>
    rw [filterNode_arr digest hpasses, filterItems_eq]
    refine ⟨_, rfl, ?_⟩
    simp only [sameText, Json.eqWith, Json.eqItems_iff]
    induction items with
    | nil => exact .nil
    | cons item rest ihItems =>
      obtain ⟨w, hw, hsame⟩ := ih item List.mem_cons_self h hpasses
      rw [List.filterMap_cons_some hw]
      exact .cons hsame (ihItems fun other hother => ih other (List.mem_cons_of_mem _ hother))
  | obj fields ih =>
    rw [filterNode_obj digest hpasses]
    refine ⟨_, rfl, ?_⟩
    rw [sameText, Json.eqWith_obj_iff]
    intro key
    rw [Json.field?_sortKeys, field?_filterFields]
    cases hfound : Json.field? key fields with
    | none => exact .none
    | some child =>
      have hbelow := discloses_append h [key]
      obtain ⟨w, hw, hsame⟩ := ih (key, child) (Json.mem_of_field? hfound) hbelow
        (@passes_of_discloses _ _ [] (by rwa [List.append_nil]))
      rw [Option.bind_some, hw]
      exact .some hsame
  | null | bool _ | int _ | float _ | str _ =>
    rw [filterNode_of_passes digest hpasses]
    exact ⟨_, rfl, by simp [sameText, Json.eqWith, textLeaf]⟩

/-- If every field path of the tokens is disclosed, the value they lead to is found again. -/
theorem resolveTokens_filterNode {tokens : List String} {value v : Json}
    (h : ∀ q ∈ fieldPaths tokens, disclosesUnmodified rules (path ++ q) = true)
    (hfound : resolveTokens value tokens = some v) :
    ∃ out, filterNode digest rules path value = some out ∧
      ∃ w, resolveTokens out tokens = some w ∧ sameText w v = true := by
  induction tokens generalizing value path with
  | nil =>
    obtain rfl : value = v := by cases value <;> simpa [resolveTokens] using hfound
    have hpath : disclosesUnmodified rules path = true := by
      simpa using h [] (by simp [fieldPaths])
    obtain ⟨w, hw, hsame⟩ := filterNode_of_discloses digest hpath value
    exact ⟨w, hw, w, by cases w <;> rfl, hsame⟩
  | cons token rest ih =>
    obtain ⟨below, hbelow⟩ := List.exists_mem_of_ne_nil _ (fieldPaths_ne_nil rest)
    have hpasses : rules.Passes path :=
      passes_of_discloses (h (token :: below) (by simp [fieldPaths, hbelow]))
    cases value with
    | obj fields =>
      obtain ⟨child, hchild, hrest⟩ := Option.bind_eq_some_iff.mp hfound
      have hchildren : ∀ q ∈ fieldPaths rest,
          disclosesUnmodified rules (path ++ [token] ++ q) = true := by
        intro q hq
        have hstep := h (token :: q) (by simp [fieldPaths, hq])
        simpa using hstep
      obtain ⟨out, hout, w, hw, hsame⟩ := ih hchildren hrest
      refine ⟨_, filterNode_obj digest hpasses fields, w, ?_, hsame⟩
      rw [resolveTokens, Json.field?_sortKeys, field?_filterFields, hchild, Option.bind_some, hout,
        Option.bind_some, hw]
    | arr items =>
      obtain ⟨index, hindex, hitem⟩ := Option.bind_eq_some_iff.mp hfound
      obtain ⟨item, hget, hrest⟩ := Option.bind_eq_some_iff.mp hitem
      have hitems : ∀ q ∈ fieldPaths rest, disclosesUnmodified rules (path ++ q) = true :=
        fun q hq => h q (by simp [fieldPaths, hindex, hq])
      obtain ⟨out, hout, w, hw, hsame⟩ := ih hitems hrest
      refine ⟨_, filterNode_arr digest hpasses items, w, ?_, hsame⟩
      rw [resolveTokens, hindex, Option.bind_some, filterItems_getElem? digest hget hout,
        Option.bind_some, hw]
    | null | bool _ | int _ | float _ | str _ => exact absurd hfound (by simp [resolveTokens])

end Values

/-! Values that the filter alters. -/

/-- Null under these keys. -/
def nest : List String → Json
  | [] => .null
  | key :: rest => .obj [(key, nest rest)]

theorem resolveTokens_nest (tokens : List String) : resolveTokens (nest tokens) tokens = some .null := by
  induction tokens with
  | nil => rfl
  | cons token rest ih => simp [nest, resolveTokens, ih]

theorem empty_ne_nest (keys : List String) : sameText (.obj []) (nest keys) = false := by
  cases keys <;> simp [nest, sameText, Json.eqWith]

section Altered
variable (digest : Digest) {rules : Rules} {path : FieldPath}

/-- A value that the filter does not enter is not found again below it. -/
theorem altered_of_not_passes (h : ¬ rules.Passes path) {value out : Json} (keys : List String)
    (hout : filterNode digest rules path value = some out) :
    sameText out (nest keys) = false ∧
      ∀ token rest, resolveTokens out (token :: rest) = none := by
  rcases filterNode_of_not_passes digest h value with hnone | ⟨-, text, htext⟩
  · rw [hnone] at hout
    exact absurd hout (by simp)
  · obtain rfl : .str text = out := Option.some.inj (htext.symm.trans hout)
    refine ⟨?_, fun token rest => rfl⟩
    cases keys <;> simp [nest, sameText, Json.eqWith, textLeaf]

/-- A denied or redacted path alters a value that reaches it. -/
theorem nest_altered {keys : List String}
    (h : path ++ keys ∈ rules.denied ++ rules.redactions.map Prod.fst) {w : Json}
    (hw : filterNode digest rules path (nest keys) = some w) : sameText w (nest keys) = false := by
  induction keys generalizing path w with
  | nil =>
    rw [List.append_nil] at h
    refine (altered_of_not_passes digest (fun hpasses => ?_) [] hw).1
    rcases List.mem_append.mp h with hdenied | hredacted
    · have hself : hasAncestor path rules.denied = true :=
        hasAncestor_iff.mpr ⟨path, hdenied, List.prefix_rfl⟩
      rw [hpasses.kept] at hself
      exact absurd hself (by simp)
    · exact redaction?_eq_none_iff.mp hpasses.unredacted hredacted
  | cons key rest ih =>
    by_cases hpasses : rules.Passes path
    · rw [nest, filterNode_obj digest hpasses] at hw
      rw [← Option.some.inj hw, Bool.eq_false_iff]
      intro hsame
      have hrel := Json.eqWith_obj_iff.mp hsame key
      simp only [Json.field?_sortKeys, field?_filterFields, Json.field?_cons, if_true,
        Option.bind_some] at hrel
      cases hchild : filterNode digest rules (path ++ [key]) (nest rest) with
      | none =>
        rw [hchild] at hrel
        exact absurd hrel (by simp)
      | some child =>
        rw [hchild] at hrel
        have hdeeper : path ++ [key] ++ rest ∈ rules.denied ++ rules.redactions.map Prod.fst := by
          simpa using h
        have hbelow := ih hdeeper hchild
        simp only [Option.rel_some_some] at hrel
        exact absurd hrel (by simpa [sameText] using hbelow)
    · exact (altered_of_not_passes digest hpasses (key :: rest) hw).1

/-- A key under which no rule makes anything readable. -/
theorem exists_unreadable (h : hasAncestor path rules.readable = false) :
    ∃ key, isReadable (path ++ [key]) rules.readable = false := by
  obtain ⟨key, hkey⟩ := Infinite.exists_notMem_finset rules.readable.flatten.toFinset
  have hnot : ∀ rule ∈ rules.readable, key ∉ rule := by
    intro rule hrule hmem
    exact hkey (List.mem_toFinset.mpr (List.mem_flatten.mpr ⟨rule, hrule, hmem⟩))
  refine ⟨key, ?_⟩
  rw [Bool.eq_false_iff]
  intro hreadable
  rcases isReadable_iff.mp hreadable with habove | ⟨rule, hmem, hbelow⟩
  · obtain ⟨rule, hmem, hrule⟩ := hasAncestor_iff.mp habove
    rcases List.prefix_concat_iff.mp hrule with heq | hrule
    · exact hnot rule hmem (by simp [heq])
    · rw [hasAncestor_iff.mpr ⟨rule, hmem, hrule⟩] at h
      exact absurd h (by simp)
  · exact hnot rule hmem (hbelow.subset (by simp))

/-- What is not disclosed is altered for some value. -/
theorem exists_altered (habove : ∀ rule ∈ rules.redactions.map Prod.fst, rule <+: path → rule = path)
    (h : disclosesUnmodified rules path = false) :
    ∃ keys, ∀ w, filterNode digest rules path (nest keys) = some w →
      sameText w (nest keys) = false := by
  by_cases hpasses : rules.Passes path
  · by_cases hreadable : hasAncestor path rules.readable = true
    · have hrule : ∃ rule ∈ rules.denied ++ rules.redactions.map Prod.fst, path <+: rule := by
        by_contra hnone
        push Not at hnone
        rw [Bool.eq_false_iff] at h
        refine h (disclosesUnmodified_iff.mpr ⟨hreadable, fun rule hrule => ⟨hnone rule hrule, ?_⟩⟩)
        intro hup
        rcases List.mem_append.mp hrule with hdenied | hredacted
        · have hself := hasAncestor_iff.mpr ⟨rule, hdenied, hup⟩
          rw [hpasses.kept] at hself
          exact absurd hself (by simp)
        · exact hnone rule hrule (habove rule hredacted hup ▸ List.prefix_rfl)
      obtain ⟨rule, hrule, keys, rfl⟩ := hrule
      exact ⟨keys, fun w hw => nest_altered digest hrule hw⟩
    · obtain ⟨key, hkey⟩ := exists_unreadable (by simpa using hreadable)
      refine ⟨[key], fun w hw => ?_⟩
      rw [nest, filterNode_obj digest hpasses] at hw
      rw [← Option.some.inj hw, Bool.eq_false_iff]
      intro hsame
      have hremoved : filterNode digest rules (path ++ [key]) (nest []) = none :=
        filterNode_of_not_readable digest (by simp) (by simp [hkey]) _
      have hrel := Json.eqWith_obj_iff.mp hsame key
      simp only [Json.field?_sortKeys, field?_filterFields, Json.field?_cons, if_true,
        Option.bind_some, hremoved] at hrel
      exact absurd hrel (by simp)
  · exact ⟨[], fun w hw => (altered_of_not_passes digest hpasses [] hw).1⟩

/-- A field path of the tokens that is not disclosed gives a value that is altered there. -/
theorem exists_altered_along {tokens : List String} {q : FieldPath} (hq : q ∈ fieldPaths tokens)
    (habove : ∀ rule ∈ rules.redactions.map Prod.fst, rule <+: path → rule = path)
    (h : disclosesUnmodified rules (path ++ q) = false) :
    ∃ value keys, resolveTokens value tokens = some (nest keys) ∧
      ∀ out w, filterNode digest rules path value = some out → resolveTokens out tokens = some w →
        sameText w (nest keys) = false := by
  induction tokens generalizing path q with
  | nil =>
    obtain rfl : q = [] := by simpa [fieldPaths] using hq
    obtain ⟨keys, hkeys⟩ := exists_altered digest habove (by rwa [List.append_nil] at h)
    refine ⟨nest keys, keys, by cases keys <;> rfl, fun out w hout hw => ?_⟩
    obtain rfl : out = w := by cases out <;> simpa [resolveTokens] using hw
    exact hkeys out hout
  | cons token rest ih =>
    by_cases hpasses : rules.Passes path
    · have hstep : ∀ rule ∈ rules.redactions.map Prod.fst, rule <+: path ++ [token] →
          rule = path ++ [token] := by
        intro rule hrule hup
        rcases List.prefix_concat_iff.mp hup with heq | hup
        · exact heq
        · obtain rfl := habove rule hrule hup
          exact absurd hrule (redaction?_eq_none_iff.mp hpasses.unredacted)
      rcases List.mem_append.mp hq with hkey | hskip
      · obtain ⟨below, hbelow, rfl⟩ := List.mem_map.mp hkey
        obtain ⟨child, keys, hchild, haltered⟩ := ih hbelow hstep (by simpa using h)
        refine ⟨.obj [(token, child)], keys, by simpa [resolveTokens] using hchild, ?_⟩
        intro out w hout hw
        rw [filterNode_obj digest hpasses] at hout
        rw [← Option.some.inj hout, resolveTokens, Json.field?_sortKeys, field?_filterFields] at hw
        simp only [Json.field?_cons, if_true, Option.bind_some] at hw
        obtain ⟨shown, hshown, hrest⟩ := Option.bind_eq_some_iff.mp hw
        exact haltered shown w hshown hrest
      · have hindex : (arrayIndex? token).isSome = true := by
          by_contra hnone
          rw [if_neg hnone] at hskip
          exact absurd hskip List.not_mem_nil
        rw [if_pos hindex] at hskip
        obtain ⟨index, hindex⟩ := Option.isSome_iff_exists.mp hindex
        obtain ⟨child, keys, hchild, haltered⟩ := ih hskip habove h
        refine ⟨.arr (List.replicate (index + 1) child), keys, ?_, ?_⟩
        · simpa [resolveTokens, hindex] using hchild
        · intro out w hout hw
          rw [filterNode_arr digest hpasses] at hout
          rw [← Option.some.inj hout, resolveTokens, hindex, Option.bind_some] at hw
          obtain ⟨shown, hshown, hrest⟩ := Option.bind_eq_some_iff.mp hw
          obtain ⟨item, hitem, hfiltered⟩ :=
            (mem_filterItems digest).mp (List.mem_of_getElem? hshown)
          rw [List.eq_of_mem_replicate hitem] at hfiltered
          exact haltered shown w hfiltered hrest
    · refine ⟨nest (token :: rest), [], resolveTokens_nest _, fun out w hout hw => ?_⟩
      rw [(altered_of_not_passes digest hpasses [] hout).2 token rest] at hw
      exact absurd hw (by simp)

end Altered

/-- If the check is sound for the filter then every field path of the pointer is disclosed. -/
theorem discloses_of_shown (digest : Digest) {policy : Policy} {pointer : String}
    (hshown : ShownUnmodified digest policy pointer) {path : FieldPath}
    (hpath : path ∈ fieldPaths (runtimeTokens pointer)) :
    disclosesUnmodified policy.rules path = true := by
  by_contra hnot
  obtain ⟨value, keys, hfound, haltered⟩ := @exists_altered_along digest _ [] _ _ hpath
    (fun rule _ hrule => List.prefix_nil.mp hrule) (by simpa using hnot)
  obtain ⟨w, hw, hsame⟩ := hshown value (nest keys) hfound
  simp only [resolveJsonPointer, filterOutput] at hw
  cases hout : filterNode digest policy.rules [] value with
  | some out =>
    rw [hout, Option.getD_some] at hw
    rw [haltered out w hout hw] at hsame
    exact absurd hsame (by simp)
  | none =>
    rw [hout, Option.getD_none] at hw
    cases htokens : runtimeTokens pointer with
    | nil =>
      rw [htokens] at hw
      rw [← Option.some.inj hw, empty_ne_nest] at hsame
      exact absurd hsame (by simp)
    | cons token rest =>
      rw [htokens] at hw
      exact absurd hw (by simp [resolveTokens])

/-- The check is sound for the filter exactly when it also holds of the field paths that leave out
the array positions of the pointer. -/
theorem shownUnmodified_iff (digest : Digest) (policy : Policy) (pointer : String) :
    (policyDisclosesUnmodified policy pointer = true → ShownUnmodified digest policy pointer) ↔
      (policyDisclosesUnmodified policy pointer = true →
        ∀ path ∈ fieldPaths (runtimeTokens pointer),
          disclosesUnmodified policy.rules path = true) := by
  refine imp_congr_right fun _ => ⟨fun hshown path hpath => ?_, fun hpaths value v hfound => ?_⟩
  · exact discloses_of_shown digest hshown hpath
  · obtain ⟨out, hout, w, hw, hsame⟩ :=
      @resolveTokens_filterNode digest _ [] _ _ _ (by simpa using hpaths) hfound
    exact ⟨w, by rw [resolveJsonPointer, filterOutput, hout, Option.getD_some, hw], hsame⟩

/-! A denied field of the items of a readable array. -/

section Example

private def itemsPolicy : Policy where
  id := "items"
  requiredScopes := []
  tenantMode := .none
  tenantField := none
  readableFields := ["items"]
  deniedFields := ["items.name"]
  redactionRules := []

private def plainDigest : Digest where
  floatRepr := fun _ => "0"
  sha256 := id

private def oneItem : Json := .obj [("items", .arr [.obj [("name", .str "a")]])]

/-- The check compares the index of the pointer with the name of the denied field. -/
theorem denied_item_passes :
    policyDisclosesUnmodified itemsPolicy "/items/0/name" = true ∧
      resolveJsonPointer oneItem "/items/0/name" = some (.str "a") ∧
      resolveJsonPointer (filterOutput plainDigest itemsPolicy oneItem) "/items/0/name" = none := by
  decide

end Example

end CapabilityCompiler.Actions
