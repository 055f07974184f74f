import CapabilityCompiler.Compiler.SemanticDiff

/-! A semantic difference is a patch: it turns one document into the other. -/
namespace CapabilityCompiler.Compiler
open Foundation Json JsonPatch

/-! Removals, then additions, then replacements. -/

def removals (lists : DiffLists) : List Operation :=
  lists.removed.reverse.map fun entry => ⟨entry.path, .remove⟩

def additions (lists : DiffLists) : List Operation :=
  lists.added.map fun entry => ⟨entry.path, .add entry.value⟩

def replacements (lists : DiffLists) : List Operation :=
  lists.modified.map fun change => ⟨change.path, .replace change.after⟩

/-- The operations a difference describes. What comes last is removed first. -/
def SemanticDiff.operations (diff : SemanticDiff) : List Operation :=
  let lists : DiffLists := ⟨diff.added, diff.removed, diff.modified⟩
  removals lists ++ additions lists ++ replacements lists

theorem removals_append (first second : DiffLists) :
    removals (first.append second) = removals second ++ removals first := by
  simp [removals, DiffLists.append]

theorem additions_append (first second : DiffLists) :
    additions (first.append second) = additions first ++ additions second := by
  simp [additions, DiffLists.append]

theorem replacements_append (first second : DiffLists) :
    replacements (first.append second) = replacements first ++ replacements second := by
  simp [replacements, DiffLists.append]

theorem removals_mapPaths (token : String) (lists : DiffLists) :
    removals (lists.mapPaths (childPath token)) = (removals lists).map (Operation.under token) := by
  simp [removals, DiffLists.mapPaths, Operation.under]

theorem additions_mapPaths (token : String) (lists : DiffLists) :
    additions (lists.mapPaths (childPath token)) = (additions lists).map (Operation.under token) := by
  simp [additions, DiffLists.mapPaths, Operation.under]

theorem replacements_mapPaths (token : String) (lists : DiffLists) :
    replacements (lists.mapPaths (childPath token)) =
      (replacements lists).map (Operation.under token) := by
  simp [replacements, DiffLists.mapPaths, Operation.under]

/-- The groups of removals are taken from the last child to the first. -/
theorem removals_concat (diffs : String → DiffLists) (tokens : List String) :
    removals (.concat (tokens.map fun token => (diffs token).mapPaths (childPath token))) =
      tokens.reverse.flatMap fun token => (removals (diffs token)).map (Operation.under token) := by
  induction tokens with
  | nil => rfl
  | cons token rest ih =>
    rw [List.map_cons, DiffLists.concat, removals_append, ih, removals_mapPaths,
      List.reverse_cons, List.flatMap_append, List.flatMap_singleton]

theorem additions_concat (diffs : String → DiffLists) (tokens : List String) :
    additions (.concat (tokens.map fun token => (diffs token).mapPaths (childPath token))) =
      tokens.flatMap fun token => (additions (diffs token)).map (Operation.under token) := by
  induction tokens with
  | nil => rfl
  | cons token rest ih =>
    rw [List.map_cons, DiffLists.concat, additions_append, ih, additions_mapPaths,
      List.flatMap_cons]

theorem replacements_concat (diffs : String → DiffLists) (tokens : List String) :
    replacements (.concat (tokens.map fun token => (diffs token).mapPaths (childPath token))) =
      tokens.flatMap fun token => (replacements (diffs token)).map (Operation.under token) := by
  induction tokens with
  | nil => rfl
  | cons token rest ih =>
    rw [List.map_cons, DiffLists.concat, replacements_append, ih, replacements_mapPaths,
      List.flatMap_cons]

/-- The children at some tokens, as members. -/
def childFields (tokens : List String) (doc : Json) : Fields :=
  tokens.filterMap fun token => (child? token doc).map fun value => (token, value)

theorem keys_childFields_sublist (tokens : List String) (doc : Json) :
    ((childFields tokens doc).map Prod.fst).Sublist tokens := by
  induction tokens with
  | nil => exact List.Sublist.slnil
  | cons token rest ih =>
    unfold childFields
    rw [List.filterMap_cons]
    cases child? token doc with
    | none => exact ih.cons token
    | some value => exact ih.cons_cons token

theorem field?_childFields {tokens : List String} (token : String) (doc : Json) :
    field? token (childFields tokens doc) = if token ∈ tokens then child? token doc else none := by
  induction tokens with
  | nil => rfl
  | cons first rest ih =>
    cases hchild : child? first doc with
    | none =>
      have hskip : childFields (first :: rest) doc = childFields rest doc := by
        simp [childFields, hchild]
      rw [hskip, ih]
      by_cases hfirst : token = first
      · rw [hfirst, hchild]
        simp
      · simp [hfirst]
    | some value =>
      have hstep : childFields (first :: rest) doc = (first, value) :: childFields rest doc := by
        simp [childFields, hchild]
      rw [hstep, field?_cons, ih]
      by_cases hfirst : token = first
      · rw [if_pos hfirst.symm, hfirst, if_pos List.mem_cons_self, hchild]
      · rw [if_neg (Ne.symm hfirst)]
        simp [hfirst]

theorem removals_own (added : List DiffEntry) {tokens : List String} {doc : Json}
    (h : ∀ token ∈ tokens, (child? token doc).isSome = true) :
    removals { added := added, removed := childEntries "" tokens doc } =
      tokens.reverse.map fun token => ⟨childPath token "", .remove⟩ := by
  unfold removals childEntries
  rw [← List.filterMap_reverse, List.map_filterMap, ← List.filterMap_eq_map]
  refine List.filterMap_congr fun token htoken => ?_
  obtain ⟨value, hvalue⟩ := Option.isSome_iff_exists.mp (h token (List.mem_reverse.mp htoken))
  rw [hvalue]
  simp [pointer, childPath]

theorem additions_own (removed : List DiffEntry) (tokens : List String) (doc : Json) :
    additions { added := childEntries "" tokens doc, removed := removed } =
      (childFields tokens doc).map fun entry => ⟨childPath entry.1 "", .add entry.2⟩ := by
  unfold additions childEntries childFields
  rw [List.map_filterMap, List.map_filterMap]
  congr 1
  funext token
  cases child? token doc with
  | none => rfl
  | some value => simp [pointer, childPath]

/-- What the second document lacks goes, and what only it has comes. -/
theorem patch_own {before after doc : Json} (h : SameForm before after)
    (hshape : SameShape before doc)
    (hkeys : ∀ token, (child? token doc).isSome = (child? token before).isSome) :
    ∃ middle result,
      patch ((tokensWithout before after).reverse.map fun token => ⟨childPath token "", .remove⟩)
        doc = some middle ∧
      patch ((childFields (tokensWithout after before) after).map fun entry =>
        ⟨childPath entry.1 "", .add entry.2⟩) middle = some result ∧
      SameShape after result ∧
      ∀ token, child? token result = if token ∈ commonTokens before after then child? token doc
        else child? token after := by
  have hmem := fun token => @mem_commonTokens before after h token
  rcases h with ⟨fields, others, rfl, rfl⟩ | ⟨items, others, rfl, rfl⟩
  · cases doc with
    | obj current =>
      have hpresent : ∀ token ∈ (tokensWithout (.obj fields) (.obj others)).reverse,
          (field? token current).isSome = true := by
        intro token htoken
        have hwithout := (mem_tokensWithout (.inl ⟨fields, others, rfl, rfl⟩)).mp
          (List.mem_reverse.mp htoken)
        exact (hkeys token).trans hwithout.1
      obtain ⟨kept, hkept, hfields⟩ := patch_removeMembers
        (List.nodup_reverse.mpr (nodup_tokensWithout _ _)) hpresent
      have hnodup : ((childFields (tokensWithout (.obj others) (.obj fields)) (.obj others)).map
          Prod.fst).Nodup :=
        (nodup_tokensWithout (.obj others) (.obj fields)).sublist (keys_childFields_sublist _ _)
      obtain ⟨extended, hextended, hall⟩ := patch_addMembers hnodup kept
      refine ⟨.obj kept, .obj extended, hkept, hextended, trivial, fun token => ?_⟩
      have hgone := @mem_tokensWithout (.obj fields) (.obj others) (.inl ⟨fields, others, rfl, rfl⟩) token
      have hnew := @mem_tokensWithout (.obj others) (.obj fields) (.inl ⟨others, fields, rfl, rfl⟩) token
      have hkey := hkeys token
      rw [child?_obj, hall, hfields, field?_childFields]
      simp only [List.mem_reverse, hgone, hnew, hmem, child?_obj] at hkey ⊢
      cases hold : field? token fields <;> cases hother : field? token others <;>
        cases hnow : field? token current <;> simp_all
    | _ => exact hshape.elim
  · cases doc with
    | arr current =>
      have hlength : current.length = items.length := Eq.symm hshape
      set common := min items.length others.length with hcommon
      have hremoved : patch ((tokensWithout (.arr items) (.arr others)).reverse.map fun token =>
          ⟨childPath token "", .remove⟩) (.arr current) = some (.arr (current.take common)) := by
        have hrun := @patch_removeItems common (items.length - common) current (by omega)
        rw [tokensWithout, ← List.map_reverse, List.map_map]
        exact hrun
      have hentries : (childFields (tokensWithout (.arr others) (.arr items)) (.arr others)).map
          (fun entry => Operation.mk (childPath entry.1 "") (.add entry.2)) =
          ((others.drop common).zipIdx common).map fun entry =>
            ⟨childPath (toString entry.2) "", .add entry.1⟩ := by
        rw [← additions_own [], tokensWithout, Nat.min_comm, ← hcommon, ← itemEntries_eq]
        simp [additions, itemEntries, pointer, childPath]
      have hadded := @patch_addItems (others.drop common) (current.take common) common
        (by rw [List.length_take]; omega)
      refine ⟨_, _, hremoved, hentries ▸ hadded, ?_, fun token => ?_⟩
      · show others.length = _
        rw [List.length_append, List.length_take, List.length_drop]
        omega
      · simp only [hmem token, isSome_child?_arr]
        show (JsonPointer.index? token).bind _ = ite _ ((JsonPointer.index? token).bind _)
          ((JsonPointer.index? token).bind _)
        cases hindex : JsonPointer.index? token with
        | none => simp
        | some index =>
          obtain rfl := JsonPointer.eq_of_index? hindex
          have hrange : ((∃ i < items.length, toString index = toString i) ∧
              ∃ i < others.length, toString index = toString i) ↔ index < common := by
            constructor
            · rintro ⟨⟨first, hfirst, hsame⟩, second, hsecond, hother⟩
              have hone := JsonPointer.eq_of_toString hsame
              have htwo := JsonPointer.eq_of_toString hother
              omega
            · intro hlt
              exact ⟨⟨index, by omega, rfl⟩, index, by omega, rfl⟩
          simp only [hrange, Option.bind_some]
          split
          · rw [List.getElem?_append_left (by rw [List.length_take]; omega),
              List.getElem?_take_of_lt (by omega)]
          · rw [List.getElem?_append_right (by rw [List.length_take]; omega), List.length_take,
              List.getElem?_drop]
            congr 1
            omega
    | _ => exact hshape.elim

/-- Two values that are not containers of one form: nothing is recorded when they are equal. -/
theorem unchanged_iff {before after : Json} (h : ¬ SameForm before after) :
    (!sameType before after || !pyEqual before after) = false ↔ typedEqual before after = true := by
  cases before with
  | obj fields =>
    cases after with
    | obj others => exact absurd (.inl ⟨fields, others, rfl, rfl⟩) h
    | _ => simp [sameType, typedEqual, eqWith]
  | arr items =>
    cases after with
    | arr others => exact absurd (.inr ⟨items, others, rfl, rfl⟩) h
    | _ => simp [sameType, typedEqual, eqWith]
  | bool b =>
    cases after with
    | bool c => cases b <;> cases c <;> decide
    | _ => simp [sameType, typedEqual, eqWith, typedLeaf]
  | _ => cases after <;>
      simp [sameType, typedEqual, pyEqual, eqWith, typedLeaf, pyLeaf, pyLeaf.pyNum?, num?]

/-- The differences of common children lead from children that equal the old ones to ones that equal
the new ones. -/
def ChildrenPatched (before after doc out : Json) (lessened extended result : String → Json) : Prop :=
  ∀ token ∈ commonTokens before after,
    (∃ child, child? token doc = some child ∧
      patch (removals (childDiff before after token)) child = some (lessened token)) ∧
    patch (additions (childDiff before after token)) (lessened token) = some (extended token) ∧
    patch (replacements (childDiff before after token)) (extended token) = some (result token) ∧
    ∃ target, child? token out = some target ∧ typedEqual (result token) target = true

/-- The phases on two containers, from the phases on their common children. -/
theorem patch_containers {before after doc out : Json} (hform : SameForm before after)
    (hdoc : typedEqual doc before = true) (hout : typedEqual after out = true)
    {lessened extended replaced : String → Json}
    (hchildren : ChildrenPatched before after doc out lessened extended replaced) :
    ∃ first second third,
      patch (removals (walkDiff before after "")) doc = some first ∧
      patch (additions (walkDiff before after "")) first = some second ∧
      patch (replacements (walkDiff before after "")) second = some third ∧
      typedEqual third out = true := by
  have hdocForm : SameForm doc before := sameForm_of_eqWith hdoc hform
  have hafterOut : SameForm after out :=
    (sameForm_of_eqWith (typedEqual_symm hout) hform.symm).symm
  have hdocShape : SameShape doc before := sameShape_of_eqWith hdoc hdocForm
  have holds := (eqWith_iff_child? hdocForm).mp hdoc
  have hnews := (eqWith_iff_child? hafterOut).mp hout
  have hpresent : ∀ token, (child? token doc).isSome = (child? token before).isSome := by
    intro token
    have hrel := holds token
    generalize child? token doc = current at hrel
    generalize child? token before = old at hrel
    cases hrel <;> rfl
  -- removals: in the common children, then of the children that are gone
  obtain ⟨pruned, hpruned, hprunedShape, hprunedChild⟩ :=
    patch_children (List.nodup_reverse.mpr (nodup_commonTokens before after))
      (hdocShape.trans hdocShape.symm) fun token htoken =>
        (hchildren token (List.mem_reverse.mp htoken)).1
  simp only [List.mem_reverse] at hprunedChild
  have hprunedPresent : ∀ token, (child? token pruned).isSome = (child? token before).isSome := by
    intro token
    rw [hprunedChild]
    split
    · rename_i hmem
      exact ((mem_commonTokens hform).mp hmem).1.symm
    · exact hpresent token
  obtain ⟨first, own, hfirst, hown, hownShape, hownChild⟩ :=
    patch_own hform (hdocShape.symm.trans hprunedShape) hprunedPresent
  -- additions: of the new children, then in the common ones
  obtain ⟨second, hsecond, hsecondShape, hsecondChild⟩ :=
    patch_children (nodup_commonTokens before after) hownShape.right fun token htoken =>
      ⟨lessened token, by rw [hownChild, if_pos htoken, hprunedChild, if_pos htoken],
        (hchildren token htoken).2.1⟩
  obtain ⟨third, hthird, hthirdShape, hthirdChild⟩ :=
    patch_children (nodup_commonTokens before after) hsecondShape.right fun token htoken =>
      ⟨extended token, by rw [hsecondChild, if_pos htoken], (hchildren token htoken).2.2.1⟩
  refine ⟨first, second, third, ?_, ?_, ?_, ?_⟩
  · rw [walkDiff_eq hform, removals_append, removals_concat, patch_append, hpruned,
      Option.bind_some, removals_own _ fun token htoken => ((mem_tokensWithout hform).mp htoken).1]
    exact hfirst
  · rw [walkDiff_eq hform, additions_append, additions_concat, patch_append, additions_own, hown]
    exact hsecond
  · rw [walkDiff_eq hform, replacements_append, replacements_concat]
    exact hthird
  · have hthirdForm : SameForm third out :=
      (hownShape.trans (hsecondShape.trans hthirdShape)).sameForm.symm.trans hafterOut
    refine (eqWith_iff_child? hthirdForm).mpr fun token => ?_
    rw [hthirdChild, hsecondChild, hownChild]
    by_cases hmem : token ∈ commonTokens before after
    · obtain ⟨target, htarget, hequal⟩ := (hchildren token hmem).2.2.2
      rw [if_pos hmem, htarget]
      exact .some hequal
    · rw [if_neg hmem, if_neg hmem, if_neg hmem]
      exact hnews token

/-- The three phases lead from a document that equals the first to one that equals the second. -/
theorem patch_walkDiff {before after doc out : Json} (hdoc : typedEqual doc before = true)
    (hout : typedEqual after out = true) :
    ∃ first second third,
      patch (removals (walkDiff before after "")) doc = some first ∧
      patch (additions (walkDiff before after "")) first = some second ∧
      patch (replacements (walkDiff before after "")) second = some third ∧
      typedEqual third out = true := by
  induction before using child_induction generalizing after doc out with
  | h before ih =>
    by_cases hform : SameForm before after
    · have hdocForm : SameForm doc before := sameForm_of_eqWith hdoc hform
      have hafterOut : SameForm after out :=
        (sameForm_of_eqWith (typedEqual_symm hout) hform.symm).symm
      have hchildren : ∀ token, ∃ first second third, token ∈ commonTokens before after →
          (∃ child, child? token doc = some child ∧
            patch (removals (childDiff before after token)) child = some first) ∧
          patch (additions (childDiff before after token)) first = some second ∧
          patch (replacements (childDiff before after token)) second = some third ∧
          ∃ target, child? token out = some target ∧ typedEqual third target = true := by
        intro token
        by_cases hmem : token ∈ commonTokens before after
        · obtain ⟨hold, hnew⟩ := (mem_commonTokens hform).mp hmem
          obtain ⟨old, hold⟩ := Option.isSome_iff_exists.mp hold
          obtain ⟨new, hnew⟩ := Option.isSome_iff_exists.mp hnew
          have hdocChild := (eqWith_iff_child? hdocForm).mp hdoc token
          have houtChild := (eqWith_iff_child? hafterOut).mp hout token
          rw [hold] at hdocChild
          rw [hnew] at houtChild
          have hdiff : childDiff before after token = walkDiff old new "" := by
            rw [childDiff, hold, hnew]
          generalize hcurrent : child? token doc = current at hdocChild
          generalize htarget : child? token out = target at houtChild
          cases hdocChild with
          | some hchild =>
            cases houtChild with
            | some htargetEqual =>
              obtain ⟨first, second, third, hfirst, hsecond, hthird, hequal⟩ :=
                ih token old hold hchild htargetEqual
              rw [hdiff]
              exact ⟨first, second, third, fun _ =>
                ⟨⟨_, rfl, hfirst⟩, hsecond, hthird, _, rfl, hequal⟩⟩
        · exact ⟨.null, .null, .null, fun h => absurd h hmem⟩
      choose lessened extended replaced hedited using hchildren
      exact patch_containers hform hdoc hout hedited
    · rw [walkDiff_of_not_sameForm hform]
      cases hchanged : !sameType before after || !pyEqual before after with
      | true => exact ⟨doc, doc, after, rfl, rfl, rfl, hout⟩
      | false =>
        have hequal := (unchanged_iff hform).mp hchanged
        exact ⟨doc, doc, doc, rfl, rfl, rfl, typedEqual_trans (typedEqual_trans hdoc hequal) hout⟩

/-! The paths of a difference. -/

def DiffLists.paths (lists : DiffLists) : List String :=
  lists.added.map (·.path) ++ lists.removed.map (·.path) ++ lists.modified.map (·.path)

theorem paths_append (first second : DiffLists) :
    (first.append second).paths.Perm (first.paths ++ second.paths) := by
  rw [List.perm_iff_count]
  intro path
  simp only [DiffLists.paths, DiffLists.append, List.map_append, List.count_append]
  omega

theorem paths_mapPaths (f : String → String) (lists : DiffLists) :
    (lists.mapPaths f).paths = lists.paths.map f := by
  simp only [DiffLists.paths, DiffLists.mapPaths, List.map_append, List.map_map]
  rfl

theorem paths_concat (diffs : String → DiffLists) (tokens : List String) :
    (DiffLists.concat (tokens.map fun token => (diffs token).mapPaths (childPath token))).paths.Perm
      (tokens.flatMap fun token => (diffs token).paths.map (childPath token)) := by
  induction tokens with
  | nil => exact .refl _
  | cons token rest ih =>
    rw [List.map_cons, DiffLists.concat, List.flatMap_cons]
    refine (paths_append _ _).trans ?_
    rw [paths_mapPaths]
    exact ih.append_left _

theorem paths_childEntries {tokens : List String} {doc : Json}
    (h : ∀ token ∈ tokens, (child? token doc).isSome = true) :
    (childEntries "" tokens doc).map (·.path) = tokens.map fun token => childPath token "" := by
  unfold childEntries
  rw [List.map_filterMap, ← List.filterMap_eq_map]
  refine List.filterMap_congr fun token htoken => ?_
  obtain ⟨value, hvalue⟩ := Option.isSome_iff_exists.mp (h token htoken)
  rw [hvalue]
  simp [pointer, childPath]

/-- Every path of a difference leads to a child that one side lacks, or into a common child. -/
theorem paths_walkDiff {before after : Json} (h : SameForm before after) :
    (walkDiff before after "").paths.Perm
      ((tokensWithout after before ++ tokensWithout before after).map (fun token => childPath token "") ++
        (commonTokens before after).flatMap fun token =>
          (childDiff before after token).paths.map (childPath token)) := by
  rw [walkDiff_eq h]
  refine (paths_append _ _).trans ?_
  have hown : (DiffLists.mk (childEntries "" (tokensWithout after before) after)
      (childEntries "" (tokensWithout before after) before) []).paths =
      (tokensWithout after before ++ tokensWithout before after).map fun token =>
        childPath token "" := by
    rw [DiffLists.paths, paths_childEntries fun token htoken =>
        ((mem_tokensWithout h.symm).mp htoken).1,
      paths_childEntries fun token htoken => ((mem_tokensWithout h).mp htoken).1]
    simp
  rw [hown]
  exact (paths_concat _ _).append_left _

/-- What an induction over the paths of a difference needs to know of common children. -/
theorem childDiff_of_mem {before after : Json} (h : SameForm before after) {token : String}
    (hmem : token ∈ commonTokens before after) : ∃ old new, child? token before = some old ∧
      child? token after = some new ∧ childDiff before after token = walkDiff old new "" := by
  obtain ⟨hold, hnew⟩ := (mem_commonTokens h).mp hmem
  obtain ⟨old, hold⟩ := Option.isSome_iff_exists.mp hold
  obtain ⟨new, hnew⟩ := Option.isSome_iff_exists.mp hnew
  exact ⟨old, new, hold, hnew, by rw [childDiff, hold, hnew]⟩

theorem tokens?_of_mem_paths {before after : Json} {path : String}
    (h : path ∈ (walkDiff before after "").paths) : (JsonPointer.tokens? path).isSome = true := by
  induction before using child_induction generalizing after path with
  | h before ih =>
    by_cases hform : SameForm before after
    · rw [(paths_walkDiff hform).mem_iff, List.mem_append] at h
      rcases h with hown | hchild
      · obtain ⟨token, -, rfl⟩ := List.mem_map.mp hown
        rw [tokens?_child]
        rfl
      · obtain ⟨token, hmem, hpath⟩ := List.mem_flatMap.mp hchild
        obtain ⟨below, hbelow, rfl⟩ := List.mem_map.mp hpath
        obtain ⟨old, new, hold, -, hdiff⟩ := childDiff_of_mem hform hmem
        rw [hdiff] at hbelow
        obtain ⟨tokens, htokens⟩ := Option.isSome_iff_exists.mp (ih token old hold hbelow)
        rw [tokens?_childPath htokens]
        rfl
    · rw [walkDiff_of_not_sameForm hform] at h
      split at h
      · obtain rfl : path = "" := by simpa [DiffLists.paths] using h
        rfl
      · simp [DiffLists.paths] at h

/-- No two paths of a difference are the same, or one inside the other. -/
theorem separate_walkDiff (before after : Json) :
    (walkDiff before after "").paths.Pairwise Separate := by
  induction before using child_induction generalizing after with
  | h before ih =>
    by_cases hform : SameForm before after
    · refine (paths_walkDiff hform).symm.pairwise ?_ fun hsep => hsep.symm
      have hroot : (JsonPointer.tokens? "").isSome = true := rfl
      have hreads : ∀ token ∈ commonTokens before after,
          ∀ path ∈ (childDiff before after token).paths,
            (JsonPointer.tokens? path).isSome = true := by
        intro token hmem path hpath
        obtain ⟨old, new, -, -, hdiff⟩ := childDiff_of_mem hform hmem
        exact tokens?_of_mem_paths (hdiff ▸ hpath)
      rw [List.pairwise_append]
      refine ⟨?_, ?_, ?_⟩
      · have hnodup : (tokensWithout after before ++ tokensWithout before after).Nodup := by
          refine List.nodup_append'.mpr ⟨nodup_tokensWithout _ _, nodup_tokensWithout _ _, ?_⟩
          intro token hnew hold
          have hnone := ((mem_tokensWithout hform.symm).mp hnew).2
          have hsome := ((mem_tokensWithout hform).mp hold).1
          rw [hnone] at hsome
          simp at hsome
        rw [List.pairwise_map]
        exact hnodup.imp fun hne => separate_of_ne hne hroot hroot
      · rw [List.pairwise_flatMap]
        constructor
        · intro token hmem
          obtain ⟨old, new, hold, -, hdiff⟩ := childDiff_of_mem hform hmem
          rw [hdiff, List.pairwise_map]
          exact (ih token old hold new).imp fun hpaths => hpaths.child token
        · refine (nodup_commonTokens before after).imp_of_mem ?_
          intro token other hmem hother hne path hpath further hfurther
          obtain ⟨below, hbelow, rfl⟩ := List.mem_map.mp hpath
          obtain ⟨under, hunder, rfl⟩ := List.mem_map.mp hfurther
          exact separate_of_ne hne (hreads token hmem below hbelow) (hreads other hother under hunder)
      · intro path hpath further hfurther
        obtain ⟨token, hown, rfl⟩ := List.mem_map.mp hpath
        obtain ⟨other, hmem, hchild⟩ := List.mem_flatMap.mp hfurther
        obtain ⟨below, hbelow, rfl⟩ := List.mem_map.mp hchild
        obtain ⟨hold, hnew⟩ := (mem_commonTokens hform).mp hmem
        have hne : token ≠ other := by
          rintro rfl
          rcases List.mem_append.mp hown with hown | hown
          · rw [((mem_tokensWithout hform.symm).mp hown).2] at hold
            simp at hold
          · rw [((mem_tokensWithout hform).mp hown).2] at hnew
            simp at hnew
        exact separate_of_ne hne hroot (hreads other hmem below hbelow)
    · rw [walkDiff_of_not_sameForm hform]
      split <;> simp [DiffLists.paths]

/-- A difference is empty when the documents are equal. -/
theorem paths_eq_nil_iff {before after : Json} :
    (walkDiff before after "").paths = [] ↔ typedEqual before after = true := by
  induction before using child_induction generalizing after with
  | h before ih =>
    by_cases hform : SameForm before after
    · have hperm := paths_walkDiff hform
      have hnil : (walkDiff before after "").paths = [] ↔
          (∀ token, token ∉ tokensWithout after before) ∧
          (∀ token, token ∉ tokensWithout before after) ∧
          ∀ token ∈ commonTokens before after, (childDiff before after token).paths = [] := by
        rw [← List.length_eq_zero_iff, hperm.length_eq, List.length_eq_zero_iff]
        simp only [List.append_eq_nil_iff, List.map_eq_nil_iff, List.flatMap_eq_nil_iff, and_assoc,
          ← List.eq_nil_iff_forall_not_mem]
      rw [hnil, typedEqual, eqWith_iff_child? hform]
      constructor
      · rintro ⟨hnew, hold, hcommon⟩ token
        have hnotNew := fun hsome hnone => hnew token ((mem_tokensWithout hform.symm).mpr ⟨hsome, hnone⟩)
        have hnotOld := fun hsome hnone => hold token ((mem_tokensWithout hform).mpr ⟨hsome, hnone⟩)
        cases hbefore : child? token before with
        | none =>
          cases hafter : child? token after with
          | none => exact .none
          | some new => exact (hnotNew (by rw [hafter]; rfl) hbefore).elim
        | some old =>
          cases hafter : child? token after with
          | none => exact (hnotOld (by rw [hbefore]; rfl) hafter).elim
          | some new =>
            have hmem : token ∈ commonTokens before after :=
              (mem_commonTokens hform).mpr ⟨by rw [hbefore]; rfl, by rw [hafter]; rfl⟩
            have hpaths := hcommon token hmem
            rw [childDiff, hbefore, hafter] at hpaths
            exact .some ((ih token old hbefore).mp hpaths)
      · intro hrel
        refine ⟨fun token htoken => ?_, fun token htoken => ?_, fun token hmem => ?_⟩
        · obtain ⟨hsome, hnone⟩ := (mem_tokensWithout hform.symm).mp htoken
          obtain ⟨new, hnew⟩ := Option.isSome_iff_exists.mp hsome
          have hchild := hrel token
          rw [hnone, hnew] at hchild
          cases hchild
        · obtain ⟨hsome, hnone⟩ := (mem_tokensWithout hform).mp htoken
          obtain ⟨old, hold⟩ := Option.isSome_iff_exists.mp hsome
          have hchild := hrel token
          rw [hnone, hold] at hchild
          cases hchild
        · obtain ⟨old, new, hold, hnew, hdiff⟩ := childDiff_of_mem hform hmem
          have hchild := hrel token
          rw [hold, hnew] at hchild
          cases hchild with
          | some hequal =>
            rw [hdiff]
            exact (ih token old hold).mpr hequal
    · rw [← unchanged_iff hform, walkDiff_of_not_sameForm hform]
      split
      · rename_i hchanged
        simp [DiffLists.paths, hchanged]
      · rename_i hchanged
        simpa [DiffLists.paths] using hchanged

/-! Both directions. -/

def DiffLists.swap (lists : DiffLists) : DiffLists where
  added := lists.removed
  removed := lists.added
  modified := lists.modified.map fun change => ⟨change.path, change.after, change.before⟩

theorem swap_append (first second : DiffLists) :
    (first.append second).swap = first.swap.append second.swap := by
  simp [DiffLists.swap, DiffLists.append]

theorem swap_concat (all : List DiffLists) :
    (DiffLists.concat all).swap = .concat (all.map DiffLists.swap) := by
  induction all with
  | nil => rfl
  | cons first rest ih => rw [DiffLists.concat, swap_append, ih, List.map_cons, DiffLists.concat]

theorem commonTokens_comm {before after : Json} (h : SameForm before after) :
    commonTokens after before = commonTokens before after := by
  have hperm : (commonTokens after before).Perm (commonTokens before after) := by
    refine (List.perm_ext_iff_of_nodup (nodup_commonTokens _ _) (nodup_commonTokens _ _)).mpr ?_
    intro token
    rw [mem_commonTokens h, mem_commonTokens h.symm]
    exact And.comm
  rcases h with ⟨fields, others, rfl, rfl⟩ | ⟨items, others, rfl, rfl⟩
  · have hsorted : ∀ keys : List String, (Text.sortedSet keys).Pairwise (· ≤ ·) := fun keys =>
      List.pairwise_insertionSort (fun a b : String => a ≤ b) keys.dedup
    exact hperm.eq_of_pairwise (fun _ _ _ _ hle hge => String.le_antisymm hle hge)
      ((hsorted _).filter _) ((hsorted _).filter _)
  · rw [commonTokens, commonTokens, Nat.min_comm]

theorem walkDiff_swap (before after : Json) (path : String) :
    walkDiff after before path = (walkDiff before after path).swap := by
  induction before using child_induction generalizing after path with
  | h before ih =>
    by_cases hform : SameForm before after
    · have hchild : ∀ token, walkChild after before path token =
          (walkChild before after path token).swap := by
        intro token
        unfold walkChild
        cases hold : child? token before with
        | none => cases child? token after <;> rfl
        | some old =>
          cases child? token after with
          | none => rfl
          | some new => exact ih token old hold new _
      rw [walkDiff_of_sameForm hform, walkDiff_of_sameForm hform.symm, swap_append, swap_concat,
        commonTokens_comm hform, List.map_map]
      congr 2
      exact List.map_congr_left fun token _ => hchild token
    · have hother : ¬ SameForm after before := fun hsame => hform hsame.symm
      have hsame : (!sameType after before || !pyEqual after before) =
          (!sameType before after || !pyEqual before after) := by
        rw [Bool.eq_iff_iff, ← Bool.not_eq_false, ← Bool.not_eq_false, unchanged_iff hform,
          unchanged_iff hother]
        exact not_congr ⟨typedEqual_symm, typedEqual_symm⟩
      rw [walkDiff_of_not_sameForm hform, walkDiff_of_not_sameForm hother, hsame]
      split <;> rfl

/-! Normalizing keeps every value. -/

theorem field?_jsonValueFields (key : String) (fields : Fields) :
    field? key (jsonValueFields fields) = (field? key fields).map jsonValue := by
  induction fields with
  | nil => rfl
  | cons entry rest ih =>
    obtain ⟨k, value⟩ := entry
    rw [jsonValueFields, field?_cons, field?_cons, ih]
    split <;> rfl

theorem field?_sortedBindings (key : String) (fields : Fields) :
    field? key (sortedBindings fields) = field? key fields := by
  have hchildren : sortedBindings fields =
      childFields (Text.sortedSet (fields.map Prod.fst)) (.obj fields) := rfl
  rw [hchildren, field?_childFields, child?_obj]
  split
  · rfl
  · rename_i habsent
    rw [Text.mem_sortedSet] at habsent
    exact (field?_eq_none_iff.mpr habsent).symm

theorem jsonValueItems_eq (items : List Json) : jsonValueItems items = items.map jsonValue := by
  induction items with
  | nil => rfl
  | cons item rest ih => rw [jsonValueItems, ih, List.map_cons]

theorem typedEqual_jsonValue (value : Json) : typedEqual (jsonValue value) value = true := by
  induction value with
  | arr items ih =>
    rw [jsonValue, jsonValueItems_eq, typedEqual, eqWith, eqItems_iff, List.forall₂_map_left_iff,
      List.forall₂_same]
    exact ih
  | obj fields ih =>
    rw [jsonValue]
    refine eqWith_obj_iff.mpr fun key => ?_
    rw [field?_sortedBindings, field?_jsonValueFields]
    cases hfield : field? key fields with
    | none => exact .none
    | some child => exact .some (ih (key, child) (mem_of_field? hfield))
  | _ => exact typedEqual_refl _

namespace SemanticDiff

def paths (diff : SemanticDiff) : List String :=
  (DiffLists.mk diff.added diff.removed diff.modified).paths

/-- The same difference, read in the other direction. -/
def swap (diff : SemanticDiff) : SemanticDiff :=
  { diff with
    added := diff.removed
    removed := diff.added
    modified := diff.modified.map fun change => ⟨change.path, change.after, change.before⟩ }

end SemanticDiff

theorem hasChanges_iff (before after : Json) : (semanticDiff before after).hasChanges = false ↔
    (walkDiff (jsonValue before) (jsonValue after) "").paths = [] := by
  simp [semanticDiff, DiffLists.paths, and_assoc]

/-- Applying a difference to the first document gives the second one, with booleans, integers and
floats kept apart; it is empty for equal documents only, its paths are separate, and in the other
direction it is the same difference swapped. -/
theorem semanticDiff_patches (before after : Json) :
    (∃ result, patch (semanticDiff before after).operations before = some result ∧
      typedEqual result after = true) ∧
    ((semanticDiff before after).hasChanges = false ↔ typedEqual before after = true) ∧
    (semanticDiff before after).paths.Pairwise Separate ∧
    semanticDiff after before = (semanticDiff before after).swap := by
  refine ⟨?_, ?_, separate_walkDiff _ _, ?_⟩
  · obtain ⟨first, second, third, hfirst, hsecond, hthird, hequal⟩ :=
      patch_walkDiff (typedEqual_symm (typedEqual_jsonValue before)) (typedEqual_jsonValue after)
    refine ⟨third, ?_, hequal⟩
    show patch (removals (walkDiff _ _ "") ++ additions (walkDiff _ _ "") ++
      replacements (walkDiff _ _ "")) before = some third
    rw [patch_append, patch_append, hfirst, Option.bind_some, hsecond, Option.bind_some]
    exact hthird
  · rw [hasChanges_iff, paths_eq_nil_iff]
    constructor
    · intro hequal
      have hleft := typedEqual_symm (typedEqual_jsonValue before)
      exact typedEqual_trans (typedEqual_trans hleft hequal) (typedEqual_jsonValue after)
    · intro hequal
      have hright := typedEqual_symm (typedEqual_jsonValue after)
      exact typedEqual_trans (typedEqual_trans (typedEqual_jsonValue before) hequal) hright
  · unfold semanticDiff
    rw [walkDiff_swap (jsonValue before)]
    simp [DiffLists.swap, SemanticDiff.swap, Bool.or_comm]

end CapabilityCompiler.Compiler
