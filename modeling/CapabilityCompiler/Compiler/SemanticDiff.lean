import CapabilityCompiler.Foundation.JsonPatch
import CapabilityCompiler.Foundation.Text

/-! The difference of two documents, and how it is made up of the differences of their children. -/
namespace CapabilityCompiler.Compiler
open Foundation Json JsonPatch

/-- A dictionary rebuilt in the order of its keys. -/
def sortedBindings (fields : Fields) : Fields :=
  (Text.sortedSet (fields.map Prod.fst)).filterMap fun key =>
    (field? key fields).map fun value => (key, value)

mutual

/-- The normalized form of a value that is a JSON document already. -/
def jsonValue : Json → Json
  | .arr items => .arr (jsonValueItems items)
  | .obj fields => .obj (sortedBindings (jsonValueFields fields))
  | value => value

def jsonValueItems : List Json → List Json
  | [] => []
  | item :: rest => jsonValue item :: jsonValueItems rest

def jsonValueFields : Fields → Fields
  | [] => []
  | (key, value) :: rest => (key, jsonValue value) :: jsonValueFields rest

end

def pointer (parent token : String) : String := parent ++ "/" ++ Text.escapeToken token

/-- `type(before) is type(after)`. -/
def sameType : Json → Json → Bool
  | .null, .null => true
  | .bool _, .bool _ => true
  | .int _, .int _ => true
  | .float _, .float _ => true
  | .str _, .str _ => true
  | .arr _, .arr _ => true
  | .obj _, .obj _ => true
  | _, _ => false

/-- A value that is on one side only. -/
structure DiffEntry where
  path : String
  value : Json

structure DiffChange where
  path : String
  before : Json
  after : Json

/-- The three lists that a walk extends. -/
structure DiffLists where
  added : List DiffEntry := []
  removed : List DiffEntry := []
  modified : List DiffChange := []

namespace DiffLists

def append (first second : DiffLists) : DiffLists where
  added := first.added ++ second.added
  removed := first.removed ++ second.removed
  modified := first.modified ++ second.modified

def concat : List DiffLists → DiffLists
  | [] => {}
  | first :: rest => first.append (concat rest)

end DiffLists

/-- The keys of an object that another one lacks, in order. -/
def keysWithout (fields others : Fields) : List String :=
  (Text.sortedSet (fields.map Prod.fst)).filter fun key => (field? key others).isNone

/-- The keys that two objects share, in order. -/
def commonKeys (before after : Fields) : List String :=
  (Text.sortedSet (before.map Prod.fst)).filter fun key => (field? key after).isSome

def memberEntries (path : String) (keys : List String) (fields : Fields) : List DiffEntry :=
  keys.filterMap fun key => (field? key fields).map fun value => ⟨pointer path key, value⟩

/-- The items from an index on. -/
def itemEntries (path : String) (first : ℕ) (items : List Json) : List DiffEntry :=
  ((items.drop first).zipIdx first).map fun entry => ⟨pointer path (toString entry.2), entry.1⟩

mutual

def walkDiff : Json → Json → String → DiffLists
  | .obj before, .obj after, path =>
    DiffLists.append
      { added := memberEntries path (keysWithout after before) after
        removed := memberEntries path (keysWithout before after) before }
      (.concat ((commonKeys before after).map fun key =>
        match Table.get? key (walkDiffFields before), field? key after with
        | some walk, some value => walk value (pointer path key)
        | _, _ => {}))
  | .arr before, .arr after, path =>
    let commonLength := min before.length after.length
    DiffLists.append
      { added := itemEntries path commonLength after
        removed := itemEntries path commonLength before }
      (walkDiffItems before after 0 path)
  | before, after, path =>
    if !sameType before after || !pyEqual before after then { modified := [⟨path, before, after⟩] }
    else {}

/-- The walks from the values of an object. -/
def walkDiffFields : Fields → List (String × (Json → String → DiffLists))
  | [] => []
  | (key, value) :: rest => (key, walkDiff value) :: walkDiffFields rest

def walkDiffItems : List Json → List Json → ℕ → String → DiffLists
  | before :: befores, after :: afters, index, path =>
    (walkDiff before after (pointer path (toString index))).append
      (walkDiffItems befores afters (index + 1) path)
  | _, _, _, _ => {}

end

structure SemanticDiff where
  diffVersion : String
  hasChanges : Bool
  added : List DiffEntry
  removed : List DiffEntry
  modified : List DiffChange

/-- The difference of two documents, whatever the order of their keys. -/
def semanticDiff (before after : Json) : SemanticDiff :=
  let lists := walkDiff (jsonValue before) (jsonValue after) ""
  { diffVersion := "1"
    hasChanges := !lists.added.isEmpty || !lists.removed.isEmpty || !lists.modified.isEmpty
    added := lists.added
    removed := lists.removed
    modified := lists.modified }

/-! A walk over two containers of one form: what is on one side only, then the common children. -/

/-- The tokens of the children that another container of the same form lacks. -/
def tokensWithout : Json → Json → List String
  | .obj fields, .obj others => keysWithout fields others
  | .arr items, .arr others =>
    let common := min items.length others.length
    (List.range' common (items.length - common)).map toString
  | _, _ => []

def commonTokens : Json → Json → List String
  | .obj before, .obj after => commonKeys before after
  | .arr before, .arr after => (List.range (min before.length after.length)).map toString
  | _, _ => []

def childEntries (path : String) (tokens : List String) (doc : Json) : List DiffEntry :=
  tokens.filterMap fun token => (child? token doc).map fun value => ⟨pointer path token, value⟩

def walkChild (before after : Json) (path token : String) : DiffLists :=
  match child? token before, child? token after with
  | some old, some new => walkDiff old new (pointer path token)
  | _, _ => {}

theorem get?_walkDiffFields (key : String) (fields : Fields) :
    Table.get? key (walkDiffFields fields) = (field? key fields).map walkDiff := by
  induction fields with
  | nil => rfl
  | cons entry rest ih =>
    obtain ⟨k, value⟩ := entry
    rw [walkDiffFields, Table.get?_cons, field?_cons, ih]
    split <;> rfl

theorem itemEntries_eq (path : String) (first : ℕ) (items : List Json) :
    itemEntries path first items = childEntries path
      ((List.range' first (items.length - first)).map toString) (.arr items) := by
  unfold itemEntries childEntries
  generalize hcount : items.length - first = count
  induction count generalizing first with
  | zero =>
    rw [List.drop_eq_nil_of_le (by omega)]
    rfl
  | succ count ih =>
    have hlt : first < items.length := by omega
    rw [List.drop_eq_getElem_cons hlt, List.zipIdx_cons, List.range'_succ, List.map_cons,
      List.map_cons, List.filterMap_cons, child?_toString, List.getElem?_eq_getElem hlt,
      Option.map_some, ih (first + 1) (by omega)]

theorem walkDiffItems_eq (path : String) (first : ℕ) (before after : List Json) :
    walkDiffItems (before.drop first) (after.drop first) first path =
      .concat ((List.range' first (min before.length after.length - first)).map fun index =>
        walkChild (.arr before) (.arr after) path (toString index)) := by
  generalize hcount : min before.length after.length - first = count
  induction count generalizing first with
  | zero =>
    by_cases hbefore : before.length ≤ first
    · rw [List.drop_eq_nil_of_le hbefore]
      rfl
    · have hafter : after.length ≤ first := by omega
      rw [List.drop_eq_nil_of_le hafter]
      cases before.drop first <;> rfl
  | succ count ih =>
    have hbefore : first < before.length := by omega
    have hafter : first < after.length := by omega
    have hchild : walkChild (.arr before) (.arr after) path (toString first) =
        walkDiff before[first] after[first] (pointer path (toString first)) := by
      unfold walkChild
      rw [child?_toString, child?_toString, List.getElem?_eq_getElem hbefore,
        List.getElem?_eq_getElem hafter]
    rw [List.drop_eq_getElem_cons hbefore, List.drop_eq_getElem_cons hafter, walkDiffItems,
      List.range'_succ, List.map_cons, DiffLists.concat, hchild, ih (first + 1) (by omega)]

theorem walkDiff_of_sameForm {before after : Json} (h : SameForm before after) (path : String) :
    walkDiff before after path = DiffLists.append
      { added := childEntries path (tokensWithout after before) after
        removed := childEntries path (tokensWithout before after) before }
      (.concat ((commonTokens before after).map (walkChild before after path))) := by
  rcases h with ⟨fields, others, rfl, rfl⟩ | ⟨items, others, rfl, rfl⟩
  · rw [walkDiff]
    congr 3
    funext key
    rw [get?_walkDiffFields]
    show _ = walkChild _ _ _ _
    unfold walkChild
    rw [child?_obj, child?_obj]
    cases field? key fields <;> cases field? key others <;> rfl
  · have hitems := walkDiffItems_eq path 0 items others
    rw [List.drop_zero, List.drop_zero, Nat.sub_zero] at hitems
    rw [walkDiff, itemEntries_eq, itemEntries_eq, hitems, commonTokens, List.map_map,
      List.range_eq_range', tokensWithout, tokensWithout, Nat.min_comm others.length]
    rfl

theorem walkDiff_of_not_sameForm {before after : Json} (h : ¬ SameForm before after)
    (path : String) : walkDiff before after path =
      if !sameType before after || !pyEqual before after then { modified := [⟨path, before, after⟩] }
      else {} := by
  cases before with
  | obj fields =>
    cases after with
    | obj others => exact absurd (.inl ⟨fields, others, rfl, rfl⟩) h
    | _ => rfl
  | arr items =>
    cases after with
    | arr others => exact absurd (.inr ⟨items, others, rfl, rfl⟩) h
    | _ => rfl
  | _ => cases after <;> rfl

theorem nodup_map_toString {indices : List ℕ} (h : indices.Nodup) :
    (indices.map (toString : ℕ → String)).Nodup :=
  h.map fun _ _ => JsonPointer.eq_of_toString

theorem nodup_tokensWithout (before after : Json) : (tokensWithout before after).Nodup := by
  unfold tokensWithout
  split
  · exact (Text.nodup_sortedSet _).filter _
  · exact nodup_map_toString List.nodup_range'
  · exact List.nodup_nil

theorem nodup_commonTokens (before after : Json) : (commonTokens before after).Nodup := by
  unfold commonTokens
  split
  · exact (Text.nodup_sortedSet _).filter _
  · exact nodup_map_toString List.nodup_range
  · exact List.nodup_nil

theorem isSome_child?_arr {token : String} {items : List Json} :
    (child? token (.arr items)).isSome = true ↔ ∃ index < items.length, token = toString index := by
  show ((JsonPointer.index? token).bind _).isSome = true ↔ _
  constructor
  · intro h
    obtain ⟨value, hvalue⟩ := Option.isSome_iff_exists.mp h
    obtain ⟨index, hindex, hitem⟩ := Option.bind_eq_some_iff.mp hvalue
    exact ⟨index, (List.getElem?_eq_some_iff.mp hitem).1, JsonPointer.eq_of_index? hindex⟩
  · rintro ⟨index, hlt, rfl⟩
    rw [JsonPointer.index?_repr, Option.bind_some, List.getElem?_eq_getElem hlt]
    rfl

theorem mem_tokensWithout {before after : Json} (h : SameForm before after) {token : String} :
    token ∈ tokensWithout before after ↔
      (child? token before).isSome = true ∧ child? token after = none := by
  rcases h with ⟨fields, others, rfl, rfl⟩ | ⟨items, others, rfl, rfl⟩
  · simp [tokensWithout, keysWithout, child?, Text.mem_sortedSet, field?_isSome_iff]
  · rw [← Option.not_isSome_iff_eq_none, isSome_child?_arr, isSome_child?_arr]
    unfold tokensWithout
    rw [List.mem_map]
    constructor
    · rintro ⟨index, hindex, rfl⟩
      rw [List.mem_range'_1] at hindex
      refine ⟨⟨index, by omega, rfl⟩, ?_⟩
      rintro ⟨other, hother, hsame⟩
      have hindices := JsonPointer.eq_of_toString hsame
      omega
    · rintro ⟨⟨index, hlt, rfl⟩, hnot⟩
      refine ⟨index, ?_, rfl⟩
      have hge : ¬ index < others.length := fun hother => hnot ⟨index, hother, rfl⟩
      rw [List.mem_range'_1]
      omega

theorem mem_commonTokens {before after : Json} (h : SameForm before after) {token : String} :
    token ∈ commonTokens before after ↔
      (child? token before).isSome = true ∧ (child? token after).isSome = true := by
  rcases h with ⟨fields, others, rfl, rfl⟩ | ⟨items, others, rfl, rfl⟩
  · simp [commonTokens, commonKeys, child?, Text.mem_sortedSet, field?_isSome_iff]
  · rw [isSome_child?_arr, isSome_child?_arr]
    unfold commonTokens
    rw [List.mem_map]
    constructor
    · rintro ⟨index, hindex, rfl⟩
      rw [List.mem_range] at hindex
      exact ⟨⟨index, by omega, rfl⟩, index, by omega, rfl⟩
    · rintro ⟨⟨index, hlt, rfl⟩, other, hother, hsame⟩
      have hindices := JsonPointer.eq_of_toString hsame
      exact ⟨index, List.mem_range.mpr (by omega), rfl⟩

/-! A walk below a path is the walk from the root, with the path before every path of it. -/

namespace DiffLists

def mapPaths (f : String → String) (lists : DiffLists) : DiffLists where
  added := lists.added.map fun entry => { entry with path := f entry.path }
  removed := lists.removed.map fun entry => { entry with path := f entry.path }
  modified := lists.modified.map fun change => { change with path := f change.path }

theorem mapPaths_append (f : String → String) (first second : DiffLists) :
    (first.append second).mapPaths f = (first.mapPaths f).append (second.mapPaths f) := by
  simp [append, mapPaths]

theorem mapPaths_concat (f : String → String) (all : List DiffLists) :
    (concat all).mapPaths f = concat (all.map (mapPaths f)) := by
  induction all with
  | nil => rfl
  | cons first rest ih => rw [concat, mapPaths_append, ih, List.map_cons, concat]

theorem mapPaths_mapPaths (f g : String → String) (lists : DiffLists) :
    (lists.mapPaths f).mapPaths g = lists.mapPaths fun path => g (f path) := by
  simp [mapPaths]

theorem concat_added (all : List DiffLists) : (concat all).added = all.flatMap (·.added) := by
  induction all with
  | nil => rfl
  | cons first rest ih => rw [concat, append, ih, List.flatMap_cons]

theorem concat_removed (all : List DiffLists) : (concat all).removed = all.flatMap (·.removed) := by
  induction all with
  | nil => rfl
  | cons first rest ih => rw [concat, append, ih, List.flatMap_cons]

theorem concat_modified (all : List DiffLists) : (concat all).modified = all.flatMap (·.modified) := by
  induction all with
  | nil => rfl
  | cons first rest ih => rw [concat, append, ih, List.flatMap_cons]

end DiffLists

theorem pointer_append (path below token : String) :
    pointer (path ++ below) token = path ++ pointer below token := by
  simp [pointer, String.append_assoc]

theorem pointer_eq_childPath (token path : String) :
    pointer "" token ++ path = childPath token path := by
  simp [pointer, childPath]

theorem childEntries_append (path below : String) (tokens : List String) (doc : Json) :
    childEntries (path ++ below) tokens doc = (childEntries below tokens doc).map fun entry =>
      { entry with path := path ++ entry.path } := by
  unfold childEntries
  rw [List.map_filterMap]
  congr 1
  funext token
  cases child? token doc with
  | none => rfl
  | some value => simp [pointer_append]

theorem walkDiff_append (path : String) (before after : Json) (below : String) :
    walkDiff before after (path ++ below) =
      (walkDiff before after below).mapPaths fun other => path ++ other := by
  induction before using child_induction generalizing after below with
  | h before ih =>
    by_cases hform : SameForm before after
    · have hchildren : ∀ token, walkChild before after (path ++ below) token =
          (walkChild before after below token).mapPaths fun other => path ++ other := by
        intro token
        unfold walkChild
        cases hold : child? token before with
        | none => rfl
        | some old =>
          cases child? token after with
          | none => rfl
          | some new => simp only [pointer_append, ih token old hold]
      rw [walkDiff_of_sameForm hform, walkDiff_of_sameForm hform, DiffLists.mapPaths_append,
        DiffLists.mapPaths_concat, List.map_map, childEntries_append, childEntries_append]
      congr 2
      exact List.map_congr_left fun token _ => hchildren token
    · rw [walkDiff_of_not_sameForm hform, walkDiff_of_not_sameForm hform]
      split <;> rfl

/-- The difference of two children, from their own root. -/
def childDiff (before after : Json) (token : String) : DiffLists :=
  match child? token before, child? token after with
  | some old, some new => walkDiff old new ""
  | _, _ => {}

theorem walkChild_eq (before after : Json) (token : String) :
    walkChild before after "" token = (childDiff before after token).mapPaths (childPath token) := by
  unfold walkChild childDiff
  cases child? token before with
  | none => rfl
  | some old =>
    cases child? token after with
    | none => rfl
    | some new =>
      have hroot := walkDiff_append (pointer "" token) old new ""
      rw [String.append_empty] at hroot
      simp only [hroot, pointer_eq_childPath]

/-- The difference of two containers of one form, in terms of the differences of their children. -/
theorem walkDiff_eq {before after : Json} (h : SameForm before after) :
    walkDiff before after "" = DiffLists.append
      { added := childEntries "" (tokensWithout after before) after
        removed := childEntries "" (tokensWithout before after) before }
      (.concat ((commonTokens before after).map fun token =>
        (childDiff before after token).mapPaths (childPath token))) := by
  rw [walkDiff_of_sameForm h]
  congr 2
  exact List.map_congr_left fun token _ => walkChild_eq before after token

end CapabilityCompiler.Compiler
