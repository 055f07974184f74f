import CapabilityCompiler.Execution.Filling
import CapabilityCompiler.Foundation.JsonPointer

/-! The defaults of a capability's public arguments: how they are loaded and how they are applied. -/
namespace CapabilityCompiler.Execution
open Foundation Actions Policies

/-! Loading. -/

/-- The nonempty tokens of a JSON Pointer that is not the whole document. -/
def jsonPointerTokens (pointer : String) : Option (List String) :=
  match pointer.toList with
  | '/' :: rest =>
    let raw := Text.splitChars '/' rest
    let tokens := raw.map fun token => Text.unescapeToken (String.ofList token)
    if raw.all JsonPointer.escapesValid && !tokens.contains "" then some tokens else none
  | _ => none

/-- The keywords next to a reference that assert nothing. -/
def nonAssertingRefSiblings : List String :=
  ["$anchor", "$comment", "$defs", "$id", "$schema", "default", "deprecated", "description",
    "examples", "readOnly", "title", "writeOnly"]

/-- The member of nested objects at a path. -/
def memberAt : Json → List String → Option Json
  | target, [] => some target
  | .obj fields, token :: rest => (Json.field? token fields).bind fun child => memberAt child rest
  | _, _ :: _ => none

/-- Follow local references, each at most once and at most 64 of them. -/
def resolveLocalSchemaReference (root : Fields) : ℕ → List String → Fields → Option Fields
  | 0, _, _ => none
  | fuel + 1, visited, current =>
    match Json.field? "$ref" current with
    | none | some .null => some current
    | some (.str reference) =>
      if reference ∈ visited ∨
          ¬ current.all fun field => field.1 = "$ref" || nonAssertingRefSiblings.contains field.1 then
        none
      else match reference.toList with
        | '#' :: '/' :: rest =>
          match (jsonPointerTokens (String.ofList ('/' :: rest))).bind (memberAt (.obj root)) with
          | some (.obj target) =>
            resolveLocalSchemaReference root fuel (reference :: visited) target
          | _ => none
        | _ => none
    | some _ => none

def resolvedSchema (root current : Fields) : Option Fields :=
  resolveLocalSchemaReference root 64 [] current

/-- The target is a declared property of objects, not of the items of an array. -/
def publicDefaultTargetValid (root : Fields) : List String → Fields → Bool
  | [], current => (resolvedSchema root current).isSome
  | token :: rest, current =>
    match resolvedSchema root current with
    | none => false
    | some resolved =>
      if Json.field? "type" resolved = some (.str "array") ∨
          (Json.field? "items" resolved).isSome then false
      else match Json.field? "properties" resolved with
        | some (.obj properties) => match Json.field? token properties with
          | some (.obj child) => publicDefaultTargetValid root rest child
          | _ => false
        | _ => false

/-- The target of a default with its value. -/
abbrev PublicDefault := List String × Json

def publicDefaultKeys : List String := ["id", "source_kind", "target_pointer", "value"]

def loadPublicDefault (inputSchema : Fields) (default : Json) : Option PublicDefault :=
  match default with
  | .obj fields =>
    if publicDefaultKeys.all (fun key => (Json.field? key fields).isSome) &&
        fields.all (fun field => publicDefaultKeys.contains field.1) then
      match Json.field? "id" fields, Json.field? "source_kind" fields,
          Json.field? "target_pointer" fields, Json.field? "value" fields with
      | some (.str id), some (.str "literal"), some (.str pointer), some value =>
        match jsonPointerTokens pointer with
        | some tokens =>
          if id ≠ "" ∧ publicDefaultTargetValid inputSchema tokens inputSchema then
            some (tokens, value)
          else none
        | none => none
      | _, _, _, _ => none
    else none
  | _ => none

/-- The defaults of a capability; no target is declared twice. -/
def loadPublicDefaults (inputSchema : Fields) :
    List (List String) → List Json → Option (List PublicDefault)
  | _, [] => some []
  | seen, default :: rest =>
    match loadPublicDefault inputSchema default with
    | none => none
    | some loaded =>
      if loaded.1 ∈ seen then none
      else (loadPublicDefaults inputSchema (loaded.1 :: seen) rest).map (loaded :: ·)

/-! Applying. -/

/-- Absent containers are created; any other value than an object blocks the path. -/
def defaultParent? : Option Json → Option Fields
  | none => some []
  | some (.obj child) => some child
  | some _ => none

def applyPublicDefault (arguments : Fields) (default : PublicDefault) : Fields :=
  fillWith defaultParent? default.2 default.1 arguments

def applyPublicDefaults (arguments : Fields) (defaults : List PublicDefault) : Fields :=
  defaults.foldl applyPublicDefault arguments

/-- Something on the way to the target is there and is no object. -/
def blocked : List String → Fields → Bool
  | token :: next :: rest, arguments =>
    match Json.field? token arguments with
    | none => false
    | some (.obj child) => blocked (next :: rest) child
    | some _ => true
  | _, _ => false

section
variable {value x : Json} {tokens other path : List String} {arguments : Fields}

theorem enters_defaultParent? : Enters defaultParent? where
  absent := rfl
  object _ := rfl
  entered x child h := by
    cases x with
    | obj fields => exact .inl (by simpa [defaultParent?] using h)
    | _ => simp [defaultParent?] at h

/-- Where a path goes on below a key. -/
theorem defaultParent?_cases (found : Option Json) :
    (found = none ∧ defaultParent? found = some []) ∨
      (∃ child, found = some (.obj child) ∧ defaultParent? found = some child) ∨
      ∃ x, found = some x ∧ (∀ child, x ≠ .obj child) ∧ defaultParent? found = none := by
  cases found with
  | none => exact .inl ⟨rfl, rfl⟩
  | some x =>
    cases x with
    | obj child => exact .inr (.inl ⟨child, rfl, rfl⟩)
    | _ => exact .inr (.inr ⟨_, rfl, by simp, rfl⟩)

/-! What one default keeps. -/

/-- The same value, or an object that may have gained members. -/
def Grown (before after : Json) : Prop :=
  after = before ∨ ∃ fields grown, before = .obj fields ∧ after = .obj grown

theorem Grown.trans {a b c : Json} (hab : Grown a b) (hbc : Grown b c) : Grown a c := by
  rcases hab with rfl | ⟨fields, grown, rfl, rfl⟩
  · exact hbc
  · rcases hbc with rfl | ⟨-, more, -, rfl⟩
    · exact .inr ⟨fields, grown, rfl, rfl⟩
    · exact .inr ⟨fields, more, rfl, rfl⟩

/-- Whatever is there stays; an object on the way to the target may gain members. -/
theorem grown_fillWith (value : Json) (tokens : List String) (h : lookup (.obj arguments) path = some x) :
    ∃ y, lookup (.obj (fillWith defaultParent? value tokens arguments)) path = some y ∧
      Grown x y := by
  induction tokens generalizing path arguments with
  | nil => exact ⟨x, h, .inl rfl⟩
  | cons token rest ih =>
    cases path with
    | nil =>
      obtain rfl : Json.obj arguments = x := by simpa [lookup] using h
      exact ⟨_, rfl, .inr ⟨_, _, rfl, rfl⟩⟩
    | cons part path =>
      by_cases hpart : token = part
      · subst hpart
        obtain ⟨found, hfound, hrest⟩ := Option.bind_eq_some_iff.mp h
        cases rest with
        | nil =>
          refine ⟨x, ?_, .inl rfl⟩
          rw [fillWith, if_pos (by rw [hfound]; rfl)]
          exact h
        | cons next rest =>
          rw [fillWith_cons_cons]
          rcases defaultParent?_cases (Json.field? token arguments) with
            ⟨hnone, -⟩ | ⟨child, hchild, hparent⟩ | ⟨other, hother, -, hparent⟩
          · exact absurd (hfound.symm.trans hnone) (by simp)
          · obtain rfl : found = .obj child := Option.some.inj (hfound.symm.trans hchild)
            obtain ⟨y, hy, hgrown⟩ := ih hrest
            refine ⟨y, ?_, hgrown⟩
            rw [hparent, lookup, field?_setField, if_pos rfl, Option.bind_some]
            exact hy
          · rw [hparent]
            exact ⟨x, h, .inl rfl⟩
      · refine ⟨x, ?_, .inl rfl⟩
        rw [lookup, field?_fillWith hpart]
        exact h

/-- What a default adds is its value at its target, or an object on the way there. -/
theorem added_fillWith (hnone : lookup (.obj arguments) path = none)
    (h : lookup (.obj (fillWith defaultParent? value tokens arguments)) path = some x) :
    tokens <+: path ∨ path <+: tokens ∧ ∃ fields, x = .obj fields := by
  by_cases hreaches : Reaches path tokens
  · obtain ⟨rest, hpath, -⟩ := lookup_of_fillWith enters_defaultParent? hreaches hnone h
    exact .inl ⟨rest, hpath.symm⟩
  · right
    simp only [Reaches, not_forall, Classical.not_not] at hreaches
    obtain ⟨rest, hrest, rfl⟩ := hreaches
    refine ⟨List.prefix_append _ _, ?_⟩
    induction path generalizing arguments with
    | nil => exact absurd hnone (by simp [lookup])
    | cons part path ih =>
      obtain ⟨next, more, hmore⟩ := List.exists_cons_of_ne_nil
        (List.append_ne_nil_of_right_ne_nil path hrest)
      rw [List.cons_append, hmore, fillWith_cons_cons] at h
      rcases defaultParent?_cases (Json.field? part arguments) with
        ⟨hfield, hparent⟩ | ⟨child, hchild, hparent⟩ | ⟨other, hother, -, hparent⟩
      · rw [hparent, lookup, field?_setField, if_pos rfl, Option.bind_some] at h
        cases path with
        | nil => exact ⟨_, (Option.some.inj h).symm⟩
        | cons after path =>
          rw [← hmore] at h
          exact ih rfl h
      · rw [hparent, lookup, field?_setField, if_pos rfl, Option.bind_some, ← hmore] at h
        rw [lookup, hchild, Option.bind_some] at hnone
        exact ih hnone h
      · rw [hparent] at h
        exact absurd (hnone.symm.trans h) (by simp)

/-! Blocked and settled targets. -/

theorem setField_self {key : String} (h : Json.field? key arguments = some x) :
    setField key x arguments = arguments := by
  induction arguments with
  | nil => exact absurd h (by simp)
  | cons field rest ih =>
    obtain ⟨k, v⟩ := field
    rw [Json.field?_cons] at h
    rw [setField]
    split_ifs at h ⊢ with hk
    · rw [hk, Option.some.inj h]
    · rw [ih h]

theorem setField_setField {key : String} {y : Json} :
    setField key x (setField key y arguments) = setField key x arguments := by
  induction arguments with
  | nil => simp [setField]
  | cons field rest ih =>
    obtain ⟨k, v⟩ := field
    by_cases hk : k = key
    · simp [setField, hk]
    · simp [setField, hk, ih]

theorem blocked_cons_cons (token next : String) (rest : List String) (arguments : Fields) :
    blocked (token :: next :: rest) arguments =
      match defaultParent? (Json.field? token arguments) with
      | some child => blocked (next :: rest) child
      | none => true := by
  rw [blocked]
  rcases defaultParent?_cases (Json.field? token arguments) with
    ⟨hfield, hparent⟩ | ⟨child, hfield, hparent⟩ | ⟨x, hfield, hobject, hparent⟩
  · rw [hparent, hfield]
    cases rest <;> rfl
  · rw [hparent, hfield]
  · rw [hparent, hfield]
    cases x with
    | obj child => exact absurd rfl (hobject child)
    | _ => rfl

/-- The target needs no default: it is there, or its path is blocked. -/
def Settled (tokens : List String) (arguments : Fields) : Prop :=
  blocked tokens arguments = true ∨ (lookup (.obj arguments) tokens).isSome = true

/-- A settled target is left as it is. -/
theorem fillWith_of_settled (h : Settled tokens arguments) :
    fillWith defaultParent? value tokens arguments = arguments := by
  induction tokens generalizing arguments with
  | nil => rfl
  | cons token rest ih =>
    cases rest with
    | nil =>
      have hthere : (Json.field? token arguments).isSome = true := by
        rcases h with hblocked | hthere
        · exact absurd hblocked (by simp [blocked])
        · cases hfield : Json.field? token arguments with
          | none => simp [lookup, hfield] at hthere
          | some found => rfl
      rw [fillWith, if_pos hthere]
    | cons next rest =>
      rw [fillWith_cons_cons]
      rcases defaultParent?_cases (Json.field? token arguments) with
        ⟨hfield, hparent⟩ | ⟨child, hfield, hparent⟩ | ⟨x, hfield, -, hparent⟩
      · rcases h with hblocked | hthere
        · rw [blocked_cons_cons, hparent] at hblocked
          cases rest <;> exact absurd hblocked (by simp [blocked])
        · exact absurd hthere (by simp [lookup, hfield])
      · rw [hparent]
        have hchild : Settled (next :: rest) child := by
          refine h.imp (fun hblocked => ?_) fun hthere => ?_
          · rwa [blocked_cons_cons, hparent] at hblocked
          · rwa [lookup, hfield, Option.bind_some] at hthere
        simp only [ih hchild, setField_self hfield]
      · rw [hparent]

/-- A default settles its target. -/
theorem settled_fillWith : Settled tokens (fillWith defaultParent? value tokens arguments) := by
  induction tokens generalizing arguments with
  | nil => exact .inr rfl
  | cons token rest ih =>
    cases rest with
    | nil =>
      right
      rw [fillWith]
      split
      · rename_i hthere
        obtain ⟨found, hfound⟩ := Option.isSome_iff_exists.mp hthere
        simp [lookup, hfound]
      · simp [lookup, field?_setField]
    | cons next rest =>
      rw [fillWith_cons_cons]
      cases hparent : defaultParent? (Json.field? token arguments) with
      | none =>
        left
        simp only [blocked_cons_cons, hparent]
      | some child =>
        rcases @ih child with hblocked | hthere
        · left
          rw [blocked_cons_cons, field?_setField, if_pos rfl]
          exact hblocked
        · right
          rw [lookup, field?_setField, if_pos rfl, Option.bind_some]
          exact hthere

/-- What blocks a path stays. -/
theorem blocked_fillWith (h : blocked other arguments = true) :
    blocked other (fillWith defaultParent? value tokens arguments) = true := by
  induction tokens generalizing other arguments with
  | nil => exact h
  | cons token rest ih =>
    match other, h with
    | part :: after :: others, h =>
      rw [blocked_cons_cons] at h ⊢
      by_cases hpart : token = part
      · subst hpart
        cases rest with
        | nil =>
          rw [fillWith]
          by_cases hthere : (Json.field? token arguments).isSome = true
          · rwa [if_pos hthere]
          · rw [Option.not_isSome_iff_eq_none.mp hthere] at h
            cases others <;> exact absurd h (by simp [defaultParent?, blocked])
        | cons next rest =>
          rw [fillWith_cons_cons]
          cases hparent : defaultParent? (Json.field? token arguments) with
          | none => simp only [hparent]
          | some child =>
            rw [hparent] at h
            rw [field?_setField, if_pos rfl]
            exact ih h
      · rwa [field?_fillWith hpart]

theorem Settled.fillWith (h : Settled other arguments) :
    Settled other (fillWith defaultParent? value tokens arguments) := by
  refine h.imp blocked_fillWith fun hthere => ?_
  obtain ⟨x, hx⟩ := Option.isSome_iff_exists.mp hthere
  obtain ⟨y, hy, -⟩ := grown_fillWith value tokens hx
  rw [hy]
  rfl

/-! The order of two defaults. -/

theorem equal_of_field? {fields others : Fields}
    (h : ∀ key, Json.field? key fields = Json.field? key others) :
    (Json.obj fields).jsonEqual (.obj others) = true := by
  rw [Json.jsonEqual_obj_iff]
  intro key
  rw [h]
  cases Json.field? key others with
  | none => exact .none
  | some x => exact .some (Json.jsonEqual_refl x)

/-- Equal arguments are filled in to equal ones. -/
theorem fillWith_equal {others : Fields} (value : Json) (tokens : List String)
    (h : (Json.obj arguments).jsonEqual (.obj others) = true) :
    (Json.obj (fillWith defaultParent? value tokens arguments)).jsonEqual
      (.obj (fillWith defaultParent? value tokens others)) = true := by
  induction tokens generalizing arguments others with
  | nil => exact h
  | cons token rest ih =>
    cases rest with
    | nil =>
      rw [fillWith, fillWith, isSome_field?_eq h token]
      split
      · exact h
      · exact equal_setField h token (Json.jsonEqual_refl value)
    | cons next rest =>
      rw [fillWith_cons_cons, fillWith_cons_cons]
      rcases Json.jsonEqual_field? h token with ⟨hnone, hnone'⟩ | ⟨x, y, hx, hy, hxy⟩
      · rw [hnone, hnone']
        exact equal_setField h token (Json.jsonEqual_refl _)
      · rw [hx, hy]
        rcases Json.jsonEqual_shape hxy with ⟨hsx, hsy, -⟩ | ⟨xs, ys, rfl, rfl⟩ | ⟨cs, ds, rfl, rfl⟩
        · cases x <;> cases y <;> first | exact h | simp [Json.isScalar] at hsx hsy
        · exact h
        · exact equal_setField h token (ih hxy)

/-- The value at a key after a path that starts with it has been filled in. -/
theorem field?_fillWith_congr {token : String} {rest : List String} {others : Fields}
    (h : Json.field? token arguments = Json.field? token others) :
    Json.field? token (fillWith defaultParent? value (token :: rest) arguments) =
      Json.field? token (fillWith defaultParent? value (token :: rest) others) := by
  cases rest with
  | nil =>
    rw [fillWith, fillWith, h]
    split
    · exact h
    · rw [field?_setField, field?_setField, h]
  | cons next rest =>
    rw [fillWith_cons_cons, fillWith_cons_cons, h]
    cases defaultParent? (Json.field? token others) with
    | none => exact h
    | some child => simp only [field?_setField, h]

/-- A target that the arguments lack leads to no other target. -/
def Leaves (arguments : Fields) (tokens other : List String) : Prop :=
  tokens <+: other → tokens ≠ other → (lookup (.obj arguments) tokens).isSome = true

theorem Leaves.settled (h : Leaves arguments tokens other) (hbegins : tokens <+: other)
    (hne : tokens ≠ other) : Settled tokens arguments :=
  .inr (h hbegins hne)

/-- Two defaults may be filled in in any order unless one that is lacking leads to the other. -/
theorem fillWith_comm {v w : Json} (hne : tokens ≠ other) (h : Leaves arguments tokens other)
    (h' : Leaves arguments other tokens) :
    (Json.obj (fillWith defaultParent? v tokens (fillWith defaultParent? w other arguments))).jsonEqual
      (.obj (fillWith defaultParent? w other (fillWith defaultParent? v tokens arguments))) =
        true := by
  induction tokens generalizing other arguments with
  | nil => exact Json.jsonEqual_refl _
  | cons token rest ih =>
    cases other with
    | nil => exact Json.jsonEqual_refl _
    | cons part others =>
      by_cases hpart : token = part
      · subst hpart
        by_cases hbegins : token :: rest <+: token :: others
        · have hsettled := h.settled hbegins hne
          rw [fillWith_of_settled hsettled, fillWith_of_settled hsettled.fillWith]
          exact Json.jsonEqual_refl _
        by_cases hbegins' : token :: others <+: token :: rest
        · have hsettled := h'.settled hbegins' hne.symm
          rw [fillWith_of_settled hsettled, fillWith_of_settled hsettled.fillWith]
          exact Json.jsonEqual_refl _
        match rest, others with
        | [], _ => exact absurd (List.prefix_append [token] _) hbegins
        | _, [] => exact absurd (List.prefix_append [token] _) hbegins'
        | next :: rest, after :: others =>
          have hunrelated : ∀ child, Leaves child (next :: rest) (after :: others) ∧
              Leaves child (after :: others) (next :: rest) := fun child =>
            ⟨fun hbelow => absurd ((List.prefix_cons_inj token).mpr hbelow) hbegins,
              fun hbelow => absurd ((List.prefix_cons_inj token).mpr hbelow) hbegins'⟩
          simp only [fillWith_cons_cons]
          cases hparent : defaultParent? (Json.field? token arguments) with
          | none =>
            simp only [hparent]
            exact Json.jsonEqual_refl _
          | some child =>
            simp only [field?_setField, if_true, defaultParent?, setField_setField]
            exact equal_setField (Json.jsonEqual_refl _) token
              (ih (fun heq => hne (by rw [heq])) (hunrelated child).1 (hunrelated child).2)
      · -- The two paths start at different keys.
        refine equal_of_field? fun key => ?_
        by_cases hkey : token = key
        · subst hkey
          have hkept : ∀ fields, Json.field? token
              (fillWith defaultParent? w (part :: others) fields) = Json.field? token fields :=
            fun fields => field?_fillWith (Ne.symm hpart)
          rw [hkept]
          exact field?_fillWith_congr (hkept arguments)
        · rw [field?_fillWith hkey]
          by_cases hother : part = key
          · subst hother
            exact field?_fillWith_congr (field?_fillWith hkey).symm
          · rw [field?_fillWith hother, field?_fillWith hother, field?_fillWith hkey]

end

/-! All defaults of a capability. -/

section
variable {arguments : Fields} {defaults : List PublicDefault}

theorem applyPublicDefaults_cons (arguments : Fields) (default : PublicDefault)
    (defaults : List PublicDefault) : applyPublicDefaults arguments (default :: defaults) =
      applyPublicDefaults (applyPublicDefault arguments default) defaults := rfl

theorem grown_applyPublicDefaults (defaults : List PublicDefault) {path : List String} {x : Json}
    (h : lookup (.obj arguments) path = some x) :
    ∃ y, lookup (.obj (applyPublicDefaults arguments defaults)) path = some y ∧ Grown x y := by
  induction defaults generalizing arguments x with
  | nil => exact ⟨x, h, .inl rfl⟩
  | cons default rest ih =>
    obtain ⟨y, hy, hgrown⟩ := grown_fillWith default.2 default.1 h
    obtain ⟨z, hz, hmore⟩ := ih hy
    exact ⟨z, hz, hgrown.trans hmore⟩

theorem added_applyPublicDefaults {path : List String} {x : Json}
    (hnone : lookup (.obj arguments) path = none)
    (h : lookup (.obj (applyPublicDefaults arguments defaults)) path = some x) :
    ∃ default ∈ defaults, default.1 <+: path ∨ path <+: default.1 ∧ ∃ fields, x = .obj fields := by
  induction defaults generalizing arguments with
  | nil => exact absurd (hnone.symm.trans h) (by simp)
  | cons default rest ih =>
    rw [applyPublicDefaults_cons] at h
    cases hfilled : lookup (.obj (applyPublicDefault arguments default)) path with
    | none =>
      obtain ⟨other, hother, hadded⟩ := ih hfilled h
      exact ⟨other, List.mem_cons_of_mem _ hother, hadded⟩
    | some y =>
      refine ⟨default, List.mem_cons_self, (added_fillWith hnone hfilled).imp_right ?_⟩
      rintro ⟨hpath, fields, rfl⟩
      obtain ⟨z, hz, hgrown⟩ := grown_applyPublicDefaults rest hfilled
      obtain rfl : z = x := Option.some.inj (hz.symm.trans h)
      rcases hgrown with rfl | ⟨-, grown, -, rfl⟩
      · exact ⟨hpath, fields, rfl⟩
      · exact ⟨hpath, grown, rfl⟩

/-- A default whose path is blocked might as well not have been declared. -/
theorem applyPublicDefaults_filter {initial : Fields}
    (hinitial : ∀ tokens, blocked tokens initial = true → blocked tokens arguments = true) :
    applyPublicDefaults arguments defaults =
      applyPublicDefaults arguments (defaults.filter fun default => !blocked default.1 initial) := by
  induction defaults generalizing arguments with
  | nil => rfl
  | cons default rest ih =>
    by_cases hblocked : blocked default.1 initial = true
    · rw [List.filter_cons_of_neg (by simp [hblocked]), applyPublicDefaults_cons,
        applyPublicDefault, fillWith_of_settled (.inl (hinitial _ hblocked))]
      exact ih hinitial
    · rw [List.filter_cons_of_pos (by simp [hblocked]), applyPublicDefaults_cons,
        applyPublicDefaults_cons]
      exact ih fun tokens htokens => blocked_fillWith (hinitial tokens htokens)

theorem Settled.applyPublicDefaults {tokens : List String} (h : Settled tokens arguments) :
    Settled tokens (applyPublicDefaults arguments defaults) := by
  induction defaults generalizing arguments with
  | nil => exact h
  | cons default rest ih => exact ih h.fillWith

theorem settled_applyPublicDefaults :
    ∀ default ∈ defaults, Settled default.1 (applyPublicDefaults arguments defaults) := by
  induction defaults generalizing arguments with
  | nil => exact fun default hdefault => absurd hdefault List.not_mem_nil
  | cons default rest ih =>
    rintro other hother
    rcases List.mem_cons.mp hother with rfl | hrest
    · have hsettled : Settled other.1 (applyPublicDefault arguments other) := settled_fillWith
      exact hsettled.applyPublicDefaults
    · exact ih other hrest

theorem applyPublicDefaults_of_settled (h : ∀ default ∈ defaults, Settled default.1 arguments) :
    applyPublicDefaults arguments defaults = arguments := by
  induction defaults with
  | nil => rfl
  | cons default rest ih =>
    rw [applyPublicDefaults_cons, applyPublicDefault,
      fillWith_of_settled (h default List.mem_cons_self)]
    exact ih fun other hother => h other (List.mem_cons_of_mem _ hother)

theorem applyPublicDefaults_equal {others : Fields}
    (h : (Json.obj arguments).jsonEqual (.obj others) = true) :
    (Json.obj (applyPublicDefaults arguments defaults)).jsonEqual
      (.obj (applyPublicDefaults others defaults)) = true := by
  induction defaults generalizing arguments others with
  | nil => exact h
  | cons default rest ih => exact ih (fillWith_equal default.2 default.1 h)

/-- No target that the arguments lack leads to another one. -/
def Independent (arguments : Fields) (defaults : List PublicDefault) : Prop :=
  ∀ default ∈ defaults, ∀ other ∈ defaults, Leaves arguments default.1 other.1

theorem Independent.applyPublicDefault (h : Independent arguments defaults)
    (default : PublicDefault) : Independent (applyPublicDefault arguments default) defaults := by
  intro first hfirst other hother hbegins hne
  obtain ⟨x, hx⟩ := Option.isSome_iff_exists.mp (h first hfirst other hother hbegins hne)
  obtain ⟨y, hy, -⟩ := grown_fillWith default.2 default.1 hx
  rw [Execution.applyPublicDefault, hy]
  rfl

theorem applyPublicDefaults_perm {others : List PublicDefault} (hperm : defaults.Perm others)
    (hnodup : (defaults.map Prod.fst).Nodup) (h : Independent arguments defaults) :
    (Json.obj (applyPublicDefaults arguments defaults)).jsonEqual
      (.obj (applyPublicDefaults arguments others)) = true := by
  induction hperm generalizing arguments with
  | nil => exact Json.jsonEqual_refl _
  | cons default _ ih =>
    have hrest : Independent arguments _ := fun first hfirst other hother =>
      h first (List.mem_cons_of_mem _ hfirst) other (List.mem_cons_of_mem _ hother)
    exact ih (List.nodup_cons.mp hnodup).2 (hrest.applyPublicDefault default)
  | swap first second rest =>
    have hne : first.1 ≠ second.1 := by
      intro heq
      simp [heq] at hnodup
    have hfirst : first ∈ second :: first :: rest := List.mem_cons_of_mem _ List.mem_cons_self
    have hsecond : second ∈ second :: first :: rest := List.mem_cons_self
    exact applyPublicDefaults_equal (fillWith_comm hne (h first hfirst second hsecond)
      (h second hsecond first hfirst))
  | trans hfirst _ ih ih' =>
    have hmiddle : Independent arguments _ := fun first hmem other hother =>
      h first (hfirst.mem_iff.mpr hmem) other (hfirst.mem_iff.mpr hother)
    exact Json.jsonEqual_trans (ih hnodup h)
      (ih' ((hfirst.map Prod.fst).nodup_iff.mp hnodup) hmiddle)

end

/-- Loaded defaults have different targets. -/
theorem nodup_of_loadPublicDefaults {inputSchema : Fields} {seen : List (List String)}
    {declared : List Json} {defaults : List PublicDefault}
    (h : loadPublicDefaults inputSchema seen declared = some defaults) :
    (defaults.map Prod.fst).Nodup ∧ ∀ tokens ∈ seen, tokens ∉ defaults.map Prod.fst := by
  induction declared generalizing seen defaults with
  | nil =>
    obtain rfl := Option.some.inj h
    exact ⟨List.nodup_nil, fun tokens _ => List.not_mem_nil⟩
  | cons default rest ih =>
    rw [loadPublicDefaults] at h
    cases hloaded : loadPublicDefault inputSchema default with
    | none => simp [hloaded] at h
    | some loaded =>
      rw [hloaded] at h
      simp only at h
      split_ifs at h with hseen
      obtain ⟨others, hothers, rfl⟩ := Option.map_eq_some_iff.mp h
      obtain ⟨hnodup, hfresh⟩ := ih hothers
      refine ⟨List.nodup_cons.mpr ⟨hfresh loaded.1 List.mem_cons_self, hnodup⟩, ?_⟩
      intro tokens htokens hmem
      rcases List.mem_cons.mp hmem with rfl | hmem
      · exact hseen htokens
      · exact hfresh tokens (List.mem_cons_of_mem _ htokens) hmem

/-- The defaults of every capability only fill in what its caller has left out. -/
theorem public_defaults_conservative (inputSchema : Fields) (declared : List Json)
    (defaults : List PublicDefault)
    (hloaded : loadPublicDefaults inputSchema [] declared = some defaults) (arguments : Fields) :
    let enriched := applyPublicDefaults arguments defaults
    (∀ path x, lookup (.obj arguments) path = some x →
      ∃ y, lookup (.obj enriched) path = some y ∧ Grown x y) ∧
    (∀ path x, lookup (.obj arguments) path = none → lookup (.obj enriched) path = some x →
      ∃ default ∈ defaults,
        default.1 <+: path ∨ path <+: default.1 ∧ ∃ fields, x = .obj fields) ∧
    enriched = applyPublicDefaults arguments
      (defaults.filter fun default => !blocked default.1 arguments) ∧
    applyPublicDefaults enriched defaults = enriched ∧
    ∀ others, defaults.Perm others → Independent arguments defaults →
      (Json.obj enriched).jsonEqual (.obj (applyPublicDefaults arguments others)) = true := by
  refine ⟨fun path x => grown_applyPublicDefaults defaults, fun path x => added_applyPublicDefaults,
    applyPublicDefaults_filter fun tokens => id,
    applyPublicDefaults_of_settled settled_applyPublicDefaults, fun others hperm => ?_⟩
  exact applyPublicDefaults_perm hperm (nodup_of_loadPublicDefaults hloaded).1

def windowSchema : Fields :=
  [("type", .str "object"), ("properties", .obj
    [("window", .obj [("type", .str "object"), ("properties", .obj
      [("size", .obj [("type", .str "integer")])])])])]

def declaredDefault (pointer : String) (value : Json) : Json :=
  .obj [("id", .str pointer), ("source_kind", .str "literal"), ("target_pointer", .str pointer),
    ("value", value)]

def windowDefault : PublicDefault := (["window"], .obj [("unit", .str "px")])

def sizeDefault : PublicDefault := (["window", "size"], .int 2)

theorem public_defaults_conservative_window :
    applyPublicDefaults (applyPublicDefaults [] [sizeDefault]) [sizeDefault] =
      applyPublicDefaults [] [sizeDefault] :=
  (public_defaults_conservative windowSchema [declaredDefault "/window/size" (.int 2)]
    [sizeDefault] (by rfl) []).2.2.2.1

/-- The order of two defaults decides which of them takes effect when one leads to the other. -/
theorem window_defaults_ordered :
    loadPublicDefaults windowSchema []
        [declaredDefault "/window" (.obj [("unit", .str "px")]),
          declaredDefault "/window/size" (.int 2)] = some [windowDefault, sizeDefault] ∧
      blocked windowDefault.1 [] = false ∧ blocked sizeDefault.1 [] = false ∧
      applyPublicDefaults [] [windowDefault, sizeDefault] =
        [("window", .obj [("unit", .str "px"), ("size", .int 2)])] ∧
      applyPublicDefaults [] [sizeDefault, windowDefault] =
        [("window", .obj [("size", .int 2)])] := by
  refine ⟨by rfl, by rfl, by rfl, by rfl, by rfl⟩

end CapabilityCompiler.Execution
