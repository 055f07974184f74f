import CapabilityCompiler.Contracts.Inlining
import CapabilityCompiler.Execution.Filling
import Mathlib.Data.List.TakeWhile

/-! Where a policy looks for the tenant, and where a missing tenant is filled in. -/
namespace CapabilityCompiler.Execution
open Foundation Models Actions Policies

/-! Filling in. -/

/-- Filling a path in changes only what the path leads to. -/
theorem field?_fillAt {value : Json} {token key : String} {rest : List String} {arguments : Fields}
    (h : token ≠ key) :
    Json.field? key (fillAt value (token :: rest) arguments) = Json.field? key arguments := by
  rw [fillAt_eq_fillWith, field?_fillWith h]

theorem fillAt_cons_cons (value : Json) (token next : String) (rest : List String)
    (arguments : Fields) : fillAt value (token :: next :: rest) arguments =
      match injectionParent? (Json.field? token arguments) with
      | some child => setField token (.obj (fillAt value (next :: rest) child)) arguments
      | none => arguments := by
  rw [fillAt_eq_fillWith, fillWith_cons_cons]
  cases injectionParent? (Json.field? token arguments) with
  | none => rfl
  | some child => simp only [fillAt_eq_fillWith]

theorem lookup_fillAt (value : Json) {x : Json} {tokens path : List String} {arguments : Fields}
    (hreaches : Reaches path tokens) (h : lookup (.obj arguments) path = some x) :
    lookup (.obj (fillAt value tokens arguments)) path = some x := by
  rw [fillAt_eq_fillWith]
  exact lookup_fillWith enters_injectionParent? hreaches h

/-- What is found only after filling the path in was put there. -/
theorem lookup_of_fillAt {value x : Json} {tokens path : List String} {arguments : Fields}
    (hreaches : Reaches path tokens) (hnone : lookup (.obj arguments) path = none)
    (h : lookup (.obj (fillAt value tokens arguments)) path = some x) :
    ∃ rest, path = tokens ++ rest ∧ lookup value rest = some x := by
  rw [fillAt_eq_fillWith] at h
  exact lookup_of_fillWith enters_injectionParent? hreaches hnone h

/-- Where a value can be injected, it is filled in. -/
theorem fillAt_of_injectAt {value : Json} {tokens : List String} {arguments filled : Fields}
    (h : injectAt value tokens arguments = .ok filled) :
    tokens ≠ [] ∧ filled = fillAt value tokens arguments := by
  induction tokens generalizing arguments filled with
  | nil => exact absurd h (by simp [injectAt])
  | cons token rest ih =>
    refine ⟨List.cons_ne_nil _ _, ?_⟩
    cases rest with
    | nil => exact (Except.ok.inj h).symm
    | cons next rest =>
      obtain ⟨child, inner, hparent, hinner, rfl⟩ := injectAt_cons_cons h
      rw [fillAt_cons_cons, hparent, (ih hinner).2]

/-! Context bindings. -/

/-- The arguments stay, and the bound targets are added behind them. -/
def Extends (arguments bound : Fields) : Prop := ∃ added, bound = arguments ++ added

theorem extends_of_bindTargets {host : Host} {context : PrincipalContext} {allowed : List String}
    {operationId : String} {bindings : List (String × String)} {arguments bound : Fields}
    (h : bindTargets host context allowed operationId bindings arguments = .ok bound) :
    Extends arguments bound := by
  induction bindings generalizing arguments with
  | nil => exact ⟨[], by rw [List.append_nil, Except.ok.inj h]⟩
  | cons binding rest ih =>
    obtain ⟨target, reference⟩ := binding
    rw [bindTargets] at h
    split at h
    · exact absurd h (by simp)
    · split at h
      · exact absurd h (by simp)
      · obtain ⟨added, hadded⟩ := ih h
        exact ⟨_, by rw [hadded, List.append_assoc]⟩

theorem extends_of_bindContext {host : Host} {context : PrincipalContext} {allowed : List String}
    {bindings : List (String × String)} {arguments bound : Fields}
    (h : bindContext host context allowed bindings arguments = .ok bound) :
    Extends arguments bound := by
  induction bindings generalizing arguments with
  | nil => exact ⟨[], by rw [List.append_nil, Except.ok.inj h]⟩
  | cons binding rest ih =>
    obtain ⟨target, reference⟩ := binding
    rw [bindContext] at h
    split at h
    · exact absurd h (by simp)
    · split at h
      · exact absurd h (by simp)
      · obtain ⟨added, hadded⟩ := ih h
        exact ⟨_, by rw [hadded, List.append_assoc]⟩

theorem field?_append_of_some {key : String} {fields added : Fields} {x : Json}
    (h : Json.field? key fields = some x) : Json.field? key (fields ++ added) = some x := by
  induction fields with
  | nil => exact absurd h (by simp)
  | cons field rest ih =>
    obtain ⟨k, v⟩ := field
    rw [List.cons_append]
    by_cases hk : k = key
    · simpa [hk] using h
    · simp only [Json.field?_cons, if_neg hk] at h ⊢
      exact ih h

/-- A named value is still found among more arguments. -/
theorem Extends.lookup {arguments bound : Fields} (hextends : Extends arguments bound)
    {path : FieldPath} (hpath : path ≠ []) {x : Json}
    (h : Policies.lookup (.obj arguments) path = some x) :
    Policies.lookup (.obj bound) path = some x := by
  obtain ⟨added, rfl⟩ := hextends
  cases path with
  | nil => exact absurd rfl hpath
  | cons part rest =>
    obtain ⟨child, hchild, hrest⟩ := Option.bind_eq_some_iff.mp h
    rw [Policies.lookup, field?_append_of_some hchild]
    exact hrest

/-! Paths. -/

theorem reaches_of_length_le {path tokens : List String} (h : tokens.length ≤ path.length) :
    Reaches path tokens := by
  rintro rest hrest rfl
  have hpos := List.length_pos_iff.mpr hrest
  rw [List.length_append] at h
  omega

/-- The read runtime fills in along the policy's path, or along a shorter one. -/
theorem reaches_fieldPath (field : String) : Reaches (parsePath field) (fieldPath field) := by
  refine reaches_of_length_le ?_
  unfold fieldPath parsePath
  dsimp only
  generalize (Text.dropPrefix? ['$', '.'] field.toList).getD field.toList = chars
  cases Text.dropPrefix? ['/'] chars with
  | none => exact le_rfl
  | some rest =>
    simp only [List.length_map]
    exact List.length_filter_le _ _

/-- The tokens an action injects the tenant along. -/
def injectionTokens (field : String) : List String :=
  ((Text.splitChars '.' ((Text.dropPrefix? ['$', '.'] field.toList).getD field.toList)).filter
    (· ≠ [])).map String.ofList

/-- The field is spelled as a JSON Pointer. -/
def spelledAsPointer (field : String) : Bool :=
  (Text.dropPrefix? ['/'] ((Text.dropPrefix? ['$', '.'] field.toList).getD field.toList)).isSome

/-- A dotted field is read by the policy and by both injections as the same path. -/
theorem paths_of_dotted {field : String} (h : spelledAsPointer field = false) :
    fieldPath field = parsePath field ∧ injectionTokens field = parsePath field := by
  unfold spelledAsPointer at h
  unfold fieldPath parsePath injectionTokens
  dsimp only
  generalize (Text.dropPrefix? ['$', '.'] field.toList).getD field.toList = chars at h ⊢
  cases hslash : Text.dropPrefix? ['/'] chars with
  | none => exact ⟨rfl, rfl⟩
  | some rest => simp [hslash] at h

/-- An action splits a pointer at its dots, so that its first token is no part of the path. -/
theorem tokens_of_pointer {field : String} (h : spelledAsPointer field = true) :
    ∃ token part rest others, injectionTokens field = token :: others ∧
      parsePath field = part :: rest ∧ token ≠ part := by
  unfold spelledAsPointer at h
  unfold injectionTokens parsePath
  dsimp only
  generalize (Text.dropPrefix? ['$', '.'] field.toList).getD field.toList = chars at h ⊢
  cases hslash : Text.dropPrefix? ['/'] chars with
  | none => simp [hslash] at h
  | some rest =>
    have hchars : chars = '/' :: rest := Text.dropPrefix?_eq_some hslash
    subst hchars
    obtain ⟨part, parts, hparts⟩ := List.exists_cons_of_ne_nil (Text.splitChars_ne_nil '/' rest)
    obtain ⟨first, others, hfirst⟩ :=
      List.exists_cons_of_ne_nil (Text.splitChars_ne_nil '.' ('/' :: rest))
    have hpart : part = rest.takeWhile (· ≠ '/') := by
      have hhead := Text.head?_splitChars '/' rest
      rwa [hparts, List.head?_cons, Option.some.injEq] at hhead
    have htoken : first = '/' :: rest.takeWhile (· ≠ '.') := by
      have hhead := Text.head?_splitChars '.' ('/' :: rest)
      rw [hfirst, List.head?_cons, Option.some.injEq] at hhead
      rw [hhead, List.takeWhile_cons_of_pos (by decide)]
    refine ⟨String.ofList first, Text.unescapeToken (String.ofList part),
      parts.map fun token => Text.unescapeToken (String.ofList token),
      (others.filter (· ≠ [])).map String.ofList, ?_, ?_, ?_⟩
    · rw [hfirst, List.filter_cons_of_pos (by simp [htoken]), List.map_cons]
    · change (Text.splitChars '/' rest).map _ = _
      rw [hparts, List.map_cons]
    · -- A dot would be in the part and not in the token; without one the token is longer.
      intro heq
      have hchars : first = (Text.unescapeToken (String.ofList part)).toList := by
        rw [← heq, String.toList_ofList]
      by_cases hdot : '.' ∈ part
      · have hmem : '.' ∈ first := by
          rw [hchars]
          exact Text.mem_unescapeToken (by decide) (by rwa [String.toList_ofList])
        rw [htoken, List.mem_cons] at hmem
        rcases hmem with hslash | hbefore
        · exact absurd hslash (by decide)
        · simpa using List.mem_takeWhile_imp hbefore
      · have hle := Text.length_unescapeToken_le (String.ofList part)
        rw [← hchars, String.toList_ofList, htoken, List.length_cons] at hle
        have hrest : rest = part ++ rest.dropWhile (· ≠ '/') := by
          rw [hpart, List.takeWhile_append_dropWhile]
        have hlong : part.length ≤ (rest.takeWhile (· ≠ '.')).length := by
          rw [hrest, List.takeWhile_append_of_pos (fun c hc => by
            simpa using fun h : c = '.' => hdot (h ▸ hc)), List.length_append]
          omega
        omega

theorem injectionTokens_cases (field : String) :
    injectionTokens field = parsePath field ∨ ∃ token part rest others,
      injectionTokens field = token :: others ∧ parsePath field = part :: rest ∧ token ≠ part := by
  cases h : spelledAsPointer field with
  | false => exact .inl (paths_of_dotted h).2
  | true => exact .inr (tokens_of_pointer h)

theorem reaches_injectionTokens (field : String) :
    Reaches (parsePath field) (injectionTokens field) := by
  rcases injectionTokens_cases field with hsame | ⟨token, part, rest, others, htokens, hpath, hne⟩
  · exact reaches_of_length_le (by rw [hsame])
  · rintro more - heq
    rw [htokens, hpath, List.cons_append] at heq
    exact hne (List.cons.inj heq).1

/-! Equal parts. -/

theorem lookup_pyEqual {path : FieldPath} {v w y : Json} (h : Json.pyEqual w v = true)
    (hy : lookup v path = some y) : ∃ x, lookup w path = some x ∧ Json.pyEqual x y = true := by
  induction path generalizing v w with
  | nil =>
    obtain rfl : v = y := by cases v <;> simpa [lookup] using hy
    exact ⟨w, by cases w <;> rfl, h⟩
  | cons part rest ih =>
    cases v with
    | obj fields =>
      cases w with
      | obj others =>
        obtain ⟨child, hchild, hrest⟩ := Option.bind_eq_some_iff.mp hy
        have hrel := Json.eqWith_obj_iff.mp h part
        rw [hchild] at hrel
        generalize hother : Json.field? part others = other at hrel
        cases hrel with
        | some hequal =>
          obtain ⟨x, hx, hxy⟩ := ih hequal hrest
          exact ⟨x, by rw [lookup, hother, Option.bind_some, hx], hxy⟩
      | _ => exact absurd h (by simp [Json.pyEqual, Json.eqWith])
    | _ => exact absurd hy (by simp [lookup])

theorem sizeOf_lookup_lt {path : FieldPath} {v x : Json} (hpath : path ≠ [])
    (h : lookup v path = some x) : sizeOf x < sizeOf v := by
  induction path generalizing v with
  | nil => exact absurd rfl hpath
  | cons part rest ih =>
    cases v with
    | obj fields =>
      obtain ⟨child, hchild, hrest⟩ := Option.bind_eq_some_iff.mp h
      have hlt := Contracts.sizeOf_part_lt (Json.mem_parts_of_field? hchild)
      by_cases hnil : rest = []
      · subst hnil
        obtain rfl : child = x := by cases child <;> simpa [lookup] using hrest
        exact hlt
      · exact (ih hnil hrest).trans hlt
    | _ => exact absurd h (by simp [lookup])

/-- No value equals a part of itself: the part would have such a part too. -/
theorem pyEqual_part {path : FieldPath} (hpath : path ≠ []) (v : Json) :
    ∀ x, lookup v path = some x → Json.pyEqual x v = false := by
  induction hn : sizeOf v using Nat.strong_induction_on generalizing v with
  | _ n ih =>
    subst hn
    intro x hx
    by_contra hequal
    rw [Bool.not_eq_false] at hequal
    obtain ⟨y, hy, hyx⟩ := lookup_pyEqual hequal hx
    have hbelow := ih (sizeOf x) (sizeOf_lookup_lt hpath hx) x rfl y hy
    exact absurd hyx (by rw [hbelow]; exact Bool.false_ne_true)

end CapabilityCompiler.Execution
