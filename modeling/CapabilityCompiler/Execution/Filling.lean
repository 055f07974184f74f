import CapabilityCompiler.Actions.SealedArguments
import CapabilityCompiler.Execution.GenericRuntime

/-! Filling a value in at the end of a path of object keys. -/
namespace CapabilityCompiler.Execution
open Foundation Actions Policies

/-- A value that is there stays; `parent?` is the object to go on with below what stands at a key,
and without one nothing changes. -/
def fillWith (parent? : Option Json → Option Fields) (value : Json) : List String → Fields → Fields
  | [], arguments => arguments
  | [last], arguments =>
    if (Json.field? last arguments).isSome then arguments else setField last value arguments
  | token :: rest, arguments =>
    match parent? (Json.field? token arguments) with
    | some child => setField token (.obj (fillWith parent? value rest child)) arguments
    | none => arguments

/-- Absent keys are created and objects are gone into; null may be replaced. -/
structure Enters (parent? : Option Json → Option Fields) : Prop where
  absent : parent? none = some []
  object : ∀ child, parent? (some (.obj child)) = some child
  entered : ∀ x child, parent? (some x) = some child → x = .obj child ∨ child = [] ∧ x = .null

/-- The path is no strict part of the other one. -/
def Reaches (path tokens : List String) : Prop := ∀ rest, rest ≠ [] → tokens ≠ path ++ rest

theorem Reaches.tail {token : String} {path tokens : List String}
    (h : Reaches (token :: path) (token :: tokens)) : Reaches path tokens := fun rest hrest heq =>
  h rest hrest (by rw [heq]; rfl)

theorem not_reaches_nil {token : String} {rest : List String} : ¬ Reaches [] (token :: rest) :=
  fun h => h (token :: rest) (List.cons_ne_nil _ _) rfl

section
variable {parent? : Option Json → Option Fields} {value x : Json} {tokens path : List String}
  {arguments : Fields}

theorem fillWith_cons_cons (token next : String) (rest : List String) (arguments : Fields) :
    fillWith parent? value (token :: next :: rest) arguments =
      match parent? (Json.field? token arguments) with
      | some child => setField token (.obj (fillWith parent? value (next :: rest) child)) arguments
      | none => arguments := rfl

/-- Filling a path in changes only what the path leads to. -/
theorem field?_fillWith {token key : String} {rest : List String} (h : token ≠ key) :
    Json.field? key (fillWith parent? value (token :: rest) arguments) =
      Json.field? key arguments := by
  cases rest with
  | nil =>
    rw [fillWith]
    split
    · rfl
    · rw [field?_setField, if_neg h]
  | cons next rest =>
    rw [fillWith_cons_cons]
    split
    · rw [field?_setField, if_neg h]
    · rfl

theorem lookup_fillWith (henters : Enters parent?) (hreaches : Reaches path tokens)
    (h : lookup (.obj arguments) path = some x) :
    lookup (.obj (fillWith parent? value tokens arguments)) path = some x := by
  induction tokens generalizing path arguments with
  | nil => exact h
  | cons token rest ih =>
    cases path with
    | nil => exact absurd hreaches not_reaches_nil
    | cons part path =>
      rw [lookup] at h ⊢
      by_cases hpart : token = part
      · subst hpart
        obtain ⟨child, hchild, hrest⟩ := Option.bind_eq_some_iff.mp h
        cases rest with
        | nil =>
          rw [fillWith, if_pos (by rw [hchild]; rfl)]
          exact h
        | cons next rest =>
          rw [fillWith_cons_cons]
          cases hparent : parent? (Json.field? token arguments) with
          | none => exact h
          | some inner =>
            simp only
            rw [field?_setField, if_pos rfl, Option.bind_some]
            rw [hchild] at hparent
            rcases henters.entered child inner hparent with rfl | ⟨-, rfl⟩
            · exact ih hreaches.tail hrest
            · cases path with
              | nil => exact absurd hreaches.tail not_reaches_nil
              | cons => exact absurd hrest (by simp [lookup])
      · rw [field?_fillWith hpart]
        exact h

/-- What is found only after filling the path in was put there. -/
theorem lookup_of_fillWith (henters : Enters parent?) (hreaches : Reaches path tokens)
    (hnone : lookup (.obj arguments) path = none)
    (h : lookup (.obj (fillWith parent? value tokens arguments)) path = some x) :
    ∃ rest, path = tokens ++ rest ∧ lookup value rest = some x := by
  induction tokens generalizing path arguments with
  | nil => exact absurd (hnone.symm.trans h) (by simp)
  | cons token rest ih =>
    cases path with
    | nil => exact absurd hnone (by simp [lookup])
    | cons part path =>
      by_cases hpart : token = part
      · subst hpart
        cases rest with
        | nil =>
          rw [fillWith] at h
          split at h
          · exact absurd (hnone.symm.trans h) (by simp)
          · rw [lookup, field?_setField, if_pos rfl, Option.bind_some] at h
            exact ⟨path, rfl, h⟩
        | cons next rest =>
          rw [fillWith_cons_cons] at h
          cases hparent : parent? (Json.field? token arguments) with
          | none =>
            rw [hparent] at h
            exact absurd (hnone.symm.trans h) (by simp)
          | some inner =>
            rw [hparent] at h
            simp only [lookup] at h hnone
            rw [field?_setField, if_pos rfl, Option.bind_some] at h
            have hinner : lookup (.obj inner) path = none := by
              have hempty : inner = [] → lookup (.obj inner) path = none := by
                rintro rfl
                cases path with
                | nil => exact absurd hreaches.tail not_reaches_nil
                | cons => rfl
              cases hfield : Json.field? token arguments with
              | none =>
                rw [hfield, henters.absent] at hparent
                exact hempty (Option.some.inj hparent).symm
              | some child =>
                rw [hfield] at hparent
                rcases henters.entered child inner hparent with rfl | ⟨hinner, -⟩
                · simpa [hfield] using hnone
                · exact hempty hinner
            obtain ⟨more, hpath, hmore⟩ := ih hreaches.tail hinner h
            exact ⟨more, by rw [hpath]; rfl, hmore⟩
      · rw [lookup, field?_fillWith hpart] at h
        rw [lookup] at hnone
        exact absurd (hnone.symm.trans h) (by simp)

/-- Neither of two paths leads through the other. -/
def Unrelated (path other : List String) : Prop := ¬ path <+: other ∧ ¬ other <+: path

/-- Filling a path in changes nothing at an unrelated one. -/
theorem lookup_fillWith_of_unrelated (henters : Enters parent?) (h : Unrelated path tokens) :
    lookup (.obj (fillWith parent? value tokens arguments)) path = lookup (.obj arguments) path := by
  have hreaches : Reaches path tokens := fun rest _ heq => h.1 ⟨rest, heq.symm⟩
  cases hbefore : lookup (.obj arguments) path with
  | some x => exact lookup_fillWith henters hreaches hbefore
  | none =>
    by_contra hafter
    obtain ⟨x, hx⟩ := Option.ne_none_iff_exists'.mp hafter
    obtain ⟨rest, hpath, -⟩ := lookup_of_fillWith henters hreaches hbefore hx
    exact h.2 ⟨rest, hpath.symm⟩

end

/-! The injection of a tenant is such a filling. -/

theorem enters_injectionParent? : Enters injectionParent? where
  absent := rfl
  object _ := rfl
  entered x child h := by
    cases x with
    | null => exact .inr ⟨by simpa [injectionParent?, eq_comm] using h, rfl⟩
    | obj fields => exact .inl (by simpa [injectionParent?] using h)
    | _ => simp [injectionParent?] at h

theorem fillAt_eq_fillWith (value : Json) (tokens : List String) (arguments : Fields) :
    fillAt value tokens arguments = fillWith injectionParent? value tokens arguments := by
  induction tokens generalizing arguments with
  | nil => rfl
  | cons token rest ih =>
    cases rest with
    | nil => rfl
    | cons next rest =>
      rw [fillWith_cons_cons, fillAt]
      · cases Json.field? token arguments with
        | none => simp only [injectionParent?, ih]
        | some x => cases x <;> simp only [injectionParent?, ih]
      · simp

end CapabilityCompiler.Execution
