import CapabilityCompiler.Execution.TenantPaths

/-! The tenant that reads and actions fill in, and the tenant that the policy then looks up. -/
namespace CapabilityCompiler.Execution
open Foundation Models Actions Policies

/-- The injection of the read runtime: a null tenant and a blocked path change nothing. -/
def injectReadContextValue (arguments : Fields) (field : String) (value : Json) : Fields :=
  if value = .null then arguments else fillAt value (fieldPath field) arguments

/-- The field is absent, and so is what leads to it unless it is an object. -/
structure Lacks (arguments : Fields) (path : FieldPath) : Prop where
  absent : lookup (.obj arguments) path = none
  openTo : ∀ before rest, rest ≠ [] → path = before ++ rest → ∀ value,
    lookup (.obj arguments) before = some value → ∃ child, value = .obj child

/-- Both injections give the same arguments, in which the policy finds the tenant and nothing else
has changed. -/
structure InjectionAgrees (field : String) (tenant : Json) (arguments : Fields) : Prop where
  same : injectContextValue arguments field tenant =
    .ok (injectReadContextValue arguments field tenant)
  found : lookup (.obj (injectReadContextValue arguments field tenant)) (parsePath field) =
    some tenant
  kept : ∀ path, Unrelated path (parsePath field) →
    lookup (.obj (injectReadContextValue arguments field tenant)) path =
      lookup (.obj arguments) path

/-! Filling in where the field is lacking. -/

theorem Lacks.of_nil {arguments : Fields} (h : Lacks arguments []) : False :=
  absurd h.absent (by simp [lookup])

/-- What a lacking field is filled in below of. -/
theorem Lacks.parent {arguments : Fields} {token next : String} {rest : FieldPath}
    (h : Lacks arguments (token :: next :: rest)) :
    ∃ child, injectionParent? (Json.field? token arguments) = some child ∧
      Lacks child (next :: rest) := by
  cases hfield : Json.field? token arguments with
  | none =>
    refine ⟨[], rfl, rfl, fun before rest' hrest heq value hvalue => ?_⟩
    cases before with
    | nil => exact ⟨[], by simpa [lookup, eq_comm] using hvalue⟩
    | cons part before => exact absurd hvalue (by simp [lookup])
  | some found =>
    obtain ⟨child, rfl⟩ := h.openTo [token] (next :: rest) (List.cons_ne_nil _ _) rfl found
      (by rw [lookup, hfield, Option.bind_some, lookup])
    refine ⟨child, rfl, ?_, fun before rest' hrest heq value hvalue => ?_⟩
    · have habsent := h.absent
      rwa [lookup, hfield, Option.bind_some] at habsent
    · refine h.openTo (token :: before) rest' hrest (by rw [heq, List.cons_append]) value ?_
      rw [lookup, hfield, Option.bind_some]
      exact hvalue

/-- A lacking field can be injected, and is found afterwards. -/
theorem Lacks.injected {path : FieldPath} {arguments : Fields} (h : Lacks arguments path)
    (value : Json) :
    injectAt value path arguments = .ok (fillAt value path arguments) ∧
      lookup (.obj (fillAt value path arguments)) path = some value := by
  induction path generalizing arguments with
  | nil => exact h.of_nil.elim
  | cons token rest ih =>
    cases rest with
    | nil =>
      have habsent : (Json.field? token arguments).isSome = false := by
        have hnone := h.absent
        rw [lookup] at hnone
        cases hfield : Json.field? token arguments with
        | none => rfl
        | some found => simp [hfield, lookup] at hnone
      refine ⟨rfl, ?_⟩
      rw [fillAt, habsent, if_neg Bool.false_ne_true, lookup, field?_setField, if_pos rfl,
        Option.bind_some, lookup]
    | cons next rest =>
      obtain ⟨child, hparent, hlacks⟩ := h.parent
      obtain ⟨hinjected, hfound⟩ := ih hlacks
      constructor
      · rw [fillAt_cons_cons, hparent, injectAt_of_parent hparent, hinjected]
        rfl
      · rw [fillAt_cons_cons, hparent, lookup, field?_setField, if_pos rfl, Option.bind_some]
        exact hfound

/-! Agreement. -/

theorem injectContextValue_eq {field : String} {value : Json} (hvalue : value ≠ .null)
    (arguments : Fields) : injectContextValue arguments field value =
      injectAt value (injectionTokens field) arguments := by
  rw [injectContextValue, if_neg hvalue]
  rfl

/-- The injections agree with each other and with the policy exactly if there is a tenant and its
field is not spelled as a JSON Pointer. -/
theorem tenant_injection_agrees (field : String) (tenant : Json) (arguments : Fields)
    (hlacks : Lacks arguments (parsePath field)) :
    InjectionAgrees field tenant arguments ↔
      tenant ≠ .null ∧ spelledAsPointer field = false := by
  constructor
  · rintro ⟨hsame, hfound, -⟩
    have htenant : tenant ≠ .null := by
      rintro rfl
      rw [injectReadContextValue, if_pos rfl, hlacks.absent] at hfound
      exact absurd hfound (by simp)
    refine ⟨htenant, ?_⟩
    by_contra hpointer
    obtain ⟨token, part, rest, others, htokens, hpath, hne⟩ :=
      tokens_of_pointer (Bool.not_eq_false _ ▸ hpointer)
    -- The action leaves what the policy looks up as it is.
    rw [injectContextValue_eq htenant, htokens] at hsame
    rw [(fillAt_of_injectAt hsame).2, hpath, lookup, field?_fillAt hne] at hfound
    have habsent := hlacks.absent
    rw [hpath, lookup, hfound] at habsent
    exact absurd habsent (by simp)
  · rintro ⟨htenant, hdotted⟩
    obtain ⟨hread, haction⟩ := paths_of_dotted hdotted
    obtain ⟨hinjected, hfound⟩ := hlacks.injected tenant
    refine ⟨?_, ?_, fun path hunrelated => ?_⟩
    · rw [injectContextValue_eq htenant, haction, hinjected, injectReadContextValue,
        if_neg htenant, hread]
    · rw [injectReadContextValue, if_neg htenant, hread, hfound]
    · rw [injectReadContextValue, if_neg htenant, hread]
      rw [fillAt_eq_fillWith]
      exact lookup_fillWith_of_unrelated enters_injectionParent? hunrelated

/-- The empty object lacks every field but the object itself. -/
theorem lacks_empty {path : FieldPath} (h : path ≠ []) : Lacks [] path := by
  refine ⟨?_, fun before rest hrest heq value hvalue => ?_⟩
  · cases path with
    | nil => exact absurd rfl h
    | cons part rest => rfl
  · cases before with
    | nil => exact ⟨[], by simpa [lookup, eq_comm] using hvalue⟩
    | cons part before => exact absurd hvalue (by simp [lookup])

theorem tenant_injection_agrees_dotted :
    InjectionAgrees "$.scope.tenant" (.str "acme") [] :=
  (tenant_injection_agrees "$.scope.tenant" (.str "acme") [] (lacks_empty (by decide))).mpr
    ⟨by simp, by decide⟩

/-- A read fills a tenant in where the policy looks for it, and an action elsewhere. -/
theorem pointer_injected_elsewhere :
    parsePath "/tenant" = ["tenant"] ∧
      lookup (.obj []) (parsePath "/tenant") = none ∧
      injectReadContextValue [] "/tenant" (.str "acme") = [("tenant", .str "acme")] ∧
      injectContextValue [] "/tenant" (.str "acme") = .ok [("/tenant", .str "acme")] ∧
      lookup (.obj [("/tenant", .str "acme")]) (parsePath "/tenant") = none := by
  refine ⟨by decide, by decide, by rfl, by rfl, by rfl⟩

end CapabilityCompiler.Execution
