import CapabilityCompiler.Actions.RuntimeExecutor
import CapabilityCompiler.Actions.SingleMutation
import CapabilityCompiler.Foundation.JsonEquality

/-! The arguments of the mutations of a commit are those of the sealed record. -/
namespace CapabilityCompiler.Actions
open Foundation Models Compiler Execution

/-! Equal documents have equal values at a path. -/

theorem jsonEqual_of_sameText {a b : Json} (h : sameText a b = true) : a.jsonEqual b = true := by
  refine Json.eqWith_mono (fun x y hx hy hxy => ?_) h
  cases x <;> cases y <;> simp_all [textLeaf, Json.jsonLeaf, Json.num?, Json.isScalar]

theorem resolvePath_equal {path : List String} {a b v w : Json} (h : a.jsonEqual b = true)
    (hv : resolvePath a path = .ok v) (hw : resolvePath b path = .ok w) : v.jsonEqual w = true := by
  induction path generalizing a b with
  | nil =>
    obtain rfl : a = v := by simpa [resolvePath] using hv
    obtain rfl : b = w := by simpa [resolvePath] using hw
    exact h
  | cons segment rest ih =>
    rcases Json.jsonEqual_shape h with ⟨ha, -, -⟩ | ⟨xs, ys, rfl, rfl⟩ | ⟨fs, gs, rfl, rfl⟩
    · cases a <;> simp [resolvePath, Json.isScalar] at ha hv
    · simp [resolvePath] at hv
    · rcases Json.jsonEqual_field? h segment with ⟨hf, hg⟩ | ⟨x, y, hf, hg, hxy⟩
      · simp [resolvePath, hf] at hv
      · simp only [resolvePath, hf] at hv
        simp only [resolvePath, hg] at hw
        exact ih hxy hv hw

/-- A path of segments never selects an item of an array. -/
theorem resolvePath_of_resolveTokens {tokens rest : List String} {value state v : Json}
    (hsegments : ∀ segment ∈ tokens, isSegment segment = true)
    (hstate : resolveTokens value tokens = some state)
    (hv : resolvePath value (tokens ++ rest) = .ok v) : resolvePath state rest = .ok v := by
  induction tokens generalizing value with
  | nil =>
    obtain rfl : value = state := by simpa [resolveTokens] using hstate
    exact hv
  | cons token tokens ih =>
    cases value with
    | obj fields =>
      simp only [resolveTokens] at hstate
      obtain ⟨child, hchild, hstate⟩ := Option.bind_eq_some_iff.mp hstate
      simp only [List.cons_append, resolvePath, hchild] at hv
      exact ih (fun segment hmem => hsegments segment (List.mem_cons_of_mem _ hmem)) hstate hv
    | _ => simp [resolvePath] at hv

/-! Resolving the same arguments in two contexts. -/

section Agreement
variable {left right : Context} {leftDetails rightDetails : Fields}

/-- What the text refers to is the same in both contexts. -/
def Agree (left right : Context) (text : String) : Prop :=
  ∀ reference v w, executorReference? text = some reference →
    resolveReference left reference = .ok v → resolveReference right reference = .ok w →
      v.jsonEqual w = true

theorem resolveMatch_eq_ok {context : Context} {details : Fields} {reference : Reference} {v : Json}
    (h : resolveMatch context details reference = .ok v) :
    resolveReference context reference = .ok v := by
  unfold resolveMatch at h
  split at h
  next value hvalue =>
    obtain rfl : value = v := by simpa using h
    exact hvalue
  next => simp at h

theorem resolveItems_cons {context : Context} {details : Fields} {item : Json} {rest vs : List Json}
    (h : resolveItems context details (item :: rest) = .ok vs) :
    ∃ v others, resolveValue context details item = .ok v ∧
      resolveItems context details rest = .ok others ∧ vs = v :: others := by
  simp only [resolveItems] at h
  cases hv : resolveValue context details item with
  | error e => simp [hv, Except.bind] at h
  | ok v =>
    cases hothers : resolveItems context details rest with
    | error e => simp [hv, hothers, Except.bind, Except.map] at h
    | ok others => exact ⟨v, others, rfl, rfl, by simpa [hv, hothers, Except.bind, Except.map,
        eq_comm] using h⟩

theorem resolveFields_cons {context : Context} {details : Fields} {field : String × Json}
    {rest vs : Fields} (h : resolveFields context details (field :: rest) = .ok vs) :
    ∃ v others, resolveValue context details field.2 = .ok v ∧
      resolveFields context details rest = .ok others ∧ vs = (field.1, v) :: others := by
  simp only [resolveFields] at h
  cases hv : resolveValue context details field.2 with
  | error e => simp [hv, Except.bind] at h
  | ok v =>
    cases hothers : resolveFields context details rest with
    | error e => simp [hv, hothers, Except.bind, Except.map] at h
    | ok others => exact ⟨v, others, rfl, rfl, by simpa [hv, hothers, Except.bind, Except.map,
        eq_comm] using h⟩

mutual

theorem resolveValue_agree (value : Json) (h : ∀ text ∈ texts value, Agree left right text)
    {v w : Json} (hv : resolveValue left leftDetails value = .ok v)
    (hw : resolveValue right rightDetails value = .ok w) : v.jsonEqual w = true := by
  cases value with
  | str text =>
    unfold resolveValue at hv hw
    cases hmatch : executorReference? text with
    | some reference =>
      simp only [hmatch] at hv hw
      exact h text (List.mem_singleton_self _) reference v w hmatch (resolveMatch_eq_ok hv)
        (resolveMatch_eq_ok hw)
    | none =>
      simp only [hmatch] at hv hw
      split_ifs at hv hw
      obtain rfl : Json.str text = v := by simpa using hv
      obtain rfl : Json.str text = w := by simpa using hw
      exact Json.jsonEqual_refl _
  | arr items =>
    simp only [resolveValue] at hv hw
    cases hvs : resolveItems left leftDetails items with
    | error e => simp [hvs, Except.map] at hv
    | ok vs =>
      cases hws : resolveItems right rightDetails items with
      | error e => simp [hws, Except.map] at hw
      | ok ws =>
        obtain rfl : Json.arr vs = v := by simpa [hvs, Except.map] using hv
        obtain rfl : Json.arr ws = w := by simpa [hws, Except.map] using hw
        exact Json.jsonEqual_arr_iff.mpr (resolveItems_agree items h hvs hws)
  | obj fields =>
    simp only [resolveValue] at hv hw
    cases hvs : resolveFields left leftDetails fields with
    | error e => simp [hvs, Except.map] at hv
    | ok vs =>
      cases hws : resolveFields right rightDetails fields with
      | error e => simp [hws, Except.map] at hw
      | ok ws =>
        obtain rfl : Json.obj vs = v := by simpa [hvs, Except.map] using hv
        obtain rfl : Json.obj ws = w := by simpa [hws, Except.map] using hw
        exact (resolveFields_agree fields h hvs hws).jsonEqual
  | _ =>
    simp only [resolveValue, Except.ok.injEq] at hv hw
    subst hv
    subst hw
    exact Json.jsonEqual_refl _
termination_by structural value

theorem resolveItems_agree (items : List Json)
    (h : ∀ text ∈ textsOfItems items, Agree left right text) {vs ws : List Json}
    (hvs : resolveItems left leftDetails items = .ok vs)
    (hws : resolveItems right rightDetails items = .ok ws) :
    List.Forall₂ (fun v w => v.jsonEqual w = true) vs ws := by
  cases items with
  | nil =>
    simp only [resolveItems, Except.ok.injEq] at hvs hws
    subst hvs
    subst hws
    exact .nil
  | cons item rest =>
    obtain ⟨v, vs, hv, hvs', rfl⟩ := resolveItems_cons hvs
    obtain ⟨w, ws, hw, hws', rfl⟩ := resolveItems_cons hws
    exact .cons (resolveValue_agree item (fun t ht => h t (List.mem_append_left _ ht)) hv hw)
      (resolveItems_agree rest (fun t ht => h t (List.mem_append_right _ ht)) hvs' hws')
termination_by structural items

theorem resolveFields_agree (fields : Fields)
    (h : ∀ text ∈ textsOfFields fields, Agree left right text) {vs ws : Fields}
    (hvs : resolveFields left leftDetails fields = .ok vs)
    (hws : resolveFields right rightDetails fields = .ok ws) : Json.Alike vs ws := by
  cases fields with
  | nil =>
    simp only [resolveFields, Except.ok.injEq] at hvs hws
    subst hvs
    subst hws
    exact .nil
  | cons field rest =>
    obtain ⟨v, vs, hv, hvs', rfl⟩ := resolveFields_cons hvs
    obtain ⟨w, ws, hw, hws', rfl⟩ := resolveFields_cons hws
    exact .cons ⟨rfl, resolveValue_agree field.2 (fun t ht => h t (List.mem_append_left _ ht)) hv hw⟩
      (resolveFields_agree rest (fun t ht => h t (List.mem_append_right _ ht)) hvs' hws')
termination_by structural fields

end

end Agreement

/-! Equal arguments are enriched to equal ones. -/

theorem field?_append_single (key target : String) (value : Json) (fields : Fields) :
    Json.field? key (fields ++ [(target, value)]) =
      (Json.field? key fields).or (if target = key then some value else none) := by
  induction fields with
  | nil => simp
  | cons field rest ih =>
    obtain ⟨k, v⟩ := field
    by_cases hk : k = key <;> simp [hk, ih]

theorem field?_setField (key target : String) (value : Json) (fields : Fields) :
    Json.field? key (setField target value fields) =
      if target = key then some value else Json.field? key fields := by
  induction fields with
  | nil => simp [setField]
  | cons field rest ih =>
    obtain ⟨k, v⟩ := field
    by_cases hk : k = target
    · by_cases htarget : target = key <;> simp [setField, hk, htarget]
    · by_cases hkey : k = key
      · have htarget : target ≠ key := fun heq => hk (hkey.trans heq.symm)
        have hother : key ≠ target := fun heq => htarget heq.symm
        simp [setField, hkey, htarget, hother]
      · simp [setField, hk, hkey, ih]

section Enriched
variable {fs gs : Fields}

theorem equal_append (h : (Json.obj fs).jsonEqual (.obj gs) = true) (target : String)
    (value : Json) :
    (Json.obj (fs ++ [(target, value)])).jsonEqual (.obj (gs ++ [(target, value)])) = true := by
  rw [Json.jsonEqual_obj_iff]
  intro key
  rw [field?_append_single, field?_append_single]
  rcases Json.jsonEqual_field? h key with ⟨hf, hg⟩ | ⟨x, y, hf, hg, hxy⟩
  · rw [hf, hg]
    by_cases hkey : target = key
    · simpa [hkey] using Option.Rel.some (Json.jsonEqual_refl value)
    · simp [hkey]
  · rw [hf, hg]
    exact .some hxy

theorem equal_setField (h : (Json.obj fs).jsonEqual (.obj gs) = true) (target : String)
    {v w : Json} (hvw : v.jsonEqual w = true) :
    (Json.obj (setField target v fs)).jsonEqual (.obj (setField target w gs)) = true := by
  rw [Json.jsonEqual_obj_iff] at h ⊢
  intro key
  rw [field?_setField, field?_setField]
  by_cases hkey : target = key
  · simpa [hkey] using Option.Rel.some hvw
  · simpa [hkey] using h key

theorem isSome_field?_eq (h : (Json.obj fs).jsonEqual (.obj gs) = true) (key : String) :
    (Json.field? key fs).isSome = (Json.field? key gs).isSome := by
  rcases Json.jsonEqual_field? h key with ⟨hf, hg⟩ | ⟨x, y, hf, hg, -⟩ <;> simp [hf, hg]

theorem bindContext_equal (host : Host) (context : PrincipalContext) (allowed : List String)
    (bindings : List (String × String)) (h : (Json.obj fs).jsonEqual (.obj gs) = true)
    {fs' gs' : Fields} (hfs : bindContext host context allowed bindings fs = .ok fs')
    (hgs : bindContext host context allowed bindings gs = .ok gs') :
    (Json.obj fs').jsonEqual (.obj gs') = true := by
  induction bindings generalizing fs gs with
  | nil =>
    simp only [bindContext, Except.ok.injEq] at hfs hgs
    exact hfs ▸ hgs ▸ h
  | cons binding rest ih =>
    obtain ⟨target, reference⟩ := binding
    simp only [bindContext] at hfs hgs
    split_ifs at hfs hgs
    cases hresolved : resolveContextBinding host context reference allowed with
    | none => simp [hresolved] at hfs
    | some value =>
      simp only [hresolved] at hfs hgs
      exact ih (equal_append h target value) hfs hgs

/-- The dictionary a nested value is injected into. -/
def injectionParent? : Option Json → Option Fields
  | none | some .null => some []
  | some (.obj child) => some child
  | some _ => none

/-- Below a parent that can be entered the value is injected into the parent. -/
theorem injectAt_of_parent {value : Json} {token next : String} {rest : List String}
    {child : Fields} (hchild : injectionParent? (Json.field? token fs) = some child) :
    injectAt value (token :: next :: rest) fs =
      (injectAt value (next :: rest) child).map fun filled => setField token (.obj filled) fs := by
  simp only [injectAt]
  cases hfield : Json.field? token fs with
  | none =>
    obtain rfl : [] = child := by simpa [hfield, injectionParent?] using hchild
    rfl
  | some x =>
    cases x with
    | null =>
      obtain rfl : [] = child := by simpa [hfield, injectionParent?] using hchild
      rfl
    | obj fields =>
      obtain rfl : fields = child := by simpa [hfield, injectionParent?] using hchild
      rfl
    | _ => simp [hfield, injectionParent?] at hchild

theorem injectAt_cons_cons {value : Json} {token next : String} {rest : List String}
    {fs' : Fields} (h : injectAt value (token :: next :: rest) fs = .ok fs') :
    ∃ child filled, injectionParent? (Json.field? token fs) = some child ∧
      injectAt value (next :: rest) child = .ok filled ∧ fs' = setField token (.obj filled) fs := by
  cases hchild : injectionParent? (Json.field? token fs) with
  | none =>
    simp only [injectAt] at h
    cases hfield : Json.field? token fs with
    | none => simp [hfield, injectionParent?] at hchild
    | some x => cases x <;> simp [hfield, injectionParent?] at hchild h
  | some child =>
    rw [injectAt_of_parent hchild] at h
    cases hfilled : injectAt value (next :: rest) child with
    | error e => simp [hfilled, Except.map] at h
    | ok filled =>
      refine ⟨child, filled, rfl, hfilled, ?_⟩
      simpa [hfilled, Except.map, eq_comm] using h

theorem injectionParent?_equal (h : (Json.obj fs).jsonEqual (.obj gs) = true) {token : String}
    {child child' : Fields} (hf : injectionParent? (Json.field? token fs) = some child)
    (hg : injectionParent? (Json.field? token gs) = some child') :
    (Json.obj child).jsonEqual (.obj child') = true := by
  rcases Json.jsonEqual_field? h token with ⟨hnone, hnone'⟩ | ⟨x, y, hx, hy, hxy⟩
  · rw [hnone] at hf
    rw [hnone'] at hg
    obtain rfl : [] = child := by simpa [injectionParent?] using hf
    obtain rfl : [] = child' := by simpa [injectionParent?] using hg
    exact Json.jsonEqual_refl _
  · rw [hx] at hf
    rw [hy] at hg
    rcases Json.jsonEqual_shape hxy with ⟨hsx, hsy, hleaf⟩ | ⟨xs, ys, rfl, rfl⟩ | ⟨cs, ds, rfl, rfl⟩
    · have hchild : child = [] := by
        cases x <;> simp [injectionParent?, Json.isScalar, eq_comm] at hf hsx ⊢
        exact hf
      have hchild' : child' = [] := by
        cases y <;> simp [injectionParent?, Json.isScalar, eq_comm] at hg hsy ⊢
        exact hg
      rw [hchild, hchild']
      exact Json.jsonEqual_refl _
    · simp [injectionParent?] at hf
    · obtain rfl : cs = child := by simpa [injectionParent?] using hf
      obtain rfl : ds = child' := by simpa [injectionParent?] using hg
      exact hxy

theorem injectAt_equal (value : Json) (tokens : List String)
    (h : (Json.obj fs).jsonEqual (.obj gs) = true) {fs' gs' : Fields}
    (hfs : injectAt value tokens fs = .ok fs') (hgs : injectAt value tokens gs = .ok gs') :
    (Json.obj fs').jsonEqual (.obj gs') = true := by
  induction tokens generalizing fs gs fs' gs' with
  | nil => simp [injectAt] at hfs
  | cons token rest ih =>
    cases rest with
    | nil =>
      have hpresent := isSome_field?_eq h token
      simp only [injectAt, Except.ok.injEq, hpresent] at hfs hgs
      subst hfs
      subst hgs
      split
      · exact h
      · exact equal_setField h token (Json.jsonEqual_refl value)
    | cons next rest =>
      obtain ⟨child, filled, hchild, hfilled, rfl⟩ := injectAt_cons_cons hfs
      obtain ⟨child', filled', hchild', hfilled', rfl⟩ := injectAt_cons_cons hgs
      exact equal_setField h token (ih (injectionParent?_equal h hchild hchild') hfilled hfilled')

theorem enrich_equal (caller : ActionOperationCaller) (definition : Operation)
    (h : (Json.obj fs).jsonEqual (.obj gs) = true) {fs' gs' : Fields}
    (hfs : caller.enrich definition fs = .ok fs') (hgs : caller.enrich definition gs = .ok gs') :
    (Json.obj fs').jsonEqual (.obj gs') = true := by
  unfold ActionOperationCaller.enrich at hfs hgs
  cases hbf : bindContext caller.host caller.principalContext caller.allowedContextBindings
      definition.contextBindings fs with
  | error e => simp [hbf, bind, Except.bind] at hfs
  | ok bf =>
    cases hbg : bindContext caller.host caller.principalContext caller.allowedContextBindings
        definition.contextBindings gs with
    | error e => simp [hbg, bind, Except.bind] at hgs
    | ok bg =>
      have hbound := bindContext_equal _ _ _ _ h hbf hbg
      simp only [hbf, hbg, bind, Except.bind] at hfs hgs
      split at hfs
      · unfold injectContextValue at hfs hgs
        simp only [*] at hgs
        split_ifs at hfs hgs
        · simp only [Except.ok.injEq] at hfs hgs
          exact hfs ▸ hgs ▸ hbound
        · exact injectAt_equal _ _ hbound hfs hgs
      · simp only [*] at hgs
        simp only [pure, Except.pure, Except.ok.injEq] at hfs hgs
        exact hfs ▸ hgs ▸ hbound

end Enriched

/-! What the texts of a sealed argument refer to. -/

/-- The path below the prepared preview a text refers to. -/
def previewPath? (text : String) : Option (List String) :=
  match matchReference ["prepared"] text with
  | some (.root _ ("preview" :: path)) => some path
  | _ => none

/-- Only the sealed input and the sealed preview are referred to. -/
theorem reference_of_sealed {text : String} {inner : List String} {reference : Reference}
    (haccepted : Compiler.Accepted false true ⟨text, false, inner, false⟩)
    (hprepared : mentionsPrepared text = true → isPreparedReference text = true)
    (hinput : isDirectInputReference text = false) (hstep : isFreshStepReference text = false)
    (hreference : executorReference? (rewriteText text) = some reference) :
    ∃ rest, reference = .root "input" ("prepared" :: "input" :: rest) ∨
      reference = .root "input" ("prepared" :: "preview" :: rest) ∧ previewPath? text = some rest := by
  obtain ⟨hwritten, htokens⟩ := written_of_matchTokens hreference
  rw [split_rewriteText] at htokens
  unfold rewriteTokens at htokens
  split at htokens
  next first rest hsplit =>
    have hroot : reference = .root "input" ("prepared" :: first :: rest) := by
      cases reference with
      | root name path =>
        simp only [Reference.tokens, List.cons.injEq, true_and] at htokens
        obtain ⟨rfl, rfl⟩ := htokens
        rfl
      | step id path => simp [Reference.tokens] at htokens
    subst hroot
    have hmatch : matchReference ["prepared"] text = some (.root "prepared" (first :: rest)) := by
      have hknown : (Reference.root "prepared" (first :: rest)).Written ["prepared"] :=
        ⟨by simp, fun segment hmem => hwritten.2 segment (List.mem_cons_of_mem _ hmem)⟩
      unfold matchReference
      rw [hsplit]
      exact matchTokens_tokens hknown
    have hmentions : mentionsPrepared text = true := by
      unfold mentionsPrepared Text.hasPrefix
      rw [hasPrefix_of_prepared hsplit, Bool.or_true]
    have hvalid := hprepared hmentions
    unfold isPreparedReference at hvalid
    simp only [hmatch] at hvalid
    split at hvalid
    next hfirst =>
      simp only [Option.some.injEq, Reference.root.injEq, List.cons.injEq] at hfirst
      obtain ⟨-, rfl, -⟩ := hfirst
      exact ⟨rest, .inl rfl⟩
    next hfirst =>
      simp only [Option.some.injEq, Reference.root.injEq, List.cons.injEq] at hfirst
      obtain ⟨-, rfl, -⟩ := hfirst
      exact ⟨rest, .inr ⟨rfl, by simp [previewPath?, hmatch]⟩⟩
    next => exact absurd hvalid Bool.false_ne_true
  next =>
    exfalso
    cases reference with
    | root name path =>
      obtain ⟨hname, hpath⟩ := hwritten
      simp only [List.mem_cons, List.not_mem_nil, or_false] at hname
      rcases hname with rfl | rfl
      · have hmatch : matchReference ["input"] text = some (.root "input" path) := by
          unfold matchReference
          rw [htokens]
          exact matchTokens_tokens ⟨by simp, hpath⟩
        simp [isDirectInputReference, hmatch] at hinput
      · have hmatch : compilerReference? text = some (.root "item" path) := by
          unfold compilerReference? matchReference
          rw [htokens]
          exact matchTokens_tokens ⟨by simp, hpath⟩
        simp [Compiler.Accepted, hmatch] at haccepted
    | step id path =>
      have hmatch : matchReference [] text = some (.step id path) := by
        unfold matchReference
        rw [htokens]
        exact matchTokens_tokens ⟨by simp, hwritten.2⟩
      simp [isFreshStepReference, hmatch] at hstep

/-! What a commit asks of the provider. -/

section Commit
variable {isValid : Json → Json → Bool} (host : Host) (loaded : LoadedAction isValid)

/-- The guarded state of the preview is the sealed one; without a guard the whole preview is. -/
def KeptState (sealed current : Json) : Prop :=
  match loaded.capability.action.localDevelopmentStateGuard with
  | none => current = sealed
  | some guard => ∃ state state', resolveJsonPointer sealed guard.statePointer = some state ∧
      resolveJsonPointer current guard.statePointer = some state' ∧ sameText state' state = true

/-- A mutation of the commit has the enriched arguments of the call step at its position, resolved
with the sealed input and a preview that kept its state. -/
def SealedMutation (execution : ActionCommitExecution) (principalContext : PrincipalContext) :
    ActionRequest → Prop
  | .mutate call _ _ => ∃ declared context details resolved previewValue,
      callAt loaded.capability.commitWorkflow call.position = some declared ∧
      operation? (rewriteText declared.operationId) loaded.operations = some call.operation ∧
      call.operation.kind = .action ∧
      context.input = preparedInput { execution with previewValue := previewValue } ∧
      KeptState loaded execution.previewValue previewValue ∧
      resolveFields context details (mapTextFields rewriteText declared.arguments) = .ok resolved ∧
      (loaded.caller host principalContext .commit).enrich call.operation resolved =
        .ok call.arguments
  | _ => True

/-- The enriched call of a request that is let through. -/
theorem request_eq_ok {caller : ActionOperationCaller} {call : CallRequest} {asked : ActionRequest}
    (h : caller.request call = .ok asked) :
    ∃ enriched, caller.enrich call.operation call.arguments = .ok enriched ∧
      (asked = .read { call with arguments := enriched } ∨
        caller.phase = .commit ∧ call.operation.kind = .action ∧
        ∃ key, asked = .mutate { call with arguments := enriched } key caller.concurrencyToken) := by
  unfold ActionOperationCaller.request at h
  split at h
  · simp at h
  next definition hdefinition =>
    by_cases hother : definition = call.operation
    swap
    · rw [if_pos hother] at h
      simp at h
    subst hother
    rw [if_neg (not_not.mpr rfl)] at h
    cases henrich : caller.enrich call.operation call.arguments with
    | error e => simp [henrich, bind, Except.bind] at h
    | ok enriched =>
      refine ⟨enriched, rfl, ?_⟩
      cases hpermit : caller.permit call.operation enriched with
      | error e => simp [henrich, hpermit, bind, Except.bind] at h
      | ok _ =>
        simp only [henrich, hpermit, bind, Except.bind] at h
        split at h
        next => exact .inl (by simpa [pure, Except.pure, eq_comm] using h)
        next hkind =>
          split at h
          next key hphase _ =>
            split at h
            · simp at h
            · exact .inr ⟨hphase, hkind, key, by simpa [pure, Except.pure, eq_comm] using h⟩
          next => simp at h

/-- Nothing but what the caller lets through is asked of the provider. -/
theorem performs_actionEngine {caller : ActionOperationCaller} {capabilityId : String}
    {root : Workflow} {input : Json} {allowed : ActionRequest → Prop}
    (h : ∀ call asked, Placed root caller.operations input call → caller.request call = .ok asked →
      allowed asked) : Performs (actionEngine caller capabilityId) root input allowed := by
  intro call next hplaced hnext
  change Execution.Sends allowed (caller.perform call next)
  unfold ActionOperationCaller.perform
  cases hrequest : caller.request call with
  | error e => exact hnext _
  | ok asked => exact .request (h call asked hplaced hrequest) fun answer => hnext _

section Tail
variable {allowed : ActionRequest → Prop}

theorem sends_checked {α : Type} (result : Except RuntimeError α) {next : α → ActionProcess}
    (h : ∀ value, result = .ok value → Execution.Sends allowed (next value)) :
    Execution.Sends allowed (checked result next) := by
  cases result with
  | ok value => exact h value rfl
  | error e => exact .failed trivial

theorem sends_withRecorded (hrecorded : allowed .recorded)
    {next : List (List (String × String)) → List String → ActionProcess}
    (h : ∀ headers ids, Execution.Sends allowed (next headers ids)) :
    Execution.Sends allowed (withRecorded next) := by
  refine .request hrecorded fun answer => ?_
  split
  · exact h _ _
  · exact .failed trivial

theorem sends_validateActionOutput {value : Json} {next : ActionProcess}
    (h : Execution.Sends allowed next) :
    Execution.Sends allowed (validateActionOutput host loaded value next) := by
  unfold validateActionOutput
  split
  · exact h
  · exact .failed trivial

/-- What a request of the caller with this phase may be. -/
def Asks (allowed : ActionRequest → Prop) (caller : ActionOperationCaller) : Prop :=
  ∀ call asked, caller.request call = .ok asked → allowed asked

/-- Outside of a commit an action only reads. -/
theorem asks_of_read (hread : ∀ call, allowed (.read call)) (principalContext : PrincipalContext)
    {phase : Phase} (hphase : phase ≠ .commit) :
    Asks allowed (loaded.caller host principalContext phase) := by
  intro call asked hrequest
  obtain ⟨enriched, -, rfl | ⟨hcommit, -⟩⟩ := request_eq_ok hrequest
  · exact hread _
  · exact absurd hcommit hphase

theorem performs_of_asks {caller : ActionOperationCaller} {capabilityId : String}
    {root : Workflow} {input : Json} (hasks : Asks allowed caller) :
    Performs (actionEngine caller capabilityId) root input allowed :=
  performs_actionEngine fun call asked _ hrequest => hasks call asked hrequest

theorem sends_resolveStatusQuery {principalContext : PrincipalContext}
    (hasks : Asks allowed (loaded.caller host principalContext .status)) (semantics : ActionSemantics)
    (query : StatusQueryOutcomeResolution) (execution : ActionCommitExecution)
    (publicPreview : Json) :
    Execution.Sends allowed (resolveStatusQuery host loaded semantics query execution publicPreview
      principalContext) := by
  unfold resolveStatusQuery
  split
  · split
    · refine sends_checked _ fun arguments _ => ?_
      unfold ActionOperationCaller.perform
      split
      · exact .failed trivial
      next operation _ _ _ _ _ asked hrequest =>
        refine .request (hasks _ asked hrequest) fun answer => ?_
        unfold received
        split
        · exact sends_checked _ fun _ _ => .done _
        · exact .failed trivial
        · exact .failed trivial
    · exact .failed trivial
  · exact .failed trivial

theorem sends_settle {principalContext : PrincipalContext}
    (hasks : Asks allowed (loaded.caller host principalContext .status))
    (execution : ActionCommitExecution) (rawResult : Json) (actionOperationIds : List String) :
    Execution.Sends allowed
      (settle host loaded execution principalContext rawResult actionOperationIds) := by
  unfold settle
  split
  · split
    · exact .done _
    · split
      · exact sends_resolveStatusQuery host loaded hasks _ _ _ _
      · exact .done _
  · exact .failed trivial

/-- A preview asks what its workflow performs, and for the lists of its caller. -/
theorem sends_preview {arguments : Json} {principalContext : PrincipalContext}
    (hperform : Performs (actionEngine (loaded.caller host principalContext .preview)
      loaded.capability.id) loaded.capability.previewWorkflow arguments allowed)
    (hrecorded : allowed .recorded) :
    Execution.Sends allowed (preview host loaded arguments principalContext) := by
  refine Process.Obeys.bind (sends_execute _ hperform) fun rawPreview => ?_
  refine sends_withRecorded hrecorded fun headers _ => ?_
  exact sends_checked _ fun _ _ => sends_checked _ fun _ _ => sends_checked _ fun _ _ => .done _

/-- A commit asks what its workflow performs, for the lists of its caller, and for the status. -/
theorem sends_commitLoaded_of_performs {execution : ActionCommitExecution}
    {principalContext : PrincipalContext}
    (hperform : Performs (actionEngine (commitCaller host loaded execution principalContext)
      loaded.capability.id) (rewritePrepared loaded.capability.commitWorkflow)
      (preparedInput execution) allowed)
    (hasks : Asks allowed (loaded.caller host principalContext .status))
    (hrecorded : allowed .recorded) :
    Execution.Sends allowed (commitLoaded host loaded execution principalContext) := by
  unfold commitLoaded
  split
  · split
    · exact .done _
    · exact .failed trivial
  · refine Process.Obeys.bind (sends_execute _ hperform) fun rawResult => ?_
    refine sends_withRecorded hrecorded fun _ ids => ?_
    refine Process.Obeys.bind (sends_settle host loaded hasks _ _ _) fun result => ?_
    exact sends_validateActionOutput host loaded (.done _)

/-- A guarded commit asks for the lock, re-reads its preview and goes on where the state was kept. -/
theorem sends_commit_of_loaded {execution : ActionCommitExecution}
    {principalContext : PrincipalContext} (hhold : ∀ key, allowed (.hold key))
    (hpreview : Execution.Sends allowed
      (preview host loaded execution.inputValue principalContext))
    (hcommit : loaded.capability.action.localDevelopmentStateGuard = none →
      Execution.Sends allowed (commitLoaded host loaded execution principalContext))
    (hrecheck : ∀ guard fresh, loaded.capability.action.localDevelopmentStateGuard = some guard →
      validateLocalDevelopmentRecheck guard execution.previewValue fresh = .ok false →
      Execution.Sends allowed (commitLoaded host loaded ⟨execution.inputValue, fresh,
        execution.concurrencyToken, execution.idempotencyKey, false, .null⟩ principalContext)) :
    Execution.Sends allowed (commit host loaded execution principalContext) := by
  unfold commit
  split
  · exact .failed trivial
  · split
    next hguard => exact hcommit hguard
    next guard hguard =>
      split
      · split
        · exact .failed trivial
        · refine .request (hhold _) fun answer => ?_
          split
          · refine Process.Obeys.bind hpreview fun fresh => sends_checked _ fun terminal hkept => ?_
            cases terminal with
            | true => exact sends_validateActionOutput host loaded (.done _)
            | false => exact hrecheck guard fresh hguard hkept
          · exact .failed trivial
          · exact .failed trivial
      · exact .failed trivial

end Tail

/-- The commit workflow mutates with sealed arguments if its preview kept its state. -/
theorem sends_commitLoaded {execution current : ActionCommitExecution}
    (principalContext : PrincipalContext) (hinput : current.inputValue = execution.inputValue)
    (hkept : KeptState loaded execution.previewValue current.previewValue) :
    Execution.Sends (SealedMutation host loaded execution principalContext)
      (commitLoaded host loaded current principalContext) := by
  refine sends_commitLoaded_of_performs host loaded
    (performs_actionEngine fun call asked hplaced hrequest => ?_)
    (asks_of_read host loaded (fun _ => trivial) principalContext (by decide)) trivial
  obtain ⟨enriched, henrich, rfl | ⟨-, hkind, key, rfl⟩⟩ := request_eq_ok hrequest
  · trivial
  · obtain ⟨rewritten, context, details, hrewritten, hoperation, hcontext, hresolved⟩ := hplaced
    have hmapped : (callAt loaded.capability.commitWorkflow call.position).map
        (mapDeclared rewriteText) = some rewritten := by
      rw [← callAt_mapSteps]
      exact hrewritten
    obtain ⟨declared, hdeclared, rfl⟩ := Option.map_eq_some_iff.mp hmapped
    have hprepared : context.input =
        preparedInput { execution with previewValue := current.previewValue } := by
      rw [hcontext, preparedInput, preparedInput, hinput]
    exact ⟨declared, context, details, call.arguments, current.previewValue, hdeclared,
      hoperation, hkind, hprepared, hkept, hresolved, henrich⟩

theorem keptState_of_recheck {guard : LocalDevelopmentStateGuard} {prepared fresh : Json}
    (hguard : loaded.capability.action.localDevelopmentStateGuard = some guard)
    (h : validateLocalDevelopmentRecheck guard prepared fresh = .ok false) :
    KeptState loaded prepared fresh := by
  unfold validateLocalDevelopmentRecheck at h
  unfold KeptState
  simp only [hguard]
  split at h
  next state state' hstate hstate' =>
    split_ifs at h with hpermitted hterminal hchanged
    · simp at h
    · simp only [Bool.or_eq_true, Bool.not_eq_true', not_or, Bool.not_eq_false] at hchanged
      exact ⟨state, state', hstate, hstate', hchanged.2⟩
  next => simp at h

/-- Every mutation of a commit is a sealed one. -/
theorem sends_commit (execution : ActionCommitExecution) (principalContext : PrincipalContext) :
    Execution.Sends (SealedMutation host loaded execution principalContext)
      (commit host loaded execution principalContext) := by
  have hpreview : Asks (SealedMutation host loaded execution principalContext)
      (loaded.caller host principalContext .preview) :=
    asks_of_read host loaded (fun _ => trivial) principalContext (by decide)
  refine sends_commit_of_loaded host loaded (fun _ => trivial)
    (sends_preview host loaded (performs_of_asks hpreview) trivial) (fun hguard => ?_)
    fun guard fresh hguard hrecheck => ?_
  · have hkept : KeptState loaded execution.previewValue execution.previewValue := by
      simp [KeptState, hguard]
    exact sends_commitLoaded host loaded principalContext rfl hkept
  · exact sends_commitLoaded host loaded principalContext rfl
      (keptState_of_recheck loaded hguard hrecheck)

/-- The values two kept previews have at a path into the guarded state. -/
theorem preview_equal {sealed left right : Json} (hleft : KeptState loaded sealed left)
    (hright : KeptState loaded sealed right) {path : List String}
    (hpath : ∀ guard, loaded.capability.action.localDevelopmentStateGuard = some guard →
      runtimeTokens guard.statePointer <+: path)
    (hsegments : ∀ segment ∈ path, isSegment segment = true) {v w : Json}
    (hv : resolvePath left path = .ok v) (hw : resolvePath right path = .ok w) :
    v.jsonEqual w = true := by
  unfold KeptState at hleft hright
  cases hguard : loaded.capability.action.localDevelopmentStateGuard with
  | none =>
    simp only [hguard] at hleft hright
    subst hleft
    subst hright
    obtain rfl : v = w := by simpa [hv] using hw
    exact Json.jsonEqual_refl v
  | some guard =>
    simp only [hguard] at hleft hright
    obtain ⟨state, leftState, hstate, hleftState, hleftText⟩ := hleft
    obtain ⟨state', rightState, hstate', hrightState, hrightText⟩ := hright
    obtain rfl : state = state' := by simpa [hstate] using hstate'
    obtain ⟨rest, rfl⟩ := hpath guard hguard
    have htokens : ∀ segment ∈ runtimeTokens guard.statePointer, isSegment segment = true :=
      fun segment hmem => hsegments segment (List.mem_append_left _ hmem)
    have hstates : leftState.jsonEqual rightState = true :=
      Json.jsonEqual_trans (jsonEqual_of_sameText hleftText)
        (Json.jsonEqual_symm (jsonEqual_of_sameText hrightText))
    exact resolvePath_equal hstates (resolvePath_of_resolveTokens htokens hleftState hv)
      (resolvePath_of_resolveTokens htokens hrightState hw)

theorem resolvePath_preparedInput (execution : ActionCommitExecution) (rest : List String) :
    resolvePath (preparedInput execution) ("prepared" :: "input" :: rest) =
        resolvePath execution.inputValue rest ∧
      resolvePath (preparedInput execution) ("prepared" :: "preview" :: rest) =
        resolvePath execution.previewValue rest := by
  constructor <;> simp [preparedInput, resolvePath]

/-- Two commits of one sealed record send equal arguments at a mutating call step, unless rewriting
made the call a mutation or a guard re-read what the arguments take from the preview. -/
theorem sealed_mutation_arguments (policies : List (String × Policies.Policy))
    (targets : List (String × String))
    (haccepted : errorFree (compileActionCapability isValid loaded.capability loaded.operations
      loaded.semantics policies targets).2 = true)
    (hkinds : ∀ site ∈ commitSites loaded.capability,
      isAction loaded.operations (rewriteText site.operationId) = true →
        isAction loaded.operations site.operationId = true)
    (hstate : ∀ guard, loaded.capability.action.localDevelopmentStateGuard = some guard →
      ∀ site ∈ mutationSites loaded.capability loaded.operations,
        ∀ text ∈ texts (.obj site.arguments), ∀ path, previewPath? text = some path →
          runtimeTokens guard.statePointer <+: path)
    (execution : ActionCommitExecution) (principalContext : PrincipalContext)
    (leftEvents rightEvents : List (Process.Event ActionRequest ActionReply))
    (leftReached rightReached : ActionProcess)
    (hleftRun : Process.Run (commit host loaded execution principalContext) leftEvents leftReached)
    (hrightRun : Process.Run (commit host loaded execution principalContext) rightEvents
      rightReached)
    (left right : CallRequest) (leftKey rightKey : String) (leftToken rightToken : Json)
    (hleft : Process.Event.sent (.mutate left leftKey leftToken) ∈ leftEvents)
    (hright : Process.Event.sent (.mutate right rightKey rightToken) ∈ rightEvents)
    (hposition : left.position = right.position) :
    left.operation = right.operation ∧
      (Json.obj left.arguments).jsonEqual (.obj right.arguments) = true := by
  have hsends := sends_commit host loaded execution principalContext
  obtain ⟨declared, leftContext, leftDetails, leftResolved, leftPreview, hdeclared, hoperation,
    hkind, hleftInput, hleftKept, hleftResolved, hleftEnriched⟩ := (hsends.run hleftRun).2 _ hleft
  obtain ⟨declared', rightContext, rightDetails, rightResolved, rightPreview, hdeclared',
    hoperation', -, hrightInput, hrightKept, hrightResolved, hrightEnriched⟩ :=
    (hsends.run hrightRun).2 _ hright
  obtain rfl : declared = declared' := by
    rw [← hposition, hdeclared] at hdeclared'
    exact Option.some.inj hdeclared'
  have hsame : left.operation = right.operation := by
    rw [hoperation] at hoperation'
    exact Option.some.inj hoperation'
  refine ⟨hsame, ?_⟩
  obtain ⟨hproved, -, hcommit⟩ := accepted_of_compileActionCapability haccepted
  obtain ⟨site, hsite, hlisted⟩ := exists_callSite loaded.capability.commitWorkflow hdeclared
    "/commit_workflow" [] 0
  have hmutation : isAction loaded.operations site.operationId = true := by
    refine hkinds site hsite ?_
    rw [hlisted.operation]
    simp [isAction, hoperation, hkind]
  have hsealedSite : site ∈ mutationSites loaded.capability loaded.operations :=
    List.mem_filter.mpr ⟨hsite, hmutation⟩
  have houtside : Container.foreach ∉ site.containers := by
    rw [hproved.uncontained site hsealedSite]
    exact List.not_mem_nil
  obtain ⟨inner, hoccurs⟩ := hlisted.occurs houtside [] false
  have hagree : ∀ text ∈ textsOfFields (mapTextFields rewriteText declared.arguments),
      Agree leftContext rightContext text := by
    intro rewritten hrewritten reference v w hreference hv hw
    rw [textsOfFields_map] at hrewritten
    obtain ⟨text, htext, rfl⟩ := List.mem_map.mp hrewritten
    have hoccurrence := hoccurs text htext
    obtain ⟨hinput, hstep⟩ := hproved.sealed site hsealedSite text
      (by rw [hlisted.arguments]; exact htext)
    obtain ⟨rest, rfl | ⟨rfl, hpreview⟩⟩ := reference_of_sealed (hcommit _ hoccurrence)
      (hproved.commitPrepared text (text_mem_of_workflowOccurrences _ hoccurrence)) hinput hstep
      hreference
    · simp only [resolveReference, if_true, hleftInput, hrightInput,
        (resolvePath_preparedInput _ _).1] at hv hw
      obtain rfl : v = w := by simpa [hv] using hw
      exact Json.jsonEqual_refl v
    · simp only [resolveReference, if_true, hleftInput, hrightInput,
        (resolvePath_preparedInput _ _).2] at hv hw
      have hsegments : ∀ segment ∈ rest, isSegment segment = true := fun segment hmem =>
        (written_of_matchTokens hreference).1.2 segment
          (List.mem_cons_of_mem _ (List.mem_cons_of_mem _ hmem))
      refine preview_equal loaded hleftKept hrightKept (fun guard hguard => ?_) hsegments hv hw
      exact hstate guard hguard site hsealedSite text
        (by rw [hlisted.arguments]; exact htext) rest hpreview
  have hresolved : Json.Alike leftResolved rightResolved :=
    resolveFields_agree _ hagree hleftResolved hrightResolved
  rw [← hsame] at hrightEnriched
  exact enrich_equal _ _ hresolved.jsonEqual hleftEnriched hrightEnriched

end Commit

/-! The copying action: its commits agree whatever the provider answers. -/

def exampleHost : Host where
  schemas := anySchema
  digest := { floatRepr := fun _ => "", sha256 := fun text => text }
  casefold := fun name => name
  sensitive := fun _ => false

def operator : PrincipalContext := ⟨"operator", "orders", ["orders.read", "orders.write"], none⟩

def loadedCopy : LoadedAction (fun _ _ => true) where
  capability := copyOrderCapability
  operations := orderOperations
  policy := orderPolicy
  semantics := []
  projectId := "orders"
  contextBindingAllowlist := []
  proved := by decide +kernel

/-- The provider shows this order, the lock is free and every mutation is recorded. -/
def answerWith (order : Json) : ActionRequest → ActionReply
  | .read _ => .readResult order []
  | .mutate call _ _ => .value (.obj call.arguments)
  | .hold _ => .held
  | .recorded => .recorded [] ["mutation"]

def preparedCopy : ActionCommitExecution :=
  ⟨.obj [("id", .int 7)], .obj [], .null, "key", false, .null⟩

/-- The events of the run in which the provider shows this order. -/
def commitEvents {isValid : Json → Json → Bool} (loaded : LoadedAction isValid)
    (execution : ActionCommitExecution) (order : Json) :
    List (Process.Event ActionRequest ActionReply) :=
  (Process.replay (answerWith order) (commit exampleHost loaded execution operator)).1

theorem commitEvents_run {isValid : Json → Json → Bool} (loaded : LoadedAction isValid)
    (execution : ActionCommitExecution) (order : Json) :
    ∃ reached, Process.Run (commit exampleHost loaded execution operator)
      (commitEvents loaded execution order) reached := by
  obtain ⟨reached, hrun, -⟩ :=
    Process.replay_run (answerWith order) (commit exampleHost loaded execution operator)
  exact ⟨reached, hrun⟩

def copyCall : CallRequest := ⟨copyOrder, [("id", .int 7)], [0]⟩

theorem copy_sent (order : Json) : Process.Event.sent (.mutate copyCall "key" .null) ∈
    commitEvents loadedCopy preparedCopy order := by
  have hevents : commitEvents loadedCopy preparedCopy order =
      [.sent (.mutate copyCall "key" .null),
        .replied (.mutate copyCall "key" .null) (.value (.obj [("id", .int 7)])),
        .sent .recorded, .replied .recorded (.recorded [] ["mutation"])] := by rfl
  rw [hevents]
  exact List.mem_cons_self

theorem sealed_mutation_arguments_copied :
    copyCall.operation = copyCall.operation ∧
      (Json.obj copyCall.arguments).jsonEqual (.obj copyCall.arguments) = true := by
  obtain ⟨leftReached, hleft⟩ := commitEvents_run loadedCopy preparedCopy (.obj [])
  obtain ⟨rightReached, hright⟩ := commitEvents_run loadedCopy preparedCopy .null
  exact sealed_mutation_arguments exampleHost loadedCopy [("orders", orderPolicy)] []
    (by decide +kernel) (by decide) (fun guard hguard => by simp [loadedCopy, copyOrderCapability] at hguard)
    preparedCopy operator _ _ _ _ hleft hright copyCall copyCall "key" "key" .null .null
    (copy_sent _) (copy_sent _) rfl

/-! A guard re-reads the preview, and the arguments take an unguarded field from it. -/

def orderDetails : Fields :=
  [("type", .str "object"),
    ("properties", .obj [("status", .obj [("type", .str "string")]),
      ("total", .obj [("type", .str "integer")])]),
    ("required", .arr [.str "status", .str "total"])]

def closeOrder : Operation where
  kind := .action
  id := "close-order"
  inputSchema := [("type", .str "object")]
  outputSchema := [("type", .str "object")]
  http :=
    { method := "POST"
      scopes := ["orders.write"]
      safety := ⟨.update, .low, .reversible, .never, .runtimeDeduplicate, .notSupported⟩ }
  contextBindings := []
  evidence := []
  effect_read := by decide

def guardedOperations : Operations :=
  [("read-order", { readOrder with outputSchema := orderDetails }), ("close-order", closeOrder)]

def guardedPolicy : Policies.Policy :=
  { orderPolicy with readableFields := ["$.status", "$.total"] }

def guardedCapability : ActionCapability where
  id := "close-order"
  inputSchema :=
    [("type", .str "object"), ("properties", .obj [("id", .obj [("type", .str "integer")])]),
      ("required", .arr [.str "id"])]
  outputSchema := [("type", .str "object")]
  policy := "orders"
  evals := []
  action := ⟨.single, .required, some
    ⟨"/id", "read-order", "/status", [.str "open"], [.str "closed"]⟩⟩
  previewWorkflow := showOrder.workflow
  commitWorkflow :=
    [.call (some "close") "close-order" [("total", .str "$.prepared.preview.total")],
      .emit none (.str "$.steps.close")]

def loadedClose : LoadedAction (fun _ _ => true) where
  capability := guardedCapability
  operations := guardedOperations
  policy := guardedPolicy
  semantics := []
  projectId := "orders"
  contextBindingAllowlist := []
  proved := by decide +kernel

def openOrder (total : ℤ) : Json := .obj [("status", .str "open"), ("total", .int total)]

def preparedClose : ActionCommitExecution :=
  ⟨.obj [("id", .int 7)], openOrder 1, .null, "key", false, .null⟩

def closeCall (total : ℤ) : CallRequest := ⟨closeOrder, [("total", .int total)], [0]⟩

theorem close_sent_sealed : Process.Event.sent (.mutate (closeCall 1) "key" .null) ∈
    commitEvents loadedClose preparedClose (openOrder 1) := by
  have hsixth : (commitEvents loadedClose preparedClose (openOrder 1))[6]? =
      some (.sent (.mutate (closeCall 1) "key" .null)) := by rfl
  exact List.mem_of_getElem? hsixth

theorem close_sent_fresh : Process.Event.sent (.mutate (closeCall 2) "key" .null) ∈
    commitEvents loadedClose preparedClose (openOrder 2) := by
  have hsixth : (commitEvents loadedClose preparedClose (openOrder 2))[6]? =
      some (.sent (.mutate (closeCall 2) "key" .null)) := by rfl
  exact List.mem_of_getElem? hsixth

/-- The action is accepted, and two commits of one record send different arguments. -/
theorem unsealed_mutation_arguments :
    errorFree (compileActionCapability (fun _ _ => true) loadedClose.capability
      loadedClose.operations loadedClose.semantics [("orders", guardedPolicy)] []).2 = true ∧
    ∃ leftEvents rightEvents leftReached rightReached,
      Process.Run (commit exampleHost loadedClose preparedClose operator) leftEvents leftReached ∧
      Process.Run (commit exampleHost loadedClose preparedClose operator) rightEvents
        rightReached ∧
      Process.Event.sent (.mutate (closeCall 1) "key" .null) ∈ leftEvents ∧
      Process.Event.sent (.mutate (closeCall 2) "key" .null) ∈ rightEvents ∧
      (closeCall 1).position = (closeCall 2).position ∧
      (Json.obj (closeCall 1).arguments).jsonEqual (.obj (closeCall 2).arguments) = false := by
  obtain ⟨leftReached, hleft⟩ := commitEvents_run loadedClose preparedClose (openOrder 1)
  obtain ⟨rightReached, hright⟩ := commitEvents_run loadedClose preparedClose (openOrder 2)
  exact ⟨by decide +kernel, _, _, leftReached, rightReached, hleft, hright, close_sent_sealed,
    close_sent_fresh, rfl, by decide⟩

end CapabilityCompiler.Actions
