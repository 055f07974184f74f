import CapabilityCompiler.Execution.TenantPaths

/-! A call of a provider carries the tenant of its principal. -/
namespace CapabilityCompiler.Execution
open Foundation Models Actions Policies

/-! What isolation is. -/

/-- The tenant is at the policy's path. -/
def Carries (field : String) (tenant : Json) (arguments : Fields) : Prop :=
  tenant ≠ .null ∧
    ∃ x, lookup (.obj arguments) (parsePath field) = some x ∧ x.jsonEqual tenant = true

/-- Another value is at the policy's path; an empty path names nothing. -/
def NamesOther (field : String) (tenant : Json) (arguments : Fields) : Prop :=
  parsePath field ≠ [] ∧
    ∃ x, lookup (.obj arguments) (parsePath field) = some x ∧ x.jsonEqual tenant = false

/-- What is sent of a call carries the tenant, and nothing is sent for another one or for none. -/
structure Isolated (field : String) (tenant : Json) (arguments : Fields) (sent : Option Fields) :
    Prop where
  carries : ∀ performed, sent = some performed → Carries field tenant performed
  other : NamesOther field tenant arguments → sent = none
  absent : tenant = .null → sent = none

/-- The host language takes the value for the tenant, and JSON does not. -/
def LookAlike (x tenant : Json) : Prop := x.pyEqual tenant = true ∧ x.jsonEqual tenant = false

theorem LookAlike.tenant_ne {x tenant : Json} (h : LookAlike x tenant) : tenant ≠ .null := by
  rintro rfl
  obtain ⟨hequal, hdiffers⟩ := h
  cases x with
  | null => exact absurd hdiffers (by decide)
  | _ => exact absurd hequal (by simp [Json.pyEqual, Json.eqWith, Json.pyLeaf, Json.pyLeaf.pyNum?,
      Json.num?])

theorem authorize_required_iff {policy : Policy} {field : String}
    (hmode : policy.tenantMode = .required) (hfield : policy.tenantField = some field)
    {granted : List String} {arguments : Fields} {tenant : Json} :
    Policies.authorize policy granted arguments tenant = .ok () ↔
      policy.requiredScopes ⊆ granted ∧ tenant ≠ .null ∧ ∃ x,
        lookup (.obj arguments) (parsePath field) = some x ∧ x.pyEqual tenant = true := by
  constructor
  · intro h
    refine ⟨requiredScopes_of_authorize h, ?_⟩
    unfold Policies.authorize at h
    simp only [hmode, hfield] at h
    split at h
    · exact absurd h (by simp)
    · split at h
      · rename_i x hx
        split at h
        · rename_i hallowed
          exact ⟨hallowed.1, x, hx, hallowed.2⟩
        · exact absurd h (by simp)
      · exact absurd h (by simp)
  · rintro ⟨hscopes, htenant, x, hx, hequal⟩
    have hmissing : Text.sortedSet (policy.requiredScopes.filter (· ∉ granted)) = [] := by
      refine List.eq_nil_iff_forall_not_mem.mpr fun scope hscope => ?_
      obtain ⟨hrequired, hungranted⟩ := List.mem_filter.mp (Text.mem_sortedSet.mp hscope)
      exact of_decide_eq_true hungranted (hscopes hrequired)
    unfold Policies.authorize
    simp only [hmissing, hmode, hfield, hx, ne_eq, not_true_eq_false, if_false]
    rw [if_pos ⟨htenant, hequal⟩]

section Filled
variable {field : String} {tenant : Json} {arguments : Fields} {tokens : List String}
  {sent : Option Fields}

/-- A value that is taken for the tenant was there before, or is the tenant. -/
theorem value_of_fillAt {path : FieldPath} (hreaches : Reaches path tokens) {bound : Fields}
    {x : Json} (hx : lookup (.obj (fillAt tenant tokens bound)) path = some x)
    (hequal : x.pyEqual tenant = true) : lookup (.obj bound) path = some x ∨ x = tenant := by
  cases hbound : lookup (.obj bound) path with
  | some y =>
    have hkept := lookup_fillAt tenant hreaches hbound
    exact .inl (hkept.symm.trans hx)
  | none =>
    obtain ⟨rest, rfl, hrest⟩ := lookup_of_fillAt hreaches hbound hx
    by_cases hnil : rest = []
    · subst hnil
      right
      cases tenant <;> simpa [lookup, eq_comm] using hrest
    · have hpart := pyEqual_part hnil tenant x hrest
      exact absurd hequal (by rw [hpart]; exact Bool.false_ne_true)

/-- A call is accepted with the arguments as they are before the tenant is filled in, and sent where
the policy finds the tenant afterwards. It is isolated unless a look-alike was there before. -/
theorem isolated_iff {accepted : Fields → Prop} (hreaches : Reaches (parsePath field) tokens)
    (hextends : ∀ bound, accepted bound → Extends arguments bound)
    (hsent : ∀ performed, sent = some performed ↔ ∃ bound, accepted bound ∧
      performed = fillAt tenant tokens bound ∧ tenant ≠ .null ∧ ∃ x,
        lookup (.obj performed) (parsePath field) = some x ∧ x.pyEqual tenant = true) :
    Isolated field tenant arguments sent ↔ ¬ ∃ bound x, accepted bound ∧
      lookup (.obj bound) (parsePath field) = some x ∧ LookAlike x tenant := by
  constructor
  · rintro h ⟨bound, x, haccepted, hx, hlike⟩
    have hkept := lookup_fillAt tenant hreaches hx
    have hperformed := (hsent _).mpr ⟨bound, haccepted, rfl, hlike.tenant_ne, x, hkept, hlike.1⟩
    obtain ⟨-, y, hy, hequal⟩ := h.carries _ hperformed
    obtain rfl : x = y := Option.some.inj (hkept.symm.trans hy)
    exact absurd hequal (by rw [hlike.2]; exact Bool.false_ne_true)
  · intro hclear
    have hcarries : ∀ performed, sent = some performed → Carries field tenant performed := by
      intro performed hperformed
      obtain ⟨bound, haccepted, rfl, htenant, x, hx, hequal⟩ := (hsent performed).mp hperformed
      refine ⟨htenant, x, hx, ?_⟩
      rcases value_of_fillAt hreaches hx hequal with hbound | rfl
      · by_contra hdiffers
        exact hclear ⟨bound, x, haccepted, hbound, hequal, Bool.not_eq_true _ ▸ hdiffers⟩
      · exact Json.jsonEqual_refl _
    refine ⟨hcarries, ?_, ?_⟩
    · rintro ⟨hpath, x, hx, hdiffers⟩
      refine Option.eq_none_iff_forall_ne_some.mpr fun performed hperformed => ?_
      obtain ⟨bound, haccepted, rfl, -⟩ := (hsent performed).mp hperformed
      have hkept := lookup_fillAt tenant hreaches
        ((hextends bound haccepted).lookup hpath hx)
      obtain ⟨-, y, hy, hequal⟩ := hcarries _ hperformed
      obtain rfl : x = y := Option.some.inj (hkept.symm.trans hy)
      exact absurd hequal (by rw [hdiffers]; exact Bool.false_ne_true)
    · intro htenant
      refine Option.eq_none_iff_forall_ne_some.mpr fun performed hperformed => ?_
      obtain ⟨-, -, -, hsome, -⟩ := (hsent performed).mp hperformed
      exact hsome htenant

end Filled

/-! Reads. -/

namespace PolicyOperationCaller
variable (caller : PolicyOperationCaller)

/-- The arguments that are sent for a call. -/
def sent (call : CallRequest) : Option Fields := (caller.request call).toOption.map (·.arguments)

/-- The context is bound, and every check passes but the one for the tenant. -/
def Accepts (field : String) (call : CallRequest) (bound : Fields) : Prop :=
  call.operation.kind ≠ .action ∧
    bindTargets caller.host caller.principalContext caller.allowedContextBindings call.operation.id
      call.operation.contextBindings call.arguments = .ok bound ∧
    caller.host.schemas.valid call.operation.inputSchema
      (.obj (fillAt caller.tenant (fieldPath field) bound)) = true ∧
    (caller.effectivePolicy call.operation).requiredScopes ⊆ caller.principalContext.effectiveScopes

/-- A look-alike of the tenant is at the policy's path, among the arguments or the bound context,
and nothing else is wrong with the call. -/
def Mistaken (field : String) (call : CallRequest) : Prop :=
  ∃ bound x, caller.Accepts field call bound ∧
    lookup (.obj bound) (parsePath field) = some x ∧ LookAlike x caller.tenant

variable {caller} {field : String}

theorem request_eq_ok_iff {call asked : CallRequest} : caller.request call = .ok asked ↔
    call.operation.kind ≠ .action ∧ ∃ enriched,
      caller.enrich call.operation call.arguments = .ok enriched ∧
      caller.host.schemas.valid call.operation.inputSchema (.obj enriched) = true ∧
      Policies.authorize (caller.effectivePolicy call.operation)
        caller.principalContext.effectiveScopes enriched caller.tenant = .ok () ∧
      asked = { call with arguments := enriched } := by
  unfold request
  constructor
  · intro h
    split at h
    · exact absurd h (by simp)
    · rename_i hkind
      cases henrich : caller.enrich call.operation call.arguments with
      | error error => exact absurd h (by simp [henrich, bind, Except.bind])
      | ok enriched =>
        simp only [henrich, bind, Except.bind] at h
        split at h
        · rename_i hvalid
          cases hauthorized : Policies.authorize (caller.effectivePolicy call.operation)
              caller.principalContext.effectiveScopes enriched caller.tenant with
          | error error => exact absurd h (by simp [hauthorized])
          | ok _ =>
            rw [hauthorized] at h
            exact ⟨hkind, enriched, rfl, hvalid, hauthorized, (Except.ok.inj h).symm⟩
        · exact absurd h (by simp)
  · rintro ⟨hkind, enriched, henrich, hvalid, hauthorized, rfl⟩
    rw [if_neg hkind, henrich]
    simp only [bind, Except.bind, if_pos hvalid, hauthorized]
    rfl

variable (hmode : caller.policy.tenantMode = .required)
  (hfield : caller.policy.tenantField = some field)
include hmode hfield

theorem enrich_required (definition : Operation) (arguments : Fields) :
    caller.enrich definition arguments =
      (bindTargets caller.host caller.principalContext caller.allowedContextBindings definition.id
        definition.contextBindings arguments).map fun bound =>
          if caller.tenant = .null then bound else fillAt caller.tenant (fieldPath field) bound := by
  unfold enrich
  cases bindTargets caller.host caller.principalContext caller.allowedContextBindings definition.id
    definition.contextBindings arguments with
  | error error => rfl
  | ok bound => simp only [bind, Except.bind, hmode, hfield]; rfl

theorem sent_eq_some_iff {call : CallRequest} {performed : Fields} :
    caller.sent call = some performed ↔ ∃ bound, caller.Accepts field call bound ∧
      performed = fillAt caller.tenant (fieldPath field) bound ∧ caller.tenant ≠ .null ∧ ∃ x,
        lookup (.obj performed) (parsePath field) = some x ∧ x.pyEqual caller.tenant = true := by
  have hsent : caller.sent call = some performed ↔
      ∃ asked, caller.request call = .ok asked ∧ asked.arguments = performed := by
    unfold sent
    cases caller.request call <;> simp [Except.toOption]
  rw [hsent]
  constructor
  · rintro ⟨asked, hrequest, rfl⟩
    obtain ⟨hkind, enriched, henrich, hvalid, hauthorized, rfl⟩ := request_eq_ok_iff.mp hrequest
    obtain ⟨hscopes, htenant, hfound⟩ :=
      (@authorize_required_iff (caller.effectivePolicy call.operation) field hmode hfield _ _ _).mp
        hauthorized
    rw [enrich_required hmode hfield] at henrich
    cases hbound : bindTargets caller.host caller.principalContext caller.allowedContextBindings
        call.operation.id call.operation.contextBindings call.arguments with
    | error error => exact absurd henrich (by simp [hbound, Except.map])
    | ok bound =>
      rw [hbound, Except.map, if_neg htenant] at henrich
      obtain rfl := Except.ok.inj henrich
      exact ⟨bound, ⟨hkind, hbound, hvalid, hscopes⟩, rfl, htenant, hfound⟩
  · rintro ⟨bound, ⟨hkind, hbound, hvalid, hscopes⟩, rfl, htenant, hfound⟩
    refine ⟨{ call with arguments := fillAt caller.tenant (fieldPath field) bound },
      request_eq_ok_iff.mpr ⟨hkind, _, ?_, hvalid, ?_, rfl⟩, rfl⟩
    · rw [enrich_required hmode hfield, hbound, Except.map, if_neg htenant]
    · exact (@authorize_required_iff (caller.effectivePolicy call.operation) field hmode
        hfield _ _ _).mpr ⟨hscopes, htenant, hfound⟩

/-- A read is isolated exactly when it is not mistaken. -/
theorem isolated_iff_not_mistaken (call : CallRequest) :
    Isolated field caller.tenant call.arguments (caller.sent call) ↔ ¬ caller.Mistaken field call :=
  isolated_iff (reaches_fieldPath field) (fun _ haccepted => extends_of_bindTargets haccepted.2.1)
    fun _ => sent_eq_some_iff hmode hfield

end PolicyOperationCaller

/-! Runs. -/

namespace GenericRuntime

def operationCaller (runtime : GenericRuntime) (policy : Policy) : PolicyOperationCaller :=
  ⟨runtime.host, policy, runtime.principalContext, runtime.contextBindingAllowlist⟩

/-- A run asks the provider for nothing but what the policy's caller lets through. -/
theorem sends_executeCall {runtime : GenericRuntime} {policy : Policy} {capability : ReadCapability}
    (hpolicy : runtime.policy? capability.policy = some policy) (maxOutputBytes : Option ℕ)
    (arguments : Fields) :
    Sends (fun asked => ∃ call, (runtime.operationCaller policy).request call = .ok asked)
      (runtime.executeCall capability maxOutputBytes arguments) := by
  unfold executeCall
  rw [hpolicy]
  dsimp only
  split
  · exact .failed trivial
  · refine Process.Obeys.bind (sends_execute _ fun call next _ hnext => ?_) fun result => ?_
    · change Sends _ ((runtime.operationCaller policy).perform call next)
      unfold PolicyOperationCaller.perform
      cases hrequest : (runtime.operationCaller policy).request call with
      | error error => exact hnext _
      | ok asked => exact .request ⟨call, hrequest⟩ hnext
    · unfold disclose
      dsimp only
      split
      · split
        · exact .done _
        · split
          · exact .failed trivial
          · exact .done _
      · exact .failed trivial

end GenericRuntime

end CapabilityCompiler.Execution
