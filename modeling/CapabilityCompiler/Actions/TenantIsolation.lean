import CapabilityCompiler.Actions.LedgerRecovery
import CapabilityCompiler.Execution.TenantIsolation

/-! A call of an action carries the tenant of its principal, and so does every call of a run. -/
namespace CapabilityCompiler.Actions
open Foundation Models Execution Policies

/-- The arguments an operation of the provider is performed with. -/
def ActionRequest.arguments? : ActionRequest → Option Fields
  | .read call | .mutate call _ _ => some call.arguments
  | _ => none

namespace ActionOperationCaller
variable (caller : ActionOperationCaller)

def tenant : Json := tenantId caller.host caller.principalContext

/-- The arguments that are sent for a call. -/
def sent (call : CallRequest) : Option Fields :=
  (caller.request call).toOption.bind ActionRequest.arguments?

/-- A read, or a mutation of a commit that has what it needs. -/
def Performs (call : CallRequest) (asked : ActionRequest) : Prop :=
  (call.operation.kind = .read ∧ asked = .read call) ∨
    (call.operation.kind = .action ∧ caller.phase = .commit ∧
      ∃ key, caller.idempotencyKey = some key ∧
        ¬ (requiresToken call.operation = true ∧ caller.concurrencyToken = .null) ∧
        asked = .mutate call key caller.concurrencyToken)

def effectivePolicy (definition : Operation) : Policy :=
  { caller.policy with
    requiredScopes := Text.sortedSet (caller.policy.requiredScopes ++ definition.http.scopes) }

/-- The context is bound, and every check passes but the one for the tenant. -/
def Accepts (field : String) (call : CallRequest) (bound : Fields) : Prop :=
  operation? call.operation.id caller.operations = some call.operation ∧
    bindContext caller.host caller.principalContext caller.allowedContextBindings
      call.operation.contextBindings call.arguments = .ok bound ∧
    injectAt caller.tenant (injectionTokens field) bound =
      .ok (fillAt caller.tenant (injectionTokens field) bound) ∧
    caller.host.schemas.valid call.operation.inputSchema
      (.obj (fillAt caller.tenant (injectionTokens field) bound)) = true ∧
    (caller.effectivePolicy call.operation).requiredScopes ⊆
      caller.principalContext.effectiveScopes ∧
    ∃ asked, caller.Performs call asked

/-- A look-alike of the tenant is at the policy's path, among the arguments or the bound context,
and nothing else is wrong with the call. -/
def Mistaken (field : String) (call : CallRequest) : Prop :=
  ∃ bound x, caller.Accepts field call bound ∧
    lookup (.obj bound) (parsePath field) = some x ∧ LookAlike x caller.tenant

variable {caller} {field : String}

theorem permit_eq_ok_iff {definition : Operation} {enriched : Fields} :
    caller.permit definition enriched = .ok () ↔
      caller.host.schemas.valid definition.inputSchema (.obj enriched) = true ∧
      Policies.authorize (caller.effectivePolicy definition)
        caller.principalContext.effectiveScopes enriched caller.tenant = .ok () := by
  unfold permit
  dsimp only
  split
  · rename_i hvalid
    exact ⟨fun h => ⟨hvalid, h⟩, fun h => h.2⟩
  · rename_i hinvalid
    exact ⟨fun h => absurd h (by simp), fun h => absurd h.1 hinvalid⟩

theorem request_eq_ok_iff {call : CallRequest} {asked : ActionRequest} :
    caller.request call = .ok asked ↔
      operation? call.operation.id caller.operations = some call.operation ∧ ∃ enriched,
        caller.enrich call.operation call.arguments = .ok enriched ∧
        caller.permit call.operation enriched = .ok () ∧
        caller.Performs { call with arguments := enriched } asked := by
  unfold request
  constructor
  · intro h
    split at h
    · exact absurd h (by simp)
    · rename_i definition hdefinition
      split at h
      · exact absurd h (by simp)
      · rename_i hsame
        obtain rfl := not_not.mp hsame
        refine ⟨hdefinition, ?_⟩
        cases henrich : caller.enrich call.operation call.arguments with
        | error error => exact absurd h (by simp [henrich, bind, Except.bind])
        | ok enriched =>
          cases hpermit : caller.permit call.operation enriched with
          | error error => exact absurd h (by simp [henrich, hpermit, bind, Except.bind])
          | ok _ =>
            simp only [henrich, hpermit, bind, Except.bind] at h
            refine ⟨enriched, rfl, hpermit, ?_⟩
            split at h
            · rename_i hkind
              exact .inl ⟨hkind, (Except.ok.inj h).symm⟩
            · rename_i hkind
              split at h
              · rename_i key hphase hkey
                split at h
                · exact absurd h (by simp)
                · rename_i htoken
                  rw [Bool.and_eq_true, decide_eq_true_eq] at htoken
                  exact .inr ⟨hkind, hphase, key, hkey, htoken, (Except.ok.inj h).symm⟩
              · exact absurd h (by simp)
  · rintro ⟨hdefinition, enriched, henrich, hpermit, hperforms⟩
    rw [hdefinition]
    simp only [ne_eq, not_true_eq_false, if_false, henrich, hpermit, bind, Except.bind]
    rcases hperforms with ⟨hkind, rfl⟩ | ⟨hkind, hphase, key, hkey, htoken, rfl⟩
    · have hread : call.operation.kind = .read := hkind
      simp only [hread]
      rfl
    · have haction : call.operation.kind = .action := hkind
      simp only [hphase, hkey, Bool.and_eq_true, decide_eq_true_eq]
      rw [if_neg htoken]
      simp only [haction]
      rfl

section Required
variable (hmode : caller.policy.tenantMode = .required)
  (hfield : caller.policy.tenantField = some field)
include hmode hfield

/-- A tenant is injected behind the bound context. -/
theorem enrich_eq_ok_iff (htenant : caller.tenant ≠ .null) {definition : Operation}
    {arguments enriched : Fields} : caller.enrich definition arguments = .ok enriched ↔
      ∃ bound, bindContext caller.host caller.principalContext caller.allowedContextBindings
          definition.contextBindings arguments = .ok bound ∧
        injectAt caller.tenant (injectionTokens field) bound = .ok enriched := by
  unfold enrich
  cases bindContext caller.host caller.principalContext caller.allowedContextBindings
    definition.contextBindings arguments with
  | error error => simp [bind, Except.bind]
  | ok bound =>
    simp only [bind, Except.bind, hmode, hfield, injectContextValue]
    change (if caller.tenant = .null then Except.ok bound else
      injectAt caller.tenant (injectionTokens field) bound) = .ok enriched ↔ _
    rw [if_neg htenant]
    exact ⟨fun h => ⟨bound, rfl, h⟩, fun ⟨_, hbound, h⟩ => Except.ok.inj hbound ▸ h⟩

theorem sent_eq_some_iff {call : CallRequest} {performed : Fields} :
    caller.sent call = some performed ↔ ∃ bound, caller.Accepts field call bound ∧
      performed = fillAt caller.tenant (injectionTokens field) bound ∧ caller.tenant ≠ .null ∧
      ∃ x, lookup (.obj performed) (parsePath field) = some x ∧ x.pyEqual caller.tenant = true := by
  have hsent : caller.sent call = some performed ↔
      ∃ asked, caller.request call = .ok asked ∧ asked.arguments? = some performed := by
    unfold sent
    cases caller.request call <;> simp [Except.toOption]
  rw [hsent]
  constructor
  · rintro ⟨asked, hrequest, hperformed⟩
    obtain ⟨hdefinition, enriched, henrich, hpermit, hperforms⟩ := request_eq_ok_iff.mp hrequest
    obtain ⟨hvalid, hauthorized⟩ := permit_eq_ok_iff.mp hpermit
    obtain ⟨hscopes, htenant, hfound⟩ :=
      (@authorize_required_iff (caller.effectivePolicy call.operation) field hmode hfield _ _ _).mp
        hauthorized
    obtain ⟨bound, hbound, hinjected⟩ := (enrich_eq_ok_iff hmode hfield htenant).mp henrich
    obtain ⟨-, rfl⟩ := fillAt_of_injectAt hinjected
    have harguments : fillAt caller.tenant (injectionTokens field) bound = performed := by
      rcases hperforms with ⟨-, rfl⟩ | ⟨-, -, key, -, -, rfl⟩ <;> exact Option.some.inj hperformed
    obtain rfl := harguments
    refine ⟨bound, ⟨hdefinition, hbound, hinjected, hvalid, hscopes, ?_⟩, rfl, htenant, hfound⟩
    rcases hperforms with ⟨hkind, -⟩ | ⟨hkind, hphase, key, hkey, htoken, -⟩
    · exact ⟨_, .inl ⟨hkind, rfl⟩⟩
    · exact ⟨_, .inr ⟨hkind, hphase, key, hkey, htoken, rfl⟩⟩
  · rintro ⟨bound, ⟨hdefinition, hbound, hinjected, hvalid, hscopes, asked, hperforms⟩, rfl,
      htenant, hfound⟩
    have henrich := (enrich_eq_ok_iff hmode hfield htenant).mpr ⟨bound, hbound, hinjected⟩
    have hpermit := permit_eq_ok_iff.mpr ⟨hvalid,
      (@authorize_required_iff (caller.effectivePolicy call.operation) field hmode hfield _ _ _).mpr
        ⟨hscopes, htenant, hfound⟩⟩
    rcases hperforms with ⟨hkind, -⟩ | ⟨hkind, hphase, key, hkey, htoken, -⟩
    · exact ⟨_, request_eq_ok_iff.mpr ⟨hdefinition, _, henrich, hpermit, .inl ⟨hkind, rfl⟩⟩, rfl⟩
    · exact ⟨_, request_eq_ok_iff.mpr ⟨hdefinition, _, henrich, hpermit,
        .inr ⟨hkind, hphase, key, hkey, htoken, rfl⟩⟩, rfl⟩

/-- A call of an action is isolated exactly when it is not mistaken. -/
theorem isolated_iff_not_mistaken (call : CallRequest) :
    Isolated field caller.tenant call.arguments (caller.sent call) ↔ ¬ caller.Mistaken field call :=
  isolated_iff (reaches_injectionTokens field)
    (fun _ haccepted => extends_of_bindContext haccepted.2.1)
    fun _ => sent_eq_some_iff hmode hfield

end Required

end ActionOperationCaller

/-! Runs. -/

section Loaded
variable {isValid : Json → Json → Bool} (host : Host) (loaded : LoadedAction isValid)
  (principalContext : PrincipalContext)

/-- The callers of an action differ in their phase and in what a commit is given. -/
def CallerOf (caller : ActionOperationCaller) : Prop :=
  caller.host = host ∧ caller.policy = loaded.policy ∧ caller.principalContext = principalContext

/-- What a caller of the action lets through, if it is a call at all. -/
def Requested (asked : ActionRequest) : Prop :=
  asked.arguments? = none ∨ ∃ caller call, CallerOf host loaded principalContext caller ∧
    caller.request call = .ok asked

theorem asks_requested {caller : ActionOperationCaller}
    (h : CallerOf host loaded principalContext caller) :
    Asks (Requested host loaded principalContext) caller :=
  fun call _ hrequest => .inr ⟨caller, call, h, hrequest⟩

theorem sends_preview_requested (arguments : Json) :
    Execution.Sends (Requested host loaded principalContext)
      (preview host loaded arguments principalContext) :=
  sends_preview host loaded (performs_of_asks (asks_requested host loaded principalContext
    ⟨rfl, rfl, rfl⟩)) (.inl rfl)

theorem sends_commit_requested (execution : ActionCommitExecution) :
    Execution.Sends (Requested host loaded principalContext)
      (commit host loaded execution principalContext) := by
  have hloaded : ∀ current : ActionCommitExecution,
      Execution.Sends (Requested host loaded principalContext)
        (commitLoaded host loaded current principalContext) := fun current =>
    sends_commitLoaded_of_performs host loaded
      (performs_of_asks (asks_requested host loaded principalContext ⟨rfl, rfl, rfl⟩))
      (asks_requested host loaded principalContext ⟨rfl, rfl, rfl⟩) (.inl rfl)
  exact sends_commit_of_loaded host loaded (fun _ => .inl rfl)
    (sends_preview_requested host loaded principalContext _) (fun _ => hloaded _)
    fun _ _ _ _ => hloaded _

theorem sends_recovery_requested (execution : ActionCommitExecution) :
    Process.Obeys (Requested host loaded principalContext) (fun _ => True)
      (resolveUnknownOutcome host loaded execution principalContext) := by
  have hnext : ∀ outcome, Process.Obeys (Requested host loaded principalContext) (fun _ => True)
      (concludeRecovery host loaded outcome) := by
    intro outcome
    unfold concludeRecovery
    split
    · split
      · exact .done _
      · exact .failed trivial
    · split
      · exact .done _
      · exact .failed trivial
    · exact .failed trivial
  unfold resolveUnknownOutcome queryLedger ActionOperationCaller.ask
  split
  · exact .failed trivial
  · split
    · exact .failed trivial
    · split
      · exact .done _
      · split
        · split
          · split
            · split
              · exact hnext _
              · rename_i asked hrequest
                exact .request (asks_requested host loaded principalContext ⟨rfl, rfl, rfl⟩ _ asked
                  hrequest) fun _ => hnext _
            · exact hnext _
          · exact hnext _
        · exact hnext _

/-- What is sent in a run of the action: of a preview, of a commit or of a recovery. -/
inductive ActionRun : List (Process.Event ActionRequest ActionReply) → Prop where
  | preview {arguments : Json} {events : List (Process.Event ActionRequest ActionReply)}
      {reached : ActionProcess} :
      Process.Run (preview host loaded arguments principalContext) events reached →
      ActionRun events
  | commit {execution : ActionCommitExecution}
      {events : List (Process.Event ActionRequest ActionReply)} {reached : ActionProcess} :
      Process.Run (commit host loaded execution principalContext) events reached →
      ActionRun events
  | recovery {execution : ActionCommitExecution}
      {events : List (Process.Event ActionRequest ActionReply)} {reached : RecoveryProcess} :
      Process.Run (resolveUnknownOutcome host loaded execution principalContext) events reached →
      ActionRun events

variable {host loaded principalContext}

theorem ActionRun.requested {events : List (Process.Event ActionRequest ActionReply)}
    (h : ActionRun host loaded principalContext events) {asked : ActionRequest}
    (hasked : Process.Event.sent asked ∈ events) : Requested host loaded principalContext asked := by
  cases h with
  | preview hrun => exact ((sends_preview_requested host loaded principalContext _).run hrun).2 _ hasked
  | commit hrun => exact ((sends_commit_requested host loaded principalContext _).run hrun).2 _ hasked
  | recovery hrun =>
    exact ((sends_recovery_requested host loaded principalContext _).run hrun).2 _ hasked

theorem ActionRun.carries {events : List (Process.Event ActionRequest ActionReply)} {field : String}
    (h : ActionRun host loaded principalContext events)
    (hmode : loaded.policy.tenantMode = .required) (hfield : loaded.policy.tenantField = some field)
    {asked : ActionRequest} {performed : Fields} (hasked : Process.Event.sent asked ∈ events)
    (hperformed : asked.arguments? = some performed) :
    ∃ caller call, CallerOf host loaded principalContext caller ∧
      caller.sent call = some performed ∧
      (caller.Mistaken field call ∨ Carries field (tenantId host principalContext) performed) := by
  rcases h.requested hasked with hnone | ⟨caller, call, hcaller, hrequest⟩
  · exact absurd (hnone.symm.trans hperformed) (by simp)
  · have hsent : caller.sent call = some performed := by
      rw [ActionOperationCaller.sent, hrequest]
      exact hperformed
    have htenant : caller.tenant = tenantId host principalContext := by
      rw [ActionOperationCaller.tenant, hcaller.1, hcaller.2.2]
    have hisolated := ActionOperationCaller.isolated_iff_not_mistaken
      (hcaller.2.1 ▸ hmode) (hcaller.2.1 ▸ hfield) call
    refine ⟨caller, call, hcaller, hsent, or_iff_not_imp_left.mpr fun hclear => ?_⟩
    exact htenant ▸ (hisolated.mpr hclear).carries performed hsent

end Loaded

/-- Under a policy that requires the tenant, a call is isolated exactly when no look-alike of the
tenant stands in for it; and whatever a run sends is sent for such a call. -/
theorem tenant_isolation (field : String) :
    (∀ (caller : PolicyOperationCaller) (call : CallRequest),
      caller.policy.tenantMode = .required → caller.policy.tenantField = some field →
      (Isolated field caller.tenant call.arguments (caller.sent call) ↔
        ¬ caller.Mistaken field call)) ∧
    (∀ (caller : ActionOperationCaller) (call : CallRequest),
      caller.policy.tenantMode = .required → caller.policy.tenantField = some field →
      (Isolated field caller.tenant call.arguments (caller.sent call) ↔
        ¬ caller.Mistaken field call)) ∧
    (∀ (runtime : GenericRuntime) (capability : ReadCapability) (policy : Policy)
      (maxOutputBytes : Option ℕ) (arguments : Fields)
      (events : List (Process.Event CallRequest Reply))
      (reached : Process CallRequest Reply Failure Json),
      runtime.policy? capability.policy = some policy →
      policy.tenantMode = .required → policy.tenantField = some field →
      Process.Run (runtime.executeCall capability maxOutputBytes arguments) events reached →
      ∀ asked, .sent asked ∈ events → ∃ call,
        (runtime.operationCaller policy).sent call = some asked.arguments ∧
        ((runtime.operationCaller policy).Mistaken field call ∨
          Carries field (tenantId runtime.host runtime.principalContext) asked.arguments)) ∧
    ∀ (isValid : Json → Json → Bool) (host : Host) (loaded : LoadedAction isValid)
      (principalContext : PrincipalContext)
      (events : List (Process.Event ActionRequest ActionReply)),
      loaded.policy.tenantMode = .required → loaded.policy.tenantField = some field →
      ActionRun host loaded principalContext events →
      ∀ asked performed, .sent asked ∈ events → asked.arguments? = some performed →
        ∃ caller call, CallerOf host loaded principalContext caller ∧
          caller.sent call = some performed ∧
          (caller.Mistaken field call ∨
            Carries field (tenantId host principalContext) performed) := by
  refine ⟨fun caller call hmode hfield =>
      PolicyOperationCaller.isolated_iff_not_mistaken hmode hfield call,
    fun caller call hmode hfield =>
      ActionOperationCaller.isolated_iff_not_mistaken hmode hfield call,
    fun runtime capability policy maxOutputBytes arguments events reached hpolicy hmode hfield
      hrun asked hasked => ?_,
    fun _ _ _ _ _ hmode hfield hrun _ _ hasked hperformed =>
      hrun.carries hmode hfield hasked hperformed⟩
  obtain ⟨call, hrequest⟩ :=
    ((GenericRuntime.sends_executeCall hpolicy maxOutputBytes arguments).run hrun).2 asked hasked
  have hsent : (runtime.operationCaller policy).sent call = some asked.arguments := by
    rw [PolicyOperationCaller.sent, hrequest]
    rfl
  have hisolated :=
    @PolicyOperationCaller.isolated_iff_not_mistaken (runtime.operationCaller policy) field hmode
      hfield call
  exact ⟨call, hsent, or_iff_not_imp_left.mpr fun hclear =>
    (hisolated.mpr hclear).carries _ hsent⟩

/-! Two principals: one whose tenant is a text, and one whose tenant is the number one. -/

theorem not_lookAlike_text {x : Json} {tenant : String} : ¬ LookAlike x (.str tenant) := by
  rintro ⟨hequal, hdiffers⟩
  cases x with
  | str text =>
    simp only [Json.pyEqual, Json.eqWith, Json.pyLeaf, beq_iff_eq] at hequal
    exact absurd hdiffers (by simp [hequal, Json.jsonEqual, Json.eqWith, Json.jsonLeaf])
  | _ => exact absurd hequal (by simp [Json.pyEqual, Json.eqWith, Json.pyLeaf, Json.pyLeaf.pyNum?,
      Json.num?])

def tenantPolicy : Policy where
  id := "orders"
  requiredScopes := []
  tenantMode := .required
  tenantField := some "tenant_id"
  readableFields := []
  deniedFields := []
  redactionRules := []

/-- A read on behalf of a principal with this tenant. -/
def readerOf (tenant : Json) : PolicyOperationCaller where
  host := exampleHost
  policy := tenantPolicy
  principalContext :=
    ⟨"operator", "orders", ["orders.read", "orders.write"], some [("tenant_id", tenant)]⟩
  allowedContextBindings := []

def readFor (tenant : Json) : CallRequest := ⟨readOrder, [("tenant_id", tenant)], [0]⟩

/-- A tenant that is a text has no look-alike. -/
theorem tenant_isolation_text :
    Isolated "tenant_id" (.str "north") [("tenant_id", .str "south")]
      ((readerOf (.str "north")).sent (readFor (.str "south"))) := by
  have htenant : (readerOf (.str "north")).tenant = .str "north" := by decide
  have hclear : ¬ (readerOf (.str "north")).Mistaken "tenant_id" (readFor (.str "south")) := by
    rintro ⟨bound, x, -, -, hlike⟩
    rw [htenant] at hlike
    exact not_lookAlike_text hlike
  exact htenant ▸ ((tenant_isolation "tenant_id").1 (readerOf (.str "north"))
    (readFor (.str "south")) rfl rfl).mpr hclear

/-- The boolean stands for the tenant that is the number one. -/
theorem boolean_tenant_sent :
    (readerOf (.int 1)).tenant = .int 1 ∧
      (readerOf (.int 1)).sent (readFor (.bool true)) = some [("tenant_id", .bool true)] ∧
      ¬ Isolated "tenant_id" (readerOf (.int 1)).tenant [("tenant_id", .bool true)]
        ((readerOf (.int 1)).sent (readFor (.bool true))) := by
  have hsent : (readerOf (.int 1)).sent (readFor (.bool true)) =
      some [("tenant_id", .bool true)] := by decide
  refine ⟨by decide, hsent, fun h => ?_⟩
  have hnone := h.other ⟨by decide, .bool true, by decide, by decide⟩
  exact absurd (hsent.symm.trans hnone) (by simp)

end CapabilityCompiler.Actions
