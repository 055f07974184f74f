import CapabilityCompiler.Actions.CoordinatorConduct

/-! Every call of a coordinator keeps to its conduct. -/
namespace CapabilityCompiler.Actions
open Foundation

variable {packs : Packs} {h h' : History}

theorem Reports.mono {call : CoordinatorCall packs} {report : CoordinatorReport}
    (hreports : Reports call h report) (hsub : h ⊆ h') : Reports call h' report := by
  cases hreports with
  | prepared hprepare => exact .prepared hprepare
  | approved htold => exact .approved (htold.mono hsub)
  | replayed htold hstatus => exact .replayed (htold.mono hsub) hstatus
  | committed htold => exact .committed (htold.mono hsub)
  | status hcall htold => exact .status hcall (htold.mono hsub)

/-! Sound histories. -/

/-- A history in which nothing is left to be settled and no required audit event was lost. -/
structure Sound (coordinator : Coordinator packs) (h : History) : Prop where
  audited : Audited coordinator h
  settled : Settled h

theorem Calm.sound {coordinator : Coordinator packs} (hcalm : Calm coordinator h) :
    Sound coordinator h :=
  ⟨hcalm.audited, hcalm.settled⟩

theorem Sound.exchange {coordinator : Coordinator packs} (hsound : Sound coordinator h)
    {q : CoordinatorRequest} {r : CoordinatorReply} (hemit : ∀ event, q ≠ .emit event)
    (hbegin : ∀ handle owner, q ≠ .store (beginCommit handle owner)) :
    Sound coordinator (h ++ Actions.exchange q r) where
  audited := hsound.audited.exchange fun event hq => absurd hq (hemit event)
  settled := hsound.settled.exchange fun handle owner _ hq _ => absurd hq (hbegin handle owner)

theorem settled_emit (hsettled : Settled h) (event : ActionAuditEvent) (r : CoordinatorReply) :
    Settled (h ++ exchange (.emit event) r) :=
  hsettled.exchange fun _ _ _ hq _ => absurd hq (by simp)

/-- All is settled but the action that is being committed. -/
def SettledBut (handle : String) (owner : Owner) (h : History) : Prop :=
  ∀ handle' owner' committing, Told h (beginCommit handle' owner') committing →
    Settles h handle' owner' committing ∨ handle' = handle ∧ owner' = owner

theorem settledBut_begun (hsettled : Settled h) (handle : String) (owner : Owner)
    (r : CoordinatorReply) :
    SettledBut handle owner (h ++ exchange (.store (beginCommit handle owner)) r) := by
  intro handle' owner' committing htold
  rcases replied_cases htold with hearlier | ⟨hq, -⟩
  · exact .inl ((hsettled _ _ _ hearlier).mono (subset_exchange _ _))
  · right
    simpa [beginCommit] using hq

theorem SettledBut.exchange {handle : String} {owner : Owner} (hbut : SettledBut handle owner h)
    {q : CoordinatorRequest} {r : CoordinatorReply}
    (hbegin : ∀ handle owner, q ≠ .store (beginCommit handle owner)) :
    SettledBut handle owner (h ++ Actions.exchange q r) := by
  intro handle' owner' committing htold
  rcases replied_cases htold with hearlier | ⟨hq, -⟩
  · rcases hbut _ _ _ hearlier with hsettles | hthis
    · exact .inl (hsettles.mono (subset_exchange _ _))
    · exact .inr hthis
  · exact absurd hq.symm (hbegin _ _)

/-- The action that is being committed has been made successful, or asked to be marked. -/
theorem SettledBut.settled {handle : String} {owner : Owner} (hbut : SettledBut handle owner h)
    (hends : (∃ result state, Told h (.transition handle owner .committing .succeeded result)
        state) ∨ ∃ shielded r, .replied (.store (markUnknown handle owner) shielded) r ∈ h) :
    Settled h := by
  intro handle' owner' committing htold
  rcases hbut _ _ _ htold with hsettles | ⟨rfl, rfl⟩
  · exact hsettles
  · rcases hends with hsucceeded | hmarked
    · exact .inl hsucceeded
    · exact .inr (.inl hmarked)

theorem stored_of_awaited {r : CoordinatorReply} {state : PreparedActionState}
    (h : awaited r = .ok state) : r = .stored (.state state) := by
  cases r with
  | stored answer =>
    cases answer with
    | created handle state' => simp [awaited] at h
    | state state' =>
      obtain rfl : state' = state := by simpa [awaited] using h
      rfl
    | raised error => simp [awaited] at h
  | _ => simp [awaited] at h

/-! Audit spans. -/

section Audit
variable {call : CoordinatorCall packs}

/-- A span of this lifecycle; it is there if audits are required. -/
def Spans (coordinator : Coordinator packs) (lifecycle : ActionAuditLifecycle)
    (span : Option Coordinator.AuditSpan) : Prop :=
  (coordinator.auditRequired = true → span.isSome = true) ∧
    ∀ started, span = some started → started.lifecycle = lifecycle

theorem conducts_failed (hsettled : Settled h) (failure : CoordinatorFailure) :
    Conducts call h (raise failure) :=
  .failed ⟨hsettled, fun _ hok => absurd hok (by simp)⟩

theorem auditRequired_of_audit_none {coordinator : Coordinator packs}
    (haudit : coordinator.audit = none) : coordinator.auditRequired = false := by
  rw [Coordinator.auditRequired, decide_eq_false_iff_not]
  intro hrequired
  have hsome := coordinator.audited hrequired
  rw [haudit] at hsome
  exact absurd hsome (by simp)

theorem auditSpan_spans {identity : AuditIdentity} {lifecycle : ActionAuditLifecycle}
    {capabilityId : String} {context : CallerContext} {actionDigest : Option String}
    {span : Coordinator.AuditSpan}
    (hspan : Coordinator.auditSpan identity lifecycle capabilityId context actionDigest =
      .ok span) :
    span.lifecycle = lifecycle ∧ span.actionDigest = actionDigest := by
  rw [Coordinator.auditSpan] at hspan
  cases hcapability : exactIdentifier capabilityId "capability_id" with
  | error error => simp [hcapability, bind, Except.bind] at hspan
  | ok capability =>
    cases hprincipal : exactIdentifier context.principalId "principal_id" with
    | error error => simp [hcapability, hprincipal, bind, Except.bind] at hspan
    | ok principal =>
      cases hsession : exactIdentifier? context.gatewaySessionId "session_id" with
      | error error => simp [hcapability, hprincipal, hsession, bind, Except.bind] at hspan
      | ok session =>
        simp only [hcapability, hprincipal, hsession, bind, Except.bind, pure, Except.pure,
          Except.ok.injEq] at hspan
        subst hspan
        exact ⟨rfl, rfl⟩

/-- A lifecycle is announced before it goes on. -/
theorem conducts_startAudit (call : CoordinatorCall packs) (hcalm : Calm call.coordinator h)
    {lifecycle : ActionAuditLifecycle} {capabilityId : String} {context : CallerContext}
    {actionDigest : Option String}
    {next : Option Coordinator.AuditSpan → CoordinatorProcess}
    (hnext : ∀ span h', h ⊆ h' → Calm call.coordinator h' →
      Announced call.coordinator lifecycle actionDigest h' →
      Spans call.coordinator lifecycle span → Conducts call h' (next span)) :
    Conducts call h
      (call.coordinator.startAudit lifecycle capabilityId context actionDigest next) := by
  unfold Coordinator.startAudit
  cases haudit : call.coordinator.audit with
  | none =>
    have hrequired := auditRequired_of_audit_none haudit
    refine hnext none h (List.Subset.refl h) hcalm (fun hr => ?_) ⟨fun hr => ?_, by simp⟩
    · exact absurd hr (by simp [hrequired])
    · exact absurd hr (by simp [hrequired])
  | some identity =>
    simp only
    cases hspan : Coordinator.auditSpan identity lifecycle capabilityId context actionDigest with
    | error error => exact conducts_failed hcalm.settled _
    | ok span =>
      obtain ⟨hlifecycle, hdigest⟩ := auditSpan_spans hspan
      refine .request ⟨hcalm.audited, .emit⟩ fun r => ?_
      have hsettled := settled_emit hcalm.settled
        (call.coordinator.spanEvent span none .started none none) r
      -- Without its event a lifecycle goes on only where audits are not required.
      have hlost : Conducts call
          (h ++ exchange (.emit (call.coordinator.spanEvent span none .started none none)) r)
          (if call.coordinator.auditRequired then
            failed (auditUnavailable "Required Action audit could not be started")
          else next none) := by
        by_cases hrequired : call.coordinator.auditRequired = true
        · rw [if_pos hrequired]
          exact conducts_failed hsettled _
        · rw [if_neg hrequired]
          exact hnext none _ (subset_exchange _ _)
            (hcalm.emitted _ fun hr => absurd hr hrequired) (fun hr => absurd hr hrequired)
            ⟨fun hr => absurd hr hrequired, by simp⟩
      split
      · refine hnext (some span) _ (subset_exchange _ _) (hcalm.emitted _ fun _ => rfl)
          (fun _ => ⟨_, replied_exchange _ _, hlifecycle, rfl, ?_⟩) ⟨fun _ => rfl, ?_⟩
        · exact hdigest
        · intro started hstarted
          obtain rfl : span = started := by simpa using hstarted
          exact hlifecycle
      · exact conducts_failed hsettled _
      · exact hlost

/-- An event of this lifecycle was recorded. -/
def Recorded (coordinator : Coordinator packs) (lifecycle : ActionAuditLifecycle)
    (category : ActionAuditResultCategory) (status : Option PreparedActionStatus) (h : History) :
    Prop :=
  coordinator.auditRequired = true → ∃ event, .replied (.emit event) .emitted ∈ h ∧
    event.lifecycle = lifecycle ∧ event.resultCategory = category ∧ event.status = status

/-- The end of a lifecycle is recorded before a call can go on to report it. -/
theorem conducts_finishAudit (hsound : Sound call.coordinator h)
    {span : Option Coordinator.AuditSpan} {lifecycle : ActionAuditLifecycle}
    (hspans : Spans call.coordinator lifecycle span) {status : Option PreparedActionStatus}
    {category : ActionAuditResultCategory} {actionDigest decisionId : Option String}
    {next : Except CoordinatorFailure Unit → CoordinatorProcess}
    (hok : ∀ h', h ⊆ h' → Settled h' → Recorded call.coordinator lifecycle category status h' →
      Conducts call h' (next (.ok ())))
    (herror : ∀ h' failure, Settled h' → Conducts call h' (next (.error failure))) :
    Conducts call h
      (call.coordinator.finishAudit span status category actionDigest decisionId next) := by
  unfold Coordinator.finishAudit
  cases span with
  | none =>
    refine hok h (List.Subset.refl h) hsound.settled fun hr => ?_
    exact absurd (hspans.1 hr) (by simp)
  | some span =>
    refine .request ⟨hsound.audited, .emit⟩ fun r => ?_
    have hsettled := settled_emit hsound.settled
      (call.coordinator.spanEvent span status category actionDigest decisionId) r
    have hlost : Conducts call (h ++ exchange
          (.emit (call.coordinator.spanEvent span status category actionDigest decisionId)) r)
        (if call.coordinator.auditRequired then
          next (.error (.error (auditUnavailable "Required Action audit could not be recorded")))
        else next (.ok ())) := by
      by_cases hrequired : call.coordinator.auditRequired = true
      · rw [if_pos hrequired]
        exact herror _ _ hsettled
      · rw [if_neg hrequired]
        exact hok _ (subset_exchange _ _) hsettled fun hr => absurd hr hrequired
    split
    · exact hok _ (subset_exchange _ _) hsettled fun _ =>
        ⟨_, replied_exchange _ _, hspans.2 span rfl, rfl, rfl⟩
    · exact herror _ _ hsettled
    · exact hlost

theorem conducts_finishCancelledAudit (call : CoordinatorCall packs)
    (hsound : Sound call.coordinator h) {span : Option Coordinator.AuditSpan}
    {lifecycle : ActionAuditLifecycle}
    (hspans : Spans call.coordinator lifecycle span) (status : Option PreparedActionStatus) :
    Conducts call h (call.coordinator.finishCancelledAudit span status) :=
  conducts_finishAudit hsound hspans (fun _ _ hsettled _ => conducts_failed hsettled _)
    fun _ _ hsettled => conducts_failed hsettled _

/-- A lifecycle that ends in failure only raises. -/
theorem conducts_raised (call : CoordinatorCall packs) (hsound : Sound call.coordinator h)
    {span : Option Coordinator.AuditSpan} {lifecycle : ActionAuditLifecycle}
    (hspans : Spans call.coordinator lifecycle span) {status : Option PreparedActionStatus}
    {category : ActionAuditResultCategory} (failure : CoordinatorFailure) :
    Conducts call h (call.coordinator.finishAudit span status category none none fun
      | .ok _ => raise failure
      | .error error => raise error) :=
  conducts_finishAudit hsound hspans (fun _ _ hsettled _ => conducts_failed hsettled _)
    fun _ _ hsettled => conducts_failed hsettled _

theorem conducts_concludeAudit (hsound : Sound call.coordinator h)
    {span : Option Coordinator.AuditSpan}
    (hspans : Spans call.coordinator call.lifecycle span)
    {failureStatus : Option PreparedActionStatus}
    {outcome : Except CoordinatorFailure CoordinatorReport}
    (hreports : ∀ report, outcome = .ok report → Reports call h report)
    {completion : CoordinatorReport → PreparedActionStatus × Option String × Option String}
    (hcompletion : ∀ report, (completion report).1 = report.shownStatus) :
    Conducts call h (call.coordinator.concludeAudit span failureStatus outcome completion) := by
  unfold Coordinator.concludeAudit
  cases outcome with
  | error failure =>
    cases failure with
    | cancelled => exact conducts_finishCancelledAudit call hsound hspans _
    | error error => exact conducts_raised call hsound hspans _
    | exception => exact conducts_raised call hsound hspans _
  | ok report =>
    refine conducts_finishAudit hsound hspans (fun h' hsub hsettled hrecorded => ?_)
      fun _ _ hsettled => conducts_failed hsettled _
    refine .done ⟨hsettled, fun report' hreport => ?_⟩
    obtain rfl : report = report' := by simpa using hreport
    refine ⟨(hreports report rfl).mono hsub, fun hr => ?_⟩
    obtain ⟨event, hmem, hlifecycle, hcategory, hstatus⟩ := hrecorded hr
    refine ⟨event, hmem, hlifecycle, .inl hcategory, ?_⟩
    rw [hstatus, hcompletion]

end Audit

/-! The calls. -/

theorem definition_of_authorized {coordinator : Coordinator packs} {capabilityId : String}
    {context : CallerContext} {definition : CompiledActionDefinition}
    (hauthorized : coordinator.authorized capabilityId context = .ok definition) :
    coordinator.definition capabilityId = .ok definition := by
  rw [Coordinator.authorized] at hauthorized
  cases hdefinition : coordinator.definition capabilityId with
  | error error => simp [hdefinition, bind, Except.bind] at hauthorized
  | ok found =>
    simp only [hdefinition, bind, Except.bind] at hauthorized
    split at hauthorized
    · simpa [pure, Except.pure] using hauthorized
    · exact absurd hauthorized (by simp)

theorem id_of_definition {coordinator : Coordinator packs} {capabilityId : String}
    {definition : CompiledActionDefinition}
    (hdefinition : coordinator.definition capabilityId = .ok definition) :
    definition.capability.id = capabilityId := by
  rw [Coordinator.definition] at hdefinition
  split at hdefinition
  · rename_i found hfound
    obtain rfl : found = definition := by simpa using hdefinition
    exact packs.keyed _ _ _ hfound
  · exact absurd hdefinition (by simp)

/-- A process goes on soundly with whatever it is handed. -/
def Continues {α : Type} (call : CoordinatorCall packs) (shown : α → CoordinatorReport)
    (next : Except CoordinatorFailure α → CoordinatorProcess) : Prop :=
  ∀ h outcome, Sound call.coordinator h →
    (∀ result, outcome = .ok result → Reports call h (shown result)) →
    Conducts call h (next outcome)

theorem Continues.failure {α : Type} {call : CoordinatorCall packs} {shown : α → CoordinatorReport}
    {next : Except CoordinatorFailure α → CoordinatorProcess}
    (hnext : Continues call shown next) (hsound : Sound call.coordinator h)
    (failure : CoordinatorFailure) : Conducts call h (next (.error failure)) :=
  hnext h _ hsound fun _ hok => absurd hok (by simp)

theorem conducts_assured {α : Type} {call : CoordinatorCall packs} {result : Except ActionError α}
    {next : α → CoordinatorProcess} {refuse : CoordinatorFailure → CoordinatorProcess}
    (hok : ∀ value, result = .ok value → Conducts call h (next value))
    (herror : ∀ failure, Conducts call h (refuse failure)) :
    Conducts call h (assured result next refuse) := by
  cases result with
  | ok value => exact hok value rfl
  | error error => exact herror _

theorem conducts_askStore {call : CoordinatorCall packs} {sc : StoreCall}
    (hsends : Sends call h (.store sc)) (haudited : Audited call.coordinator h)
    {next : Except CoordinatorFailure PreparedActionState → CoordinatorProcess}
    (hok : ∀ state, Conducts call (h ++ exchange (.store sc) (.stored (.state state)))
      (next (.ok state)))
    (herror : ∀ r failure, (∀ state, r ≠ .stored (.state state)) →
      Conducts call (h ++ exchange (.store sc) r) (next (.error failure))) :
    Conducts call h (askStore sc next) := by
  refine .request ⟨haudited, hsends⟩ fun r => ?_
  cases hawaited : awaited r with
  | ok state =>
    obtain rfl := stored_of_awaited hawaited
    exact hok state
  | error failure =>
    refine herror r failure fun state hstored => ?_
    rw [hstored, awaited] at hawaited
    exact absurd hawaited (by simp)

/-- What is sealed with an action is what its state is unsealed to. -/
theorem unsealed_of_sealedValue {definition : CompiledActionDefinition}
    {preview : ActionPreviewExecution} {generatedKey : Option String} {sealed : Json}
    (h : Coordinator.sealedValue definition preview generatedKey = .ok sealed)
    {state : PreparedActionState} (hstate : state.previewValue = sealed) :
    ∃ key, unsealPreview state = .ok
      { inputValue := state.inputValue
        previewValue := preview.value
        concurrencyToken := preview.concurrencyToken
        idempotencyKey := key
        idempotentTerminal := preview.idempotentTerminal
        idempotentResult := preview.idempotentResult } := by
  unfold Coordinator.sealedValue at h
  split at h
  · exact absurd h (by simp)
  · rename_i hterminal
    split at h
    · exact absurd h (by simp)
    · cases hkey : Coordinator.newIdempotencyKey generatedKey with
      | error error => simp [hkey, bind, Except.bind] at h
      | ok key =>
        have hnonempty : key ≠ "" := by
          rintro rfl
          unfold Coordinator.newIdempotencyKey at hkey
          cases generatedKey with
          | none => exact absurd hkey (by simp)
          | some generated =>
            simp only at hkey
            split at hkey
            · rename_i hexact
              obtain rfl : generated = "" := by simpa using hkey
              exact absurd hexact (by decide)
            · exact absurd hkey (by simp)
        simp only [hkey, bind, Except.bind, pure, Except.pure, Except.ok.injEq] at h
        rw [← h] at hstate
        rw [not_and, not_not] at hterminal
        refine ⟨key, ?_⟩
        cases hidempotent : preview.idempotentTerminal with
        | true => simp [unsealPreview, hstate, sealPreview, Json.field?, hidempotent, hnonempty]
        | false =>
          simp [unsealPreview, hstate, sealPreview, Json.field?, hidempotent, hnonempty,
            hterminal hidempotent]

/-- What is sealed with an action can be unsealed. -/
theorem sealed_of_sealedValue {definition : CompiledActionDefinition}
    {preview : ActionPreviewExecution} {generatedKey : Option String} {sealed : Json}
    (h : Coordinator.sealedValue definition preview generatedKey = .ok sealed) :
    Sealed sealed := by
  intro state hstate
  obtain ⟨key, hunsealed⟩ := unsealed_of_sealedValue h hstate
  exact ⟨_, hunsealed⟩

section Prepare
variable {call : CoordinatorCall packs} (hprepare : call.handle? = none)
  {next : Except CoordinatorFailure CoordinatorReport → CoordinatorProcess}
  (hnext : Continues call id next)
include hprepare hnext

theorem conducts_createAction (hcalm : Calm call.coordinator h)
    {definition : CompiledActionDefinition}
    (hdefinition : call.coordinator.definition definition.capability.id = .ok definition)
    (arguments preview : Json) {sealed : Json} (hsealed : Sealed sealed)
    (generatedHandle : String) :
    Conducts call h (call.coordinator.createAction definition arguments preview sealed call.context
      generatedHandle next) := by
  refine .request ⟨hcalm.audited, .create hprepare rfl hsealed⟩ fun r => ?_
  have hcreated := hcalm.plain
    (q := .store (.create
      { capabilityId := definition.capability.id
        owner := call.coordinator.owner call.context
        inputValue := arguments
        previewValue := sealed
        expiresInSeconds := definition.expiresInSeconds } generatedHandle)) rfl r
  split
  · rename_i handle state
    by_cases hneeded : definition.proof.approvalRequired = true
    · rw [if_pos hneeded]
      exact hnext _ _ hcreated.sound fun report hreport => by
        obtain rfl := (Except.ok.injEq _ _).mp hreport
        exact .prepared hprepare
    · rw [if_neg hneeded]
      refine .request ⟨hcreated.audited, ?_⟩ fun r => ?_
      · exact .approveCreated hprepare hdefinition (by simpa using hneeded) (replied_exchange _ _)
      · refine hnext _ _ (hcreated.plain rfl r).sound fun report hreport => ?_
        cases happroved : awaited r with
        | error failure => simp [happroved, Except.map] at hreport
        | ok approved =>
          obtain rfl := by simpa [happroved, Except.map] using hreport
          exact .prepared hprepare
  · cases hresult : (awaited r).bind fun _ => (.error .exception :
        Except CoordinatorFailure CoordinatorReport) with
    | error failure => exact hnext.failure hcreated.sound failure
    | ok report =>
      cases hawaited : awaited r with
      | error failure => simp [hawaited, Except.bind] at hresult
      | ok state => simp [hawaited, Except.bind] at hresult

theorem conducts_prepareAction (hcalm : Calm call.coordinator h) (capabilityId : String)
    (arguments : Fields) (generatedKey : Option String) (generatedHandle : String) :
    Conducts call h (call.coordinator.prepareAction capabilityId arguments call.context
      generatedKey generatedHandle next) := by
  unfold Coordinator.prepareAction
  cases hauthorized : call.coordinator.authorized capabilityId call.context with
  | error error => exact hnext.failure hcalm.sound _
  | ok definition =>
    have hdefinition := definition_of_authorized hauthorized
    have hid := id_of_definition hdefinition
    rw [assured]
    split
    · refine .request ⟨hcalm.audited, .preview⟩ fun r => ?_
      have hpreviewed := hcalm.plain
        (q := .preview definition.capability.id (.obj arguments) call.context) rfl r
      split
      · rename_i preview
        cases hsealed : Coordinator.sealedValue definition preview generatedKey with
        | error error => exact hnext.failure hpreviewed.sound _
        | ok sealed =>
          exact conducts_createAction hprepare hnext hpreviewed (by rw [hid]; exact hdefinition)
            (.obj arguments) preview.value (sealed_of_sealedValue hsealed) generatedHandle
      · exact hnext.failure hpreviewed.sound _
      · exact hnext.failure hpreviewed.sound _
      · exact hnext.failure hpreviewed.sound _
      · exact hnext.failure hpreviewed.sound _
    · exact hnext.failure hcalm.sound _

end Prepare

theorem conducts_prepare (coordinator : Coordinator packs) (capabilityId : String)
    (arguments : Fields) (context : CallerContext) (generatedKey : Option String)
    (generatedHandle : String) :
    Conducts (.prepare coordinator capabilityId arguments context generatedKey generatedHandle) []
      (coordinator.prepare capabilityId arguments context generatedKey generatedHandle) := by
  have hnil : Calm coordinator [] := calm_nil
  unfold Coordinator.prepare
  cases coordinator.definition capabilityId with
  | error error => exact conducts_failed hnil.settled _
  | ok definition =>
    rw [assured]
    refine conducts_startAudit (.prepare coordinator capabilityId arguments context generatedKey
      generatedHandle) hnil fun span h' _ hcalm _ hspans => ?_
    refine conducts_prepareAction rfl (fun h outcome hsound hreports => ?_) hcalm capabilityId
      arguments generatedKey generatedHandle
    exact conducts_concludeAudit hsound hspans hreports fun report => by cases report <;> rfl

/-- A call for a handle resolves it, announces itself and goes on with the action. -/
theorem conducts_announced {call : CoordinatorCall packs} {handle : String}
    (hhandle : call.handle? = some handle)
    {next : PreparedActionState → Option Coordinator.AuditSpan → CoordinatorProcess}
    (hnext : ∀ existing span h, Calm call.coordinator h →
      Told h (.resolve handle call.owner) existing →
      Announced call.coordinator call.lifecycle (some existing.record.handleDigest) h →
      Spans call.coordinator call.lifecycle span → Conducts call h (next existing span)) :
    Conducts call [] (call.coordinator.resolve handle call.context fun
      | .error failure => raise failure
      | .ok existing =>
        call.coordinator.startAudit call.lifecycle existing.record.capabilityId call.context
          (some existing.record.handleDigest) (next existing)) := by
  have hnil : Calm call.coordinator [] := calm_nil
  refine conducts_askStore (.resolve hhandle) hnil.audited (fun existing => ?_)
    fun r failure _ => conducts_failed (hnil.plain rfl r).settled failure
  refine conducts_startAudit call (hnil.plain rfl _) fun span h' hsub hcalm hannounced hspans => ?_
  exact hnext existing span h' hcalm (hsub (replied_exchange _ _)) hannounced hspans

section Approve
variable {coordinator : Coordinator packs} {handle approvalHandle : String}
  {context : CallerContext}

theorem conducts_approveAction
    {next : Except CoordinatorFailure (CoordinatorReport × String) → CoordinatorProcess}
    (hnext : Continues (.approve coordinator handle approvalHandle context) Prod.fst next)
    (hcalm : Calm coordinator h) :
    Conducts (.approve coordinator handle approvalHandle context) h
      (coordinator.approveAction handle approvalHandle context next) := by
  have hsends : Sends (.approve coordinator handle approvalHandle context) h
      (.store (.resolve handle (coordinator.owner context))) := .resolve rfl
  unfold Coordinator.approveAction Coordinator.resolve
  refine conducts_askStore hsends hcalm.audited (fun state => ?_)
    fun r failure _ => hnext.failure (hcalm.plain rfl r).sound failure
  have hresolved := hcalm.plain (q := .store (.resolve handle (coordinator.owner context))) rfl
    (.stored (.state state))
  refine conducts_assured (fun definition hauthorized => ?_)
    fun failure => hnext.failure hresolved.sound failure
  by_cases hneeded : definition.proof.approvalRequired = false
  · rw [if_pos hneeded]
    exact hnext.failure hresolved.sound _
  · rw [if_neg hneeded]
    by_cases hstatus : state.record.status ≠ .prepared
    · rw [if_pos hstatus]
      exact hnext.failure hresolved.sound _
    · rw [if_neg hstatus]
      refine .request ⟨hresolved.audited, .verify⟩ fun r => ?_
      have hverified := hresolved.plain
        (q := .verify approvalHandle (ApprovalBinding.fromRecord state.record)) rfl r
      split
      · rename_i grant
        have htold := replied_exchange (h := h)
          (.store (.resolve handle (coordinator.owner context))) (.stored (.state state))
        have hsends : Sends (.approve coordinator handle approvalHandle context) _ _ :=
          .approveGranted (definition_of_authorized hauthorized) (by simpa using hneeded)
            (subset_exchange _ _ htold) (replied_exchange _ (.granted grant))
        refine conducts_askStore hsends hverified.audited (fun approved => ?_)
          fun r failure _ => hnext.failure (hverified.plain rfl r).sound failure
        refine hnext _ _ (hverified.plain rfl _).sound fun result hresult => ?_
        obtain rfl := (Except.ok.injEq _ _).mp hresult
        exact .approved (replied_exchange _ _)
      · exact hnext.failure hverified.sound _
      · exact hnext.failure hverified.sound _
      · exact hnext.failure hverified.sound _

theorem conducts_approve :
    Conducts (.approve coordinator handle approvalHandle context) []
      (coordinator.approve handle approvalHandle context) := by
  refine conducts_announced rfl fun existing span h hcalm _ _ hspans => ?_
  refine conducts_approveAction (fun h outcome hsound hreports => ?_) hcalm
  refine conducts_concludeAudit hsound hspans (fun report hreport => ?_)
    fun report => by cases report <;> rfl
  cases outcome with
  | error failure => simp [Except.map] at hreport
  | ok result =>
    obtain rfl : result.1 = report := by simpa [Except.map] using hreport
    exact hreports result rfl

end Approve

section Commit
variable {coordinator : Coordinator packs} {handle : String} {context : CallerContext}

theorem conducts_markOutcomeUnknown {committing : PreparedActionState}
    (hcommitting : Told h (beginCommit handle (coordinator.owner context)) committing)
    (hsound : Audited coordinator h) (hbut : SettledBut handle (coordinator.owner context) h) (shielded : Bool)
    {next : CoordinatorProcess}
    (hnext : ∀ h', Sound coordinator h' → Conducts (.commit coordinator handle context) h' next) :
    Conducts (.commit coordinator handle context) h
      (coordinator.markOutcomeUnknown handle context shielded next) := by
  refine .request ⟨hsound, .markUnknown hcommitting⟩ fun r => hnext _ ⟨?_, ?_⟩
  · exact hsound.exchange fun event hq => absurd hq (by simp)
  · refine (hbut.exchange fun handle' owner' hq => ?_).settled (.inr ⟨shielded, r, ?_⟩)
    · simp [beginCommit] at hq
    · exact replied_exchange _ _

theorem conducts_performCommit
    {next : Except CoordinatorFailure ActionCommitResult → CoordinatorProcess}
    (hnext : Continues (.commit coordinator handle context) .committed next)
    {definition : CompiledActionDefinition} {execution : ActionCommitExecution}
    {committing : PreparedActionState}
    (hcommitting : Told h (beginCommit handle (coordinator.owner context)) committing)
    (haudited : Audited coordinator h)
    (hbut : SettledBut handle (coordinator.owner context) h)
    (hsends : Sends (.commit coordinator handle context) h
      (.commit definition.capability.id execution context)) :
    Conducts (.commit coordinator handle context) h
      (coordinator.performCommit definition handle execution context next) := by
  -- Whatever fails from now on, the action is marked before the call goes on.
  have hmarked : ∀ {h} (shielded : Bool) (failure : CoordinatorFailure),
      Told h (beginCommit handle (coordinator.owner context)) committing → Audited coordinator h →
      SettledBut handle (coordinator.owner context) h →
      Conducts (.commit coordinator handle context) h
        (coordinator.markOutcomeUnknown handle context shielded (next (.error failure))) :=
    fun shielded failure htold haudited hbut => conducts_markOutcomeUnknown htold haudited hbut shielded
      fun h' hsound => hnext.failure hsound failure
  unfold Coordinator.performCommit
  refine .request ⟨haudited, hsends⟩ fun r => ?_
  have haudited' : Audited coordinator
      (h ++ exchange (.commit definition.capability.id execution context) r) :=
    haudited.exchange fun event hq => absurd hq (by simp)
  have htold := hcommitting.mono
    (subset_exchange (.commit definition.capability.id execution context) r)
  have hbut' := hbut.exchange (q := .commit definition.capability.id execution context) (r := r)
    fun handle' owner' hq => absurd hq (by simp)
  split
  · rename_i result
    refine conducts_askStore (.succeed htold) haudited' (fun succeeded => ?_) fun r failure _ => ?_
    · refine hnext _ _ ⟨?_, ?_⟩ fun shown hshown => ?_
      · exact haudited'.exchange fun event hq => absurd hq (by simp)
      · refine (hbut'.exchange fun handle' owner' hq => ?_).settled
          (.inl ⟨result, succeeded, replied_exchange _ _⟩)
        simp [beginCommit] at hq
      · obtain rfl := (Except.ok.injEq _ _).mp hshown
        exact .committed (replied_exchange _ _)
    · have haudited'' := haudited'.exchange (q := .store (.transition handle
        (coordinator.owner context) .committing .succeeded result)) (r := r)
        fun event hq => absurd hq (by simp)
      have hbut'' := hbut'.exchange (q := .store (.transition handle
        (coordinator.owner context) .committing .succeeded result)) (r := r)
        fun handle' owner' hq => by simp [beginCommit] at hq
      have htold' := htold.mono (subset_exchange (.store (.transition handle
        (coordinator.owner context) .committing .succeeded result)) r)
      cases failure with
      | cancelled => exact hmarked true _ htold' haudited'' hbut''
      | error error => exact hmarked false _ htold' haudited'' hbut''
      | exception => exact hmarked false _ htold' haudited'' hbut''
  · exact hmarked true _ htold haudited' hbut'
  · exact hmarked false _ htold haudited' hbut'

theorem conducts_commitAction
    {next : Except CoordinatorFailure ActionCommitResult → CoordinatorProcess}
    (hnext : Continues (.commit coordinator handle context) .committed next)
    (hcalm : Calm coordinator h) {existing : PreparedActionState}
    (hexisting : Told h (.resolve handle (coordinator.owner context)) existing)
    (hannounced : Announced coordinator .commit (some existing.record.handleDigest) h) :
    Conducts (.commit coordinator handle context) h
      (coordinator.commitAction handle context next) := by
  have hsends : Sends (.commit coordinator handle context) h
      (.store (.resolve handle (coordinator.owner context))) := .resolve rfl
  unfold Coordinator.commitAction Coordinator.resolve
  refine conducts_askStore hsends hcalm.audited (fun state => ?_)
    fun r failure _ => hnext.failure (hcalm.plain rfl r).sound failure
  have hresolved := hcalm.plain (q := .store (.resolve handle (coordinator.owner context))) rfl
    (.stored (.state state))
  have hstate := replied_exchange (h := h)
    (.store (.resolve handle (coordinator.owner context))) (.stored (.state state))
  refine conducts_assured (fun definition hauthorized => ?_)
    fun failure => hnext.failure hresolved.sound failure
  by_cases hsucceeded : state.record.status = .succeeded
  · rw [if_pos hsucceeded]
    refine hnext _ _ hresolved.sound fun result hresult => ?_
    obtain rfl := (Except.ok.injEq _ _).mp hresult
    exact .replayed hstate hsucceeded
  · rw [if_neg hsucceeded]
    by_cases happroved : state.record.status ≠ .approved
    · rw [if_pos happroved]
      exact hnext.failure hresolved.sound _
    · rw [if_neg happroved]
      refine conducts_askStore .beginCommit hresolved.audited (fun committing => ?_)
        fun r failure hrefused => hnext.failure (hresolved.refused _ hrefused).sound failure
      have hbut := settledBut_begun hresolved.settled handle (coordinator.owner context)
        (.stored (.state committing))
      have haudited : Audited coordinator _ := hresolved.audited.exchange
        (q := .store (beginCommit handle (coordinator.owner context)))
        (r := .stored (.state committing)) fun event hq => absurd hq (by simp)
      have hbegun := replied_exchange (h := h ++ exchange
          (.store (.resolve handle (coordinator.owner context))) (.stored (.state state)))
        (.store (beginCommit handle (coordinator.owner context))) (.stored (.state committing))
      have hlonger := List.Subset.trans
        (subset_exchange (h := h) (.store (.resolve handle (coordinator.owner context)))
          (.stored (.state state)))
        (subset_exchange (.store (beginCommit handle (coordinator.owner context)))
          (.stored (.state committing)))
      cases hsealed : unsealPreview committing with
      | error error =>
        simp only [assured, hsealed]
        refine hnext.failure ⟨haudited, fun handle' owner' committing' htold => ?_⟩ _
        rcases replied_cases htold with hearlier | ⟨hq, hreply⟩
        · exact (hresolved.settled _ _ _ hearlier).mono (subset_exchange _ _)
        · obtain rfl : committing' = committing := by simpa using hreply
          exact .inr (.inr ⟨error, hsealed⟩)
      | ok execution =>
        simp only [assured, hsealed]
        refine conducts_performCommit hnext hbegun haudited hbut ?_
        refine .commit (hlonger hexisting) (hannounced.mono hlonger)
          (definition_of_authorized hauthorized) (subset_exchange _ _ hstate) hbegun
          fun capabilityId execution context hmem => ?_
        rcases List.mem_append.mp hmem with hearlier | hlast
        · exact hresolved.unmutated _ _ _ hearlier
        · simp at hlast

theorem conducts_commit :
    Conducts (.commit coordinator handle context) [] (coordinator.commit handle context) := by
  refine conducts_announced rfl fun existing span h hcalm hexisting hannounced hspans => ?_
  refine conducts_commitAction (fun h outcome hsound hreports => ?_) hcalm hexisting hannounced
  have hsends : ∀ h, Sends (.commit coordinator handle context) h
      (.store (.resolve handle (coordinator.owner context))) := fun h => .resolve rfl
  have hresolved : ∀ {h} (r : CoordinatorReply), Sound coordinator h →
      Sound coordinator (h ++ exchange (.store (.resolve handle (coordinator.owner context))) r) :=
    fun r hsound => hsound.exchange (by simp) (by simp [beginCommit])
  cases outcome with
  | error failure =>
    unfold Coordinator.resolvedStatus Coordinator.resolve
    cases failure with
    | cancelled =>
      refine conducts_askStore (hsends h) hsound.audited (fun state => ?_) fun r failure _ => ?_
      · exact conducts_finishCancelledAudit (.commit coordinator handle context)
          (hresolved _ hsound) hspans _
      · exact conducts_finishCancelledAudit (.commit coordinator handle context)
          (hresolved r hsound) hspans _
    | error error =>
      refine conducts_askStore (hsends h) hsound.audited (fun state => ?_) fun r failure _ => ?_
      · exact conducts_raised (.commit coordinator handle context) (hresolved _ hsound) hspans _
      · exact conducts_raised (.commit coordinator handle context) (hresolved r hsound) hspans _
    | exception =>
      refine conducts_askStore (hsends h) hsound.audited (fun state => ?_) fun r failure _ => ?_
      · exact conducts_raised (.commit coordinator handle context) (hresolved _ hsound) hspans _
      · exact conducts_raised (.commit coordinator handle context) (hresolved r hsound) hspans _
  | ok result =>
    refine conducts_finishAudit hsound hspans (fun h' hsub hsettled hrecorded => ?_)
      fun h' failure hsettled => ?_
    · refine .done ⟨hsettled, fun report hreport => ?_⟩
      obtain rfl := (Except.ok.injEq _ _).mp hreport
      refine ⟨(hreports result rfl).mono hsub, fun hr => ?_⟩
      obtain ⟨event, hmem, hlifecycle, hcategory, hstatus⟩ := hrecorded hr
      refine ⟨event, hmem, hlifecycle, ?_, hstatus⟩
      cases hreplayed : result.replayed with
      | true => exact .inr (by rw [hcategory, hreplayed]; rfl)
      | false => exact .inl (by rw [hcategory, hreplayed]; rfl)
    · cases failure with
      | error error => exact conducts_failed hsettled _
      | exception => exact conducts_failed hsettled _
      | cancelled => exact conducts_failed hsettled _

end Commit

section Status
variable {coordinator : Coordinator packs} {handle : String} {context : CallerContext}

/-- A process goes on soundly with the state it is handed, if the store has told it. -/
def ContinuesTold (call : CoordinatorCall packs) (handle : String)
    (next : Except CoordinatorFailure PreparedActionState → CoordinatorProcess) : Prop :=
  ∀ h outcome, Sound call.coordinator h →
    (∀ state, outcome = .ok state → ∃ sc, (sc = .resolve handle call.owner ∨ ∃ result,
      sc = .transition handle call.owner .outcomeUnknown .succeeded result) ∧ Told h sc state) →
    Conducts call h (next outcome)

theorem ContinuesTold.failure {call : CoordinatorCall packs}
    {next : Except CoordinatorFailure PreparedActionState → CoordinatorProcess}
    (hnext : ContinuesTold call handle next) (hsound : Sound call.coordinator h)
    (failure : CoordinatorFailure) : Conducts call h (next (.error failure)) :=
  hnext h _ hsound fun _ hok => absurd hok (by simp)

theorem conducts_storeRecovery
    {next : Except CoordinatorFailure PreparedActionState → CoordinatorProcess}
    (hnext : ContinuesTold (.status coordinator handle context) handle next)
    (hsound : Sound coordinator h) (definition : CompiledActionDefinition) (result : Json) :
    Conducts (.status coordinator handle context) h
      (coordinator.storeRecovery definition handle result context next) := by
  have hmoved : ∀ r, Sound coordinator (h ++ exchange (.store (.transition handle
      (coordinator.owner context) .outcomeUnknown .succeeded result)) r) :=
    fun r => hsound.exchange (by simp) (by simp [beginCommit])
  unfold Coordinator.storeRecovery
  split
  · refine conducts_askStore .recovered hsound.audited (fun state => ?_) fun r failure _ => ?_
    · refine hnext _ _ (hmoved _) fun told htold => ?_
      obtain rfl := (Except.ok.injEq _ _).mp htold
      exact ⟨_, .inr ⟨result, rfl⟩, replied_exchange _ _⟩
    · cases failure with
      | cancelled => exact hnext.failure (hmoved r) _
      | exception => exact hnext.failure (hmoved r) _
      | error error =>
        cases error with
        | valueError message => exact hnext.failure (hmoved r) _
        | runtime lost =>
          simp only
          split
          · have hsends : Sends (.status coordinator handle context) (h ++ exchange
                (.store (.transition handle (coordinator.owner context) .outcomeUnknown .succeeded
                  result)) r) (.store (.resolve handle (coordinator.owner context))) :=
              .resolve rfl
            have hresolved : ∀ r', Sound coordinator (h ++ exchange (.store (.transition handle
                (coordinator.owner context) .outcomeUnknown .succeeded result)) r ++
                exchange (.store (.resolve handle (coordinator.owner context))) r') :=
              fun r' => (hmoved r).exchange (by simp) (by simp [beginCommit])
            refine conducts_askStore hsends (hmoved r).audited (fun state => ?_)
              fun r' failure _ => hnext.failure (hresolved r') _
            simp only
            split
            · refine hnext _ _ (hresolved _) fun told htold => ?_
              obtain rfl := (Except.ok.injEq _ _).mp htold
              exact ⟨_, .inl rfl, replied_exchange _ _⟩
            · exact hnext.failure (hresolved _) _
          · exact hnext.failure (hmoved r) _
  · exact hnext.failure hsound _

theorem conducts_recoverOutcome
    {next : Except CoordinatorFailure PreparedActionState → CoordinatorProcess}
    (hnext : ContinuesTold (.status coordinator handle context) handle next)
    (hsound : Sound coordinator h) (definition : CompiledActionDefinition)
    {state : PreparedActionState}
    (htold : Told h (.resolve handle (coordinator.owner context)) state) :
    Conducts (.status coordinator handle context) h
      (coordinator.recoverOutcome definition handle state context next) := by
  refine conducts_assured (fun execution _ => ?_) fun failure => hnext.failure hsound failure
  refine .request ⟨hsound.audited, .recover⟩ fun r => ?_
  have hasked : Sound coordinator
      (h ++ exchange (.recover definition.capability.id execution context) r) :=
    hsound.exchange (by simp) (by simp)
  split
  · exact conducts_storeRecovery hnext hasked definition _
  · exact hnext.failure hasked _
  · exact hnext.failure hasked _
  · exact hnext.failure hasked _
  · refine hnext _ _ hasked fun told hok => ?_
    obtain rfl := (Except.ok.injEq _ _).mp hok
    exact ⟨_, .inl rfl, htold.mono (subset_exchange _ _)⟩

theorem conducts_statusAction {h : History} (hcalm : Calm coordinator h)
    {next : Except CoordinatorFailure CoordinatorReport → CoordinatorProcess}
    (hconcluded : Continues (.status coordinator handle context) id next) :
    Conducts (.status coordinator handle context) h
      (coordinator.statusAction handle context next) := by
  have hsends : Sends (.status coordinator handle context) h
      (.store (.resolve handle (coordinator.owner context))) := .resolve rfl
  unfold Coordinator.statusAction Coordinator.resolve
  refine conducts_askStore hsends hcalm.audited (fun state => ?_)
    fun r failure _ => hconcluded.failure (hcalm.plain rfl r).sound failure
  have hresolved := (hcalm.plain (q := .store (.resolve handle (coordinator.owner context))) rfl
    (.stored (.state state))).sound
  have htold := replied_exchange (h := h)
    (.store (.resolve handle (coordinator.owner context))) (.stored (.state state))
  refine conducts_assured (fun definition hauthorized => ?_)
    fun failure => hconcluded.failure hresolved failure
  split
  · refine conducts_recoverOutcome (fun h outcome hsound htold => ?_) hresolved definition htold
    refine hconcluded _ _ hsound fun report hreport => ?_
    cases outcome with
    | error failure => simp [Except.map] at hreport
    | ok state =>
      obtain ⟨sc, hsc, htold⟩ := htold state rfl
      obtain rfl := (Except.ok.injEq _ _).mp hreport
      exact .status hsc htold
  · refine hconcluded _ _ hresolved fun report hreport => ?_
    obtain rfl := (Except.ok.injEq _ _).mp hreport
    exact .status (.inl rfl) htold

theorem conducts_status :
    Conducts (.status coordinator handle context) [] (coordinator.status handle context) := by
  refine conducts_announced rfl fun existing span h hcalm _ _ hspans => ?_
  -- Whatever the status comes to is concluded.
  refine conducts_statusAction hcalm fun h outcome hsound hreports => ?_
  exact conducts_concludeAudit hsound hspans hreports fun report => by cases report <;> rfl

end Status

theorem conducts_process (call : CoordinatorCall packs) : Conducts call [] call.process := by
  cases call with
  | prepare coordinator capabilityId arguments context generatedKey generatedHandle =>
    exact conducts_prepare coordinator capabilityId arguments context generatedKey generatedHandle
  | approve coordinator handle approvalHandle context => exact conducts_approve
  | commit coordinator handle context => exact conducts_commit
  | status coordinator handle context => exact conducts_status

end CapabilityCompiler.Actions
