import CapabilityCompiler.Actions.Coordinator
import CapabilityCompiler.Foundation.Conduct

/-! Why a coordinator sends what it sends, and what it knows when a call ends. -/
namespace CapabilityCompiler.Actions
open Foundation

abbrev History := List (Process.Event CoordinatorRequest CoordinatorReply)

/-- A request with the reply to it. -/
abbrev exchange (q : CoordinatorRequest) (r : CoordinatorReply) : History :=
  [.sent q, .replied q r]

/-- The store has given this state to a call. -/
def Told (h : History) (call : StoreCall) (state : PreparedActionState) : Prop :=
  .replied (.store call) (.stored (.state state)) ∈ h

def beginCommit (handle : String) (owner : Owner) : StoreCall :=
  .transition handle owner .approved .committing .null

def markUnknown (handle : String) (owner : Owner) : StoreCall :=
  .transition handle owner .committing .outcomeUnknown .null

/-- An action that was made committing was made successful, or was asked to be marked, or cannot be
unsealed. -/
def Settles (h : History) (handle : String) (owner : Owner) (committing : PreparedActionState) :
    Prop :=
  (∃ result state, Told h (.transition handle owner .committing .succeeded result) state) ∨
  (∃ shielded r, .replied (.store (markUnknown handle owner) shielded) r ∈ h) ∨
  ∃ error, unsealPreview committing = .error error

def Settled (h : History) : Prop :=
  ∀ handle owner committing, Told h (beginCommit handle owner) committing →
    Settles h handle owner committing

section Facts
variable {packs : Packs} (coordinator : Coordinator packs)

/-- Every required audit event was recorded. -/
def Audited (h : History) : Prop :=
  coordinator.auditRequired = true → ∀ event r, .replied (.emit event) r ∈ h → r = .emitted

/-- A lifecycle was announced for an action before anything else. -/
def Announced (lifecycle : ActionAuditLifecycle) (actionDigest : Option String) (h : History) :
    Prop :=
  coordinator.auditRequired = true → ∃ event, .replied (.emit event) .emitted ∈ h ∧
    event.lifecycle = lifecycle ∧ event.resultCategory = .started ∧
    event.actionDigest = actionDigest

/-- The end of a lifecycle was recorded. -/
def Completed (lifecycle : ActionAuditLifecycle) (status : PreparedActionStatus) (h : History) :
    Prop :=
  coordinator.auditRequired = true → ∃ event, .replied (.emit event) .emitted ∈ h ∧
    event.lifecycle = lifecycle ∧
    (event.resultCategory = .success ∨ event.resultCategory = .replayed) ∧
    event.status = some status

/-- Nothing was mutated and no required audit event was lost. -/
structure Calm (h : History) : Prop where
  audited : Audited coordinator h
  settled : Settled h
  unmutated : ∀ capabilityId execution context, .sent (.commit capabilityId execution context) ∉ h

end Facts

/-- Requests that neither audit nor mutate nor begin a commit. -/
def isPlain : CoordinatorRequest → Bool
  | .emit _ => false
  | .commit _ _ _ => false
  | .store (.transition _ _ .approved .committing _) _ => false
  | _ => true

section Growth
variable {packs : Packs} {coordinator : Coordinator packs} {h h' : History}

theorem Told.mono {call : StoreCall} {state : PreparedActionState} (htold : Told h call state)
    (hsub : h ⊆ h') : Told h' call state :=
  hsub htold

theorem Announced.mono {lifecycle : ActionAuditLifecycle} {actionDigest : Option String}
    (hannounced : Announced coordinator lifecycle actionDigest h) (hsub : h ⊆ h') :
    Announced coordinator lifecycle actionDigest h' := by
  intro hrequired
  obtain ⟨event, hmem, hevent⟩ := hannounced hrequired
  exact ⟨event, hsub hmem, hevent⟩

theorem Settles.mono {handle : String} {owner : Owner} {committing : PreparedActionState}
    (hsettles : Settles h handle owner committing) (hsub : h ⊆ h') :
    Settles h' handle owner committing := by
  rcases hsettles with ⟨result, state, htold⟩ | ⟨shielded, r, hmem⟩ | hsealed
  · exact .inl ⟨result, state, hsub htold⟩
  · exact .inr (.inl ⟨shielded, r, hsub hmem⟩)
  · exact .inr (.inr hsealed)

theorem subset_exchange (q : CoordinatorRequest) (r : CoordinatorReply) :
    h ⊆ h ++ exchange q r :=
  List.subset_append_left h _

theorem replied_exchange (q : CoordinatorRequest) (r : CoordinatorReply) :
    .replied q r ∈ h ++ exchange q r := by
  simp

/-- A reply of a longer history is an earlier one, or the last. -/
theorem replied_cases {q q' : CoordinatorRequest} {r r' : CoordinatorReply}
    (hmem : .replied q' r' ∈ h ++ exchange q r) :
    .replied q' r' ∈ h ∨ q' = q ∧ r' = r := by
  simpa using hmem

theorem Audited.exchange (haudited : Audited coordinator h) {q : CoordinatorRequest}
    {r : CoordinatorReply} (hq : ∀ event, q = .emit event → r = .emitted) :
    Audited coordinator (h ++ Actions.exchange q r) := by
  intro hrequired event r' hmem
  rcases replied_cases hmem with hearlier | ⟨hemit, rfl⟩
  · exact haudited hrequired event r' hearlier
  · exact hq event hemit.symm

theorem Settled.exchange (hsettled : Settled h) {q : CoordinatorRequest} {r : CoordinatorReply}
    (hq : ∀ handle owner committing, q = .store (beginCommit handle owner) →
      r = .stored (.state committing) → Settles (h ++ Actions.exchange q r) handle owner committing) :
    Settled (h ++ Actions.exchange q r) := by
  intro handle owner committing htold
  rcases replied_cases htold with hearlier | ⟨hrequest, hreply⟩
  · exact (hsettled handle owner committing hearlier).mono (subset_exchange q r)
  · exact hq handle owner committing hrequest.symm hreply.symm

theorem Calm.plain (hcalm : Calm coordinator h) {q : CoordinatorRequest} (hq : isPlain q = true)
    (r : CoordinatorReply) : Calm coordinator (h ++ exchange q r) where
  audited := hcalm.audited.exchange fun event hemit => by simp [hemit, isPlain] at hq
  settled := hcalm.settled.exchange fun handle owner committing hbegin _ => by
    simp [hbegin, beginCommit, isPlain] at hq
  unmutated := fun capabilityId execution context hmem => by
    rcases List.mem_append.mp hmem with hearlier | hlast
    · exact hcalm.unmutated _ _ _ hearlier
    · obtain rfl : CoordinatorRequest.commit capabilityId execution context = q := by
        simpa using hlast
      simp [isPlain] at hq

theorem Calm.emitted (hcalm : Calm coordinator h) (event : ActionAuditEvent)
    {r : CoordinatorReply} (hr : coordinator.auditRequired = true → r = .emitted) :
    Calm coordinator (h ++ exchange (.emit event) r) where
  audited := by
    intro hrequired event' r' hmem
    rcases replied_cases hmem with hearlier | ⟨-, rfl⟩
    · exact hcalm.audited hrequired event' r' hearlier
    · exact hr hrequired
  settled := hcalm.settled.exchange fun handle owner committing hbegin _ =>
    absurd hbegin (by simp)
  unmutated := fun capabilityId execution context hmem => by
    rcases List.mem_append.mp hmem with hearlier | hlast
    · exact hcalm.unmutated _ _ _ hearlier
    · simp at hlast

theorem Calm.refused (hcalm : Calm coordinator h) (call : StoreCall) {r : CoordinatorReply}
    (hr : ∀ state, r ≠ .stored (.state state)) :
    Calm coordinator (h ++ exchange (.store call) r) where
  audited := hcalm.audited.exchange fun event hemit => absurd hemit (by simp)
  settled := hcalm.settled.exchange fun handle owner committing _ hreply =>
    absurd hreply (hr committing)
  unmutated := fun capabilityId execution context hmem => by
    rcases List.mem_append.mp hmem with hearlier | hlast
    · exact hcalm.unmutated _ _ _ hearlier
    · simp at hlast

theorem calm_nil : Calm coordinator [] where
  audited := fun _ _ _ hmem => absurd hmem List.not_mem_nil
  settled := fun _ _ _ htold => absurd htold List.not_mem_nil
  unmutated := fun _ _ _ => List.not_mem_nil

end Growth

/-- A payload that can be unsealed, whatever it is stored with. -/
def Sealed (previewValue : Json) : Prop :=
  ∀ state : PreparedActionState, state.previewValue = previewValue →
    ∃ execution, unsealPreview state = .ok execution

/-! The requests of each call. -/

/-- Why a call sends a request after its history. -/
inductive Sends {packs : Packs} : CoordinatorCall packs → History → CoordinatorRequest → Prop
  | resolve {call h handle} (hhandle : call.handle? = some handle) :
      Sends call h (.store (.resolve handle call.owner))
  | emit {call h event} : Sends call h (.emit event)
  | preview {call h capabilityId arguments context} :
      Sends call h (.preview capabilityId arguments context)
  | verify {call h approvalHandle expected} : Sends call h (.verify approvalHandle expected)
  | recover {call h capabilityId execution context} :
      Sends call h (.recover capabilityId execution context)
  | create {call h request generated} (hprepare : call.handle? = none)
      (howner : request.owner = call.owner) (hsealed : Sealed request.previewValue) :
      Sends call h (.store (.create request generated))
  | approveCreated {call h definition request generated handle state}
      (hprepare : call.handle? = none)
      (hdefinition : call.coordinator.definition request.capabilityId = .ok definition)
      (hunneeded : definition.proof.approvalRequired = false)
      (hcreated : .replied (.store (.create request generated))
        (.stored (.created handle state)) ∈ h) :
      Sends call h (.store (.transition handle call.owner .prepared .approved .null))
  | approveGranted {coordinator handle approvalHandle context h definition state grant}
      (hdefinition : coordinator.definition state.record.capabilityId = .ok definition)
      (hneeded : definition.proof.approvalRequired = true)
      (htold : Told h (.resolve handle (coordinator.owner context)) state)
      (hgrant : .replied (.verify approvalHandle (ApprovalBinding.fromRecord state.record))
        (.granted grant) ∈ h) :
      Sends (.approve coordinator handle approvalHandle context) h
        (.store (.transition handle (coordinator.owner context) .prepared .approved .null))
  | beginCommit {coordinator handle context h} :
      Sends (.commit coordinator handle context) h
        (.store (beginCommit handle (coordinator.owner context)))
  | commit {coordinator handle context h definition existing state committing execution}
      (hexisting : Told h (.resolve handle (coordinator.owner context)) existing)
      (hannounced : Announced coordinator .commit (some existing.record.handleDigest) h)
      (hdefinition : coordinator.definition state.record.capabilityId = .ok definition)
      (hstate : Told h (.resolve handle (coordinator.owner context)) state)
      (hcommitting : Told h (Actions.beginCommit handle (coordinator.owner context)) committing)
      (hfirst : ∀ capabilityId execution context,
        .sent (.commit capabilityId execution context) ∉ h) :
      Sends (.commit coordinator handle context) h
        (.commit definition.capability.id execution context)
  | succeed {coordinator handle context h committing result}
      (hcommitting : Told h (Actions.beginCommit handle (coordinator.owner context)) committing) :
      Sends (.commit coordinator handle context) h
        (.store (.transition handle (coordinator.owner context) .committing .succeeded result))
  | markUnknown {coordinator handle context h committing shielded}
      (hcommitting : Told h (Actions.beginCommit handle (coordinator.owner context)) committing) :
      Sends (.commit coordinator handle context) h
        (.store (Actions.markUnknown handle (coordinator.owner context)) shielded)
  | recovered {coordinator handle context h result} :
      Sends (.status coordinator handle context) h
        (.store (.transition handle (coordinator.owner context) .outcomeUnknown .succeeded result))

/-- What a call reports, as the store has told it. -/
inductive Reports {packs : Packs} : CoordinatorCall packs → History → CoordinatorReport → Prop
  | prepared {call h shown} (hprepare : call.handle? = none) : Reports call h (.prepared shown)
  | approved {coordinator handle approvalHandle context h state}
      (htold : Told h (.transition handle (coordinator.owner context) .prepared .approved .null)
        state) :
      Reports (.approve coordinator handle approvalHandle context) h
        (.status (Coordinator.publicStatus state .null))
  | replayed {coordinator handle context h state}
      (htold : Told h (.resolve handle (coordinator.owner context)) state)
      (hstatus : state.record.status = .succeeded) :
      Reports (.commit coordinator handle context) h (.committed
        { capabilityId := state.record.capabilityId, status := .succeeded
          result := state.resultValue, replayed := true })
  | committed {coordinator handle context h result state}
      (htold : Told h (.transition handle (coordinator.owner context) .committing .succeeded result)
        state) :
      Reports (.commit coordinator handle context) h (.committed
        { capabilityId := state.record.capabilityId, status := state.record.status
          result := state.resultValue, replayed := false })
  | status {coordinator handle context h call state}
      (hcall : call = .resolve handle (coordinator.owner context) ∨ ∃ result,
        call = .transition handle (coordinator.owner context) .outcomeUnknown .succeeded result)
      (htold : Told h call state) :
      Reports (.status coordinator handle context) h (.status (Coordinator.publicStatus state
        (if state.record.status = .succeeded then state.resultValue else .null)))

def CoordinatorCall.lifecycle {packs : Packs} : CoordinatorCall packs → ActionAuditLifecycle
  | .prepare _ _ _ _ _ _ => .prepare
  | .approve _ _ _ _ => .approve
  | .commit _ _ _ => .commit
  | .status _ _ _ => .status

def CoordinatorReport.shownStatus : CoordinatorReport → PreparedActionStatus
  | .prepared shown => shown.status
  | .status shown => shown.status
  | .committed result => result.status

section Conduct
variable {packs : Packs}

/-- A request is sent with all required audits recorded. -/
def Acts (call : CoordinatorCall packs) (h : History) (q : CoordinatorRequest) : Prop :=
  Audited call.coordinator h ∧ Sends call h q

/-- A call ends with its commit settled. It reports what it was told, and that was recorded. -/
def Ends (call : CoordinatorCall packs) (h : History)
    (outcome : Except CoordinatorFailure CoordinatorReport) : Prop :=
  Settled h ∧ ∀ report, outcome = .ok report →
    Reports call h report ∧ Completed call.coordinator call.lifecycle report.shownStatus h

/-- A call goes on with its conduct. -/
abbrev Conducts (call : CoordinatorCall packs) (h : History) (p : CoordinatorProcess) : Prop :=
  Process.Keeps (Acts call) (Ends call) h p

end Conduct
end CapabilityCompiler.Actions
