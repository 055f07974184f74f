import CapabilityCompiler.Actions.MutationOnce

/-! What a required audit guarantees over every run. -/
namespace CapabilityCompiler.Actions
open Foundation

section Audit
variable {packs : Packs} {kind : StoreKind} {host : StoreHost} {world : CoordinatorWorld packs}
  {before after : List CoordinatorEntry} {i : ℕ}

/-- A lifecycle event of a task was recorded. -/
def Emits (log : List CoordinatorEntry) (task : ℕ) (event : ActionAuditEvent) : Prop :=
  .replied task (.emit event) .emitted ∈ log

theorem emits_of_event {event : ActionAuditEvent} {log : List CoordinatorEntry}
    (h : .replied (.emit event) .emitted ∈ Pool.eventsOf (coordinatorPool packs kind host) i log) :
    Emits log i event := by
  rcases Pool.mem_of_replied h with ⟨input, output, -, hstored⟩ | hreplied
  · exact absurd hstored (by simp [coordinatorPool])
  · exact hreplied

theorem auditRequired_of_mode {coordinator : Coordinator packs}
    (h : coordinator.deployment.actionAuditMode = .required) : coordinator.auditRequired = true :=
  decide_eq_true h

/-- The action a commit is started for is the one of its handle. -/
theorem started_of_commit (h : Reached kind host world) {capabilityId : String}
    {execution : ActionCommitExecution} {context : CallerContext}
    (hlog : world.log = before ++ .sent i (.commit capabilityId execution context) :: after)
    {call : CoordinatorCall packs} {p : CoordinatorProcess}
    (htask : world.tasks[i]? = some (call, p))
    (hrequired : call.coordinator.deployment.actionAuditMode = .required) :
    ∃ handle event, call.handle? = some handle ∧ Emits before i event ∧
      event.lifecycle = .commit ∧ event.resultCategory = .started ∧
      event.actionDigest = some (host.digest.sha256 handle) := by
  obtain ⟨coordinator, handle, caller, p', definition, existing, state, committing, htask', -, -,
    hexisting, hannounced, -, -, -⟩ := commit_facts h hlog
  obtain ⟨rfl, -⟩ : call = .commit coordinator handle caller ∧ p = p' := by
    simpa using htask.symm.trans htask'
  obtain ⟨event, hmem, hlifecycle, hcategory, hdigest⟩ :=
    hannounced (auditRequired_of_mode hrequired)
  refine ⟨handle, event, rfl, emits_of_event hmem, hlifecycle, hcategory, ?_⟩
  obtain ⟨now, hperformed⟩ := performed_of_stored h hlog hexisting rfl
  obtain ⟨first, rest, hsplit⟩ := List.append_of_mem hperformed
  rw [hsplit, List.append_assoc, List.cons_append] at hlog
  obtain ⟨stored, hrow, rfl, -⟩ := row_of_performed h hlog
  have hrecord : stored.record.handleDigest = host.digest.sha256 handle :=
    handleDigest_of_row _ hrow
  rw [hdigest]
  exact congrArg some hrecord

/-- A call that succeeds has recorded its end. -/
theorem completed_of_done (h : Reached kind host world) {call : CoordinatorCall packs}
    {report : CoordinatorReport} (htask : world.tasks[i]? = some (call, .done report))
    (hrequired : call.coordinator.deployment.actionAuditMode = .required) :
    ∃ event, Emits world.log i event ∧ event.lifecycle = call.lifecycle ∧
      (event.resultCategory = .success ∨ event.resultCategory = .replayed) ∧
      event.status = some report.shownStatus := by
  have hends := Pool.ends_of_done conducts_process h htask
  obtain ⟨-, hcompleted⟩ := hends.2 report rfl
  obtain ⟨event, hmem, hrest⟩ := hcompleted (auditRequired_of_mode hrequired)
  exact ⟨event, emits_of_event hmem, hrest⟩

/-- A call that has lost a required audit event asks for nothing more. -/
theorem silent_of_lost (h : Reached kind host world) {event : ActionAuditEvent}
    {r : CoordinatorReply} (hlog : world.log = before ++ .replied i (.emit event) r :: after)
    (hlost : r ≠ .emitted) {call : CoordinatorCall packs} {p : CoordinatorProcess}
    (htask : world.tasks[i]? = some (call, p))
    (hrequired : call.coordinator.deployment.actionAuditMode = .required)
    (q : CoordinatorRequest) : .sent i q ∉ after := by
  intro hsent
  obtain ⟨first, rest, hsplit⟩ := List.append_of_mem hsent
  have hlogSent : world.log = (before ++ .replied i (.emit event) r :: first) ++ .sent i q ::
      rest := by
    rw [hlog, hsplit, List.append_assoc, List.cons_append]
  obtain ⟨call', p', htask', haudited, -⟩ := Pool.may_of_sent conducts_process h hlogSent
  obtain ⟨rfl, -⟩ : call = call' ∧ p = p' := by simpa using htask.symm.trans htask'
  refine hlost (haudited (auditRequired_of_mode hrequired) event r (List.mem_filterMap.mpr
    ⟨_, List.mem_append_right _ List.mem_cons_self, ?_⟩))
  simp [Pool.eventOf]

/-- A stored outcome is never taken back, and a stored result stays. -/
theorem outcome_stays (h : Reached kind host world) (hlog : world.log = before ++ after)
    {digest : String} {stored : StoredAction}
    (hrow : (storeAfter kind host before).row digest = some stored)
    (hbegun : stored.record.status.begun = true) :
    ∃ stored', world.object.row digest = some stored' ∧ stored'.record.status.fresh = false ∧
      (stored.record.status = .succeeded → stored' = stored ∨
        stored' = stored.withStatus .expired) := by
  have hfresh := PreparedActionStatus.fresh_of_begun hbegun
  rw [object_eq h, hlog, storeAfter_append]
  obtain ⟨stored', hrow', hfresh'⟩ := fresh_stays kind host (Pool.inputs after) hrow hfresh
  refine ⟨stored', hrow', hfresh', fun hsucceeded => ?_⟩
  obtain ⟨later, hlater, hresult⟩ := result_stays kind host (Pool.inputs after) hrow hsucceeded
  obtain rfl : later = stored' := Option.some.inj (hlater.symm.trans hrow')
  exact hresult

/-- Where audits are required, the executor is only asked after the start of the commit was
recorded for its action, and a call only succeeds after its end was recorded. A lost event changes
nothing in the store, ends what its call asks for, and leads to no second commit. -/
theorem required_audit (kind : StoreKind) (host : StoreHost) {world : CoordinatorWorld packs}
    (h : Reached kind host world) (i : ℕ) (call : CoordinatorCall packs) (p : CoordinatorProcess)
    (htask : world.tasks[i]? = some (call, p))
    (hrequired : call.coordinator.deployment.actionAuditMode = .required) :
    (∀ before after capabilityId execution context,
      world.log = before ++ .sent i (.commit capabilityId execution context) :: after →
      ∃ handle event, call.handle? = some handle ∧ Emits before i event ∧
        event.lifecycle = .commit ∧ event.resultCategory = .started ∧
        event.actionDigest = some (host.digest.sha256 handle)) ∧
    (∀ report, p = .done report → ∃ event, Emits world.log i event ∧
      event.lifecycle = call.lifecycle ∧
      (event.resultCategory = .success ∨ event.resultCategory = .replayed) ∧
      event.status = some report.shownStatus) ∧
    ∀ before after event r, world.log = before ++ .replied i (.emit event) r :: after →
      r ≠ .emitted →
      storeAfter kind host (before ++ [.replied i (.emit event) r]) = storeAfter kind host before ∧
      (∀ q, .sent i q ∉ after) ∧
      (∀ digest stored, (storeAfter kind host before).row digest = some stored →
        stored.record.status.begun = true →
        ∃ stored', world.object.row digest = some stored' ∧ stored'.record.status.fresh = false ∧
          (stored.record.status = .succeeded → stored' = stored ∨
            stored' = stored.withStatus .expired)) ∧
      ∀ handle, world.log.countP (invokes world handle) ≤ 1 := by
  refine ⟨fun before after capabilityId execution context hlog =>
    started_of_commit h hlog htask hrequired, fun report hdone => ?_,
    fun before after event r hlog hlost => ?_⟩
  · subst hdone
    exact completed_of_done h htask hrequired
  · refine ⟨?_, silent_of_lost h hlog hlost htask hrequired,
      fun digest stored hrow hbegun => outcome_stays h hlog hrow hbegun, invoked_once h⟩
    rw [storeAfter_append]
    rfl

end Audit

/-- The order is committed, and the end of its commit cannot be recorded. -/
def unrecordedOrder : CoordinatorWorld (orderPacks false) :=
  (playMoves .sqlite StoreHost.plain (prepareOrder false ++ beginOrder false 1 2 ++
    [.outside 1 (.committed (.obj [("id", .int 7)]))] ++ stores 1 3 ++
    replies 1 .exception)).get (by decide +kernel)

theorem unrecordedOrder_reached : Reached .sqlite StoreHost.plain unrecordedOrder :=
  reached_of_playMoves (Option.some_get _).symm

theorem required_audit_order :
    unrecordedOrder.log.countP (invokes unrecordedOrder orderHandle) = 1 ∧
      (unrecordedOrder.object.row orderHandle).map (·.record.status) = some .succeeded ∧
      ∃ call p, unrecordedOrder.tasks[1]? = some (call, p) ∧
        ∀ report, p = .done report → ∃ event, Emits unrecordedOrder.log 1 event ∧
          event.lifecycle = call.lifecycle ∧
          (event.resultCategory = .success ∨ event.resultCategory = .replayed) ∧
          event.status = some report.shownStatus := by
  refine ⟨by decide +kernel, by decide +kernel, ?_⟩
  have hmode : (unrecordedOrder.tasks[1]?).any (fun task =>
      decide (task.1.coordinator.deployment.actionAuditMode = .required)) = true := by
    decide +kernel
  obtain ⟨⟨call, p⟩, htask, hrequired⟩ := (Option.any_eq_true _ _).mp hmode
  exact ⟨call, p, htask, (required_audit .sqlite StoreHost.plain unrecordedOrder_reached 1 call p
    htask (of_decide_eq_true hrequired)).2.1⟩

end CapabilityCompiler.Actions
