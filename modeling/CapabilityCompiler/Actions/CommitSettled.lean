import CapabilityCompiler.Actions.OutcomeRecovery

/-! When a commit that has ended has left its action settled, or to a mark that goes on without
it. -/
namespace CapabilityCompiler.Actions
open Foundation

namespace PreparedActionStatus

/-- The action has an outcome, or its outcome can be looked up. -/
def settled : PreparedActionStatus → Bool
  | .succeeded | .failed | .outcomeUnknown => true
  | .prepared | .approved | .committing | .expired => false

theorem settled_of_allows {expected target : PreparedActionStatus}
    (hallowed : expected.allows target = true) (hsettled : expected.settled = true) :
    target.settled = true := by
  cases expected <;> cases target <;> first | rfl | contradiction

theorem begun_of_settled {status : PreparedActionStatus} (h : status.settled = true) :
    status.begun = true := by
  cases status <;> first | rfl | contradiction

theorem settled_of_begun {status : PreparedActionStatus} (h : status.begun = true)
    (hcommitting : status ≠ .committing) : status.settled = true := by
  cases status <;> first | rfl | contradiction

end PreparedActionStatus

/-! What a call has shown to be in order when the store gives it a state. -/

section Checked
variable {host : StoreHost} {store : ActionStore} {handle : String} {owner : Owner} {now : ℚ}

/-- The handle is well formed, and so is its owner. -/
def Checked (handle : String) (owner : Owner) : Prop :=
  isHandle handle = true ∧ owner.check = .ok ()

theorem checked_of_resolveBound
    (h : (InMemoryActionStore.resolveBound host store handle owner now).1.isOk = true) :
    Checked handle owner := by
  unfold InMemoryActionStore.resolveBound at h
  split at h
  · exact absurd h (by simp [Except.isOk, Except.toBool])
  · split at h
    · rename_i hhandle
      simp only at h
      split at h
      · exact absurd h (by simp [Except.isOk, Except.toBool])
      · cases hcheck : owner.check with
        | error error => simp [hcheck, Except.isOk, Except.toBool] at h
        | ok _ => exact ⟨hhandle, hcheck⟩
    · exact absurd h (by simp [Except.isOk, Except.toBool])

theorem checked_of_access
    {next : String → StoredAction → Except ActionError StoredAction × ActionStore}
    (h : (SQLiteActionStore.access host store handle owner now next).1.isOk = true) :
    Checked handle owner := by
  unfold SQLiteActionStore.access SQLiteActionStore.handleDigest at h
  by_cases hhandle : isHandle handle = true
  · cases hcheck : owner.check with
    | error error => simp [hhandle, hcheck, Except.isOk, Except.toBool] at h
    | ok _ => exact ⟨hhandle, hcheck⟩
  · simp [hhandle, Except.isOk, Except.toBool] at h

theorem isOk_of_respond {result : Except ActionError StoredAction × ActionStore}
    {state : PreparedActionState} (h : (respond .state result).1 = .state state) :
    result.1.isOk = true := by
  unfold respond at h
  split at h
  · rename_i hok
    simp [hok, Except.isOk, Except.toBool]
  · exact absurd h (by simp)

theorem checked_of_transition {kind : StoreKind} {expected target : PreparedActionStatus}
    {resultValue : Json} {state : PreparedActionState}
    (h : (kind.answer host store
      (.transition handle owner expected target resultValue, now)).1 = .state state) :
    Checked handle owner := by
  cases kind with
  | memory =>
    have hok := isOk_of_respond h
    unfold InMemoryActionStore.transition at hok
    cases hresult : InMemoryActionStore.resolveBound host store handle owner now with
    | mk result store' =>
      cases result with
      | error error => simp [hresult, Except.isOk, Except.toBool] at hok
      | ok stored =>
        have hbound : (InMemoryActionStore.resolveBound host store handle owner now).1.isOk = true := by
          simp [hresult, Except.isOk, Except.toBool]
        exact checked_of_resolveBound hbound
  | sqlite =>
    have hok := isOk_of_respond h
    unfold SQLiteActionStore.transition at hok
    split at hok
    · exact absurd hok (by simp [Except.isOk, Except.toBool])
    · split at hok
      · exact absurd hok (by simp [Except.isOk, Except.toBool])
      · exact checked_of_access hok

end Checked

section Settling
variable {packs : Packs} {kind : StoreKind} {host : StoreHost} {digest : String}
  {world : CoordinatorWorld packs} {before after : List CoordinatorEntry} {i : ℕ}
  {handle : String} {owner : Owner}

/-- The action under a digest is settled. -/
def IsSettled (store : ActionStore) (digest : String) : Prop :=
  ∃ stored, store.row digest = some stored ∧ stored.record.status.settled = true

theorem IsSettled.later (htimely : Timely kind host digest (before ++ after))
    (h : IsSettled (storeAfter kind host before) digest) :
    IsSettled (storeAfter kind host (before ++ after)) digest := by
  obtain ⟨stored, hrow, hsettled⟩ := h
  obtain ⟨stored', hrow', hsettled', -⟩ := kept_of_timely
    PreparedActionStatus.settled_of_allows PreparedActionStatus.begun_of_settled htimely hrow hsettled
  exact ⟨stored', hrow', hsettled'⟩

theorem opened_after (log : List CoordinatorEntry) : (storeAfter kind host log).closed = false :=
  Machine.invariant (P := fun store : ActionStore => store.closed = false)
    (fun store call hopen => (closed_of_answer kind host store call).trans hopen) rfl _

/-- A begun commit left its action committing, for the owner it was asked by. -/
theorem begun_of_told (h : Reached kind host world) (hlog : world.log = before ++ after)
    (htimely : Timely kind host (host.digest.sha256 handle) before)
    {committing : PreparedActionState}
    (htold : Told (Pool.eventsOf (coordinatorPool packs kind host) i before)
      (beginCommit handle owner) committing) :
    ∃ stored, (storeAfter kind host before).row (host.digest.sha256 handle) = some stored ∧
      stored.record.status.begun = true ∧ stored.boundTo host owner = true ∧
      Checked handle owner := by
  obtain ⟨now, hmem⟩ := performed_of_stored h hlog htold rfl
  obtain ⟨first, rest, rfl⟩ := List.append_of_mem hmem
  rw [List.append_assoc, List.cons_append] at hlog
  obtain ⟨found, -, -, hbound, -, hrow, -⟩ := moved_of_performed h hlog
  have hchecked : Checked handle owner := checked_of_transition (performed_facts h hlog).2.2
  rw [List.append_cons] at htimely ⊢
  obtain ⟨stored, hstored, hbegun, -⟩ := begun_of_timely htimely hrow rfl
  refine ⟨stored, hstored, hbegun, ?_, hchecked⟩
  rw [storeAfter_append] at hstored
  obtain ⟨later, hlater, hprepared⟩ := row_stays kind host (Pool.inputs rest) hrow
  obtain rfl : later = stored := Option.some.inj (hlater.symm.trans hstored)
  have hsame : later.boundTo host owner = found.boundTo host owner :=
    congrArg (·.boundTo host owner) hprepared
  rw [hsame, hbound]

/-- A task marks only what it has begun to commit. -/
theorem begun_of_mark (h : Reached kind host world)
    {shielded : Bool}
    (hsent : .sent i (.store (markUnknown handle owner) shielded) ∈ before)
    (hlog : world.log = before ++ after)
    (htimely : Timely kind host (host.digest.sha256 handle) before) :
    ∃ stored, (storeAfter kind host before).row (host.digest.sha256 handle) = some stored ∧
      stored.record.status.begun = true ∧ stored.boundTo host owner = true ∧
      Checked handle owner := by
  obtain ⟨first, rest, rfl⟩ := List.append_of_mem hsent
  have hlogFirst := hlog
  rw [List.append_assoc, List.cons_append] at hlogFirst
  obtain ⟨call, p, -, -, hsends⟩ := Pool.may_of_sent conducts_process h hlogFirst
  generalize hq : CoordinatorRequest.store (markUnknown handle owner) shielded = q at hsends
  cases hsends with
  | @markUnknown coordinator handle' context _ committing shielded' hcommitting =>
    obtain ⟨⟨rfl, rfl⟩, rfl⟩ : (handle = handle' ∧ owner = coordinator.owner context) ∧
        shielded = shielded' := by
      simpa [markUnknown] using hq
    have hlater : Told (Pool.eventsOf (coordinatorPool packs kind host) i
        (first ++ .sent i (.store (markUnknown handle (coordinator.owner context)) shielded) ::
          rest)) (beginCommit handle (coordinator.owner context)) committing := by
      refine hcommitting.mono ?_
      rw [Pool.eventsOf, Pool.eventsOf, List.filterMap_append]
      exact List.subset_append_left _ _
    exact begun_of_told h hlog htimely hlater
  | _ => simp [markUnknown, beginCommit] at hq

/-- A mark that the store performs leaves its action settled. -/
theorem settled_of_mark (h : Reached kind host world) {delivered shielded : Bool}
    {input : StoreCall × ℚ} {answer : StoreAnswer}
    (hlog : world.log = before ++
      .performed i delivered (.store (markUnknown handle owner) shielded) input answer :: after)
    (htimely : Timely kind host (host.digest.sha256 handle) world.log) :
    IsSettled world.object (host.digest.sha256 handle) := by
  obtain ⟨⟨shielded', hcall⟩, hsent, hanswer⟩ := performed_facts h hlog
  obtain ⟨call, now⟩ := input
  obtain ⟨rfl, rfl⟩ : markUnknown handle owner = call ∧ shielded = shielded' := by
    simpa using hcall
  have htimelyBefore : Timely kind host (host.digest.sha256 handle) before := by
    rw [hlog] at htimely
    exact htimely.left
  obtain ⟨stored, hrow, hbegun, hbound, hhandle, hcheck⟩ :=
    begun_of_mark h hsent hlog htimelyBefore
  have hdone : IsSettled (storeAfter kind host (before ++ [.performed i delivered
      (.store (markUnknown handle owner) shielded) (markUnknown handle owner, now) answer]))
      (host.digest.sha256 handle) := by
    by_cases hcommitting : stored.record.status = .committing
    · -- A timely mark of its owner finds the action live, and is accepted.
      have hholds : Holds host (storeAfter kind host before) handle owner stored :=
        ⟨hrow, opened_after before, hhandle, hcheck, hbound, by rw [hcommitting]; simp⟩
      have hlive : stored.isDue now = false := by
        rw [Bool.eq_false_iff]
        intro hdue
        have hkept := htimely before after i delivered _ _ _ hlog stored hrow hbegun hdue
        have hreaches : reaches host (storeAfter kind host before) (host.digest.sha256 handle)
            handle owner = true := by
          simp [reaches, hholds.opened, hhandle, hcheck, hrow, hbound, Except.isOk, Except.toBool]
        cases kind with
        | memory => simp [markUnknown, hreaches] at hkept
        | sqlite =>
          simp [markUnknown, hreaches, PreparedActionStatus.allows,
            misplaced] at hkept
      have hallowed : stored.record.status.allows .outcomeUnknown = true := by
        rw [hcommitting]
        rfl
      have hplaced : misplaced .outcomeUnknown .null = false := by simp [misplaced]
      have hmoved := hholds.transition kind hlive hallowed hplaced
      rw [hcommitting] at hmoved
      refine ⟨stored.moved .outcomeUnknown .null, ?_, rfl⟩
      rw [storeAfter_append]
      show ((kind.answer host (storeAfter kind host before) (markUnknown handle owner, now)).2).row
        (host.digest.sha256 handle) = _
      rw [markUnknown, hmoved]
      exact Table.get?_put_self _ _ _
    · refine IsSettled.later ?_
        ⟨stored, hrow, PreparedActionStatus.settled_of_begun hbegun hcommitting⟩
      rw [hlog, List.append_cons] at htimely
      exact htimely.left
  rw [object_eq h]
  rw [hlog, List.append_cons] at htimely ⊢
  exact hdone.later htimely

/-! Commits whose marks are kept. -/

/-- A task goes on with marking the action under a digest. -/
def Marking (host : StoreHost) (world : CoordinatorWorld packs) (digest : String) (task : ℕ) :
    Prop :=
  ∃ handle owner, (task, .store (markUnknown handle owner) true) ∈ world.late ∧
    host.digest.sha256 handle = digest

/-- No task begins to commit the action under a digest after it was cancelled. -/
def BeginsPrompt (host : StoreHost) (digest : String) (log : List CoordinatorEntry) : Prop :=
  ∀ task q input answer, .performed task false q input answer ∈ log →
    ¬ Makes host digest task .approved .committing (.performed task false q input answer)

/-- No mark of a committing action is lost: the database does not fail it, and without a shield it
is not dropped with its caller. -/
def MarksKept (kind : StoreKind) (host : StoreHost) (digest : String)
    (log : List CoordinatorEntry) : Prop :=
  ∀ before after task handle owner shielded r,
    log = before ++ .replied task (.store (markUnknown handle owner) shielded) r :: after →
    host.digest.sha256 handle = digest →
    ∀ stored, (storeAfter kind host before).row digest = some stored →
      stored.record.status = .committing →
      r = .cancelled ∧ (shielded = true ∨ ∃ input answer,
        .performed task false (.store (markUnknown handle owner) shielded) input answer ∈ after)

/-- A mark that was replied to has settled its action, or goes on. -/
theorem settled_of_replied (h : Reached kind host world) {shielded : Bool} {r : CoordinatorReply}
    (hreplied : .replied (.store (markUnknown handle owner) shielded) r ∈
      Pool.eventsOf (coordinatorPool packs kind host) i world.log)
    (htimely : Timely kind host (host.digest.sha256 handle) world.log)
    (hkept : MarksKept kind host (host.digest.sha256 handle) world.log) :
    IsSettled world.object (host.digest.sha256 handle) ∨
      Marking host world (host.digest.sha256 handle) i := by
  rcases Pool.mem_of_replied hreplied with ⟨input, answer, hmem, -⟩ | hmem
  · obtain ⟨before, after, hlog⟩ := List.append_of_mem hmem
    exact .inl (settled_of_mark h hlog htimely)
  · obtain ⟨before, after, hlog⟩ := List.append_of_mem hmem
    have htimelyBefore : Timely kind host (host.digest.sha256 handle) before := by
      rw [hlog] at htimely
      exact htimely.left
    obtain ⟨stored, hrow, hbegun, -⟩ := begun_of_mark h
      (Pool.sent_of_replied conducts_process h hlog) hlog htimelyBefore
    by_cases hcommitting : stored.record.status = .committing
    · obtain ⟨rfl, hshield⟩ := hkept before after i handle owner shielded r hlog rfl stored hrow
        hcommitting
      rcases hshield with rfl | ⟨input, answer, hperformed⟩
      · -- The shielded mark is still to be performed, or was.
        rcases Pool.late_of_cancelled h (by simp [coordinatorPool, permits]) hmem with
          hlate | ⟨input, answer, hperformed⟩
        · exact .inr ⟨handle, owner, hlate, rfl⟩
        · obtain ⟨first, rest, hsplit⟩ := List.append_of_mem hperformed
          exact .inl (settled_of_mark h hsplit htimely)
      · obtain ⟨first, rest, hsplit⟩ := List.append_of_mem hperformed
        rw [hsplit, ← List.cons_append, ← List.append_assoc] at hlog
        exact .inl (settled_of_mark h hlog htimely)
    · left
      have hsettled := PreparedActionStatus.settled_of_begun hbegun hcommitting
      rw [object_eq h]
      rw [hlog] at htimely ⊢
      exact IsSettled.later htimely ⟨stored, hrow, hsettled⟩

/-- What an action was created with can be unsealed. -/
theorem sealed_of_row (h : Reached kind host world) (hlog : world.log = before ++ after)
    {stored : StoredAction} (hrow : (storeAfter kind host before).row digest = some stored) :
    Sealed stored.previewValue := by
  obtain ⟨request, generated, now, state, hmem, hpreview⟩ :=
    createdWith_of_row (Pool.inputs before) hrow
  have htrace := Pool.trace_of_reachable h hlog
  rw [show Machine.trace (kind.answer host) {} (Pool.inputs before) =
    before.filterMap Pool.performance from htrace.symm] at hmem
  obtain ⟨creator, delivered, q, hperformed⟩ := Pool.performed_of_trace hmem
  obtain ⟨first, second, rfl⟩ := List.append_of_mem hperformed
  rw [List.append_assoc, List.cons_append] at hlog
  obtain ⟨⟨shielded, rfl⟩, hsent, -⟩ := performed_facts h hlog
  obtain ⟨start, rest, rfl⟩ := List.append_of_mem hsent
  rw [List.append_assoc, List.cons_append] at hlog
  obtain ⟨call, p, -, -, hsends⟩ := Pool.may_of_sent conducts_process h hlog
  rw [← hpreview]
  generalize hq : CoordinatorRequest.store (.create request generated) shielded = q at hsends
  cases hsends with
  | create _ _ hsealed =>
    obtain ⟨⟨rfl, -⟩, -⟩ : (request = _ ∧ _) ∧ _ := by simpa using hq
    exact hsealed
  | _ => simp [markUnknown, beginCommit] at hq

/-- A task that has begun to commit was told so, unless its call came late. -/
theorem told_of_makes (h : Reached kind host world) (hprompt : BeginsPrompt host digest world.log)
    {entry : CoordinatorEntry} (hmem : entry ∈ world.log)
    (hmakes : Makes host digest i .approved .committing entry) :
    ∃ handle owner committing, host.digest.sha256 handle = digest ∧
      Told (Pool.eventsOf (coordinatorPool packs kind host) i world.log)
        (beginCommit handle owner) committing := by
  obtain ⟨delivered, q, handle, owner, resultValue, now, state, rfl, hdigest⟩ := hmakes
  cases delivered with
  | false =>
    exact absurd ⟨false, q, handle, owner, resultValue, now, state, rfl, hdigest⟩
      (hprompt _ _ _ _ hmem)
  | true =>
    obtain ⟨before, after, hlog⟩ := List.append_of_mem hmem
    obtain ⟨⟨shielded, rfl⟩, hsent, -⟩ := performed_facts h hlog
    obtain ⟨first, rest, rfl⟩ := List.append_of_mem hsent
    have hlogFirst := hlog
    rw [List.append_assoc, List.cons_append] at hlogFirst
    obtain ⟨call, p, -, -, hsends⟩ := Pool.may_of_sent conducts_process h hlogFirst
    generalize hq : CoordinatorRequest.store
      (.transition handle owner .approved .committing resultValue) shielded = q at hsends
    cases hsends with
    | @beginCommit coordinator handle' context _ =>
      obtain ⟨⟨rfl, rfl, rfl⟩, rfl⟩ : (handle = handle' ∧ owner = coordinator.owner context ∧
          resultValue = .null) ∧ shielded = false := by
        simpa [beginCommit] using hq
      refine ⟨handle, coordinator.owner context, state, hdigest, ?_⟩
      have hevent : Pool.eventOf (coordinatorPool packs kind host) i
          (.performed i true (.store (Actions.beginCommit handle (coordinator.owner context)))
            (Actions.beginCommit handle (coordinator.owner context), now) (.state state)) =
          some (.replied (.store (Actions.beginCommit handle (coordinator.owner context)))
            (.stored (.state state))) := by
        simp [Pool.eventOf, coordinatorPool]
      exact List.mem_filterMap.mpr ⟨_, hmem, hevent⟩
    | _ => simp [markUnknown] at hq

/-- The task that has made an action committing. -/
theorem begun_of_committing (h : Reached kind host world) {stored : StoredAction}
    (hrow : world.object.row digest = some stored) (hstatus : stored.record.status = .committing) :
    ∃ i call p, world.tasks[i]? = some (call, p) ∧
      ∃ entry ∈ world.log, Makes host digest i .approved .committing entry := by
  rw [object_eq h] at hrow
  obtain ⟨handle, owner, resultValue, now, state, hmem, hdigest⟩ := accepted_of_status
    (fun _ => PreparedActionStatus.approved_of_allows) (by simp) (by simp) (Pool.inputs world.log)
    hrow hstatus
  have htrace := Pool.trace_of_reachable h (List.append_nil _).symm
  rw [show Machine.trace (kind.answer host) {} (Pool.inputs world.log) =
    world.log.filterMap Pool.performance from htrace.symm] at hmem
  obtain ⟨i, delivered, q, hperformed⟩ := Pool.performed_of_trace hmem
  obtain ⟨before, after, hlog⟩ := List.append_of_mem hperformed
  obtain ⟨-, hsent, -⟩ := performed_facts h hlog
  obtain ⟨first, rest, rfl⟩ := List.append_of_mem hsent
  rw [List.append_assoc, List.cons_append] at hlog
  obtain ⟨call, p, htask, -⟩ := Pool.may_of_sent conducts_process h hlog
  exact ⟨i, call, p, htask, _, hperformed, delivered, q, handle, owner, resultValue, now, state,
    rfl, hdigest⟩

/-- A call that has begun a commit and come to its end has settled its action, or left it to its
mark. -/
theorem settled_of_ended (h : Reached kind host world)
    (htimely : Timely kind host digest world.log) (hprompt : BeginsPrompt host digest world.log)
    (hkept : MarksKept kind host digest world.log) {call : CoordinatorCall packs}
    {p : CoordinatorProcess} (htask : world.tasks[i]? = some (call, p)) (hended : p.ended = true)
    {entry : CoordinatorEntry} (hmem : entry ∈ world.log)
    (hmakes : Makes host digest i .approved .committing entry) :
    IsSettled world.object digest ∨ Marking host world digest i := by
  obtain ⟨handle, owner, committing, rfl, htold⟩ := told_of_makes h hprompt hmem hmakes
  obtain ⟨outcome, hsettled, -⟩ := (Pool.keeps_of_task conducts_process h htask).of_ended hended
  rcases hsettled handle owner committing htold with ⟨result, state, hsucceeded⟩ |
    ⟨shielded, r, hmark⟩ | ⟨error, hunsealed⟩
  · left
    obtain ⟨now, hperformed⟩ := performed_of_stored h (List.append_nil _).symm hsucceeded rfl
    obtain ⟨before, after, hlog⟩ := List.append_of_mem hperformed
    obtain ⟨stored, -, -, -, -, hrow, -⟩ := moved_of_performed h hlog
    rw [object_eq h]
    rw [hlog, List.append_cons] at htimely ⊢
    exact IsSettled.later htimely ⟨_, hrow, rfl⟩
  · exact settled_of_replied h hmark htimely hkept
  · -- The committing state keeps the payload of its creation.
    obtain ⟨now, hperformed⟩ := performed_of_stored h (List.append_nil _).symm htold rfl
    obtain ⟨before, after, hlog⟩ := List.append_of_mem hperformed
    obtain ⟨stored, -, -, -, -, hrow, rfl⟩ := moved_of_performed h hlog
    rw [List.append_cons] at hlog
    obtain ⟨execution, hopened⟩ :=
      sealed_of_row h hlog hrow (stored.moved .committing .null).state rfl
    exact absurd (hopened.symm.trans hunsealed) (by simp)

/-- In a run that keeps its marks no commit that has ended leaves its action committing, and every
committing action has a task that goes on with it. -/
theorem commit_settled (kind : StoreKind) (host : StoreHost) {world : CoordinatorWorld packs}
    (h : Reached kind host world) (digest : String) (htimely : Timely kind host digest world.log)
    (hprompt : BeginsPrompt host digest world.log)
    (hkept : MarksKept kind host digest world.log) :
    (∀ (i : ℕ) call p entry, world.tasks[i]? = some (call, p) → p.ended = true →
      entry ∈ world.log → Makes host digest i .approved .committing entry →
      IsSettled world.object digest ∨ Marking host world digest i) ∧
    ∀ stored, world.object.row digest = some stored → stored.record.status = .committing →
      ∃ (i : ℕ) (call : CoordinatorCall packs) (p : CoordinatorProcess),
        world.tasks[i]? = some (call, p) ∧ (p.ended = false ∨ Marking host world digest i) := by
  constructor
  · intro i call p entry htask hended hmem hmakes
    exact settled_of_ended h htimely hprompt hkept htask hended hmem hmakes
  · intro stored hrow hstatus
    obtain ⟨i, call, p, htask, entry, hmem, hmakes⟩ := begun_of_committing h hrow hstatus
    refine ⟨i, call, p, htask, ?_⟩
    cases hended : p.ended with
    | false => exact .inl rfl
    | true =>
      rcases settled_of_ended h htimely hprompt hkept htask hended hmem hmakes with
        ⟨settled, hsettledRow, hsettled⟩ | hmarking
      · obtain rfl : settled = stored := Option.some.inj (hsettledRow.symm.trans hrow)
        rw [hstatus] at hsettled
        exact absurd hsettled (by simp [PreparedActionStatus.settled])
      · exact .inr hmarking

end Settling

/-! An order whose commit is cancelled. -/

/-- The commit of the order is cancelled while the store makes the order committing. -/
def cancelledMoves : List (CoordinatorMove (orderPacks false)) :=
  prepareOrder false ++ [.spawn (.commit (orderCoordinator false) orderHandle aliceCaller)] ++
    stores 1 2 ++ replies 1 .emitted ++ stores 1 2 ++ [.send 1, .cancel 1] ++ stores 1 2 ++
    replies 1 .emitted ++ [.afterwards 0 3]

def cancelledOrder : CoordinatorWorld (orderPacks false) :=
  (playMoves .sqlite StoreHost.plain cancelledMoves).get (by decide +kernel)

/-- The cancelled commit leaves the order committing, and nothing goes on with it. -/
theorem commit_stranded :
    ∃ world : CoordinatorWorld (orderPacks false), Reached .sqlite StoreHost.plain world ∧
      raised world 1 = some .cancelled ∧ world.late = [] ∧
      (world.object.row orderHandle).map (·.record.status) = some .committing := by
  have hended : raised cancelledOrder 1 = some .cancelled ∧
      cancelledOrder.late.isEmpty = true ∧
      (cancelledOrder.object.row orderHandle).map (·.record.status) = some .committing := by
    decide +kernel
  obtain ⟨hraised, hlate, hstatus⟩ := hended
  exact ⟨cancelledOrder, reached_of_playMoves (Option.some_get _).symm, hraised,
    List.isEmpty_iff.mp hlate, hstatus⟩

/-- Every request of a run was performed for its caller, or is none of the store. -/
def answered : CoordinatorEntry → Bool
  | .performed _ delivered _ _ _ => delivered
  | .replied _ (.store _ _) _ => false
  | _ => true

theorem beginsPrompt_of_answered {host : StoreHost} {digest : String}
    {log : List CoordinatorEntry} (h : log.all answered = true) :
    BeginsPrompt host digest log := by
  intro task q input answer hmem
  exact absurd (List.all_eq_true.mp h _ hmem) (by simp [answered])

theorem marksKept_of_answered {kind : StoreKind} {host : StoreHost} {digest : String}
    {log : List CoordinatorEntry} (h : log.all answered = true) :
    MarksKept kind host digest log := by
  intro before after task handle owner shielded r hlog
  have hmem : .replied task (.store (markUnknown handle owner) shielded) r ∈ log := by
    rw [hlog]
    exact List.mem_append_right _ List.mem_cons_self
  exact absurd (List.all_eq_true.mp h _ hmem) (by simp [answered])

theorem commit_settled_order :
    raised unknownOrder 1 = some (.error outcomeUnknownError) ∧
      ∀ stored, unknownOrder.object.row orderHandle = some stored →
        stored.record.status ≠ .committing ∨
          ∃ (i : ℕ) (call : CoordinatorCall (orderPacks false)) (p : CoordinatorProcess),
            unknownOrder.tasks[i]? = some (call, p) ∧
              (p.ended = false ∨ Marking StoreHost.plain unknownOrder orderHandle i) := by
  refine ⟨by decide +kernel, ?_⟩
  have hanswered : unknownOrder.log.all answered = true := by
    decide +kernel
  have hearly : (unknownOrder.object.row orderHandle).all (fun stored =>
      unknownOrder.log.all (readsBefore stored.record.expiresAt)) = true := by
    decide +kernel
  intro stored hrow
  rw [hrow, Option.all_some] at hearly
  have hsettled := commit_settled .sqlite StoreHost.plain unknownOrder_reached orderHandle
    (timely_of_readsBefore unknownOrder_reached hrow hearly) (beginsPrompt_of_answered hanswered)
    (marksKept_of_answered hanswered)
  by_cases hstatus : stored.record.status = .committing
  · exact .inr (hsettled.2 stored hrow hstatus)
  · exact .inl hstatus

end CapabilityCompiler.Actions
