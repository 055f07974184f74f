import CapabilityCompiler.Actions.BindingIsolation
import CapabilityCompiler.Actions.OutcomeKept

/-! An unknown outcome stays recoverable, and is never told as expired, in a timely run. -/
namespace CapabilityCompiler.Actions
open Foundation

section Live
variable {kind : StoreKind} {host : StoreHost} {store : ActionStore} {handle : String}
  {owner : Owner} {stored : StoredAction} {now : ℚ}

/-- The owner of a live action holds its handle. -/
structure Holds (host : StoreHost) (store : ActionStore) (handle : String) (owner : Owner)
    (stored : StoredAction) : Prop where
  row : store.row (host.digest.sha256 handle) = some stored
  opened : store.closed = false
  handled : isHandle handle = true
  checked : owner.check = .ok ()
  bound : stored.boundTo host owner = true
  unexpired : stored.record.status ≠ .expired

theorem Holds.resolved (h : Holds host store handle owner stored) (hlive : stored.isDue now = false) :
    InMemoryActionStore.resolveBound host store handle owner now = (.ok stored, store) := by
  have hrow : Table.get? (host.digest.sha256 handle) store.actions = some stored := h.row
  simp [InMemoryActionStore.resolveBound, h.opened, h.handled, hrow, h.checked, h.bound, hlive,
    h.unexpired]

theorem Holds.accessed (h : Holds host store handle owner stored) (hlive : stored.isDue now = false)
    (next : String → StoredAction → Except ActionError StoredAction × ActionStore) :
    SQLiteActionStore.access host store handle owner now next =
      next (host.digest.sha256 handle) stored := by
  have hrow : Table.get? (host.digest.sha256 handle) store.actions = some stored := h.row
  simp [SQLiteActionStore.access, SQLiteActionStore.handleDigest, SQLiteActionStore.ensureOpen,
    SQLiteActionStore.boundRow, h.opened, h.handled, hrow, h.checked, h.bound, hlive, h.unexpired]

/-- Its owner reads a live action. -/
theorem Holds.resolve (h : Holds host store handle owner stored) (kind : StoreKind)
    (hlive : stored.isDue now = false) :
    kind.answer host store (.resolve handle owner, now) = (.state stored.state, store) := by
  cases kind with
  | memory => simp only [StoreKind.answer_memory_resolve, h.resolved hlive, respond]
  | sqlite =>
    simp only [StoreKind.answer_sqlite_resolve, SQLiteActionStore.resolve, h.accessed hlive, respond]

/-- Its owner makes an allowed transition of a live action. -/
theorem Holds.transition (h : Holds host store handle owner stored) (kind : StoreKind)
    (hlive : stored.isDue now = false) {target : PreparedActionStatus}
    (hallowed : stored.record.status.allows target = true) {resultValue : Json}
    (hplaced : misplaced target resultValue = false) :
    kind.answer host store
        (.transition handle owner stored.record.status target resultValue, now) =
      (.state (stored.moved target resultValue).state,
        store.withAction (host.digest.sha256 handle) (stored.moved target resultValue)) := by
  cases kind with
  | memory =>
    simp [ActionStore.withAction, StoreKind.answer_memory_transition,
      InMemoryActionStore.transition, h.resolved hlive, hallowed, hplaced,
      respond]
  | sqlite =>
    simp [ActionStore.withAction, StoreKind.answer_sqlite_transition,
      SQLiteActionStore.transition, h.accessed hlive, hallowed, hplaced,
      respond]

end Live

/-! What a call is told of an expired action. -/

section Expired
variable {kind : StoreKind} {host : StoreHost} {store : ActionStore} {call : StoreCall × ℚ}

theorem exactIdentifier_error {value fieldName : String} {error : ActionError}
    (h : exactIdentifier value fieldName = .error error) : error ≠ actionExpired := by
  unfold exactIdentifier at h
  rintro rfl
  simp only at h
  split at h
  · simp [actionExpired] at h
  · split at h
    · simp [actionExpired] at h
    · exact absurd h (by simp)

theorem validatePackDigest_error {value : String} {error : ActionError}
    (h : validatePackDigest value = .error error) : error ≠ actionExpired := by
  unfold validatePackDigest at h
  rintro rfl
  split at h
  · split at h
    · exact absurd h (by simp)
    · simp [actionExpired] at h
  · simp [actionExpired] at h

theorem owner_check_error {owner : Owner} {error : ActionError}
    (h : owner.check = .error error) : error ≠ actionExpired := by
  unfold Owner.check exactIdentifier? at h
  cases hprincipal : exactIdentifier owner.principalId "principal_id" with
  | error error' =>
    obtain rfl : error' = error := by simpa [hprincipal, bind, Except.bind] using h
    exact exactIdentifier_error hprincipal
  | ok _ =>
    cases hsession : owner.sessionId with
    | none =>
      rw [hprincipal, hsession] at h
      exact validatePackDigest_error h
    | some session =>
      cases hchecked : exactIdentifier session "session_id" with
      | error error' =>
        obtain rfl : error' = error := by
          simpa [hprincipal, hsession, hchecked, bind, Except.bind, Except.map] using h
        exact exactIdentifier_error hchecked
      | ok _ =>
        simp only [hprincipal, hsession, hchecked, bind, Except.bind, Except.map] at h
        exact validatePackDigest_error h

theorem create_check_error {request : CreateRequest} {generated : String} {error : ActionError}
    (h : request.check generated = .error error) : error ≠ actionExpired := by
  unfold CreateRequest.check at h
  cases hcapability : exactIdentifier request.capabilityId "capability_id" with
  | error error' =>
    obtain rfl : error' = error := by simpa [hcapability, bind, Except.bind] using h
    exact exactIdentifier_error hcapability
  | ok _ =>
    cases howner : request.owner.check with
    | error error' =>
      obtain rfl : error' = error := by simpa [hcapability, howner, bind, Except.bind] using h
      exact owner_check_error howner
    | ok _ =>
      simp only [hcapability, howner, bind, Except.bind] at h
      rintro rfl
      split at h
      · simp [actionExpired] at h
      · split at h
        · exact absurd h (by simp [pure, Except.pure])
        · simp [actionExpired, conflict, stateConflict] at h

/-- Whoever is told that an action has expired leaves it expired. -/
def LeavesExpired (host : StoreHost) (handle : String)
    (result : Except ActionError StoredAction × ActionStore) : Prop :=
  result.1 = .error actionExpired →
    ∃ stored, result.2.row (host.digest.sha256 handle) = some stored ∧
      stored.record.status = .expired

theorem leavesExpired_error {handle : String} {error : ActionError} (h : error ≠ actionExpired) :
    LeavesExpired host handle (.error error, store) :=
  fun hexpired => absurd (Except.error.inj hexpired) h

theorem leavesExpired_ok {handle : String} (stored : StoredAction) :
    LeavesExpired host handle (.ok stored, store) :=
  fun hexpired => absurd hexpired (by simp)

theorem leavesExpired_marked {handle : String} (stored : StoredAction) :
    LeavesExpired host handle (.error actionExpired, { store with
      actions := Table.put (host.digest.sha256 handle) (stored.withStatus .expired)
        store.actions }) :=
  fun _ => ⟨stored.withStatus .expired, Table.get?_put_self _ _ _, rfl⟩

theorem resolveBound_leavesExpired (host : StoreHost) (store : ActionStore) (handle : String) (owner : Owner) (now : ℚ) :
    LeavesExpired host handle
      (InMemoryActionStore.resolveBound host store handle owner now) := by
  unfold InMemoryActionStore.resolveBound
  split
  · exact leavesExpired_error (by simp [handleInvalid, actionExpired])
  · split
    · simp only
      split
      · exact leavesExpired_error (by simp [handleInvalid, actionExpired])
      · split
        · rename_i hcheck
          exact leavesExpired_error (owner_check_error hcheck)
        · split
          · split
            · exact leavesExpired_marked _
            · exact leavesExpired_ok _
          · exact leavesExpired_error (by simp [bindingMismatch, actionExpired])
    · exact leavesExpired_error (by simp [handleInvalid, actionExpired])

theorem access_leavesExpired (handle : String) (owner : Owner) (now : ℚ)
    {next : String → StoredAction → Except ActionError StoredAction × ActionStore}
    (hnext : ∀ digest stored, LeavesExpired host handle (next digest stored)) :
    LeavesExpired host handle (SQLiteActionStore.access host store handle owner now next) := by
  unfold SQLiteActionStore.access SQLiteActionStore.handleDigest SQLiteActionStore.ensureOpen
    SQLiteActionStore.boundRow
  by_cases hhandle : isHandle handle
  · simp only [hhandle, if_true]
    cases hcheck : owner.check with
    | error error => exact leavesExpired_error (owner_check_error hcheck)
    | ok _ =>
      by_cases hclosed : store.closed
      · simp only [hclosed, if_true]
        exact leavesExpired_error (by simp [handleInvalid, actionExpired])
      · simp only [hclosed, Bool.false_eq_true, if_false]
        cases Table.get? (host.digest.sha256 handle) store.actions with
        | none => exact leavesExpired_error (by simp [handleInvalid, actionExpired])
        | some stored =>
          by_cases hbound : stored.boundTo host owner = true
          · simp only [hbound, if_true]
            split
            · exact leavesExpired_marked _
            · exact hnext _ _
          · simp only [hbound, Bool.false_eq_true, if_false]
            exact leavesExpired_error (by simp [bindingMismatch, actionExpired])
  · simp only [hhandle, Bool.false_eq_true, if_false]
    exact leavesExpired_error (by simp [handleInvalid, actionExpired])

theorem memory_transition_leavesExpired (handle : String) (owner : Owner)
    (expected target : PreparedActionStatus) (resultValue : Json) (now : ℚ) :
    LeavesExpired host handle
      (InMemoryActionStore.transition host store handle owner expected target resultValue now) := by
  have hresolved := resolveBound_leavesExpired host store handle owner now
  unfold InMemoryActionStore.transition
  cases hresult : InMemoryActionStore.resolveBound host store handle owner now with
  | mk result store' =>
    rw [hresult] at hresolved
    cases result with
    | error error => exact hresolved
    | ok stored =>
      simp only
      split
      · exact leavesExpired_error (by simp [transitionConflict, conflict, stateConflict,
          actionExpired])
      · split
        · exact leavesExpired_error (by simp [resultConflict, conflict, stateConflict,
            actionExpired])
        · exact leavesExpired_ok _

theorem sqlite_transition_leavesExpired (handle : String) (owner : Owner)
    (expected target : PreparedActionStatus) (resultValue : Json) (now : ℚ) :
    LeavesExpired host handle
      (SQLiteActionStore.transition host store handle owner expected target resultValue now) := by
  unfold SQLiteActionStore.transition
  split
  · exact leavesExpired_error (by simp [transitionConflict, conflict, stateConflict,
      actionExpired])
  · split
    · exact leavesExpired_error (by simp [resultConflict, conflict, stateConflict, actionExpired])
    · refine access_leavesExpired handle owner now fun digest stored => ?_
      split
      · exact leavesExpired_error (by simp [transitionConflict, conflict, stateConflict,
          actionExpired])
      · exact leavesExpired_ok _

theorem raised_of_respond {accepted : PreparedActionState → StoreAnswer}
    {result : Except ActionError StoredAction × ActionStore} {error : ActionError}
    (haccepted : ∀ state, accepted state ≠ .raised error)
    (h : (respond accepted result).1 = .raised error) : result.1 = .error error := by
  obtain ⟨result, store'⟩ := result
  cases result with
  | ok stored => exact absurd h (haccepted _)
  | error error' =>
    obtain rfl : error' = error := by simpa [respond] using h
    rfl

/-- A call that is told that its action has expired leaves it expired. -/
theorem expired_of_answer (h : (kind.answer host store call).1 = .raised actionExpired) :
    ∃ stored, (kind.answer host store call).2.row (host.digest.sha256 call.1.handle) =
      some stored ∧ stored.record.status = .expired := by
  obtain ⟨call, now⟩ := call
  cases call with
  | create request generated =>
    exfalso
    have hraised : ∀ state, StoreAnswer.created generated state ≠ .raised actionExpired := by simp
    cases kind with
    | memory =>
      have hresult := raised_of_respond hraised h
      unfold InMemoryActionStore.create newAction at hresult
      split at hresult
      · rename_i hcheck
        exact create_check_error hcheck (Except.error.inj hresult)
      · split at hresult
        · simp [handleInvalid, actionExpired] at hresult
        · simp only at hresult
          split at hresult
          · simp [creationConflict, conflict, stateConflict, actionExpired] at hresult
          · split at hresult
            · rename_i hnew
              split at hnew
              · exact absurd hnew (by simp)
              · rw [Except.error.inj hresult] at hnew
                simp [actionExpired] at hnew
            · exact absurd hresult (by simp)
    | sqlite =>
      have hresult := raised_of_respond hraised h
      unfold SQLiteActionStore.create newAction at hresult
      split at hresult
      · rename_i hcheck
        exact create_check_error hcheck (Except.error.inj hresult)
      · split at hresult
        · simp [handleInvalid, actionExpired] at hresult
        · simp only at hresult
          split at hresult
          · rename_i hnew
            split at hnew
            · exact absurd hnew (by simp)
            · rw [Except.error.inj hresult] at hnew
              simp [actionExpired] at hnew
          · split at hresult
            · simp [creationConflict, conflict, stateConflict, actionExpired] at hresult
            · exact absurd hresult (by simp)
  | resolve handle owner =>
    have hraised : ∀ state, StoreAnswer.state state ≠ .raised actionExpired := by simp
    cases kind with
    | memory =>
      simp only [StoreKind.answer_memory_resolve, respond_snd]
      exact resolveBound_leavesExpired host store handle owner now (raised_of_respond hraised h)
    | sqlite =>
      simp only [StoreKind.answer_sqlite_resolve, respond_snd]
      exact access_leavesExpired handle owner now (fun _ _ => leavesExpired_ok _)
        (raised_of_respond hraised h)
  | transition handle owner expected target resultValue =>
    have hraised : ∀ state, StoreAnswer.state state ≠ .raised actionExpired := by simp
    cases kind with
    | memory =>
      simp only [StoreKind.answer_memory_transition, respond_snd]
      exact memory_transition_leavesExpired handle owner expected target resultValue now
        (raised_of_respond hraised h)
    | sqlite =>
      simp only [StoreKind.answer_sqlite_transition, respond_snd]
      exact sqlite_transition_leavesExpired handle owner expected target resultValue now
        (raised_of_respond hraised h)

end Expired

/-! No call opens or closes a store. -/

section Closed
variable {host : StoreHost} {store : ActionStore}

theorem resolveBound_closed (host : StoreHost) (store : ActionStore) (handle : String) (owner : Owner) (now : ℚ) :
    (InMemoryActionStore.resolveBound host store handle owner now).2.closed = store.closed := by
  rcases resolveBound_cases host store handle owner now with
    ⟨error, h⟩ | ⟨stored, -, -, ⟨-, h⟩ | ⟨-, h⟩⟩
  · rw [h]
  · rw [h]
  · rw [h]

theorem access_closed (handle : String) (owner : Owner) (now : ℚ)
    {next : String → StoredAction → Except ActionError StoredAction × ActionStore}
    (hnext : ∀ digest stored, (next digest stored).2.closed = store.closed) :
    (SQLiteActionStore.access host store handle owner now next).2.closed = store.closed := by
  rcases access_cases host store handle owner now next with
    ⟨error, h⟩ | ⟨stored, -, -, ⟨-, h⟩ | ⟨-, h⟩⟩
  · rw [h]
  · rw [h]
  · rw [h]
    exact hnext _ _

theorem create_closed (kind : StoreKind) (request : CreateRequest) (generated : String) (now : ℚ) :
    (kind.answer host store (.create request generated, now)).2.closed = store.closed := by
  cases kind with
  | memory =>
    simp only [StoreKind.answer_memory_create, respond_snd, InMemoryActionStore.create]
    split
    · rfl
    · split
      · rfl
      · split
        · rfl
        · split <;> rfl
  | sqlite =>
    simp only [StoreKind.answer_sqlite_create, respond_snd, SQLiteActionStore.create]
    split
    · rfl
    · split
      · rfl
      · split
        · rfl
        · split <;> rfl

theorem closed_of_answer (kind : StoreKind) (host : StoreHost) (store : ActionStore)
    (call : StoreCall × ℚ) : (kind.answer host store call).2.closed = store.closed := by
  obtain ⟨call, now⟩ := call
  cases call with
  | create request generated => exact create_closed kind request generated now
  | resolve handle owner =>
    cases kind with
    | memory =>
      simp only [StoreKind.answer_memory_resolve, respond_snd]
      exact resolveBound_closed host store handle owner now
    | sqlite =>
      simp only [StoreKind.answer_sqlite_resolve, respond_snd]
      exact access_closed handle owner now fun _ _ => rfl
  | transition handle owner expected target resultValue =>
    cases kind with
    | memory =>
      simp only [StoreKind.answer_memory_transition, respond_snd, InMemoryActionStore.transition]
      have hclosed := resolveBound_closed host store handle owner now
      cases hresult : InMemoryActionStore.resolveBound host store handle owner now with
      | mk result store' =>
        rw [hresult] at hclosed
        cases result with
        | error error => exact hclosed
        | ok stored =>
          simp only
          split
          · exact hclosed
          · split
            · exact hclosed
            · exact hclosed
    | sqlite =>
      simp only [StoreKind.answer_sqlite_transition, respond_snd, SQLiteActionStore.transition]
      split
      · rfl
      · split
        · rfl
        · refine access_closed handle owner now fun digest stored => ?_
          split
          · rfl
          · rfl

theorem opened_of_reached {packs : Packs} {kind : StoreKind} {world : CoordinatorWorld packs}
    (h : Reached kind host world) : world.object.closed = false := by
  rw [object_eq h]
  exact Machine.invariant (P := fun store : ActionStore => store.closed = false)
    (fun store call hopen => (closed_of_answer kind host store call).trans hopen) rfl _

end Closed

/-! A status call that recovers its action. -/

section Recovery
variable {packs : Packs} {kind : StoreKind} {host : StoreHost} {store store' last : ActionStore}

theorem alone_stored {call : StoreCall} {now : ℚ} {answer : StoreAnswer} {shielded : Bool}
    {resume : CoordinatorReply → CoordinatorProcess} {p : CoordinatorProcess}
    (hanswer : kind.answer host store (call, now) = (answer, store'))
    (h : Pool.Alone (coordinatorPool packs kind host) store' (resume (.stored answer)) last p) :
    Pool.Alone (coordinatorPool packs kind host) store
      (.request (.store call shielded) resume) last p := by
  refine .ask now rfl ?_
  have hsame : (coordinatorPool packs kind host).answer store (call, now) = (answer, store') :=
    hanswer
  rw [hsame]
  exact h

/-- A call that is told what the owner of a recoverable action can be told. -/
structure Recovers (coordinator : Coordinator packs) (context : CallerContext)
    (stored : StoredAction) (definition : CompiledActionDefinition)
    (execution : ActionCommitExecution) (result : Json) : Prop where
  unknown : stored.record.status = .outcomeUnknown
  authorized : coordinator.authorized stored.record.capabilityId context = .ok definition
  resolves : coordinator.resolvesOutcomes = true
  unsealed : unsealPreview stored.state = .ok execution
  valid : coordinator.schemas.valid definition.capability.outputSchema result = true
  spans : ∀ identity, coordinator.audit = some identity → ∃ span, Coordinator.auditSpan identity
    .status stored.record.capabilityId context (some stored.record.handleDigest) = .ok span

variable {coordinator : Coordinator packs} {context : CallerContext} {stored : StoredAction}
  {definition : CompiledActionDefinition} {execution : ActionCommitExecution} {result : Json}
  {handle : String} {now : ℚ}

/-- The status of a recovered action. -/
def recoveredStatus (stored : StoredAction) (result : Json) : CoordinatorReport :=
  .status { capabilityId := stored.record.capabilityId, status := .succeeded, result := result }

theorem alone_statusAction
    (hholds : Holds host store handle (coordinator.owner context) stored)
    (hlive : stored.isDue now = false)
    (hrecovers : Recovers coordinator context stored definition execution result)
    {next : Except CoordinatorFailure CoordinatorReport → CoordinatorProcess}
    {p : CoordinatorProcess}
    (hnext : Pool.Alone (coordinatorPool packs kind host)
      (store.withAction (host.digest.sha256 handle) (stored.moved .succeeded result))
      (next (.ok (recoveredStatus stored result))) last p) :
    Pool.Alone (coordinatorPool packs kind host) store
      (coordinator.statusAction handle context next) last p := by
  unfold Coordinator.statusAction Coordinator.resolve askStore
  refine alone_stored (hholds.resolve kind hlive) ?_
  have hstate : stored.state.record = stored.record := rfl
  simp only [awaited, hstate, hrecovers.authorized, assured, hrecovers.unknown,
    hrecovers.resolves, and_self, if_true, Coordinator.recoverOutcome, hrecovers.unsealed]
  refine .told (.recovered result) trivial ?_
  simp only [Coordinator.storeRecovery, hrecovers.valid, if_true, Coordinator.transition, askStore]
  have hallowed : stored.record.status.allows .succeeded = true := by
    rw [hrecovers.unknown]
    rfl
  have hplaced : misplaced .succeeded result = false := by simp [misplaced]
  have hmoved := hholds.transition kind hlive hallowed hplaced
  rw [hrecovers.unknown] at hmoved
  refine alone_stored hmoved ?_
  simpa [awaited, Except.map, Coordinator.publicStatus, recoveredStatus, StoredAction.moved,
    StoredAction.withStatus, StoredAction.state] using hnext

/-- Alone with the store, a status call recovers the action of its owner. -/
theorem alone_status (kind : StoreKind)
    (hholds : Holds host store handle (coordinator.owner context) stored)
    (hlive : stored.isDue now = false)
    (hrecovers : Recovers coordinator context stored definition execution result) :
    Pool.Alone (coordinatorPool packs kind host) store (coordinator.status handle context)
      (store.withAction (host.digest.sha256 handle) (stored.moved .succeeded result))
      (.done (recoveredStatus stored result)) := by
  unfold Coordinator.status Coordinator.resolve askStore
  refine alone_stored (hholds.resolve kind hlive) ?_
  simp only [awaited, Coordinator.startAudit]
  cases haudit : coordinator.audit with
  | none =>
    refine alone_statusAction hholds hlive hrecovers ?_
    exact .refl _ _
  | some identity =>
    obtain ⟨span, hspan⟩ := hrecovers.spans identity haudit
    have hstate : stored.state.record = stored.record := rfl
    simp only [hstate, hspan, assured]
    refine .told .emitted trivial ?_
    refine alone_statusAction hholds hlive hrecovers ?_
    refine .told .emitted trivial ?_
    exact .refl _ _

/-- A pool can let a status call recover an action. -/
theorem leads_to_recovered {world : CoordinatorWorld packs}
    (hholds : Holds host world.object handle (coordinator.owner context) stored)
    (hlive : stored.isDue now = false)
    (hrecovers : Recovers coordinator context stored definition execution result) :
    ∃ (world' : CoordinatorWorld packs) (i : ℕ), Pool.Leads (coordinatorPool packs kind host) world world' ∧
      world'.tasks[i]? = some (.status coordinator handle context,
        .done (recoveredStatus stored result)) ∧
      world'.object.row (host.digest.sha256 handle) = some (stored.moved .succeeded result) := by
  let call : CoordinatorCall packs := .status coordinator handle context
  let spawned : CoordinatorWorld packs :=
    { world with tasks := world.tasks ++ [(call, call.process)] }
  have hspawn : Pool.Step (coordinatorPool packs kind host) world spawned := .spawn world call
  have htask : spawned.tasks[world.tasks.length]? = some (call, call.process) :=
    List.getElem?_concat_length
  have halone := alone_status kind hholds hlive hrecovers
  obtain ⟨world', hleads, hobject, htask'⟩ := Pool.leads_of_alone halone
    (show spawned.object = world.object from rfl) htask
  refine ⟨world', world.tasks.length, .head hspawn hleads, htask', ?_⟩
  rw [hobject]
  exact Table.get?_put_self _ _ _

/-- In a timely run an action whose commit has begun is only told as begun and never as expired, a
success keeps its result, and an unknown outcome can be recovered by its owner. -/
theorem outcome_never_lost (kind : StoreKind) (host : StoreHost) {world : CoordinatorWorld packs}
    (h : Reached kind host world) {before after : List CoordinatorEntry}
    (hlog : world.log = before ++ after) {digest : String} {stored : StoredAction}
    (hrow : (storeAfter kind host before).row digest = some stored)
    (hbegun : stored.record.status.begun = true) (htimely : Timely kind host digest world.log) :
    (∃ stored', world.object.row digest = some stored' ∧ stored'.record.status.begun = true ∧
      (stored.record.status = .succeeded → stored' = stored) ∧
      ∀ (coordinator : Coordinator packs) context handle definition execution result now,
        host.digest.sha256 handle = digest → isHandle handle = true →
        (coordinator.owner context).check = .ok () →
        stored'.boundTo host (coordinator.owner context) = true → stored'.isDue now = false →
        Recovers coordinator context stored' definition execution result →
        ∃ (world' : CoordinatorWorld packs) (i : ℕ), Pool.Leads (coordinatorPool packs kind host) world world' ∧
          world'.tasks[i]? = some (.status coordinator handle context,
            .done (recoveredStatus stored' result)) ∧
          world'.object.row digest = some (stored'.moved .succeeded result)) ∧
    (∀ first entry second, after = first ++ entry :: second →
      (∀ task state, Tells host digest task state entry → state.record.status.begun = true ∧
        (stored.record.status = .succeeded → state = stored.state)) ∧
      ∀ task delivered q call now,
        entry = .performed task delivered q (call, now) (.raised actionExpired) →
        host.digest.sha256 call.handle ≠ digest) ∧
    ∀ (i : ℕ) call report handle, world.tasks[i]? = some (call, .done report) →
      call.handle? = some handle → host.digest.sha256 handle = digest →
      ∃ entry state, Tells host digest i state entry ∧
        report.shownStatus = state.record.status ∧
        (entry ∈ before ∨ entry ∈ after ∧ report.shownStatus.begun = true) := by
  have htold : ∀ first entry second, after = first ++ entry :: second → ∀ task state,
      Tells host digest task state entry → state.record.status.begun = true ∧
        (stored.record.status = .succeeded → state = stored.state) := by
    intro first entry second hafter task state htells
    have hentry : world.log = before ++ first ++ entry :: second := by
      rw [hlog, hafter, List.append_assoc]
    exact told_of_timely h htimely hentry hrow hbegun htells
  refine ⟨?_, fun first entry second hafter => ⟨htold first entry second hafter, ?_⟩, ?_⟩
  · obtain ⟨stored', hrow', hbegun', hsame⟩ := begun_of_timely (hlog ▸ htimely) hrow hbegun
    rw [← hlog, ← object_eq h] at hrow'
    refine ⟨stored', hrow', hbegun', hsame, ?_⟩
    rintro coordinator context handle definition execution result now rfl hhandle hcheck hbound
      hlive hrecovers
    refine leads_to_recovered ⟨hrow', opened_of_reached h, hhandle, hcheck, hbound, ?_⟩ hlive
      hrecovers
    rw [hrecovers.unknown]
    simp
  · rintro task delivered q call now rfl rfl
    have hentry : world.log = (before ++ first) ++ .performed task delivered q (call, now)
        (.raised actionExpired) :: second := by
      rw [hlog, hafter, List.append_assoc]
    obtain ⟨expired, hexpired, hstatus⟩ := expired_of_answer (performed_facts h hentry).2.2
    rw [List.append_cons, List.append_assoc before] at hentry
    rw [hentry] at htimely
    obtain ⟨stored', hrow', hbegun', -⟩ := begun_of_timely htimely.left hrow hbegun
    rw [← List.append_assoc, storeAfter_append] at hrow'
    obtain rfl : expired = stored' := Option.some.inj (hexpired.symm.trans hrow')
    rw [hstatus] at hbegun'
    exact absurd hbegun' (by simp [PreparedActionStatus.begun])
  · rintro i call report handle htask hhandle rfl
    obtain ⟨entry, hmem, state, htells, hstatus, -⟩ := tells_of_done h htask hhandle
    refine ⟨entry, state, htells, hstatus, ?_⟩
    rw [hlog] at hmem
    rcases List.mem_append.mp hmem with hearlier | hlater
    · exact .inl hearlier
    · obtain ⟨first, second, hafter⟩ := List.append_of_mem hlater
      rw [hstatus]
      exact .inr ⟨hlater, (htold first entry second hafter i state htells).1⟩

end Recovery

/-! An order that is read again once its time is over. -/

/-- What a task has raised. -/
def raised {packs : Packs} (world : CoordinatorWorld packs) (task : ℕ) :
    Option CoordinatorFailure :=
  match world.tasks[task]? with
  | some (_, .failed failure) => some failure
  | _ => none

/-- The order is committed, and its success reported. -/
def succeededMoves : List (CoordinatorMove (orderPacks false)) :=
  prepareOrder false ++ beginOrder false 1 2 ++
    [.outside 1 (.committed (.obj [("id", .int 7)]))] ++ stores 1 3 ++ replies 1 .emitted

/-- The commit of the order fails, and its outcome is unknown. -/
def unknownMoves : List (CoordinatorMove (orderPacks false)) :=
  prepareOrder false ++ beginOrder false 1 2 ++ [.outside 1 .exception] ++ stores 1 3 ++
    stores 1 3 ++ replies 1 .emitted

/-- The commit of the order has failed, before its time is over. -/
def unknownOrder : CoordinatorWorld (orderPacks false) :=
  (playMoves .sqlite StoreHost.plain unknownMoves).get (by decide +kernel)

/-- The status of the order is asked for at a reading of the clock. -/
def readAgain (now : ℚ) : List (CoordinatorMove (orderPacks false)) :=
  [.spawn (.status (orderCoordinator false) orderHandle aliceCaller)] ++ stores 2 now

/-- From its expiry on, a success and an unknown outcome are told as expired. -/
theorem outcome_lost :
    let rowStatus := fun (world : CoordinatorWorld (orderPacks false)) =>
      (world.object.row orderHandle).map (·.record.status)
    ((playMoves .sqlite StoreHost.plain succeededMoves).map fun world =>
        (rowStatus world, shown world 1)) = some (some .succeeded, some .succeeded) ∧
      ((playMoves .sqlite StoreHost.plain (succeededMoves ++ readAgain 60)).map fun world =>
        (rowStatus world, raised world 2)) = some (some .expired, some (.error actionExpired)) ∧
      ((playMoves .sqlite StoreHost.plain unknownMoves).map fun world =>
        (rowStatus world, raised world 1)) =
          some (some .outcomeUnknown, some (.error outcomeUnknownError)) ∧
      ((playMoves .sqlite StoreHost.plain (unknownMoves ++ readAgain 60)).map fun world =>
        (rowStatus world, raised world 2)) = some (some .expired, some (.error actionExpired)) :=
  ⟨by decide +kernel, by decide +kernel, by decide +kernel, by decide +kernel⟩

/-- A performed call reads the clock before a time. -/
def readsBefore (time : ℚ) : CoordinatorEntry → Bool
  | .performed _ _ _ input _ => decide (input.2 < time)
  | _ => true

/-- A run is timely for an action if every reading of the clock is before its expiry. -/
theorem timely_of_readsBefore {packs : Packs} {kind : StoreKind} {host : StoreHost}
    {world : CoordinatorWorld packs} (h : Reached kind host world) {digest : String}
    {stored : StoredAction} (hrow : world.object.row digest = some stored)
    (hearly : world.log.all (readsBefore stored.record.expiresAt) = true) :
    Timely kind host digest world.log := by
  intro before after i delivered q input answer hlog earlier hearlier _ hdue
  obtain ⟨later, hlater, hprepared⟩ := row_later h hlog hearlier
  obtain rfl : later = stored := Option.some.inj (hlater.symm.trans hrow)
  have hexpiry : later.record.expiresAt = earlier.record.expiresAt :=
    congrArg (fun stored => stored.record.expiresAt) hprepared
  have hmem : .performed i delivered q input answer ∈ world.log := by
    rw [hlog]
    exact List.mem_append_right _ List.mem_cons_self
  have hlt : input.2 < later.record.expiresAt :=
    of_decide_eq_true (List.all_eq_true.mp hearly _ hmem)
  rw [hexpiry] at hlt
  exact absurd (of_decide_eq_true hdue) (not_le.mpr hlt)

theorem unknownOrder_reached : Reached .sqlite StoreHost.plain unknownOrder :=
  reached_of_playMoves (Option.some_get _).symm

theorem outcome_never_lost_order :
    (unknownOrder.object.row orderHandle).map (·.record.status) = some .outcomeUnknown ∧
      ∃ stored, unknownOrder.object.row orderHandle = some stored ∧
        stored.record.status.begun = true := by
  refine ⟨by decide +kernel, ?_⟩
  have hbegun : (unknownOrder.object.row orderHandle).any (fun stored =>
      stored.record.status.begun && unknownOrder.log.all (readsBefore stored.record.expiresAt)) =
      true := by
    decide +kernel
  obtain ⟨stored, hrow, hstored⟩ := (Option.any_eq_true _ _).mp hbegun
  rw [Bool.and_eq_true] at hstored
  have htimely := timely_of_readsBefore unknownOrder_reached hrow hstored.2
  have hafter : (storeAfter .sqlite StoreHost.plain unknownOrder.log).row orderHandle =
      some stored := by
    rw [← object_eq unknownOrder_reached]
    exact hrow
  obtain ⟨stored', hrow', hbegun', -⟩ := (outcome_never_lost .sqlite StoreHost.plain
    unknownOrder_reached (List.append_nil _).symm hafter hstored.1 htimely).1
  exact ⟨stored', hrow', hbegun'⟩

end CapabilityCompiler.Actions
