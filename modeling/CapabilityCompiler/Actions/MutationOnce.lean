import CapabilityCompiler.Actions.CoordinatorPool
import CapabilityCompiler.Foundation.PoolMoves

/-! A prepared action is committed at most once, and only as it was approved. -/
namespace CapabilityCompiler.Actions
open Foundation Compiler

/-- The definition that a pack has for the action of a record. -/
def Packs.definitionOf (packs : Packs) (record : PreparedActionRecord) :
    Option CompiledActionDefinition :=
  Table.get? record.capabilityId (packs.definitions record.packDigest)

/-- The executor is asked to commit the action of a handle. -/
def invokes {packs : Packs} (world : CoordinatorWorld packs) (handle : String) :
    CoordinatorEntry → Bool
  | .sent i (.commit _ _ _) =>
    (world.tasks[i]?).any fun task => decide (task.1.handle? = some handle)
  | _ => false

/-- The action of a record was approved, for a grant if that is needed, and then a task began to
commit it. -/
def Sanctioned (host : StoreHost) (log : List CoordinatorEntry) (task : ℕ)
    (record : PreparedActionRecord) (needed : Bool) : Prop :=
  ∃ first second third approver approving beginning,
    log = first ++ approving :: second ++ beginning :: third ∧
    Makes host record.handleDigest approver .prepared .approved approving ∧
    Makes host record.handleDigest task .approved .committing beginning ∧
    (needed = true → ∃ approvalHandle grant,
      .replied approver (.verify approvalHandle (ApprovalBinding.fromRecord record))
        (.granted grant) ∈ first ∧ grant.binding = ApprovalBinding.fromRecord record)

section Mutation
variable {packs : Packs} {kind : StoreKind} {host : StoreHost} {world : CoordinatorWorld packs}
  {before after : List CoordinatorEntry} {i j : ℕ}

theorem fromRecord_of_prepared {stored stored' : StoredAction}
    (h : stored.prepared = stored'.prepared) :
    ApprovalBinding.fromRecord stored.record = ApprovalBinding.fromRecord stored'.record := by
  calc
    ApprovalBinding.fromRecord stored.record = .fromRecord stored.prepared.record := rfl
    _ = .fromRecord stored'.prepared.record := by rw [h]

theorem definitionOf_prepared (packs : Packs) {stored stored' : StoredAction}
    (h : stored.prepared = stored'.prepared) :
    packs.definitionOf stored.record = packs.definitionOf stored'.record := by
  calc
    packs.definitionOf stored.record = packs.definitionOf stored.prepared.record := rfl
    _ = packs.definitionOf stored'.prepared.record := by rw [h]

/-- A row belongs to the pack of a coordinator it is bound to. -/
theorem definitionOf_bound {coordinator : Coordinator packs} {context : CallerContext}
    {stored : StoredAction} (hbound : stored.boundTo host (coordinator.owner context) = true)
    {definition : CompiledActionDefinition}
    (hdefinition : coordinator.definition stored.record.capabilityId = .ok definition) :
    packs.definitionOf stored.record = some definition := by
  rw [StoredAction.boundTo, decide_eq_true_eq] at hbound
  have hpack : stored.record.packDigest = coordinator.packDigest := hbound.2.2
  rw [Coordinator.definition] at hdefinition
  rw [Packs.definitionOf, hpack]
  split at hdefinition
  · rename_i found hfound
    rw [hfound, Except.ok.inj hdefinition]
  · exact absurd hdefinition (by simp)

/-- What a commit rests on when it is sent. -/
theorem commit_facts (h : Reached kind host world) {capabilityId : String}
    {execution : ActionCommitExecution} {context : CallerContext}
    (hlog : world.log = before ++ .sent i (.commit capabilityId execution context) :: after) :
    ∃ coordinator handle caller p definition existing state committing,
      world.tasks[i]? = some (.commit coordinator handle caller, p) ∧
      capabilityId = definition.capability.id ∧
      coordinator.definition state.record.capabilityId = .ok definition ∧
      Told (Pool.eventsOf (coordinatorPool packs kind host) i before)
        (.resolve handle (coordinator.owner caller)) existing ∧
      Announced coordinator .commit (some existing.record.handleDigest)
        (Pool.eventsOf (coordinatorPool packs kind host) i before) ∧
      Told (Pool.eventsOf (coordinatorPool packs kind host) i before)
        (.resolve handle (coordinator.owner caller)) state ∧
      Told (Pool.eventsOf (coordinatorPool packs kind host) i before)
        (beginCommit handle (coordinator.owner caller)) committing ∧
      ∀ capabilityId execution context, .sent (.commit capabilityId execution context) ∉
        Pool.eventsOf (coordinatorPool packs kind host) i before := by
  obtain ⟨call, p, htask, -, hsends⟩ := Pool.may_of_sent conducts_process h hlog
  cases hsends with
  | commit hexisting hannounced hdefinition hstate hcommitting hfirst =>
    exact ⟨_, _, _, p, _, _, _, _, htask, rfl, hdefinition, hexisting, hannounced, hstate,
      hcommitting, hfirst⟩

/-- Of two transitions to committing of one action only the first is made. -/
theorem begin_once (h : Reached kind host world) {digest : String}
    {first second third : List CoordinatorEntry} {beginning again : CoordinatorEntry}
    (hlog : world.log = first ++ beginning :: second ++ again :: third)
    (hbeginning : Makes host digest i .approved .committing beginning)
    (hagain : Makes host digest j .approved .committing again) : False := by
  have hlog' : world.log = first ++ beginning :: (second ++ again :: third) := by
    rw [hlog, List.append_assoc, List.cons_append]
  obtain ⟨stored, resultValue, -, -, hbegun⟩ := row_of_makes h hlog' hbeginning
  obtain ⟨found, -, hfound, happroved, -⟩ := row_of_makes h hlog hagain
  -- The second finds the row the first has left, which is no longer fresh.
  rw [List.append_cons, storeAfter_append] at hfound
  obtain ⟨later, hlater, hfresh⟩ := fresh_stays kind host (Pool.inputs second) hbegun rfl
  obtain rfl : later = found := Option.some.inj (hlater.symm.trans hfound)
  rw [happroved] at hfresh
  exact absurd hfresh (by simp [PreparedActionStatus.fresh])

/-- A task that commits has begun to. -/
theorem makes_of_told (h : Reached kind host world) (hlog : world.log = before ++ after)
    {handle : String} {owner : Owner} {expected target : PreparedActionStatus} {resultValue : Json}
    {state : PreparedActionState}
    (htold : Told (Pool.eventsOf (coordinatorPool packs kind host) i before)
      (.transition handle owner expected target resultValue) state) :
    ∃ entry ∈ before, Makes host (host.digest.sha256 handle) i expected target entry := by
  obtain ⟨now, hmem⟩ := performed_of_stored h hlog htold rfl
  exact ⟨_, hmem, true, _, handle, owner, resultValue, now, state, rfl, rfl⟩

/-- An action was approved before a task began to commit it. -/
theorem approved_before (h : Reached kind host world) {digest : String}
    {beginning : CoordinatorEntry} (hlog : world.log = before ++ beginning :: after)
    (hbeginning : Makes host digest i .approved .committing beginning) :
    ∃ first second approver approving, before = first ++ approving :: second ∧
      Makes host digest approver .prepared .approved approving := by
  obtain ⟨stored, -, hrow, hstatus, -⟩ := row_of_makes h hlog hbeginning
  obtain ⟨handle, owner, resultValue, now, state, hmem, hdigest⟩ := accepted_of_status
    (fun _ => PreparedActionStatus.prepared_of_allows) (by simp) (by simp) (Pool.inputs before)
    hrow hstatus
  have htrace := Pool.trace_of_reachable h hlog
  rw [show Machine.trace (kind.answer host) {} (Pool.inputs before) =
    before.filterMap Pool.performance from htrace.symm] at hmem
  obtain ⟨approver, delivered, q, hperformed⟩ := Pool.performed_of_trace hmem
  obtain ⟨first, second, hsplit⟩ := List.append_of_mem hperformed
  exact ⟨first, second, approver, _, hsplit, delivered, q, handle, owner, resultValue, now, state,
    rfl, hdigest⟩

/-- A grant that a call was given is bound to what it was asked for. -/
theorem grant_of_replied (h : Reached kind host world) (hlog : world.log = before ++ after)
    {approvalHandle : String} {expected : ApprovalBinding} {grant : ApprovalGrant}
    (hgrant : .replied (.verify approvalHandle expected) (.granted grant) ∈
      Pool.eventsOf (coordinatorPool packs kind host) i before) :
    .replied i (.verify approvalHandle expected) (.granted grant) ∈ before ∧
      grant.binding = expected := by
  rcases Pool.mem_of_replied hgrant with ⟨input, output, -, hstored⟩ | hreplied
  · exact absurd hstored (by simp [coordinatorPool])
  · refine ⟨hreplied, ?_⟩
    obtain ⟨first, rest, hsplit⟩ := List.append_of_mem hreplied
    rw [hsplit, List.append_assoc] at hlog
    rcases Pool.permitted_of_replied h hlog with hpermitted | hcancelled
    · exact hpermitted grant rfl
    · exact absurd hcancelled (by simp [coordinatorPool])

/-- A row is prepared as it was when a state of it was told. -/
theorem prepared_of_told (h : Reached kind host world) (hlog : world.log = before ++ after)
    {handle : String} {owner : Owner} {state : PreparedActionState} {stored : StoredAction}
    (hrow : world.object.row (host.digest.sha256 handle) = some stored)
    (htold : Told (Pool.eventsOf (coordinatorPool packs kind host) i before)
      (.resolve handle owner) state) :
    ∃ told : StoredAction, told.state = state ∧ told.boundTo host owner = true ∧
      told.prepared = stored.prepared := by
  obtain ⟨now, hmem⟩ := performed_of_stored h hlog htold rfl
  obtain ⟨first, rest, hsplit⟩ := List.append_of_mem hmem
  rw [hsplit, List.append_assoc, List.cons_append] at hlog
  obtain ⟨told, htoldRow, hstate, hbound, -⟩ := row_of_performed h hlog
  rw [List.append_cons] at hlog
  obtain ⟨later, hlater, hprepared⟩ := row_later h hlog htoldRow
  obtain rfl : later = stored := Option.some.inj (hlater.symm.trans hrow)
  exact ⟨told, hstate, hbound, hprepared.symm⟩

/-- An action that needs an approval is approved for a grant that is bound to its record. -/
theorem grant_of_approval (h : Reached kind host world) {digest : String}
    {approving : CoordinatorEntry} (hlog : world.log = before ++ approving :: after)
    (happroving : Makes host digest i .prepared .approved approving) {stored : StoredAction}
    (hrow : world.object.row digest = some stored) {definition : CompiledActionDefinition}
    (hdefinition : packs.definitionOf stored.record = some definition)
    (hneeded : definition.proof.approvalRequired = true) :
    ∃ approvalHandle grant,
      .replied i (.verify approvalHandle (ApprovalBinding.fromRecord stored.record))
        (.granted grant) ∈ before ∧
      grant.binding = ApprovalBinding.fromRecord stored.record := by
  obtain ⟨delivered, q, handle, owner, resultValue, now, state, rfl, rfl⟩ := happroving
  obtain ⟨⟨shielded, rfl⟩, hsent, -⟩ := performed_facts h hlog
  obtain ⟨approved, happroved, -, hbound, -⟩ := moved_of_performed h hlog
  obtain ⟨first, rest, hsplit⟩ := List.append_of_mem hsent
  have hlogSent : world.log = first ++ .sent i (.store (.transition handle owner .prepared
      .approved resultValue) shielded) :: (rest ++ .performed i delivered (.store (.transition
      handle owner .prepared .approved resultValue) shielded) (.transition handle owner .prepared
      .approved resultValue, now) (.state state) :: after) := by
    rw [hlog, hsplit, List.append_assoc, List.cons_append]
  obtain ⟨call, p, htask, -, hsends⟩ := Pool.may_of_sent conducts_process h hlogSent
  cases hsends with
  | @approveCreated _ _ found request generated _ created hprepare hfound hunneeded hcreated =>
    -- The action that was created is the one that is there, and needs no approval.
    obtain ⟨now', hmem⟩ := performed_of_stored h hlogSent hcreated rfl
    obtain ⟨first', rest', hsplit'⟩ := List.append_of_mem hmem
    have hlogCreated := hlogSent
    rw [hsplit', List.append_assoc, List.cons_append] at hlogCreated
    obtain ⟨request', fresh, hrequest, hfresh, hnew⟩ :=
      row_of_created (performed_facts h hlogCreated).2.2
    obtain ⟨rfl, rfl⟩ : request = request' ∧ generated = handle := by simpa using hrequest
    have hfreshRow : (storeAfter kind host (first' ++ [.performed i true
        (.store (.create request generated)) (.create request generated, now')
        (.created generated created)])).row (host.digest.sha256 generated) = some fresh := by
      rw [storeAfter_append]
      exact hfresh
    rw [List.append_cons] at hlogCreated
    obtain ⟨later, hlater, hprepared⟩ := row_later h hlogCreated hfreshRow
    obtain ⟨later', hlater', hprepared'⟩ := row_later h hlog happroved
    obtain rfl : later = stored := Option.some.inj (hlater.symm.trans hrow)
    obtain rfl : later' = later := Option.some.inj (hlater'.symm.trans hrow)
    have hcapability : approved.record.capabilityId = request.capabilityId := by
      calc
        approved.record.capabilityId = approved.prepared.record.capabilityId := rfl
        _ = fresh.prepared.record.capabilityId := by rw [← hprepared', hprepared]
        _ = request.capabilityId := (newAction_record hnew).2.1
    rw [← hcapability] at hfound
    have hfoundRow := definitionOf_bound hbound hfound
    rw [← definitionOf_prepared packs hprepared', hdefinition, Option.some.injEq] at hfoundRow
    rw [← hfoundRow, hneeded] at hunneeded
    exact absurd hunneeded (by simp)
  | @approveGranted coordinator _ approvalHandle context _ found told grant hfound _ htold hgrant =>
    obtain ⟨row, rfl, -, hprepared⟩ := prepared_of_told h hlogSent hrow htold
    obtain ⟨hreplied, hbinding⟩ := grant_of_replied h hlogSent hgrant
    have hsame := fromRecord_of_prepared hprepared
    have hrecord : ApprovalBinding.fromRecord row.state.record =
        ApprovalBinding.fromRecord stored.record := hsame
    rw [hrecord] at hreplied hbinding
    refine ⟨approvalHandle, grant, ?_, hbinding⟩
    rw [hsplit]
    exact List.mem_append_left _ hreplied

/-- At most one element of a list passes a test if no two do. -/
theorem countP_le_one {α : Type} {p : α → Bool} {l : List α}
    (h : ∀ first x second y third, l = first ++ x :: second ++ y :: third → p x = true →
      p y = true → False) : l.countP p ≤ 1 := by
  by_contra hmany
  rw [List.countP_eq_length_filter, not_le] at hmany
  match hfilter : l.filter p with
  | [] => simp [hfilter] at hmany
  | [x] => simp [hfilter] at hmany
  | x :: y :: rest =>
    obtain ⟨first, others, rfl, -, hx, hothers⟩ := List.filter_eq_cons_iff.mp hfilter
    obtain ⟨second, third, rfl, -, hy, -⟩ := List.filter_eq_cons_iff.mp hothers
    exact h first x second y third (by rw [List.append_assoc, List.cons_append]) hx hy

/-- Two elements of a list stand in one order or the other. -/
theorem order_of_mem {α : Type} {l : List α} {x y : α} (hx : x ∈ l) (hy : y ∈ l) (hne : x ≠ y) :
    (∃ first second third, l = first ++ x :: second ++ y :: third) ∨
      ∃ first second third, l = first ++ y :: second ++ x :: third := by
  obtain ⟨first, rest, rfl⟩ := List.append_of_mem hx
  rcases List.mem_append.mp hy with hbefore | hafter
  · obtain ⟨first', second, rfl⟩ := List.append_of_mem hbefore
    exact .inr ⟨first', second, rest, rfl⟩
  · rcases List.mem_cons.mp hafter with hsame | hlater
    · exact absurd hsame.symm hne
    · obtain ⟨second, third, rfl⟩ := List.append_of_mem hlater
      exact .inl ⟨first, second, third, by rw [List.append_assoc, List.cons_append]⟩

theorem task_of_makes {host : StoreHost} {digest : String} {task task' : ℕ}
    {expected target expected' target' : PreparedActionStatus} {entry : CoordinatorEntry}
    (h : Makes host digest task expected target entry)
    (h' : Makes host digest task' expected' target' entry) : task = task' := by
  obtain ⟨_, _, _, _, _, _, _, hentry, -⟩ := h
  obtain ⟨_, _, _, _, _, _, _, hentry', -⟩ := h'
  rw [hentry] at hentry'
  exact (Pool.Entry.performed.inj hentry').1

/-- The handle of the call that a commit was sent for. -/
theorem handle_of_invokes {handle : String} {entry : CoordinatorEntry}
    (hinvokes : invokes world handle entry = true) :
    ∃ i capabilityId execution context call p,
      entry = .sent i (.commit capabilityId execution context) ∧
      world.tasks[i]? = some (call, p) ∧ call.handle? = some handle := by
  cases entry with
  | sent i q =>
    cases q with
    | commit capabilityId execution context =>
      rw [invokes, Option.any_eq_true] at hinvokes
      obtain ⟨⟨call, p⟩, htask, hhandle⟩ := hinvokes
      exact ⟨i, capabilityId, execution, context, call, p, rfl, htask, by simpa using hhandle⟩
    | _ => simp [invokes] at hinvokes
  | _ => simp [invokes] at hinvokes

/-- Whoever commits the action of a handle has begun to before. -/
theorem begun_of_invokes (h : Reached kind host world) {handle : String} {entry : CoordinatorEntry}
    (hlog : world.log = before ++ entry :: after) (hinvokes : invokes world handle entry = true) :
    ∃ i beginning, (∃ capabilityId execution context,
        entry = .sent i (.commit capabilityId execution context)) ∧ beginning ∈ before ∧
      Makes host (host.digest.sha256 handle) i .approved .committing beginning := by
  obtain ⟨i, capabilityId, execution, context, call, p, rfl, htask, hhandle⟩ :=
    handle_of_invokes hinvokes
  obtain ⟨coordinator, handle', caller, p', definition, existing, state, committing, htask', -, -, -,
    -, -, hcommitting, -⟩ := commit_facts h hlog
  obtain ⟨rfl, -⟩ : call = .commit coordinator handle' caller ∧ p = p' := by
    simpa using htask.symm.trans htask'
  obtain rfl : handle' = handle := by simpa [CoordinatorCall.handle?] using hhandle
  obtain ⟨beginning, hmem, hmakes⟩ := makes_of_told h hlog hcommitting
  exact ⟨i, beginning, ⟨capabilityId, execution, context, rfl⟩, hmem, hmakes⟩

theorem invoked_once (h : Reached kind host world) (handle : String) :
    world.log.countP (invokes world handle) ≤ 1 := by
  refine countP_le_one fun first x second y third hlog hx hy => ?_
  have hlogX : world.log = first ++ x :: (second ++ y :: third) := by
    rw [hlog, List.append_assoc, List.cons_append]
  obtain ⟨i, beginning, ⟨capabilityId, execution, context, rfl⟩, hmem, hmakes⟩ :=
    begun_of_invokes h hlogX hx
  obtain ⟨j, again, ⟨capabilityId', execution', context', rfl⟩, hmem', hmakes'⟩ :=
    begun_of_invokes h hlog hy
  by_cases hij : i = j
  · -- A task that has asked the executor does not ask again.
    subst hij
    obtain ⟨_, _, _, _, _, _, _, _, -, -, -, -, -, -, -, hfirst⟩ := commit_facts h hlog
    refine hfirst capabilityId execution context (List.mem_filterMap.mpr
      ⟨_, List.mem_append_right _ List.mem_cons_self, ?_⟩)
    simp [Pool.eventOf]
  · -- Two tasks would both have begun.
    have hne : beginning ≠ again := by
      rintro rfl
      exact hij (task_of_makes hmakes hmakes')
    have hin : beginning ∈ world.log := by
      rw [hlogX]
      exact List.mem_append_left _ hmem
    have hin' : again ∈ world.log := by
      rw [hlog]
      exact List.mem_append_left _ hmem'
    rcases order_of_mem hin hin' hne with ⟨s, t, u, hsplit⟩ | ⟨s, t, u, hsplit⟩
    · exact begin_once h hsplit hmakes hmakes'
    · exact begin_once h hsplit hmakes' hmakes

/-- Before a commit the action was approved, for its grant where its definition needs one. -/
theorem sanctioned_of_invokes (h : Reached kind host world) {handle capabilityId : String}
    {execution : ActionCommitExecution} {context : CallerContext}
    (hlog : world.log = before ++ .sent i (.commit capabilityId execution context) :: after)
    (hinvokes : invokes world handle (.sent i (.commit capabilityId execution context)) = true) :
    ∃ stored definition, world.object.row (host.digest.sha256 handle) = some stored ∧
      packs.definitionOf stored.record = some definition ∧
      capabilityId = definition.capability.id ∧
      Sanctioned host before i stored.record definition.proof.approvalRequired := by
  obtain ⟨_, _, _, _, call, p, hentry, htask, hhandle⟩ := handle_of_invokes hinvokes
  obtain ⟨rfl, -⟩ := Pool.Entry.sent.inj hentry
  obtain ⟨coordinator, handle', caller, p', definition, existing, state, committing, htask',
    hcapability, hdefinition, -, -, hstate, hcommitting, -⟩ := commit_facts h hlog
  obtain ⟨rfl, -⟩ : call = .commit coordinator handle' caller ∧ p = p' := by
    simpa using htask.symm.trans htask'
  obtain rfl : handle' = handle := by simpa [CoordinatorCall.handle?] using hhandle
  obtain ⟨beginning, hmem, hmakes⟩ := makes_of_told h hlog hcommitting
  obtain ⟨start, third, hsplit⟩ := List.append_of_mem hmem
  have hlogBegin : world.log = start ++ beginning ::
      (third ++ .sent i (.commit capabilityId execution context) :: after) := by
    rw [hlog, hsplit, List.append_assoc, List.cons_append]
  obtain ⟨first, second, approver, approving, hstart, happroving⟩ :=
    approved_before h hlogBegin hmakes
  obtain ⟨began, -, hrowBegan, -, -⟩ := row_of_makes h hlogBegin hmakes
  obtain ⟨stored, hrow, hprepared⟩ := row_later h hlogBegin hrowBegan
  obtain ⟨told, rfl, hbound, htoldPrepared⟩ := prepared_of_told h hlog hrow hstate
  have hdefinitionOf : packs.definitionOf stored.record = some definition := by
    rw [← definitionOf_prepared packs htoldPrepared]
    exact definitionOf_bound hbound hdefinition
  have hdigest : stored.record.handleDigest = host.digest.sha256 handle' := by
    rw [object_eq h] at hrow
    exact handleDigest_of_row _ hrow
  have hlogApproving : world.log = first ++ approving :: (second ++ beginning ::
      (third ++ .sent i (.commit capabilityId execution context) :: after)) := by
    rw [hlogBegin, hstart, List.append_assoc, List.cons_append]
  refine ⟨stored, definition, hrow, hdefinitionOf, hcapability, first, second, third, approver,
    approving, beginning, ?_, ?_, ?_, fun hneeded => ?_⟩
  · rw [hsplit, hstart]
  · rwa [hdigest]
  · rwa [hdigest]
  · exact grant_of_approval h hlogApproving happroving hrow hdefinitionOf hneeded

/-- Whatever calls, cancellations and clock readings there are, an action is committed at most
once, and only after it was approved, for a grant bound to its record where its definition needs
one; from committing it never comes back to where committing can be entered. -/
theorem commit_at_most_once (kind : StoreKind) (host : StoreHost) {world : CoordinatorWorld packs}
    (h : Reached kind host world) (handle : String) :
    world.log.countP (invokes world handle) ≤ 1 ∧
      (∀ before after i capabilityId execution context,
        world.log = before ++ .sent i (.commit capabilityId execution context) :: after →
        invokes world handle (.sent i (.commit capabilityId execution context)) = true →
        ∃ stored definition, world.object.row (host.digest.sha256 handle) = some stored ∧
          packs.definitionOf stored.record = some definition ∧
          capabilityId = definition.capability.id ∧
          Sanctioned host before i stored.record definition.proof.approvalRequired) ∧
      ∀ (store : ActionStore) (calls : List (StoreCall × ℚ)) stored,
        store.row (host.digest.sha256 handle) = some stored →
        stored.record.status = .committing →
        ∃ stored', (Machine.after (kind.answer host) store calls).row
            (host.digest.sha256 handle) = some stored' ∧
          stored'.record.status ≠ .prepared ∧ stored'.record.status ≠ .approved := by
  refine ⟨invoked_once h handle, fun before after i capabilityId execution context hlog hinvokes =>
    sanctioned_of_invokes h hlog hinvokes, fun store calls stored hrow hstatus => ?_⟩
  have hfresh : stored.record.status.fresh = false := by rw [hstatus]; rfl
  obtain ⟨stored', hrow', hfresh'⟩ := fresh_stays kind host calls hrow hfresh
  refine ⟨stored', hrow', ?_, ?_⟩
  · intro hprepared
    rw [hprepared] at hfresh'
    exact absurd hfresh' (by simp [PreparedActionStatus.fresh])
  · intro happroved
    rw [happroved] at hfresh'
    exact absurd hfresh' (by simp [PreparedActionStatus.fresh])

end Mutation

/-- The order was approved for its grant, and the executor is asked to commit it. -/
def committedOrder : CoordinatorWorld (orderPacks true) :=
  (playMoves .sqlite StoreHost.plain (prepareOrder true ++ approveOrder ++ beginOrder true 2 2)).get
    (by decide +kernel)

theorem committedOrder_reached : Reached .sqlite StoreHost.plain committedOrder :=
  reached_of_playMoves (Option.some_get _).symm

theorem commit_at_most_once_order :
    committedOrder.log.countP (invokes committedOrder orderHandle) = 1 ∧
      committedOrder.log.countP (invokes committedOrder orderHandle) ≤ 1 :=
  ⟨by decide +kernel, (commit_at_most_once .sqlite StoreHost.plain committedOrder_reached
    orderHandle).1⟩

end CapabilityCompiler.Actions
