import CapabilityCompiler.Actions.RequiredAudit

/-! What calls report of one action agrees. -/
namespace CapabilityCompiler.Actions
open Foundation

/-- The result a report shows. -/
def CoordinatorReport.result : CoordinatorReport → Json
  | .prepared _ => .null
  | .status shown => shown.result
  | .committed result => result.result

section Agreement
variable {packs : Packs} {kind : StoreKind} {host : StoreHost} {world : CoordinatorWorld packs}
  {before after : List CoordinatorEntry} {i j : ℕ}

/-- A report about an action shows a state that the store has told. -/
theorem told_of_reports {call : CoordinatorCall packs} {h : History} {report : CoordinatorReport}
    (hreports : Reports call h report) {handle : String} (hhandle : call.handle? = some handle) :
    ∃ sc state, sc.handle = handle ∧ Told h sc state ∧
      report.shownStatus = state.record.status ∧
      (report.shownStatus = .succeeded → report.result = state.resultValue ∨
        ∃ owner, sc = .transition handle owner .prepared .approved .null) := by
  cases hreports with
  | prepared hprepare => exact absurd (hprepare.symm.trans hhandle) (by simp)
  | @approved coordinator handle' approvalHandle context _ state htold =>
    obtain rfl : handle' = handle := by simpa [CoordinatorCall.handle?] using hhandle
    exact ⟨_, state, rfl, htold, rfl, fun _ => .inr ⟨_, rfl⟩⟩
  | @replayed coordinator handle' context _ state htold hstatus =>
    obtain rfl : handle' = handle := by simpa [CoordinatorCall.handle?] using hhandle
    exact ⟨_, state, rfl, htold, hstatus.symm, fun _ => .inl rfl⟩
  | @committed coordinator handle' context _ result state htold =>
    obtain rfl : handle' = handle := by simpa [CoordinatorCall.handle?] using hhandle
    exact ⟨_, state, rfl, htold, rfl, fun _ => .inl rfl⟩
  | @status coordinator handle' context _ sc state hcall htold =>
    obtain rfl : handle' = handle := by simpa [CoordinatorCall.handle?] using hhandle
    refine ⟨sc, state, ?_, htold, rfl, fun hsucceeded => .inl ?_⟩
    · rcases hcall with rfl | ⟨result, rfl⟩
      · rfl
      · rfl
    · have hstatus : state.record.status = .succeeded := hsucceeded
      exact if_pos hstatus

/-- The store tells a task a state of an action. -/
def Tells (host : StoreHost) (digest : String) (task : ℕ) (state : PreparedActionState)
    (entry : CoordinatorEntry) : Prop :=
  ∃ delivered q call now, entry = .performed task delivered q (call, now) (.state state) ∧
    host.digest.sha256 call.handle = digest

/-- A report about an action shows a state that was told before. -/
theorem tells_of_done (h : Reached kind host world) {call : CoordinatorCall packs}
    {report : CoordinatorReport} (htask : world.tasks[i]? = some (call, .done report))
    {handle : String} (hhandle : call.handle? = some handle) :
    ∃ entry ∈ world.log, ∃ state, Tells host (host.digest.sha256 handle) i state entry ∧
      report.shownStatus = state.record.status ∧
      (report.shownStatus = .succeeded → report.result = state.resultValue) := by
  obtain ⟨-, hends⟩ := Pool.ends_of_done conducts_process h htask
  obtain ⟨sc, state, rfl, htold, hstatus, hresult⟩ := told_of_reports (hends report rfl).1 hhandle
  have hwhole : world.log = world.log ++ [] := (List.append_nil _).symm
  obtain ⟨now, hmem⟩ := performed_of_stored h hwhole htold rfl
  refine ⟨_, hmem, state, ⟨true, _, sc, now, rfl, rfl⟩, hstatus, fun hsucceeded => ?_⟩
  rcases hresult hsucceeded with hsame | ⟨owner, happroving⟩
  · exact hsame
  · -- An approval tells an approved state.
    rw [happroving] at hmem
    obtain ⟨first, rest, hsplit⟩ := List.append_of_mem hmem
    obtain ⟨stored, -, -, -, -, -, hmoved⟩ := moved_of_performed h hsplit
    rw [hstatus, ← hmoved] at hsucceeded
    exact absurd hsucceeded (by simp [StoredAction.moved, StoredAction.withStatus,
      StoredAction.state])

/-- Once a success has been told, the action stays successful with that result, or expires. -/
theorem row_of_success (h : Reached kind host world) {digest : String}
    {state : PreparedActionState} {entry : CoordinatorEntry}
    (hlog : world.log = before ++ entry :: after) (htells : Tells host digest i state entry)
    (hstatus : state.record.status = .succeeded) :
    ∃ stored, world.object.row digest = some stored ∧
      stored.state.resultValue = state.resultValue ∧
      (stored.record.status = .succeeded ∨ stored.record.status = .expired) := by
  obtain ⟨delivered, q, call, now, rfl, rfl⟩ := htells
  obtain ⟨told, hrow, rfl, -⟩ := row_of_performed h hlog
  rw [List.append_cons] at hlog
  rw [object_eq h, hlog, storeAfter_append]
  obtain ⟨stored, hstored, hsame⟩ := result_stays kind host (Pool.inputs after) hrow hstatus
  refine ⟨stored, hstored, ?_⟩
  rcases hsame with rfl | rfl
  · exact ⟨rfl, .inl hstatus⟩
  · exact ⟨rfl, .inr rfl⟩

/-- After a success was told, no failed or unknown outcome is told. -/
theorem no_failure_told (h : Reached kind host world) {digest : String}
    {state state' : PreparedActionState} {entry entry' : CoordinatorEntry}
    {first second third : List CoordinatorEntry}
    (hlog : world.log = first ++ entry :: second ++ entry' :: third)
    (htells : Tells host digest i state entry) (hstatus : state.record.status = .succeeded)
    (htells' : Tells host digest j state' entry') :
    state'.record.status ≠ .failed ∧ state'.record.status ≠ .outcomeUnknown := by
  obtain ⟨delivered, q, call, now, rfl, rfl⟩ := htells
  obtain ⟨delivered', q', call', now', rfl, hdigest⟩ := htells'
  have hlog' := hlog
  rw [List.append_assoc, List.cons_append] at hlog'
  obtain ⟨told, hrow, rfl, -⟩ := row_of_performed h hlog'
  obtain ⟨told', hrow', rfl, -⟩ := row_of_performed h hlog
  rw [List.append_cons first, List.append_assoc, storeAfter_append, hdigest] at hrow'
  obtain ⟨stored, hstored, hsame⟩ := result_stays kind host _ hrow hstatus
  obtain rfl : stored = told' := Option.some.inj (hstored.symm.trans hrow')
  rcases hsame with rfl | rfl
  · rw [hstatus]
    simp
  · simp [StoredAction.withStatus, StoredAction.state]

/-- Once a call has reported a success, all that report one show the stored result, and no call
reports a failed or unknown outcome but one that it was told before. -/
theorem reports_agree (kind : StoreKind) (host : StoreHost) {world world' : CoordinatorWorld packs}
    (h : Reached kind host world)
    (hleads : Pool.Leads (coordinatorPool packs kind host) world world') {handle : String}
    {call : CoordinatorCall packs} {report : CoordinatorReport}
    (htask : world.tasks[i]? = some (call, .done report)) (hhandle : call.handle? = some handle)
    (hsucceeded : report.shownStatus = .succeeded) :
    (∃ stored, world'.object.row (host.digest.sha256 handle) = some stored ∧
      (stored.record.status = .succeeded ∨ stored.record.status = .expired) ∧
      report.result = stored.state.resultValue ∧
      ∀ (j : ℕ) call' report', world'.tasks[j]? = some (call', .done report') →
        call'.handle? = some handle → report'.shownStatus = .succeeded →
        report'.result = stored.state.resultValue) ∧
    ∀ (j : ℕ) call' report', world'.tasks[j]? = some (call', .done report') →
      call'.handle? = some handle →
      (report'.shownStatus = .failed ∨ report'.shownStatus = .outcomeUnknown) →
      ∃ entry ∈ world.log, ∃ state, Tells host (host.digest.sha256 handle) j state entry ∧
        report'.shownStatus = state.record.status := by
  have h' := Pool.reachable_of_leads h hleads
  obtain ⟨rest, hrest⟩ := Pool.log_of_leads hleads
  obtain ⟨entry, hmem, state, htells, hstatus, hresult⟩ := tells_of_done h htask hhandle
  rw [hsucceeded] at hstatus
  obtain ⟨first, second, hsplit⟩ := List.append_of_mem hmem
  have hlog : world'.log = first ++ entry :: (second ++ rest) := by
    rw [hrest, hsplit, List.append_assoc, List.cons_append]
  obtain ⟨stored, hrow, hvalue, hlater⟩ := row_of_success h' hlog htells hstatus.symm
  refine ⟨⟨stored, hrow, hlater, (hresult hsucceeded).trans hvalue.symm, ?_⟩, ?_⟩
  · intro j call' report' htask' hhandle' hsucceeded'
    obtain ⟨entry', hmem', state', htells', hstatus', hresult'⟩ := tells_of_done h' htask' hhandle'
    rw [hsucceeded'] at hstatus'
    obtain ⟨first', second', hsplit'⟩ := List.append_of_mem hmem'
    obtain ⟨stored', hrow', hvalue', -⟩ := row_of_success h' hsplit' htells' hstatus'.symm
    obtain rfl : stored' = stored := Option.some.inj (hrow'.symm.trans hrow)
    exact (hresult' hsucceeded').trans hvalue'.symm
  · intro j call' report' htask' hhandle' hunsettled
    obtain ⟨entry', hmem', state', htells', hstatus', -⟩ := tells_of_done h' htask' hhandle'
    rw [hrest] at hmem'
    rcases List.mem_append.mp hmem' with hearlier | hsince
    · exact ⟨entry', hearlier, state', htells', hstatus'⟩
    · -- What was told since then is no failed or unknown outcome.
      obtain ⟨between, last, rfl⟩ := List.append_of_mem hsince
      have hlog' : world'.log = first ++ entry :: (second ++ between) ++ entry' :: last := by
        rw [hrest, hsplit]
        simp [List.append_assoc]
      obtain ⟨hfailed, hunknown⟩ := no_failure_told h' hlog' htells hstatus.symm htells'
      rw [hstatus'] at hunsettled
      rcases hunsettled with hbad | hbad
      · exact absurd hbad hfailed
      · exact absurd hbad hunknown

end Agreement

/-! An order whose commit failed, and which two calls try to recover. -/

/-- The status a task has reported. -/
def shown {packs : Packs} (world : CoordinatorWorld packs) (task : ℕ) :
    Option PreparedActionStatus :=
  match world.tasks[task]? with
  | some (_, .done report) => some report.shownStatus
  | _ => none

/-- A task asks for the status of the order up to its request to the executor. -/
def recoverOrder (task : ℕ) (now : ℚ) : List (CoordinatorMove (orderPacks false)) :=
  [.spawn (.status (orderCoordinator false) orderHandle aliceCaller)] ++
    stores task now ++ replies task .emitted ++ stores task now ++ [.send task]

/-- Two calls recover the order, and the second is told its result. -/
def recoveredMoves : List (CoordinatorMove (orderPacks false)) :=
  prepareOrder false ++ beginOrder false 1 2 ++ [.outside 1 .exception] ++ stores 1 3 ++
    stores 1 3 ++ replies 1 .emitted ++ recoverOrder 2 4 ++ recoverOrder 3 4 ++
    [.outside 3 (.recovered (.obj [("id", .int 7)]))] ++ stores 3 5 ++ replies 3 .emitted

def recoveredOrder : CoordinatorWorld (orderPacks false) :=
  (playMoves .sqlite StoreHost.plain recoveredMoves).get (by decide +kernel)

/-- Then the first is told nothing. -/
def staleMoves : List (CoordinatorMove (orderPacks false)) :=
  recoveredMoves ++ [.outside 2 .unresolved] ++ replies 2 .emitted

theorem stale_outcome_reported :
    ((playMoves .sqlite StoreHost.plain recoveredMoves).map fun world =>
        (shown world 2, shown world 3)) = some (none, some .succeeded) ∧
      ((playMoves .sqlite StoreHost.plain staleMoves).map fun world =>
        (shown world 2, shown world 3)) = some (some .outcomeUnknown, some .succeeded) :=
  ⟨by decide +kernel, by decide +kernel⟩

theorem recoveredOrder_reached : Reached .sqlite StoreHost.plain recoveredOrder :=
  reached_of_playMoves (Option.some_get _).symm

/-- The call has reported that the action of the order has succeeded. -/
def reportsOrder : CoordinatorProcess → CoordinatorCall (orderPacks false) → Bool
  | .done report, call => decide (call.handle? = some orderHandle ∧ report.shownStatus = .succeeded)
  | _, _ => false

theorem reports_agree_order :
    ∃ stored, recoveredOrder.object.row orderHandle = some stored ∧
      (stored.record.status = .succeeded ∨ stored.record.status = .expired) := by
  have hdone : (recoveredOrder.tasks[3]?).any (fun task => reportsOrder task.2 task.1) = true := by
    decide +kernel
  obtain ⟨⟨call, p⟩, htask, hreport⟩ := (Option.any_eq_true _ _).mp hdone
  cases p with
  | done report =>
    obtain ⟨hhandle, hsucceeded⟩ := of_decide_eq_true hreport
    obtain ⟨⟨stored, hrow, hstatus, -⟩, -⟩ := reports_agree .sqlite StoreHost.plain
      recoveredOrder_reached .refl htask hhandle hsucceeded
    exact ⟨stored, hrow, hstatus⟩
  | _ => exact absurd hreport (by simp [reportsOrder])

end CapabilityCompiler.Actions
