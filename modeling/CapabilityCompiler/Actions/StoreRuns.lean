import CapabilityCompiler.Actions.StoreRows

/-! The life of an action over the calls of a store. -/
namespace CapabilityCompiler.Actions
open Foundation

/-- The action under a digest. -/
def ActionStore.row (store : ActionStore) (digest : String) : Option StoredAction :=
  Table.get? digest store.actions

namespace PreparedActionStatus

/-- A mutation may have been sent. -/
def begun : PreparedActionStatus → Bool
  | .committing | .succeeded | .failed | .outcomeUnknown => true
  | .prepared | .approved | .expired => false

/-- Committing can still be entered. -/
def fresh : PreparedActionStatus → Bool
  | .prepared | .approved => true
  | _ => false

theorem fresh_of_allows {expected target : PreparedActionStatus}
    (hallowed : expected.allows target = true) (hfresh : expected.fresh = false) :
    target.fresh = false := by
  cases expected <;> cases target <;> first | rfl | contradiction

theorem begun_of_allows {expected target : PreparedActionStatus}
    (hallowed : expected.allows target = true) (hbegun : expected.begun = true) :
    target.begun = true := by
  cases expected <;> cases target <;> first | rfl | contradiction

/-- Only an approved action becomes committing. -/
theorem approved_of_allows {status : PreparedActionStatus}
    (h : status.allows .committing = true) : status = .approved := by
  cases status <;> first | rfl | contradiction

/-- Only a prepared action becomes approved. -/
theorem prepared_of_allows {status : PreparedActionStatus}
    (h : status.allows .approved = true) : status = .prepared := by
  cases status <;> first | rfl | contradiction

theorem not_allows_of_succeeded (target : PreparedActionStatus) :
    allows .succeeded target = false := by
  cases target <;> rfl

theorem fresh_of_begun {status : PreparedActionStatus} (h : status.begun = true) :
    status.fresh = false := by
  cases status <;> first | rfl | contradiction

end PreparedActionStatus

/-- What a transition leaves as it is. -/
def StoredAction.prepared (stored : StoredAction) : StoredAction :=
  { stored.withStatus .prepared with resultValue := none }

@[simp] theorem StoredAction.prepared_withStatus (stored : StoredAction)
    (status : PreparedActionStatus) : (stored.withStatus status).prepared = stored.prepared := rfl

@[simp] theorem StoredAction.prepared_moved (stored : StoredAction)
    (target : PreparedActionStatus) (resultValue : Json) :
    (stored.moved target resultValue).prepared = stored.prepared := rfl

section Runs
variable {kind : StoreKind} {host : StoreHost} {store : ActionStore} {digest : String}

/-- What one call makes of a row that is there. -/
theorem row_cases (kind : StoreKind) (host : StoreHost) {stored : StoredAction}
    (hrow : store.row digest = some stored) (call : StoreCall × ℚ) :
    ∃ stored', (kind.answer host store call).2.row digest = some stored' ∧
      (stored' = stored ∨
        stored.isDue call.2 = true ∧ stored' = stored.withStatus .expired ∨
        ∃ handle owner expected target resultValue,
          call.1 = .transition handle owner expected target resultValue ∧
          host.digest.sha256 handle = digest ∧ stored.record.status = expected ∧
          expected.allows target = true ∧ stored' = stored.moved target resultValue) := by
  have htouched := touched_of_answer kind host store call digest
  rw [ActionStore.row] at hrow
  rw [hrow] at htouched
  generalize hentry : (call, (kind.answer host store call).1) = entry at htouched
  generalize hresult : Table.get? digest (kind.answer host store call).2.actions = row at htouched
  cases htouched with
  | kept _ => exact ⟨stored, hresult, .inl rfl⟩
  | expired _ hdue =>
    refine ⟨_, hresult, .inr (.inl ⟨?_, rfl⟩)⟩
    rwa [← hentry] at hdue
  | resolved _ _ _ => exact ⟨stored, hresult, .inl rfl⟩
  | @moved handle owner expected target resultValue now _ hdigest _ _ hstatus hallowed _ =>
    obtain ⟨rfl, -⟩ := Prod.mk.inj hentry
    exact ⟨_, hresult, .inr (.inr ⟨handle, owner, expected, target, resultValue, rfl, hdigest,
      hstatus, hallowed, rfl⟩)⟩

/-- What expiry and the transitions keep of a row, a run keeps of it. -/
theorem row_invariant (kind : StoreKind) (host : StoreHost) {P : StoredAction → Prop}
    (hexpired : ∀ stored, P stored → P (stored.withStatus .expired))
    (hmoved : ∀ stored target resultValue, stored.record.status.allows target = true → P stored →
      P (stored.moved target resultValue))
    (inputs : List (StoreCall × ℚ)) {stored : StoredAction}
    (hrow : store.row digest = some stored) (hP : P stored) :
    ∃ stored', (Machine.after (kind.answer host) store inputs).row digest = some stored' ∧
      P stored' := by
  refine Machine.invariant (P := fun store : ActionStore => ∃ stored',
    store.row digest = some stored' ∧ P stored') ?_ ⟨stored, hrow, hP⟩ inputs
  rintro store call ⟨stored', hrow', hP'⟩
  obtain ⟨next, hnext, hcases⟩ := row_cases kind host hrow' call
  refine ⟨next, hnext, ?_⟩
  rcases hcases with rfl | ⟨_, rfl⟩ | ⟨_, _, expected, target, resultValue, _, _, hstatus, hallowed,
    rfl⟩
  · exact hP'
  · exact hexpired stored' hP'
  · rw [← hstatus] at hallowed
    exact hmoved stored' target resultValue hallowed hP'

/-- A row stays, and keeps what a transition leaves. -/
theorem row_stays (kind : StoreKind) (host : StoreHost) (inputs : List (StoreCall × ℚ))
    {stored : StoredAction}
    (hrow : store.row digest = some stored) :
    ∃ stored', (Machine.after (kind.answer host) store inputs).row digest = some stored' ∧
      stored'.prepared = stored.prepared :=
  row_invariant kind host (fun _ h => h) (fun _ _ _ _ h => h) inputs hrow rfl

/-- A row from which committing cannot be entered stays one. -/
theorem fresh_stays (kind : StoreKind) (host : StoreHost) (inputs : List (StoreCall × ℚ))
    {stored : StoredAction}
    (hrow : store.row digest = some stored) (hfresh : stored.record.status.fresh = false) :
    ∃ stored', (Machine.after (kind.answer host) store inputs).row digest = some stored' ∧
      stored'.record.status.fresh = false :=
  row_invariant kind host (P := fun stored => stored.record.status.fresh = false) (fun _ _ => rfl)
    (fun _ _ _ hallowed h => PreparedActionStatus.fresh_of_allows hallowed h) inputs hrow hfresh

/-- Once a result is stored, it stays, and the action at most expires. -/
theorem result_stays (kind : StoreKind) (host : StoreHost) (inputs : List (StoreCall × ℚ))
    {stored : StoredAction}
    (hrow : store.row digest = some stored) (hstatus : stored.record.status = .succeeded) :
    ∃ stored', (Machine.after (kind.answer host) store inputs).row digest = some stored' ∧
      (stored' = stored ∨ stored' = stored.withStatus .expired) := by
  refine row_invariant kind host ?_ ?_ inputs hrow (.inl rfl)
  · rintro stored' (rfl | rfl)
    · exact .inr rfl
    · exact .inr rfl
  · rintro stored' target resultValue hallowed (rfl | rfl)
    · rw [hstatus, PreparedActionStatus.not_allows_of_succeeded] at hallowed
      exact absurd hallowed (by simp)
    · cases target <;> exact absurd hallowed Bool.false_ne_true

/-! What an accepted call tells. -/

/-- The state of an answer is the row the call leaves. -/
theorem row_of_state {call : StoreCall × ℚ} {state : PreparedActionState}
    (hanswer : (kind.answer host store call).1 = .state state) :
    ∃ stored, (kind.answer host store call).2.row (host.digest.sha256 call.1.handle) =
        some stored ∧
      stored.state = state ∧ stored.boundTo host call.1.owner = true ∧
      stored.isDue call.2 = false ∧ ∀ handle owner expected target resultValue,
        call.1 = .transition handle owner expected target resultValue →
          ∃ earlier, store.row (host.digest.sha256 call.1.handle) = some earlier ∧
            earlier.record.status = expected ∧ expected.allows target = true ∧
            stored = earlier.moved target resultValue := by
  have htouched := touched_of_answer kind host store call (host.digest.sha256 call.1.handle)
  generalize hbefore : Table.get? (host.digest.sha256 call.1.handle) store.actions = before
    at htouched
  generalize hresult : Table.get? (host.digest.sha256 call.1.handle)
    (kind.answer host store call).2.actions = row at htouched
  generalize hentry : (call, (kind.answer host store call).1) = entry at htouched
  have haccepted : acceptedOn host (host.digest.sha256 call.1.handle) entry = true := by
    rw [← hentry, hanswer]
    simp [acceptedOn, StoreAnswer.isError]
  cases htouched with
  | kept hother => exact absurd haccepted (by simp [hother])
  | expired hother _ => exact absurd haccepted (by simp [hother])
  | created _ _ =>
    rw [hanswer] at hentry
    exact absurd (Prod.mk.inj hentry).2 (by simp)
  | @resolved handle owner now stored _ hbound hlive =>
    obtain ⟨rfl, hstate⟩ := Prod.mk.inj hentry
    rw [hanswer, StoreAnswer.state.injEq] at hstate
    refine ⟨stored, hresult, hstate.symm, hbound, hlive, ?_⟩
    intro _ _ _ _ _ hcall
    exact absurd hcall (by simp)
  | @moved handle owner expected target resultValue now stored _ hbound hlive hstatus hallowed _ =>
    obtain ⟨rfl, hstate⟩ := Prod.mk.inj hentry
    rw [hanswer, StoreAnswer.state.injEq] at hstate
    refine ⟨_, hresult, hstate.symm, hbound, hlive, ?_⟩
    intro handle' owner' expected' target' resultValue' hcall
    obtain ⟨rfl, rfl, rfl, rfl, rfl⟩ := by simpa using hcall
    exact ⟨stored, hbefore, hstatus, hallowed, rfl⟩

/-- An answer that hands out a handle leaves the new action under it. -/
theorem row_of_created {call : StoreCall × ℚ} {handle : String} {state : PreparedActionState}
    (hanswer : (kind.answer host store call).1 = .created handle state) :
    ∃ request stored, call.1 = .create request handle ∧
      (kind.answer host store call).2.row (host.digest.sha256 handle) = some stored ∧
      newAction host request (host.digest.sha256 handle) call.2 = .ok stored := by
  have htouched := touched_of_answer kind host store call (host.digest.sha256 call.1.handle)
  generalize hbefore : Table.get? (host.digest.sha256 call.1.handle) store.actions = before
    at htouched
  generalize hresult : Table.get? (host.digest.sha256 call.1.handle)
    (kind.answer host store call).2.actions = row at htouched
  generalize hentry : (call, (kind.answer host store call).1) = entry at htouched
  have haccepted : acceptedOn host (host.digest.sha256 call.1.handle) entry = true := by
    rw [← hentry, hanswer]
    simp [acceptedOn, StoreAnswer.isError]
  cases htouched with
  | kept hother => exact absurd haccepted (by simp [hother])
  | expired hother _ => exact absurd haccepted (by simp [hother])
  | @created request generated now stored hdigest hstored =>
    obtain ⟨rfl, hcreated⟩ := Prod.mk.inj hentry
    rw [hanswer, StoreAnswer.created.injEq] at hcreated
    obtain ⟨rfl, -⟩ := hcreated
    exact ⟨request, stored, rfl, hresult, hstored⟩
  | resolved _ _ _ =>
    rw [hanswer] at hentry
    exact absurd (Prod.mk.inj hentry).2 (by simp)
  | moved _ _ _ _ _ _ =>
    rw [hanswer] at hentry
    exact absurd (Prod.mk.inj hentry).2 (by simp)

theorem newAction_record {request : CreateRequest} {now : ℚ} {stored : StoredAction}
    (h : newAction host request digest now = .ok stored) :
    stored.record.handleDigest = digest ∧ stored.record.capabilityId = request.capabilityId ∧
      stored.record.status = .prepared := by
  simp only [newAction] at h
  split at h
  · rw [Except.ok.injEq] at h
    subst h
    exact ⟨rfl, rfl, rfl⟩
  · exact absurd h (by simp)

theorem newAction_payload {request : CreateRequest} {now : ℚ} {stored : StoredAction}
    (h : newAction host request digest now = .ok stored) :
    stored.previewValue = request.previewValue := by
  simp only [newAction] at h
  split at h
  · rw [Except.ok.injEq] at h
    subst h
    rfl
  · exact absurd h (by simp)

/-- What one call makes of a digest without a row. -/
theorem row_born (hrow : store.row digest = none) {call : StoreCall × ℚ} {stored : StoredAction}
    (hborn : (kind.answer host store call).2.row digest = some stored) :
    stored.record.handleDigest = digest ∧ stored.record.status = .prepared := by
  have htouched := touched_of_answer kind host store call digest
  rw [ActionStore.row] at hrow hborn
  rw [hrow, hborn] at htouched
  generalize (call, (kind.answer host store call).1) = entry at htouched
  cases htouched with
  | created _ hstored =>
    have hrecord := newAction_record hstored
    exact ⟨hrecord.1, hrecord.2.2⟩

/-- In a run from an empty store every row stands under its own digest. -/
theorem handleDigest_of_row {stored : StoredAction} (inputs : List (StoreCall × ℚ))
    (hrow : (Machine.after (kind.answer host) {} inputs).row digest = some stored) :
    stored.record.handleDigest = digest := by
  have hall : ∀ stored, (Machine.after (kind.answer host) {} inputs).row digest = some stored →
      stored.prepared.record.handleDigest = digest := by
    refine Machine.invariant (P := fun store : ActionStore => ∀ stored,
      store.row digest = some stored → stored.prepared.record.handleDigest = digest) ?_
      (fun _ h => absurd h (by simp [ActionStore.row])) inputs
    intro store call hstore stored hstored
    cases hbefore : store.row digest with
    | none => exact (row_born hbefore hstored).1
    | some earlier =>
      obtain ⟨next, hnext, hprepared⟩ := row_stays kind host [call] hbefore
      obtain rfl : next = stored := Option.some.inj (hnext.symm.trans hstored)
      rw [hprepared]
      exact hstore earlier hbefore
  exact hall stored hrow

/-- A transition of the action under a digest was accepted. -/
def Accepted (host : StoreHost) (digest : String) (expected target : PreparedActionStatus)
    (t : List ((StoreCall × ℚ) × StoreAnswer)) : Prop :=
  ∃ handle owner resultValue now state,
    ((.transition handle owner expected target resultValue, now), .state state) ∈ t ∧
      host.digest.sha256 handle = digest

theorem Accepted.append {expected target : PreparedActionStatus}
    {t : List ((StoreCall × ℚ) × StoreAnswer)} (h : Accepted host digest expected target t)
    (rest : List ((StoreCall × ℚ) × StoreAnswer)) :
    Accepted host digest expected target (t ++ rest) := by
  obtain ⟨handle, owner, resultValue, now, state, hmem, hdigest⟩ := h
  exact ⟨handle, owner, resultValue, now, state, List.mem_append_left _ hmem, hdigest⟩

/-- In a run from an empty store an action has a status that only one other allows by an accepted
transition. -/
theorem accepted_of_status {expected target : PreparedActionStatus}
    (hentered : ∀ status : PreparedActionStatus, status.allows target = true → status = expected)
    (hborn : target ≠ .prepared) (hlive : target ≠ .expired) {stored : StoredAction}
    (inputs : List (StoreCall × ℚ))
    (hrow : (Machine.after (kind.answer host) {} inputs).row digest = some stored)
    (hstatus : stored.record.status = target) :
    Accepted host digest expected target (Machine.trace (kind.answer host) {} inputs) := by
  have hall : ∀ stored, (Machine.after (kind.answer host) {} inputs).row digest = some stored →
      stored.record.status = target →
      Accepted host digest expected target (Machine.trace (kind.answer host) {} inputs) := by
    refine Machine.trace_induction (P := fun t (store : ActionStore) => ∀ stored,
      store.row digest = some stored → stored.record.status = target →
      Accepted host digest expected target t)
      (fun _ h => absurd h (by simp [ActionStore.row])) ?_ inputs
    intro t store call hstore stored hstored hstatus
    cases hbefore : store.row digest with
    | none => exact absurd (hstatus.symm.trans (row_born hbefore hstored).2) hborn
    | some earlier =>
      have htouched := touched_of_answer kind host store call digest
      rw [ActionStore.row] at hbefore hstored
      rw [hbefore, hstored] at htouched
      generalize hentry : (call, (kind.answer host store call).1) = entry at htouched ⊢
      cases htouched with
      | kept _ => exact (hstore stored hbefore hstatus).append _
      | expired _ _ => exact absurd hstatus.symm hlive
      | resolved _ _ _ => exact (hstore stored hbefore hstatus).append _
      | @moved handle owner found target' resultValue now _ hdigest _ _ hfound hallowed _ =>
        obtain rfl : target' = target := hstatus
        obtain rfl : found = expected := hentered found hallowed
        exact ⟨handle, owner, resultValue, now, _,
          List.mem_append_right _ (List.mem_singleton_self _), hdigest⟩
  exact hall stored hrow hstatus

/-- An action was created with a payload. -/
def CreatedWith (previewValue : Json) (t : List ((StoreCall × ℚ) × StoreAnswer)) : Prop :=
  ∃ request generated now state,
    ((.create request generated, now), .created generated state) ∈ t ∧
      request.previewValue = previewValue

/-- In a run from an empty store the payload of an action is one it was created with. -/
theorem createdWith_of_row {stored : StoredAction} (inputs : List (StoreCall × ℚ))
    (hrow : (Machine.after (kind.answer host) {} inputs).row digest = some stored) :
    CreatedWith stored.previewValue (Machine.trace (kind.answer host) {} inputs) := by
  have hall : ∀ stored, (Machine.after (kind.answer host) {} inputs).row digest = some stored →
      CreatedWith stored.previewValue (Machine.trace (kind.answer host) {} inputs) := by
    refine Machine.trace_induction (P := fun t (store : ActionStore) => ∀ stored,
      store.row digest = some stored → CreatedWith stored.previewValue t)
      (fun _ h => absurd h (by simp [ActionStore.row])) ?_ inputs
    intro t store call hstore stored hstored
    cases hbefore : store.row digest with
    | some earlier =>
      obtain ⟨next, hnext, hprepared⟩ := row_stays kind host [call] hbefore
      obtain rfl : next = stored := Option.some.inj (hnext.symm.trans hstored)
      obtain ⟨request, generated, now, state, hmem, hpreview⟩ := hstore earlier hbefore
      have hkept : next.previewValue = earlier.previewValue :=
        congrArg (fun stored => stored.previewValue) hprepared
      exact ⟨request, generated, now, state, List.mem_append_left _ hmem, hpreview.trans hkept.symm⟩
    | none =>
      have htouched := touched_of_answer kind host store call digest
      rw [ActionStore.row] at hbefore hstored
      rw [hbefore, hstored] at htouched
      generalize (call, (kind.answer host store call).1) = entry at htouched ⊢
      cases htouched with
      | @created request generated now _ _ hnew =>
        exact ⟨request, generated, now, _, List.mem_append_right _ (List.mem_singleton_self _),
          (newAction_payload hnew).symm⟩
  exact hall stored hrow

end Runs
end CapabilityCompiler.Actions
