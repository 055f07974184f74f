import CapabilityCompiler.Actions.ActionStore

/-! What one call of either store does to the action under a digest. -/
namespace CapabilityCompiler.Actions
open Foundation

def StoreAnswer.isError : StoreAnswer → Bool
  | .raised _ => true
  | _ => false

def StoreCall.handle : StoreCall → String
  | .create _ generated => generated
  | .resolve handle _ => handle
  | .transition handle _ _ _ _ => handle

def StoreCall.owner : StoreCall → Owner
  | .create request _ => request.owner
  | .resolve _ owner => owner
  | .transition _ owner _ _ _ => owner

section Rows
variable (host : StoreHost)

/-- The call was accepted on the action under a digest. -/
def acceptedOn (digest : String) (entry : (StoreCall × ℚ) × StoreAnswer) : Bool :=
  !entry.2.isError && decide (host.digest.sha256 entry.1.1.handle = digest)

/-- What one call does to the action under a digest, with its answer. -/
inductive Touched (digest : String) :
    (StoreCall × ℚ) × StoreAnswer → Option StoredAction → Option StoredAction → Prop
  | kept {entry row} (hother : acceptedOn host digest entry = false) : Touched digest entry row row
  | expired {entry stored} (hother : acceptedOn host digest entry = false)
      (hdue : stored.isDue entry.1.2 = true) :
      Touched digest entry (some stored) (some (stored.withStatus .expired))
  | created {request generated now stored} (hdigest : host.digest.sha256 generated = digest)
      (hstored : newAction host request digest now = .ok stored) :
      Touched digest ((.create request generated, now), .created generated stored.state) none
        (some stored)
  | resolved {handle owner now stored} (hdigest : host.digest.sha256 handle = digest)
      (hbound : stored.boundTo host owner = true) (hlive : stored.isDue now = false) :
      Touched digest ((.resolve handle owner, now), .state stored.state) (some stored)
        (some stored)
  | moved {handle owner expected target resultValue now stored}
      (hdigest : host.digest.sha256 handle = digest) (hbound : stored.boundTo host owner = true)
      (hlive : stored.isDue now = false) (hstatus : stored.record.status = expected)
      (hallowed : expected.allows target = true)
      (hplaced : misplaced target resultValue = false) :
      Touched digest ((.transition handle owner expected target resultValue, now),
        .state (stored.moved target resultValue).state) (some stored)
        (some (stored.moved target resultValue))

variable {host}

theorem acceptedOn_raised (digest : String) (call : StoreCall × ℚ) (error : ActionError) :
    acceptedOn host digest (call, .raised error) = false := rfl

theorem acceptedOn_of_ne {digest : String} {call : StoreCall × ℚ} (answer : StoreAnswer)
    (h : digest ≠ host.digest.sha256 call.1.handle) :
    acceptedOn host digest (call, answer) = false := by
  simp only [acceptedOn, Bool.and_eq_false_iff, decide_eq_false_iff_not]
  exact .inr fun heq => h heq.symm

theorem withStatus_self {stored : StoredAction} {status : PreparedActionStatus}
    (h : stored.record.status = status) : stored.withStatus status = stored := by
  rw [← h]
  rfl

/-- Marking a dead row changes it only if it is due. -/
theorem touched_of_dead {digest handle : String} (call : StoreCall × ℚ) {error : ActionError}
    {store : ActionStore} {stored : StoredAction}
    (hrow : Table.get? (host.digest.sha256 handle) store.actions = some stored)
    (hdead : (stored.isDue call.2 || decide (stored.record.status = .expired)) = true) :
    Touched host digest (call, .raised error) (Table.get? digest store.actions)
      (Table.get? digest (Table.put (host.digest.sha256 handle) (stored.withStatus .expired)
        store.actions)) := by
  rw [Table.get?_put]
  split
  · rename_i hdigest
    rw [hdigest, hrow]
    by_cases hdue : stored.isDue call.2 = true
    · exact .expired (acceptedOn_raised ..) hdue
    · have hstatus : stored.record.status = .expired := by simpa [hdue] using hdead
      rw [withStatus_self hstatus]
      exact .kept (acceptedOn_raised ..)
  · exact .kept (acceptedOn_raised ..)

/-- Expiring what is due touches a row only to mark it. -/
theorem touched_of_expireDue (digest : String) (entry : (StoreCall × ℚ) × StoreAnswer)
    (hother : acceptedOn host digest entry = false) (store : ActionStore) :
    Touched host digest entry (Table.get? digest store.actions)
      (Table.get? digest (Table.mapValues (·.expireDue entry.1.2) store.actions)) := by
  rw [Table.get?_mapValues]
  cases hrow : Table.get? digest store.actions with
  | none => exact .kept hother
  | some stored =>
    rw [Option.map_some, StoredAction.expireDue]
    split
    · rename_i hdue
      exact .expired hother hdue
    · exact .kept hother

/-- A new action stands under a fresh digest. -/
theorem touched_of_created (digest : String) {request : CreateRequest} {generated : String} {now : ℚ}
    {stored : StoredAction} {store : ActionStore}
    (hstored : newAction host request (host.digest.sha256 generated) now = .ok stored)
    (hfresh : (Table.get? (host.digest.sha256 generated)
      (Table.mapValues (·.expireDue now) store.actions)).isSome = false) :
    Touched host digest ((.create request generated, now), .created generated stored.state)
      (Table.get? digest store.actions)
      (Table.get? digest (Table.put (host.digest.sha256 generated) stored
        (Table.mapValues (·.expireDue now) store.actions))) := by
  rw [Table.get?_put]
  split
  · rename_i hdigest
    subst hdigest
    have hnone : Table.get? (host.digest.sha256 generated) store.actions = none := by
      rw [Table.get?_mapValues, Option.isSome_map] at hfresh
      exact Option.not_isSome_iff_eq_none.mp (by simp [hfresh])
    rw [hnone]
    exact .created rfl hstored
  · rename_i hdigest
    exact touched_of_expireDue digest ((.create request generated, now), _)
      (acceptedOn_of_ne _ hdigest) store

theorem touched_of_moved (digest : String) {handle : String} {owner : Owner}
    {expected target : PreparedActionStatus} {resultValue : Json} {now : ℚ} {stored : StoredAction}
    {store : ActionStore}
    (hrow : Table.get? (host.digest.sha256 handle) store.actions = some stored)
    (hbound : stored.boundTo host owner = true) (hlive : stored.isDue now = false)
    (hstatus : stored.record.status = expected) (hallowed : expected.allows target = true)
    (hplaced : misplaced target resultValue = false) :
    Touched host digest ((.transition handle owner expected target resultValue, now),
      .state (stored.moved target resultValue).state) (Table.get? digest store.actions)
      (Table.get? digest (Table.put (host.digest.sha256 handle) (stored.moved target resultValue)
        store.actions)) := by
  rw [Table.get?_put]
  split
  · rename_i hdigest
    rw [hdigest, hrow]
    exact .moved rfl hbound hlive hstatus hallowed hplaced
  · rename_i hdigest
    exact .kept (acceptedOn_of_ne _ hdigest)

theorem touched_of_resolved (digest : String) {handle : String} {owner : Owner} {now : ℚ}
    {stored : StoredAction} {store : ActionStore}
    (hrow : Table.get? (host.digest.sha256 handle) store.actions = some stored)
    (hbound : stored.boundTo host owner = true) (hlive : stored.isDue now = false) :
    Touched host digest ((.resolve handle owner, now), .state stored.state)
      (Table.get? digest store.actions) (Table.get? digest store.actions) := by
  by_cases hdigest : digest = host.digest.sha256 handle
  · rw [hdigest, hrow]
    exact .resolved rfl hbound hlive
  · exact .kept (acceptedOn_of_ne _ hdigest)

end Rows

/-! The store in memory. -/

section Memory
variable {host : StoreHost}

theorem memory_create_touched (store : ActionStore) (request : CreateRequest) (generated : String)
    (now : ℚ) (digest : String) :
    let call : StoreCall × ℚ := (.create request generated, now)
    Touched host digest (call, (StoreKind.memory.answer host store call).1)
      (Table.get? digest store.actions)
      (Table.get? digest (StoreKind.memory.answer host store call).2.actions) := by
  intro call
  simp only [call, StoreKind.answer_memory_create, InMemoryActionStore.create]
  cases request.check generated with
  | error error => exact .kept rfl
  | ok _ =>
    simp only
    split
    · exact .kept rfl
    · split
      · exact touched_of_expireDue digest ((.create request generated, now), _) rfl store
      · rename_i hroom
        cases hstored : newAction host request (host.digest.sha256 generated) now with
        | error error =>
          exact touched_of_expireDue digest ((.create request generated, now), _) rfl store
        | ok stored =>
          rw [not_or, Bool.not_eq_true] at hroom
          exact touched_of_created digest hstored hroom.2

variable (host) in
/-- Resolving marks a dead row, gives the live row of its owner, or changes nothing. -/
theorem resolveBound_cases (store : ActionStore) (handle : String) (owner : Owner) (now : ℚ) :
    (∃ error, InMemoryActionStore.resolveBound host store handle owner now =
      (.error error, store)) ∨
    ∃ stored, Table.get? (host.digest.sha256 handle) store.actions = some stored ∧
      stored.boundTo host owner = true ∧
      ((stored.isDue now || decide (stored.record.status = .expired)) = true ∧
        InMemoryActionStore.resolveBound host store handle owner now =
          (.error actionExpired, { store with
            actions := Table.put (host.digest.sha256 handle) (stored.withStatus .expired)
              store.actions }) ∨
      stored.isDue now = false ∧
        InMemoryActionStore.resolveBound host store handle owner now = (.ok stored, store)) := by
  unfold InMemoryActionStore.resolveBound
  by_cases hclosed : store.closed
  · simp only [hclosed, if_true]
    exact .inl ⟨_, rfl⟩
  · by_cases hhandle : isHandle handle
    · simp only [hclosed, hhandle, Bool.false_eq_true, if_false, if_true]
      cases hrow : Table.get? (host.digest.sha256 handle) store.actions with
      | none => exact .inl ⟨_, rfl⟩
      | some stored =>
        cases owner.check with
        | error error => exact .inl ⟨_, rfl⟩
        | ok _ =>
          by_cases hbound : stored.boundTo host owner = true
          · simp only [hbound, if_true]
            split
            · rename_i hdead
              exact .inr ⟨stored, rfl, hbound, .inl ⟨hdead, rfl⟩⟩
            · rename_i hdead
              rw [Bool.not_eq_true, Bool.or_eq_false_iff] at hdead
              exact .inr ⟨stored, rfl, hbound, .inr ⟨hdead.1, rfl⟩⟩
          · simp only [hbound, Bool.false_eq_true, if_false]
            exact .inl ⟨_, rfl⟩
    · simp only [hclosed, hhandle, Bool.false_eq_true, if_false]
      exact .inl ⟨_, rfl⟩

theorem memory_resolve_touched (store : ActionStore) (handle : String) (owner : Owner) (now : ℚ)
    (digest : String) :
    let call : StoreCall × ℚ := (.resolve handle owner, now)
    Touched host digest (call, (StoreKind.memory.answer host store call).1)
      (Table.get? digest store.actions)
      (Table.get? digest (StoreKind.memory.answer host store call).2.actions) := by
  intro call
  simp only [call, StoreKind.answer_memory_resolve]
  rcases resolveBound_cases host store handle owner now with
    ⟨error, h⟩ | ⟨stored, hrow, hbound, ⟨hdead, h⟩ | ⟨hlive, h⟩⟩
  · rw [h]
    exact .kept rfl
  · rw [h]
    exact touched_of_dead (.resolve handle owner, now) hrow hdead
  · rw [h]
    exact touched_of_resolved digest hrow hbound hlive

theorem memory_transition_touched (store : ActionStore) (handle : String) (owner : Owner)
    (expected target : PreparedActionStatus) (resultValue : Json) (now : ℚ) (digest : String) :
    let call : StoreCall × ℚ := (.transition handle owner expected target resultValue, now)
    Touched host digest (call, (StoreKind.memory.answer host store call).1)
      (Table.get? digest store.actions)
      (Table.get? digest (StoreKind.memory.answer host store call).2.actions) := by
  intro call
  simp only [call, StoreKind.answer_memory_transition, InMemoryActionStore.transition]
  rcases resolveBound_cases host store handle owner now with
    ⟨error, h⟩ | ⟨stored, hrow, hbound, ⟨hdead, h⟩ | ⟨hlive, h⟩⟩
  · rw [h]
    exact .kept rfl
  · rw [h]
    exact touched_of_dead (.transition handle owner expected target resultValue, now)
      hrow hdead
  · rw [h]
    simp only
    split
    · exact .kept rfl
    · rename_i hguard
      rw [not_or, not_not, not_not] at hguard
      split
      · exact .kept rfl
      · rename_i hplaced
        rw [Bool.not_eq_true] at hplaced
        exact touched_of_moved digest hrow hbound hlive hguard.1 hguard.2 hplaced

end Memory

/-! The store over a database. -/

section Database
variable {host : StoreHost}

theorem sqlite_create_touched (store : ActionStore) (request : CreateRequest) (generated : String)
    (now : ℚ) (digest : String) :
    let call : StoreCall × ℚ := (.create request generated, now)
    Touched host digest (call, (StoreKind.sqlite.answer host store call).1)
      (Table.get? digest store.actions)
      (Table.get? digest (StoreKind.sqlite.answer host store call).2.actions) := by
  intro call
  simp only [call, StoreKind.answer_sqlite_create, SQLiteActionStore.create]
  cases request.check generated with
  | error error => exact .kept rfl
  | ok _ =>
    simp only
    split
    · exact .kept rfl
    · cases hstored : newAction host request (host.digest.sha256 generated) now with
      | error error => exact .kept rfl
      | ok stored =>
        simp only
        split
        · exact .kept rfl
        · rename_i hroom
          rw [not_or, Bool.not_eq_true] at hroom
          exact touched_of_created digest hstored hroom.2

variable (host) in
/-- An access marks a dead row, goes on with the live row of its owner, or changes nothing. -/
theorem access_cases (store : ActionStore) (handle : String) (owner : Owner) (now : ℚ)
    (next : String → StoredAction → Except ActionError StoredAction × ActionStore) :
    (∃ error, SQLiteActionStore.access host store handle owner now next = (.error error, store)) ∨
    ∃ stored, Table.get? (host.digest.sha256 handle) store.actions = some stored ∧
      stored.boundTo host owner = true ∧
      ((stored.isDue now || decide (stored.record.status = .expired)) = true ∧
        SQLiteActionStore.access host store handle owner now next =
          (.error actionExpired, { store with
            actions := Table.put (host.digest.sha256 handle) (stored.withStatus .expired)
              store.actions }) ∨
      stored.isDue now = false ∧
        SQLiteActionStore.access host store handle owner now next =
          next (host.digest.sha256 handle) stored) := by
  unfold SQLiteActionStore.access SQLiteActionStore.handleDigest SQLiteActionStore.ensureOpen
    SQLiteActionStore.boundRow
  by_cases hhandle : isHandle handle
  · simp only [hhandle, if_true]
    cases owner.check with
    | error error => exact .inl ⟨_, rfl⟩
    | ok _ =>
      by_cases hclosed : store.closed
      · simp only [hclosed, if_true]
        exact .inl ⟨_, rfl⟩
      · simp only [hclosed, Bool.false_eq_true, if_false]
        cases hrow : Table.get? (host.digest.sha256 handle) store.actions with
        | none => exact .inl ⟨_, rfl⟩
        | some stored =>
          by_cases hbound : stored.boundTo host owner = true
          · simp only [hbound, if_true]
            split
            · rename_i hdead
              exact .inr ⟨stored, rfl, hbound, .inl ⟨hdead, rfl⟩⟩
            · rename_i hdead
              rw [Bool.not_eq_true, Bool.or_eq_false_iff] at hdead
              exact .inr ⟨stored, rfl, hbound, .inr ⟨hdead.1, rfl⟩⟩
          · simp only [hbound, Bool.false_eq_true, if_false]
            exact .inl ⟨_, rfl⟩
  · simp only [hhandle, Bool.false_eq_true, if_false]
    exact .inl ⟨_, rfl⟩

theorem sqlite_resolve_touched (store : ActionStore) (handle : String) (owner : Owner) (now : ℚ)
    (digest : String) :
    let call : StoreCall × ℚ := (.resolve handle owner, now)
    Touched host digest (call, (StoreKind.sqlite.answer host store call).1)
      (Table.get? digest store.actions)
      (Table.get? digest (StoreKind.sqlite.answer host store call).2.actions) := by
  intro call
  simp only [call, StoreKind.answer_sqlite_resolve, SQLiteActionStore.resolve]
  rcases access_cases host store handle owner now
    (fun _ stored => (.ok stored, store)) with
    ⟨error, h⟩ | ⟨stored, hrow, hbound, ⟨hdead, h⟩ | ⟨hlive, h⟩⟩
  · rw [h]
    exact .kept rfl
  · rw [h]
    exact touched_of_dead (.resolve handle owner, now) hrow hdead
  · rw [h]
    exact touched_of_resolved digest hrow hbound hlive

theorem sqlite_transition_touched (store : ActionStore) (handle : String) (owner : Owner)
    (expected target : PreparedActionStatus) (resultValue : Json) (now : ℚ) (digest : String) :
    let call : StoreCall × ℚ := (.transition handle owner expected target resultValue, now)
    Touched host digest (call, (StoreKind.sqlite.answer host store call).1)
      (Table.get? digest store.actions)
      (Table.get? digest (StoreKind.sqlite.answer host store call).2.actions) := by
  intro call
  simp only [call, StoreKind.answer_sqlite_transition, SQLiteActionStore.transition]
  split
  · exact .kept rfl
  · rename_i hallowed
    rw [not_not] at hallowed
    split
    · exact .kept rfl
    · rename_i hplaced
      rw [Bool.not_eq_true] at hplaced
      rcases access_cases host store handle owner now (fun digest stored =>
        if stored.record.status ≠ expected then (.error transitionConflict, store)
        else (.ok (stored.moved target resultValue), { store with
          actions := Table.put digest (stored.moved target resultValue) store.actions })) with
        ⟨error, h⟩ | ⟨stored, hrow, hbound, ⟨hdead, h⟩ | ⟨hlive, h⟩⟩
      · rw [h]
        exact .kept rfl
      · rw [h]
        exact touched_of_dead (.transition handle owner expected target resultValue, now)
          hrow hdead
      · rw [h]
        split
        · exact .kept rfl
        · rename_i hstatus
          rw [not_not] at hstatus
          exact touched_of_moved digest hrow hbound hlive hstatus hallowed hplaced

end Database

/-- What a call of either store can do to an action. -/
theorem touched_of_answer (kind : StoreKind) (host : StoreHost) (store : ActionStore)
    (call : StoreCall × ℚ) (digest : String) :
    Touched host digest (call, (kind.answer host store call).1) (Table.get? digest store.actions)
      (Table.get? digest (kind.answer host store call).2.actions) := by
  obtain ⟨call, now⟩ := call
  cases kind with
  | memory =>
    cases call with
    | create request generated => exact memory_create_touched store request generated now digest
    | resolve handle owner => exact memory_resolve_touched store handle owner now digest
    | transition handle owner expected target resultValue =>
      exact memory_transition_touched store handle owner expected target resultValue now digest
  | sqlite =>
    cases call with
    | create request generated => exact sqlite_create_touched store request generated now digest
    | resolve handle owner => exact sqlite_resolve_touched store handle owner now digest
    | transition handle owner expected target resultValue =>
      exact sqlite_transition_touched store handle owner expected target resultValue now digest

end CapabilityCompiler.Actions
