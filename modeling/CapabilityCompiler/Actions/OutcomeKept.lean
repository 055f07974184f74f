import CapabilityCompiler.Actions.ReportAgreement

/-! When the outcome of a commit is kept: as long as no call marks its action as expired. -/
namespace CapabilityCompiler.Actions
open Foundation

/-! The calls that mark an action once it is due. -/

section Sweeps
variable (host : StoreHost) (store : ActionStore) (digest : String)

/-- The call of a handle gets to the action under a digest. -/
def reaches (handle : String) (owner : Owner) : Bool :=
  !store.closed && isHandle handle && decide (host.digest.sha256 handle = digest) &&
    owner.check.isOk && (store.row digest).any (·.boundTo host owner)

/-- The call gets so far that it marks the action under a digest if that is due. A database rolls
the marks of a failed creation back. -/
def StoreKind.sweeps (kind : StoreKind) (call : StoreCall × ℚ) : Bool :=
  match kind, call.1 with
  | .memory, .create request generated => (request.check generated).isOk && !store.closed
  | .sqlite, .create request generated =>
    (request.check generated).isOk && !store.closed &&
      (newAction host request (host.digest.sha256 generated) call.2).isOk &&
      decide (store.actions.length < host.maxActions) &&
      (store.row (host.digest.sha256 generated)).isNone
  | _, .resolve handle owner => reaches host store digest handle owner
  | .memory, .transition handle owner _ _ _ => reaches host store digest handle owner
  | .sqlite, .transition handle owner expected target resultValue =>
    expected.allows target && !misplaced target resultValue &&
      reaches host store digest handle owner

variable {host store digest} {now : ℚ}

@[simp] theorem sweeps_memory_create (request : CreateRequest) (generated : String) :
    StoreKind.memory.sweeps host store digest (.create request generated, now) =
      ((request.check generated).isOk && !store.closed) := rfl

@[simp] theorem sweeps_sqlite_create (request : CreateRequest) (generated : String) :
    StoreKind.sqlite.sweeps host store digest (.create request generated, now) =
      ((request.check generated).isOk && !store.closed &&
        (newAction host request (host.digest.sha256 generated) now).isOk &&
        decide (store.actions.length < host.maxActions) &&
        (store.row (host.digest.sha256 generated)).isNone) := rfl

@[simp] theorem sweeps_resolve (kind : StoreKind) (handle : String) (owner : Owner) :
    kind.sweeps host store digest (.resolve handle owner, now) =
      reaches host store digest handle owner := by
  cases kind <;> rfl

@[simp] theorem sweeps_memory_transition (handle : String) (owner : Owner)
    (expected target : PreparedActionStatus) (resultValue : Json) :
    StoreKind.memory.sweeps host store digest
        (.transition handle owner expected target resultValue, now) =
      reaches host store digest handle owner := rfl

@[simp] theorem sweeps_sqlite_transition (handle : String) (owner : Owner)
    (expected target : PreparedActionStatus) (resultValue : Json) :
    StoreKind.sqlite.sweeps host store digest
        (.transition handle owner expected target resultValue, now) =
      (expected.allows target && !misplaced target resultValue &&
        reaches host store digest handle owner) := rfl

end Sweeps

section Due
variable {host : StoreHost} {store : ActionStore} {digest : String} {stored : StoredAction}
  {now : ℚ}

theorem row_of_expireDue (hrow : store.row digest = some stored) (hdue : stored.isDue now = true) :
    Table.get? digest (Table.mapValues (·.expireDue now) store.actions) =
      some (stored.withStatus .expired) := by
  rw [ActionStore.row] at hrow
  rw [Table.get?_mapValues, hrow, Option.map_some, StoredAction.expireDue, if_pos hdue]

theorem reaches_of_ne {handle : String} (hne : host.digest.sha256 handle ≠ digest)
    (owner : Owner) : reaches host store digest handle owner = false := by
  simp [reaches, hne]

/-- A due action is marked by a call that gets to it, and not handed out. -/
theorem resolveBound_due (host : StoreHost) (hrow : store.row digest = some stored) (hdue : stored.isDue now = true)
    (handle : String) (owner : Owner) :
    (InMemoryActionStore.resolveBound host store handle owner now).2.row digest =
        some (if reaches host store digest handle owner then stored.withStatus .expired
          else stored) ∧
      (host.digest.sha256 handle = digest →
        (InMemoryActionStore.resolveBound host store handle owner now).1.isOk = false) := by
  unfold InMemoryActionStore.resolveBound
  by_cases hclosed : store.closed
  · simp [hclosed, reaches, hrow, Except.isOk, Except.toBool]
  · by_cases hhandle : isHandle handle
    · simp only [hclosed, hhandle, Bool.false_eq_true, if_false, if_true]
      by_cases hdigest : host.digest.sha256 handle = digest
      · subst hdigest
        have hget : Table.get? (host.digest.sha256 handle) store.actions = some stored := hrow
        simp only [hget]
        cases hcheck : owner.check with
        | error error => simp [reaches, hcheck, hrow, Except.isOk, Except.toBool]
        | ok _ =>
          by_cases hbound : stored.boundTo host owner = true
          · have hreaches : reaches host store (host.digest.sha256 handle) handle owner = true := by
              simp [reaches, hclosed, hhandle, hcheck, hrow, hbound, Except.isOk, Except.toBool]
            simp [hreaches, hbound, hdue, ActionStore.row, Except.isOk, Except.toBool]
          · simp [hbound, reaches, hrow, Except.isOk, Except.toBool]
      · rw [reaches_of_ne hdigest]
        refine ⟨?_, fun h => absurd h hdigest⟩
        cases hget : Table.get? (host.digest.sha256 handle) store.actions with
        | none => simpa using hrow
        | some other =>
          cases owner.check with
          | error error => simpa using hrow
          | ok _ =>
            simp only
            split
            · split
              · rw [ActionStore.row, Table.get?_put_of_ne (Ne.symm hdigest)]
                simpa [ActionStore.row] using hrow
              · simpa using hrow
            · simpa using hrow
    · simp [hclosed, hhandle, reaches, hrow, Except.isOk, Except.toBool]

theorem access_due (hrow : store.row digest = some stored) (hdue : stored.isDue now = true)
    (handle : String) (owner : Owner)
    {next : String → StoredAction → Except ActionError StoredAction × ActionStore}
    (hnext : ∀ other found, other ≠ digest → (next other found).2.row digest = some stored) :
    (SQLiteActionStore.access host store handle owner now next).2.row digest =
      some (if reaches host store digest handle owner then stored.withStatus .expired
        else stored) := by
  unfold SQLiteActionStore.access SQLiteActionStore.handleDigest SQLiteActionStore.ensureOpen
    SQLiteActionStore.boundRow
  by_cases hhandle : isHandle handle
  · simp only [hhandle, if_true]
    by_cases hdigest : host.digest.sha256 handle = digest
    · subst hdigest
      have hget : Table.get? (host.digest.sha256 handle) store.actions = some stored := hrow
      cases hcheck : owner.check with
      | error error => simp [reaches, hcheck, hrow, Except.isOk, Except.toBool]
      | ok _ =>
        by_cases hclosed : store.closed
        · simp [hclosed, reaches, hrow]
        · by_cases hbound : stored.boundTo host owner = true
          · have hreaches : reaches host store (host.digest.sha256 handle) handle owner = true := by
              simp [reaches, hclosed, hhandle, hcheck, hrow, hbound, Except.isOk, Except.toBool]
            simp [hclosed, hget, hreaches, hbound, hdue, ActionStore.row]
          · simp [hclosed, hget, reaches, hrow, hbound]
    · rw [reaches_of_ne hdigest]
      simp only [Bool.false_eq_true, if_false]
      cases owner.check with
      | error error => exact hrow
      | ok _ =>
        by_cases hclosed : store.closed
        · simpa [hclosed] using hrow
        · simp only [hclosed, Bool.false_eq_true, if_false]
          cases hget : Table.get? (host.digest.sha256 handle) store.actions with
          | none => simpa using hrow
          | some other =>
            by_cases hbound : other.boundTo host owner = true
            · simp only [hbound, if_true]
              split
              · rw [ActionStore.row, Table.get?_put_of_ne (Ne.symm hdigest)]
                exact hrow
              · exact hnext _ _ hdigest
            · simpa [hbound] using hrow
  · simp [hhandle, reaches, hrow]

theorem kept_row {swept : Bool} {store' : ActionStore} (hswept : swept = false)
    (hrow : store'.row digest = some stored) :
    store'.row digest = some (if swept then stored.withStatus .expired else stored) := by
  rw [hswept]
  exact hrow

theorem marked_row {swept : Bool} {store' : ActionStore} (hswept : swept = true)
    (hrow : store'.row digest = some (stored.withStatus .expired)) :
    store'.row digest = some (if swept then stored.withStatus .expired else stored) := by
  rw [hswept]
  exact hrow

theorem memory_create_due (hrow : store.row digest = some stored)
    (hdue : stored.isDue now = true) (request : CreateRequest) (generated : String) :
    (InMemoryActionStore.create host store request generated now).2.row digest =
      some (if StoreKind.memory.sweeps host store digest (.create request generated, now) then
        stored.withStatus .expired else stored) := by
  have hexpired := row_of_expireDue hrow hdue
  unfold InMemoryActionStore.create
  cases hcheck : request.check generated with
  | error error => exact kept_row (by simp [hcheck, Except.isOk, Except.toBool]) hrow
  | ok _ =>
    by_cases hclosed : store.closed
    · simp only [hclosed, if_true]
      exact kept_row (by simp [hclosed]) hrow
    · have hswept : StoreKind.memory.sweeps host store digest (.create request generated, now) =
          true := by
        simp [hcheck, hclosed, Except.isOk, Except.toBool]
      refine marked_row hswept ?_
      simp only [hclosed, Bool.false_eq_true, if_false]
      split
      · exact hexpired
      · rename_i hroom
        cases newAction host request (host.digest.sha256 generated) now with
        | error error => exact hexpired
        | ok fresh =>
          have hne : digest ≠ host.digest.sha256 generated := by
            rintro rfl
            rw [not_or, hexpired] at hroom
            exact hroom.2 rfl
          rw [ActionStore.row, Table.get?_put_of_ne hne]
          exact hexpired

theorem sqlite_create_due (hrow : store.row digest = some stored)
    (hdue : stored.isDue now = true) (request : CreateRequest) (generated : String) :
    (SQLiteActionStore.create host store request generated now).2.row digest =
      some (if StoreKind.sqlite.sweeps host store digest (.create request generated, now) then
        stored.withStatus .expired else stored) := by
  have hexpired := row_of_expireDue hrow hdue
  have hlength : (Table.mapValues (·.expireDue now) store.actions).length =
      store.actions.length := Table.length_mapValues _ _
  have hsame : (Table.get? (host.digest.sha256 generated)
      (Table.mapValues (·.expireDue now) store.actions)).isSome =
      (store.row (host.digest.sha256 generated)).isSome := by
    rw [Table.get?_mapValues, Option.isSome_map]
    rfl
  unfold SQLiteActionStore.create
  cases hcheck : request.check generated with
  | error error => exact kept_row (by simp [hcheck, Except.isOk, Except.toBool]) hrow
  | ok _ =>
    by_cases hclosed : store.closed
    · simp only [hclosed, if_true]
      exact kept_row (by simp [hclosed]) hrow
    · cases hnew : newAction host request (host.digest.sha256 generated) now with
      | error error =>
        simp only [hclosed, hnew, Bool.false_eq_true, if_false]
        exact kept_row (by simp [hnew, Except.isOk, Except.toBool]) hrow
      | ok fresh =>
        simp only [hclosed, hnew, Bool.false_eq_true, if_false, hlength, hsame]
        by_cases hroom : host.maxActions ≤ store.actions.length ∨
            (store.row (host.digest.sha256 generated)).isSome = true
        · rw [if_pos hroom]
          refine kept_row ?_ hrow
          rcases hroom with hfull | hused
          · simp [hfull]
          · obtain ⟨other, hother⟩ := Option.isSome_iff_exists.mp hused
            simp [hother]
        · rw [if_neg hroom]
          rw [not_or, not_le, Bool.not_eq_true, Option.isSome_eq_false_iff] at hroom
          have hswept : StoreKind.sqlite.sweeps host store digest
              (.create request generated, now) = true := by
            simp only [sweeps_sqlite_create, hcheck, hclosed, hnew, hroom.1, hroom.2, Except.isOk,
              Except.toBool, Bool.not_false, Bool.and_self, decide_true]
          have hne : digest ≠ host.digest.sha256 generated := by
            rintro rfl
            rw [hrow] at hroom
            exact absurd hroom.2 (by simp)
          refine marked_row hswept ?_
          rw [ActionStore.row, Table.get?_put_of_ne hne]
          exact hexpired

theorem memory_transition_due (hrow : store.row digest = some stored)
    (hdue : stored.isDue now = true) (handle : String) (owner : Owner)
    (expected target : PreparedActionStatus) (resultValue : Json) :
    (InMemoryActionStore.transition host store handle owner expected target resultValue now).2.row
        digest =
      some (if reaches host store digest handle owner then stored.withStatus .expired
        else stored) := by
  obtain ⟨hmarked, hrefused⟩ := resolveBound_due host hrow hdue handle owner
  unfold InMemoryActionStore.transition
  cases hresult : InMemoryActionStore.resolveBound host store handle owner now with
  | mk result store' =>
    rw [hresult] at hmarked hrefused
    cases result with
    | error error => exact hmarked
    | ok found =>
      have hne : digest ≠ host.digest.sha256 handle := by
        rintro rfl
        exact absurd (hrefused rfl) (by simp [Except.isOk, Except.toBool])
      simp only
      split
      · exact hmarked
      · split
        · exact hmarked
        · rw [ActionStore.row, Table.get?_put_of_ne hne]
          exact hmarked

theorem sqlite_transition_due (hrow : store.row digest = some stored)
    (hdue : stored.isDue now = true) (handle : String) (owner : Owner)
    (expected target : PreparedActionStatus) (resultValue : Json) :
    (SQLiteActionStore.transition host store handle owner expected target resultValue now).2.row
        digest =
      some (if StoreKind.sqlite.sweeps host store digest
          (.transition handle owner expected target resultValue, now) then
        stored.withStatus .expired else stored) := by
  unfold SQLiteActionStore.transition
  by_cases hallowed : expected.allows target = true
  · by_cases hplaced : misplaced target resultValue = true
    · rw [if_neg (by simpa using hallowed), if_pos hplaced]
      exact kept_row (by simp [hplaced]) hrow
    · rw [if_neg (by simpa using hallowed), if_neg hplaced]
      have hswept : StoreKind.sqlite.sweeps host store digest
          (.transition handle owner expected target resultValue, now) =
          reaches host store digest handle owner := by
        simp [hallowed, hplaced]
      rw [hswept]
      refine access_due hrow hdue handle owner fun other found hother => ?_
      split
      · exact hrow
      · rw [ActionStore.row, Table.get?_put_of_ne (Ne.symm hother)]
        exact hrow
  · rw [if_pos hallowed]
    exact kept_row (by simp [hallowed]) hrow

/-- A due action is expired by the calls that sweep it, and left alone by the others. -/
theorem row_of_due (kind : StoreKind) (hrow : store.row digest = some stored)
    {call : StoreCall × ℚ} (hdue : stored.isDue call.2 = true) :
    (kind.answer host store call).2.row digest =
      some (if kind.sweeps host store digest call then stored.withStatus .expired
        else stored) := by
  obtain ⟨call, now⟩ := call
  cases call with
  | create request generated =>
    cases kind with
    | memory =>
      simp only [StoreKind.answer_memory_create, respond_snd]
      exact memory_create_due hrow hdue request generated
    | sqlite =>
      simp only [StoreKind.answer_sqlite_create, respond_snd]
      exact sqlite_create_due hrow hdue request generated
  | resolve handle owner =>
    cases kind with
    | memory =>
      simp only [StoreKind.answer_memory_resolve, respond_snd]
      exact (resolveBound_due host hrow hdue handle owner).1
    | sqlite =>
      simp only [StoreKind.answer_sqlite_resolve, respond_snd]
      unfold SQLiteActionStore.resolve
      exact access_due hrow hdue handle owner fun _ _ _ => hrow
  | transition handle owner expected target resultValue =>
    cases kind with
    | memory =>
      simp only [StoreKind.answer_memory_transition, respond_snd]
      exact memory_transition_due hrow hdue handle owner expected target resultValue
    | sqlite =>
      simp only [StoreKind.answer_sqlite_transition, respond_snd]
      exact sqlite_transition_due hrow hdue handle owner expected target resultValue

end Due

/-! Runs in which no begun action is expired. -/

/-- No performed call expires the action under a digest once its commit has begun. -/
def Timely (kind : StoreKind) (host : StoreHost) (digest : String) (log : List CoordinatorEntry) :
    Prop :=
  ∀ before after i delivered q input answer,
    log = before ++ .performed i delivered q input answer :: after →
    ∀ stored, (storeAfter kind host before).row digest = some stored →
      stored.record.status.begun = true → stored.isDue input.2 = true →
      kind.sweeps host (storeAfter kind host before) digest input = false

section Timely
variable {packs : Packs} {kind : StoreKind} {host : StoreHost} {digest : String}
  {world : CoordinatorWorld packs} {before after : List CoordinatorEntry}

theorem Timely.left {log rest : List CoordinatorEntry}
    (h : Timely kind host digest (log ++ rest)) : Timely kind host digest log := by
  intro before after i delivered q input answer hlog
  refine h before (after ++ rest) i delivered q input answer ?_
  rw [hlog, List.append_assoc, List.cons_append]

/-- What one timely call makes of an action whose commit has begun. -/
theorem kept_of_answer {P : PreparedActionStatus → Bool}
    (hclosed : ∀ {expected target}, expected.allows target = true → P expected = true →
      P target = true)
    {store : ActionStore} {stored : StoredAction} (hrow : store.row digest = some stored)
    (hP : P stored.record.status = true) {call : StoreCall × ℚ}
    (htimely : stored.isDue call.2 = true → kind.sweeps host store digest call = false) :
    ∃ stored', (kind.answer host store call).2.row digest = some stored' ∧
      P stored'.record.status = true ∧
      (stored.record.status = .succeeded → stored' = stored) := by
  by_cases hdue : stored.isDue call.2 = true
  · refine ⟨stored, ?_, hP, fun _ => rfl⟩
    rw [row_of_due kind hrow hdue, htimely hdue]
    rfl
  · obtain ⟨stored', hrow', hcases⟩ := row_cases kind host hrow call
    refine ⟨stored', hrow', ?_⟩
    rcases hcases with rfl | ⟨hdue', -⟩ | ⟨_, _, expected, target, _, _, _, hstatus, hallowed, rfl⟩
    · exact ⟨hP, fun _ => rfl⟩
    · exact absurd hdue' hdue
    · rw [hstatus] at hP
      refine ⟨hclosed hallowed hP, fun hsucceeded => ?_⟩
      rw [← hstatus, hsucceeded, PreparedActionStatus.not_allows_of_succeeded] at hallowed
      exact absurd hallowed (by simp)

/-- What holds of begun actions, and what the transitions keep, stays along a timely run. -/
theorem kept_of_timely {P : PreparedActionStatus → Bool}
    (hclosed : ∀ {expected target}, expected.allows target = true → P expected = true →
      P target = true)
    (hbegun : ∀ {status}, P status = true → status.begun = true)
    (htimely : Timely kind host digest (before ++ after)) {stored : StoredAction}
    (hrow : (storeAfter kind host before).row digest = some stored)
    (hP : P stored.record.status = true) :
    ∃ stored', (storeAfter kind host (before ++ after)).row digest = some stored' ∧
      P stored'.record.status = true ∧
      (stored.record.status = .succeeded → stored' = stored) := by
  induction after using List.reverseRecOn with
  | nil =>
    rw [List.append_nil]
    exact ⟨stored, hrow, hP, fun _ => rfl⟩
  | append_singleton after entry ih =>
    rw [← List.append_assoc] at htimely ⊢
    obtain ⟨stored', hrow', hP', hsame'⟩ := ih htimely.left
    rw [storeAfter_append]
    cases entry with
    | sent task q => exact ⟨stored', hrow', hP', hsame'⟩
    | replied task q r => exact ⟨stored', hrow', hP', hsame'⟩
    | performed task delivered q input answer =>
      obtain ⟨next, hnext, hnextP, hsameNext⟩ := kept_of_answer hclosed hrow' hP'
        (htimely _ [] task delivered q input answer rfl stored' hrow' (hbegun hP'))
      refine ⟨next, hnext, hnextP, fun hsucceeded => ?_⟩
      obtain rfl := hsame' hsucceeded
      exact hsameNext hsucceeded

/-- A begun action stays begun along a timely run, and a success stays as it is. -/
theorem begun_of_timely (htimely : Timely kind host digest (before ++ after))
    {stored : StoredAction} (hrow : (storeAfter kind host before).row digest = some stored)
    (hbegun : stored.record.status.begun = true) :
    ∃ stored', (storeAfter kind host (before ++ after)).row digest = some stored' ∧
      stored'.record.status.begun = true ∧
      (stored.record.status = .succeeded → stored' = stored) :=
  kept_of_timely PreparedActionStatus.begun_of_allows id htimely hrow hbegun

/-- After its commit has begun an action is told as begun, and a success as it is stored. -/
theorem told_of_timely (h : Reached kind host world)
    (htimely : Timely kind host digest world.log) {first second third : List CoordinatorEntry}
    {entry : CoordinatorEntry} (hlog : world.log = first ++ second ++ entry :: third)
    {stored : StoredAction} (hrow : (storeAfter kind host first).row digest = some stored)
    (hbegun : stored.record.status.begun = true) {task : ℕ} {state : PreparedActionState}
    (htells : Tells host digest task state entry) :
    state.record.status.begun = true ∧
      (stored.record.status = .succeeded → state = stored.state) := by
  obtain ⟨delivered, q, call, now, rfl, rfl⟩ := htells
  obtain ⟨told, htold, rfl, -⟩ := row_of_performed h hlog
  rw [List.append_cons, List.append_assoc first] at hlog
  rw [hlog] at htimely
  obtain ⟨stored', hrow', hbegun', hsame⟩ := begun_of_timely htimely.left hrow hbegun
  rw [← List.append_assoc] at hrow'
  obtain rfl : stored' = told := Option.some.inj (hrow'.symm.trans htold)
  exact ⟨hbegun', fun hsucceeded => by rw [hsame hsucceeded]⟩

end Timely
end CapabilityCompiler.Actions
