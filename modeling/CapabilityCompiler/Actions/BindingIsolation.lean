import CapabilityCompiler.Actions.StoreEquivalence

/-! An action is out of reach of everyone but its owner. -/
namespace CapabilityCompiler.Actions
open Foundation

section Owners
variable {host : StoreHost}

theorem boundTo_of_newAction {request : CreateRequest} {digest : String} {now : ℚ}
    {stored : StoredAction} (h : newAction host request digest now = .ok stored) :
    stored.boundTo host request.owner = true := by
  simp only [newAction] at h
  split at h
  · rw [Except.ok.injEq] at h
    subst h
    simp [StoredAction.boundTo]
  · exact absurd h (by simp)

/-- An action has one owner. -/
theorem owner_eq_of_boundTo (hinj : ∀ space, Function.Injective (host.bindingDigest space))
    {stored : StoredAction} {owner owner' : Owner} (h : stored.boundTo host owner = true)
    (h' : stored.boundTo host owner' = true) : owner = owner' := by
  rw [StoredAction.boundTo, decide_eq_true_eq] at h h'
  obtain ⟨hprincipal, hsession, hpack⟩ := h
  obtain ⟨hprincipal', hsession', hpack'⟩ := h'
  obtain ⟨principalId, sessionId, packDigest⟩ := owner
  obtain ⟨principalId', sessionId', packDigest'⟩ := owner'
  have hp : principalId = principalId' := hinj _ (hprincipal.symm.trans hprincipal')
  have hs : sessionId = sessionId' :=
    Option.map_injective (hinj _) (hsession.symm.trans hsession')
  have hd : packDigest = packDigest' := hpack.symm.trans hpack'
  rw [hp, hs, hd]

/-- The owner of an action is who has created it. -/
theorem exists_creator (kind : StoreKind) (calls : List (StoreCall × ℚ)) {digest : String}
    {stored : StoredAction}
    (h : Table.get? digest (Machine.after (kind.answer host) {} calls).actions = some stored) :
    ∃ request generated now state, ((.create request generated, now), .created generated state) ∈
        Machine.trace (kind.answer host) {} calls ∧
      host.digest.sha256 generated = digest ∧ stored.boundTo host request.owner = true := by
  revert digest stored
  refine Machine.trace_induction (P := fun entries (store : ActionStore) =>
    ∀ {digest stored}, Table.get? digest store.actions = some stored →
      ∃ request generated now state,
        ((StoreCall.create request generated, now), StoreAnswer.created generated state) ∈ entries ∧
        host.digest.sha256 generated = digest ∧ stored.boundTo host request.owner = true)
    (fun h => absurd h (by simp)) ?_ calls
  intro entries store call ih digest stored h
  have htouched := touched_of_answer kind host store call digest
  have hkeep : ∀ {former : StoredAction}, Table.get? digest store.actions = some former →
      (∀ owner, former.boundTo host owner = stored.boundTo host owner) →
      ∃ request generated now state,
        ((StoreCall.create request generated, now), StoreAnswer.created generated state) ∈
          entries ++ [(call, (kind.answer host store call).1)] ∧
        host.digest.sha256 generated = digest ∧ stored.boundTo host request.owner = true := by
    intro former hformer hsame
    obtain ⟨request, generated, now, state, hmem, hdigest, hbound⟩ := ih hformer
    exact ⟨request, generated, now, state, List.mem_append_left _ hmem, hdigest,
      hsame request.owner ▸ hbound⟩
  rw [h] at htouched
  generalize hrow : Table.get? digest store.actions = row at htouched hkeep
  generalize hentry : (call, (kind.answer host store call).1) = entry at htouched hkeep ⊢
  generalize hnew : some stored = row' at htouched
  cases htouched with
  | kept _ => exact hkeep hnew.symm fun _ => rfl
  | expired _ _ =>
    obtain rfl := Option.some.inj hnew
    exact hkeep rfl fun _ => rfl
  | @created request generated now fresh hdigest hstored =>
    obtain rfl := Option.some.inj hnew
    exact ⟨request, generated, now, _, List.mem_append_right _ (List.mem_singleton_self _), hdigest,
      boundTo_of_newAction hstored⟩
  | resolved _ _ _ =>
    obtain rfl := Option.some.inj hnew
    exact hkeep rfl fun _ => rfl
  | moved _ _ _ _ _ _ =>
    obtain rfl := Option.some.inj hnew
    exact hkeep rfl fun _ => rfl

end Owners

/-! A call of someone else. -/

section Foreign
variable {host : StoreHost} {store : ActionStore} {digest : String} {stored other : StoredAction}

/-- A call of someone else leaves an action as it is, or marks it once it is due. -/
theorem foreign_frame (kind : StoreKind) (hrow : Table.get? digest store.actions = some stored)
    {call : StoreCall × ℚ} (hforeign : stored.boundTo host call.1.owner = false) :
    Table.get? digest (kind.answer host store call).2.actions = some stored ∨
      stored.isDue call.2 = true ∧
        Table.get? digest (kind.answer host store call).2.actions =
          some (stored.withStatus .expired) := by
  have htouched := touched_of_answer kind host store call digest
  rw [hrow] at htouched
  generalize hentry : (call, (kind.answer host store call).1) = entry at htouched
  generalize Table.get? digest (kind.answer host store call).2.actions = row' at htouched ⊢
  cases htouched with
  | kept _ => exact .inl rfl
  | expired _ hdue =>
    rw [← hentry] at hdue
    exact .inr ⟨hdue, rfl⟩
  | resolved _ hbound _ =>
    obtain ⟨rfl, -⟩ := Prod.mk.inj hentry
    exact absurd hbound (by simpa [StoreCall.owner] using hforeign)
  | moved _ hbound _ _ _ _ =>
    obtain ⟨rfl, -⟩ := Prod.mk.inj hentry
    exact absurd hbound (by simpa [StoreCall.owner] using hforeign)

/-- A call of someone else on the handle of an action is refused. -/
theorem foreign_refused (kind : StoreKind) (hrow : Table.get? digest store.actions = some stored)
    {call : StoreCall × ℚ} (hforeign : stored.boundTo host call.1.owner = false)
    (hhandle : host.digest.sha256 call.1.handle = digest) :
    (kind.answer host store call).1.isError = true := by
  have htouched := touched_of_answer kind host store call digest
  rw [hrow] at htouched
  generalize hentry : (call, (kind.answer host store call).1) = entry at htouched
  generalize Table.get? digest (kind.answer host store call).2.actions = row' at htouched
  have hrefused : acceptedOn host digest entry = false →
      (kind.answer host store call).1.isError = true := by
    intro hother
    rw [← hentry] at hother
    simpa [acceptedOn, hhandle] using hother
  cases htouched with
  | kept hother => exact hrefused hother
  | expired hother _ => exact hrefused hother
  | resolved _ hbound _ =>
    obtain ⟨rfl, -⟩ := Prod.mk.inj hentry
    exact absurd hbound (by simpa [StoreCall.owner] using hforeign)
  | moved _ hbound _ _ _ _ =>
    obtain ⟨rfl, -⟩ := Prod.mk.inj hentry
    exact absurd hbound (by simpa [StoreCall.owner] using hforeign)

/-- The store with another action under a digest. -/
def ActionStore.withAction (store : ActionStore) (digest : String) (other : StoredAction) :
    ActionStore :=
  { store with actions := Table.put digest other store.actions }

theorem create_blind (kind : StoreKind) (hrow : Table.get? digest store.actions = some stored)
    (request : CreateRequest) (generated : String) (now : ℚ) :
    (kind.answer host (store.withAction digest other) (.create request generated, now)).1 =
      (kind.answer host store (.create request generated, now)).1 := by
  have hlength : (Table.mapValues (·.expireDue now) (Table.put digest other store.actions)).length =
      (Table.mapValues (·.expireDue now) store.actions).length := by
    rw [Table.length_mapValues, Table.length_mapValues, Table.length_put_of_get? hrow]
  have hsome : (Table.get? (host.digest.sha256 generated)
        (Table.mapValues (·.expireDue now) (Table.put digest other store.actions))).isSome =
      (Table.get? (host.digest.sha256 generated)
        (Table.mapValues (·.expireDue now) store.actions)).isSome := by
    rw [Table.get?_mapValues, Table.get?_mapValues, Table.get?_put, Option.isSome_map,
      Option.isSome_map]
    split
    · rename_i hdigest
      rw [hdigest, hrow]
      rfl
    · rfl
  cases kind with
  | memory =>
    simp only [StoreKind.answer_memory_create, InMemoryActionStore.create,
      ActionStore.withAction, hlength, hsome]
    cases request.check generated with
    | error error => rfl
    | ok _ =>
      simp only
      split
      · rfl
      · split
        · rfl
        · cases newAction host request (host.digest.sha256 generated) now <;> rfl
  | sqlite =>
    simp only [StoreKind.answer_sqlite_create, SQLiteActionStore.create,
      ActionStore.withAction, hlength, hsome]
    cases request.check generated with
    | error error => rfl
    | ok _ =>
      simp only
      split
      · rfl
      · cases newAction host request (host.digest.sha256 generated) now with
        | error error => rfl
        | ok fresh =>
          simp only
          split
          · rfl
          · rfl

/-- Looking for a handle, someone else finds the same row whichever action is under the digest, or
one that is not theirs. -/
theorem get?_withAction (other : StoredAction) (hrow : Table.get? digest store.actions = some stored) (key : String) :
    Table.get? key (store.withAction digest other).actions = Table.get? key store.actions ∨
      Table.get? key (store.withAction digest other).actions = some other ∧
        Table.get? key store.actions = some stored := by
  rw [ActionStore.withAction, Table.get?_put]
  split
  · rename_i hkey
    rw [hkey]
    exact .inr ⟨rfl, hrow⟩
  · exact .inl rfl

theorem resolveBound_blind (handle : String) {owner : Owner} (now : ℚ)
    (hrow : Table.get? digest store.actions = some stored)
    (hstored : stored.boundTo host owner = false) (hother : other.boundTo host owner = false) :
    (InMemoryActionStore.resolveBound host (store.withAction digest other) handle owner now).1 =
      (InMemoryActionStore.resolveBound host store handle owner now).1 := by
  have hclosed : (store.withAction digest other).closed = store.closed := rfl
  simp only [InMemoryActionStore.resolveBound, hclosed]
  split
  · rfl
  · split
    · rcases get?_withAction other hrow (host.digest.sha256 handle) with
        hsame | ⟨hnew, hold⟩
      · rw [hsame]
        cases Table.get? (host.digest.sha256 handle) store.actions with
        | none => rfl
        | some found =>
          cases owner.check with
          | error error => rfl
          | ok _ =>
            simp only
            split
            · split
              · rfl
              · rfl
            · rfl
      · rw [hnew, hold]
        cases owner.check with
        | error error => rfl
        | ok _ => simp [hstored, hother]
    · rfl

theorem access_blind {handle : String} {owner : Owner} {now : ℚ}
    {next next' : String → StoredAction → Except ActionError StoredAction × ActionStore}
    (hnext : ∀ digest found, (next digest found).1 = (next' digest found).1)
    (hrow : Table.get? digest store.actions = some stored)
    (hstored : stored.boundTo host owner = false) (hother : other.boundTo host owner = false) :
    (SQLiteActionStore.access host (store.withAction digest other) handle owner now next).1 =
      (SQLiteActionStore.access host store handle owner now next').1 := by
  have hclosed : (store.withAction digest other).closed = store.closed := rfl
  simp only [SQLiteActionStore.access, SQLiteActionStore.handleDigest, SQLiteActionStore.ensureOpen,
    SQLiteActionStore.boundRow, hclosed]
  by_cases hhandle : isHandle handle
  · simp only [hhandle, if_true]
    cases owner.check with
    | error error => rfl
    | ok _ =>
      by_cases hshut : store.closed
      · simp only [hshut, if_true]
      · simp only [hshut, Bool.false_eq_true, if_false]
        rcases get?_withAction other hrow (host.digest.sha256 handle) with
          hsame | ⟨hnew, hold⟩
        · rw [hsame]
          cases Table.get? (host.digest.sha256 handle) store.actions with
          | none => rfl
          | some found =>
            by_cases hbound : found.boundTo host owner
            · simp only [hbound, if_true]
              split
              · rfl
              · exact hnext _ _
            · simp only [hbound, Bool.false_eq_true, if_false]
        · rw [hnew, hold]
          simp [hstored, hother]
  · simp only [hhandle, Bool.false_eq_true, if_false]

theorem respond_fst {accepted : PreparedActionState → StoreAnswer}
    {first second : Except ActionError StoredAction × ActionStore} (h : first.1 = second.1) :
    (respond accepted first).1 = (respond accepted second).1 := by
  obtain ⟨result, store⟩ := first
  obtain ⟨result', store'⟩ := second
  obtain rfl : result = result' := h
  cases result <;> rfl

/-- What someone else is told does not depend on the action. -/
theorem foreign_blind (kind : StoreKind) (hrow : Table.get? digest store.actions = some stored)
    {call : StoreCall × ℚ} (hstored : stored.boundTo host call.1.owner = false)
    (hother : other.boundTo host call.1.owner = false) :
    (kind.answer host (store.withAction digest other) call).1 =
      (kind.answer host store call).1 := by
  obtain ⟨call, now⟩ := call
  cases call with
  | create request generated => exact create_blind kind hrow request generated now
  | resolve handle owner =>
    cases kind with
    | memory => exact respond_fst (resolveBound_blind handle now hrow hstored hother)
    | sqlite => exact respond_fst (access_blind (fun _ _ => rfl) hrow hstored hother)
  | transition handle owner expected target resultValue =>
    cases kind with
    | memory =>
      refine respond_fst ?_
      have hresolve := resolveBound_blind handle now hrow hstored hother
      simp only [InMemoryActionStore.transition, StoreCall.owner] at hresolve ⊢
      generalize InMemoryActionStore.resolveBound host (store.withAction digest other) handle owner
        now = first at hresolve ⊢
      generalize InMemoryActionStore.resolveBound host store handle owner now = second at hresolve ⊢
      obtain ⟨result, store₁⟩ := first
      obtain ⟨result', store₂⟩ := second
      obtain rfl : result = result' := hresolve
      cases result with
      | error error => rfl
      | ok found =>
        simp only
        split
        · rfl
        · split
          · rfl
          · rfl
    | sqlite =>
      refine respond_fst ?_
      simp only [SQLiteActionStore.transition]
      split
      · rfl
      · split
        · rfl
        · refine access_blind (fun _ found => ?_) hrow hstored hother
          split
          · rfl
          · rfl

end Foreign

/-- Every action of a reachable store has an owner, who has created it. A call of anyone else
leaves it as it is, or marks it once it is due, is refused on its handle, and is answered the same
whatever the action holds. -/
theorem binding_isolation (kind : StoreKind) (host : StoreHost)
    (hinj : ∀ space, Function.Injective (host.bindingDigest space))
    (calls : List (StoreCall × ℚ)) (digest : String) (stored : StoredAction)
    (hrow : Table.get? digest (Machine.after (kind.answer host) {} calls).actions = some stored) :
    ∃ owner : Owner, stored.boundTo host owner = true ∧
      (∃ request generated now state, ((.create request generated, now), .created generated state) ∈
          Machine.trace (kind.answer host) {} calls ∧
        host.digest.sha256 generated = digest ∧ request.owner = owner) ∧
      ∀ call : StoreCall × ℚ, call.1.owner ≠ owner →
        let store := Machine.after (kind.answer host) {} calls
        (Table.get? digest (kind.answer host store call).2.actions = some stored ∨
          stored.record.expiresAt ≤ call.2 ∧
            Table.get? digest (kind.answer host store call).2.actions =
              some (stored.withStatus .expired)) ∧
        (host.digest.sha256 call.1.handle = digest →
          (kind.answer host store call).1.isError = true) ∧
        ∀ other : StoredAction, other.boundTo host call.1.owner = false →
          (kind.answer host (store.withAction digest other) call).1 =
            (kind.answer host store call).1 := by
  obtain ⟨request, generated, now, state, hmem, hdigest, hbound⟩ := exists_creator kind calls hrow
  refine ⟨request.owner, hbound, ⟨request, generated, now, state, hmem, hdigest, rfl⟩, ?_⟩
  intro call hne store
  have hforeign : stored.boundTo host call.1.owner = false := by
    by_contra htrue
    rw [Bool.not_eq_false] at htrue
    exact hne (owner_eq_of_boundTo hinj htrue hbound)
  refine ⟨?_, foreign_refused kind hrow hforeign, fun other => foreign_blind kind hrow hforeign⟩
  rcases foreign_frame kind hrow hforeign with hsame | ⟨hdue, hmarked⟩
  · exact .inl hsame
  · rw [StoredAction.isDue, decide_eq_true_eq] at hdue
    exact .inr ⟨hdue, hmarked⟩

def bob : Owner := { alice with principalId := "bob" }

/-- The action of alice's order. -/
def orderAction : StoredAction where
  record :=
    { handleDigest := orderHandle
      capabilityId := "order.submit"
      principalDigest := "principal:alice"
      sessionDigest := some "session:session"
      packDigest := alice.packDigest
      inputDigest := "null"
      previewDigest := "null"
      createdAt := 0
      expiresAt := 60
      status := .prepared
      lifetime := minute_pos }
  inputValue := .null
  previewValue := .null

theorem binding_isolation_order :
    ∃ owner : Owner, orderAction.boundTo StoreHost.plain owner = true ∧
      (∃ request generated now state, ((.create request generated, now), .created generated state) ∈
          Machine.trace (StoreKind.sqlite.answer StoreHost.plain) {}
            [(.create (orderRequest 60) orderHandle, 0)] ∧
        generated = orderHandle ∧ request.owner = owner) ∧
      ∀ call : StoreCall × ℚ, call.1.owner ≠ owner →
        let store := Machine.after (StoreKind.sqlite.answer StoreHost.plain) {}
          [(.create (orderRequest 60) orderHandle, 0)]
        (Table.get? orderHandle (StoreKind.sqlite.answer StoreHost.plain store call).2.actions =
            some orderAction ∨
          orderAction.record.expiresAt ≤ call.2 ∧
            Table.get? orderHandle (StoreKind.sqlite.answer StoreHost.plain store call).2.actions =
              some (orderAction.withStatus .expired)) ∧
        (call.1.handle = orderHandle →
          (StoreKind.sqlite.answer StoreHost.plain store call).1.isError = true) ∧
        ∀ other : StoredAction, other.boundTo StoreHost.plain call.1.owner = false →
          (StoreKind.sqlite.answer StoreHost.plain (store.withAction orderHandle other) call).1 =
            (StoreKind.sqlite.answer StoreHost.plain store call).1 :=
  binding_isolation .sqlite StoreHost.plain (bindingDigest_injective ":")
    [(.create (orderRequest 60) orderHandle, 0)] orderHandle orderAction (by decide +kernel)

/-- Both stores tell bob that alice's handle is not his, and that an absent one is invalid. -/
theorem foreign_handle_distinguished :
    let told := fun (kind : StoreKind) (calls : List (StoreCall × ℚ)) =>
      (kind.answer StoreHost.plain (Machine.after (kind.answer StoreHost.plain) {} calls)
        (.resolve orderHandle bob, 1)).1
    let created := [(StoreCall.create (orderRequest 60) orderHandle, (0 : ℚ))]
    bob ≠ alice ∧
    told .memory created = .raised bindingMismatch ∧ told .memory [] = .raised handleInvalid ∧
    told .sqlite created = .raised bindingMismatch ∧ told .sqlite [] = .raised handleInvalid := by
  decide +kernel

end CapabilityCompiler.Actions
