import CapabilityCompiler.Actions.StoreRows

/-! The store over a database answers as the store in memory does. -/
namespace CapabilityCompiler.Actions
open Foundation

/-! What is compared: everything but the binding digests. -/

def PreparedActionRecord.unbound (record : PreparedActionRecord) : PreparedActionRecord :=
  { record with
    principalDigest := "", sessionDigest := record.sessionDigest.map fun _ => "" }

def StoredAction.unbound (stored : StoredAction) : StoredAction :=
  { stored with record := stored.record.unbound }

def PreparedActionState.unbound (state : PreparedActionState) : PreparedActionState :=
  { state with record := state.record.unbound }

def StoreAnswer.unbound : StoreAnswer → StoreAnswer
  | .created handle found => .created handle found.unbound
  | .state found => .state found.unbound
  | .raised error => .raised error

section Alike
variable (key key' : String → String → String)

/-- Two rows of one action. The row in memory may have expired before the one of the database,
which is then due. -/
structure Alike (last : ℚ) (a b : StoredAction) : Prop where
  bound : ∃ (principalId : String) (sessionId : Option String),
    a.record.principalDigest = key "principal" principalId ∧
    b.record.principalDigest = key' "principal" principalId ∧
    a.record.sessionDigest = sessionId.map (key "session") ∧
    b.record.sessionDigest = sessionId.map ( key' "session")
  same : a.unbound = b.unbound ∨
    a.unbound = (b.withStatus .expired).unbound ∧ b.isDue last = true

variable {key key'} {last now : ℚ} {a b : StoredAction}

theorem Alike.unbound_expired (h : Alike key key' last a b) :
    (a.withStatus .expired).unbound = (b.withStatus .expired).unbound := by
  rcases h.same with heq | ⟨heq, -⟩
  · exact congrArg (·.withStatus .expired) heq
  · exact congrArg (·.withStatus .expired) heq

theorem Alike.expiresAt (h : Alike key key' last a b) :
    a.record.expiresAt = b.record.expiresAt :=
  congrArg (·.record.expiresAt) h.unbound_expired

theorem Alike.packDigest (h : Alike key key' last a b) :
    a.record.packDigest = b.record.packDigest :=
  congrArg (·.record.packDigest) h.unbound_expired

theorem Alike.isDue (h : Alike key key' last a b) (now : ℚ) : a.isDue now = b.isDue now := by
  rw [StoredAction.isDue, StoredAction.isDue, h.expiresAt]

theorem isDue_mono (hle : last ≤ now) (h : b.isDue last = true) : b.isDue now = true := by
  rw [StoredAction.isDue, decide_eq_true_eq] at h ⊢
  exact h.trans hle

theorem Alike.mono (h : Alike key key' last a b) (hle : last ≤ now) : Alike key key' now a b where
  bound := h.bound
  same := h.same.imp id fun hdue => ⟨hdue.1, isDue_mono hle hdue.2⟩

/-- Both rows of a live action are the same. -/
theorem Alike.of_live (h : Alike key key' last a b) (hle : last ≤ now) (hlive : b.isDue now = false) :
    a.unbound = b.unbound := by
  rcases h.same with heq | ⟨-, hdue⟩
  · exact heq
  · exact absurd (isDue_mono hle hdue) (by simp [hlive])

theorem Alike.withStatus (h : Alike key key' last a b) (heq : a.unbound = b.unbound)
    (status : PreparedActionStatus) :
    Alike key key' last (a.withStatus status) (b.withStatus status) where
  bound := h.bound
  same := .inl (congrArg (·.withStatus status) heq)

theorem Alike.expired (h : Alike key key' last a b) :
    Alike key key' last (a.withStatus .expired) (b.withStatus .expired) where
  bound := h.bound
  same := .inl h.unbound_expired

theorem Alike.moved (h : Alike key key' last a b) (heq : a.unbound = b.unbound)
    (target : PreparedActionStatus) (resultValue : Json) :
    Alike key key' last (a.moved target resultValue) (b.moved target resultValue) where
  bound := h.bound
  same := .inl (congrArg (·.moved target resultValue) heq)

theorem Alike.expireDue (h : Alike key key' last a b) (hle : last ≤ now) :
    Alike key key' now (a.expireDue now) (b.expireDue now) := by
  unfold StoredAction.expireDue
  rw [h.isDue now]
  split
  · exact h.expired.mono hle
  · exact h.mono hle

/-- Only the row in memory is marked. -/
theorem Alike.expireDue_left (h : Alike key key' last a b) (hle : last ≤ now) :
    Alike key key' now (a.expireDue now) b := by
  unfold StoredAction.expireDue
  rw [h.isDue now]
  split
  · rename_i hdue
    exact ⟨h.bound, .inr ⟨h.unbound_expired, hdue⟩⟩
  · exact h.mono hle

theorem Alike.expired_left (h : Alike key key' last a b) (hle : last ≤ now)
    (hdead : (a.isDue now || decide (a.record.status = .expired)) = true) :
    Alike key key' now (a.withStatus .expired) b := by
  refine ⟨h.bound, ?_⟩
  by_cases hdue : b.isDue now = true
  · exact .inr ⟨h.unbound_expired, hdue⟩
  · have heq := h.of_live hle (by simpa using hdue)
    have hstatus : a.record.status = .expired := by
      rw [h.isDue now] at hdead
      simpa [hdue] using hdead
    have hsame : a.withStatus .expired = a := by
      rw [← hstatus]
      rfl
    rw [hsame]
    exact .inl heq

/-- Neither row is taken for a live one unless the other is. -/
theorem Alike.dead_iff (h : Alike key key' last a b) (hle : last ≤ now) :
    (a.isDue now || decide (a.record.status = .expired)) =
      (b.isDue now || decide (b.record.status = .expired)) := by
  rw [h.isDue now]
  by_cases hdue : b.isDue now = true
  · rw [hdue, Bool.true_or, Bool.true_or]
  · have heq := h.of_live hle (by simpa using hdue)
    have hstatus : a.record.status = b.record.status := congrArg (·.record.status) heq
    rw [hstatus]

end Alike

section Simulation
variable {host : StoreHost} {key : String → String → String}

/-- The same host with other keyed digests. -/
def StoreHost.rekey (host : StoreHost) (key : String → String → String) : StoreHost :=
  { host with bindingDigest := key }

theorem Alike.boundTo {last : ℚ} {a b : StoredAction} (h : Alike host.bindingDigest key last a b)
    (hhost : ∀ space, Function.Injective (host.bindingDigest space))
    (hkey : ∀ space, Function.Injective (key space)) (owner : Owner) :
    a.boundTo host owner = b.boundTo (host.rekey key) owner := by
  obtain ⟨principalId, sessionId, hap, hbp, has, hbs⟩ := h.bound
  have hsession : ∀ space, Function.Injective (Option.map (host.bindingDigest space)) :=
    fun space => Option.map_injective (hhost space)
  have hsession' : ∀ space, Function.Injective (Option.map (key space)) :=
    fun space => Option.map_injective (hkey space)
  simp only [StoredAction.boundTo, StoreHost.rekey, hap, hbp, has, hbs, h.packDigest,
    (hhost _).eq_iff, (hkey _).eq_iff, (hsession _).eq_iff, (hsession' _).eq_iff]

/-- Both stores are open and hold the same actions. -/
structure StoresAgree (host : StoreHost) (key : String → String → String) (last : ℚ)
    (memory sqlite : ActionStore) : Prop where
  actions : Table.Matches (Alike host.bindingDigest key last) memory.actions sqlite.actions
  memory_open : memory.closed = false
  sqlite_open : sqlite.closed = false

variable {last now : ℚ} {memory sqlite : ActionStore}

theorem StoresAgree.mono (h : StoresAgree host key last memory sqlite) (hle : last ≤ now) :
    StoresAgree host key now memory sqlite where
  actions := List.Forall₂.imp (fun _ _ hpq => ⟨hpq.1, hpq.2.mono hle⟩) h.actions
  memory_open := h.memory_open
  sqlite_open := h.sqlite_open

theorem StoresAgree.put (h : StoresAgree host key now memory sqlite) (digest : String) {a b : StoredAction}
    (hab : Alike host.bindingDigest key now a b) :
    StoresAgree host key now { memory with actions := Table.put digest a memory.actions }
      { sqlite with actions := Table.put digest b sqlite.actions } where
  actions := h.actions.put digest hab
  memory_open := h.memory_open
  sqlite_open := h.sqlite_open

/-- Both calls have succeeded alike, or were refused with the same error. -/
def SameResult (first second : Except ActionError StoredAction) : Prop :=
  first.map StoredAction.unbound = second.map StoredAction.unbound

theorem newAction_alike (host : StoreHost) (key : String → String → String)
    (request : CreateRequest) (digest : String) (now : ℚ) :
    (∃ a b, newAction host request digest now = .ok a ∧
      newAction (host.rekey key) request digest now = .ok b ∧ a.unbound = b.unbound ∧
      Alike host.bindingDigest key now a b) ∨
    ∃ error, newAction host request digest now = .error error ∧
      newAction (host.rekey key) request digest now = .error error ∧
      ¬ now < host.later now request.expiresInSeconds.toNat := by
  by_cases hlifetime : now < host.later now request.expiresInSeconds.toNat
  · left
    have hunbound : ∀ sessionId : Option String,
        (Option.map (host.bindingDigest "session") sessionId).map (fun _ => "") =
          (Option.map (key "session") sessionId).map fun _ => "" := by
      intro sessionId
      cases sessionId <;> rfl
    refine ⟨_, _, dif_pos hlifetime, dif_pos hlifetime, ?_, ⟨_, _, rfl, rfl, rfl, rfl⟩, .inl ?_⟩
    · simp only [StoredAction.unbound, PreparedActionRecord.unbound, hunbound]
      rfl
    · simp only [StoredAction.unbound, PreparedActionRecord.unbound, hunbound]
      rfl
  · right
    exact ⟨_, dif_neg hlifetime, dif_neg hlifetime, hlifetime⟩

theorem create_alike (h : StoresAgree host key last memory sqlite) (hle : last ≤ now)
    (request : CreateRequest) (generated : String) :
    let first := InMemoryActionStore.create host memory request generated now
    let second := SQLiteActionStore.create (host.rekey key) sqlite request generated now
    StoresAgree host key now first.2 second.2 ∧
      (SameResult first.1 second.1 ∨
        ¬ now < host.later now request.expiresInSeconds.toNat ∧
          first.1.isOk = false ∧ second.1.isOk = false) := by
  intro first second
  obtain ⟨actions, closed⟩ := memory
  obtain ⟨actions', closed'⟩ := sqlite
  obtain rfl : closed = false := h.memory_open
  obtain rfl : closed' = false := h.sqlite_open
  have hexpired : Table.Matches (Alike host.bindingDigest key now)
      (Table.mapValues (·.expireDue now) actions)
      (Table.mapValues (·.expireDue now) actions') :=
    h.actions.mapValues fun _ _ hab => hab.expireDue hle
  have hmarked : StoresAgree host key now
      { actions := Table.mapValues (·.expireDue now) actions } { actions := actions' } :=
    { actions := by
        have hleft := h.actions.mapValues (g := id)
          fun _ _ hab => hab.expireDue_left hle
        rwa [Table.mapValues_id] at hleft
      memory_open := h.memory_open
      sqlite_open := h.sqlite_open }
  simp only [first, second, InMemoryActionStore.create, SQLiteActionStore.create,
    Bool.false_eq_true, if_false]
  cases request.check generated with
  | error error => exact ⟨h.mono hle, .inl rfl⟩
  | ok _ =>
    have hlength := hexpired.length_eq
    have hmax : (host.rekey key).maxActions = host.maxActions := rfl
    have hdigest : (host.rekey key).digest = host.digest := rfl
    simp only [hmax, hdigest]
    rw [← hlength]
    have hsome : (Table.get? (host.digest.sha256 generated)
          (Table.mapValues (·.expireDue now) actions')).isSome =
        (Table.get? (host.digest.sha256 generated)
          (Table.mapValues (·.expireDue now) actions)).isSome := by
      rcases hexpired.get? (host.digest.sha256 generated) with ⟨hm, hs⟩ | ⟨a, b, hm, hs, -⟩
      · rw [hm, hs]
      · rw [hm, hs]
        rfl
    rw [hsome]
    rcases newAction_alike host key request (host.digest.sha256 generated) now with
      ⟨a, b, ha, hb, hunbound, hab⟩ | ⟨error, ha, hb, hlifetime⟩
    · simp only [ha, hb]
      split
      · exact ⟨hmarked, .inl rfl⟩
      · refine ⟨⟨hexpired.put _ hab, h.memory_open, h.sqlite_open⟩, .inl ?_⟩
        exact congrArg Except.ok hunbound
    · simp only [ha, hb]
      split
      · exact ⟨hmarked, .inr ⟨hlifetime, rfl, rfl⟩⟩
      · exact ⟨hmarked, .inl rfl⟩

/-- The row of the database stays while the one in memory is marked. -/
theorem StoresAgree.put_left (h : StoresAgree host key now memory sqlite) {digest : String}
    {a b : StoredAction} (hrow : Table.get? digest sqlite.actions = some b)
    (hab : Alike host.bindingDigest key now a b) :
    StoresAgree host key now { memory with actions := Table.put digest a memory.actions } sqlite := by
  have hput := h.put digest hab
  have hsame : { sqlite with actions := Table.put digest b sqlite.actions } = sqlite := by
    rw [Table.put_of_get? hrow]
  rwa [hsame] at hput

/-- Whatever resolving does to the store in memory, the rows of the database still agree. -/
theorem resolveBound_marks (h : StoresAgree host key last memory sqlite) (hle : last ≤ now)
    (handle : String) (owner : Owner) :
    StoresAgree host key now (InMemoryActionStore.resolveBound host memory handle owner now).2 sqlite := by
  have hnow := h.mono hle
  unfold InMemoryActionStore.resolveBound
  simp only [h.memory_open, Bool.false_eq_true, if_false]
  split
  · rcases h.actions.get? (host.digest.sha256 handle) with ⟨hm, -⟩ | ⟨a, b, hm, hs, hab⟩
    · rw [hm]
      exact hnow
    · simp only [hm]
      cases owner.check with
      | error error => exact hnow
      | ok _ =>
        simp only
        split
        · split
          · rename_i hdead
            have hput := hnow.put_left hs (hab.expired_left hle hdead)
            rwa [h.memory_open] at hput
          · exact hnow
        · exact hnow
  · exact hnow

/-- Both stores refuse an access with the same error, or both go on with the same live action. -/
theorem access_alike (hhost : ∀ space, Function.Injective (host.bindingDigest space))
    (hkey : ∀ space, Function.Injective (key space)) (h : StoresAgree host key last memory sqlite)
    (hle : last ≤ now) (handle : String) {owner : Owner} (howner : owner.check = .ok ()) :
    (∃ error memory' sqlite',
      InMemoryActionStore.resolveBound host memory handle owner now = (.error error, memory') ∧
      (∀ next, SQLiteActionStore.access (host.rekey key) sqlite handle owner now next =
        (.error error, sqlite')) ∧ StoresAgree host key now memory' sqlite') ∨
    ∃ a b, InMemoryActionStore.resolveBound host memory handle owner now = (.ok a, memory) ∧
      (∀ next, SQLiteActionStore.access (host.rekey key) sqlite handle owner now next =
        next (host.digest.sha256 handle) b) ∧
      Alike host.bindingDigest key now a b ∧ a.unbound = b.unbound := by
  have hnow := h.mono hle
  have hdigest : (host.rekey key).digest = host.digest := rfl
  unfold InMemoryActionStore.resolveBound SQLiteActionStore.access SQLiteActionStore.handleDigest
    SQLiteActionStore.ensureOpen SQLiteActionStore.boundRow
  by_cases hhandle : isHandle handle
  · simp only [h.memory_open, h.sqlite_open, hhandle, howner, hdigest, Bool.false_eq_true, if_false,
      if_true]
    rcases h.actions.get? (host.digest.sha256 handle) with ⟨hm, hs⟩ | ⟨a, b, hm, hs, hab⟩
    · rw [hm, hs]
      exact .inl ⟨_, _, _, rfl, fun _ => rfl, hnow⟩
    · simp only [hm, hs]
      rw [← hab.boundTo hhost hkey owner]
      by_cases hbound : a.boundTo host owner
      · simp only [hbound, if_true]
        rw [hab.dead_iff hle]
        by_cases hdead : (b.isDue now || decide (b.record.status = .expired)) = true
        · rw [if_pos hdead]
          refine .inl ⟨_, _, _, rfl, fun _ => if_pos hdead, ?_⟩
          have hput := hnow.put (host.digest.sha256 handle) (hab.mono hle).expired
          rwa [h.memory_open, h.sqlite_open] at hput
        · rw [if_neg hdead]
          have hlive : b.isDue now = false := by
            rw [Bool.not_eq_true, Bool.or_eq_false_iff] at hdead
            exact hdead.1
          exact .inr ⟨a, b, rfl, fun _ => if_neg hdead, hab.mono hle, hab.of_live hle hlive⟩
      · simp only [hbound, Bool.false_eq_true, if_false]
        exact .inl ⟨_, _, _, rfl, fun _ => rfl, hnow⟩
  · simp only [h.memory_open, hhandle, Bool.false_eq_true, if_false]
    exact .inl ⟨_, _, _, rfl, fun _ => rfl, hnow⟩

theorem transition_alike (hhost : ∀ space, Function.Injective (host.bindingDigest space))
    (hkey : ∀ space, Function.Injective (key space)) (h : StoresAgree host key last memory sqlite)
    (hle : last ≤ now) (handle : String) {owner : Owner} (howner : owner.check = .ok ())
    {expected target : PreparedActionStatus} (hallowed : expected.allows target = true)
    (resultValue : Json) :
    let first := InMemoryActionStore.transition host memory handle owner expected target
      resultValue now
    let second := SQLiteActionStore.transition (host.rekey key) sqlite handle owner expected target
      resultValue now
    StoresAgree host key now first.2 second.2 ∧
      (SameResult first.1 second.1 ∨
        misplaced target resultValue = true ∧ first.1.isOk = false ∧ second.1.isOk = false) := by
  intro first second
  have hguard : (¬ expected.allows target = true) = False := by simp [hallowed]
  simp only [first, second, InMemoryActionStore.transition, SQLiteActionStore.transition, hguard,
    or_false, if_false]
  by_cases hmisplaced : misplaced target resultValue = true
  · have hmarks := resolveBound_marks h hle handle owner
    rw [if_pos hmisplaced]
    cases hresolve : InMemoryActionStore.resolveBound host memory handle owner now with
    | mk result store =>
      rw [hresolve] at hmarks
      cases result with
      | error error => exact ⟨hmarks, .inr ⟨hmisplaced, rfl, rfl⟩⟩
      | ok stored =>
        simp only
        split
        · exact ⟨hmarks, .inr ⟨hmisplaced, rfl, rfl⟩⟩
        · exact ⟨hmarks, .inr ⟨hmisplaced, rfl, rfl⟩⟩
  · rw [if_neg hmisplaced]
    rcases access_alike hhost hkey h hle handle howner with
      ⟨error, memory', sqlite', hm, hs, hagree⟩ | ⟨a, b, hm, hs, hab, hunbound⟩
    · rw [hm, hs]
      exact ⟨hagree, .inl rfl⟩
    · have hstatus : a.record.status = b.record.status := congrArg (·.record.status) hunbound
      rw [hm, hs]
      simp only
      rw [hstatus]
      split
      · exact ⟨h.mono hle, .inl rfl⟩
      · refine ⟨(h.mono hle).put _ (hab.moved hunbound target resultValue), .inl ?_⟩
        exact congrArg (fun stored => Except.ok (stored.moved target resultValue)) hunbound

end Simulation

/-- The identifiers of an access are valid and its transition is one the stores know. -/
def StoreCall.wellFormed : StoreCall → Bool
  | .create _ _ => true
  | .resolve _ owner => owner.check.isOk
  | .transition _ owner expected target _ => owner.check.isOk && expected.allows target

/-- A creation that would expire at once, and a transition with a result its target cannot keep. -/
def irregular (host : StoreHost) (call : StoreCall × ℚ) : Prop :=
  match call.1 with
  | .create request _ => ¬ call.2 < host.later call.2 request.expiresInSeconds.toNat
  | .resolve _ _ => False
  | .transition _ _ _ target resultValue => misplaced target resultValue = true

/-- Both stores have given the same answer, or both have refused an irregular call. -/
def SameAnswer (host : StoreHost) (call : StoreCall × ℚ) (first second : StoreAnswer) : Prop :=
  first.unbound = second.unbound ∨
    irregular host call ∧ first.isError = true ∧ second.isError = true

section Runs
variable {host : StoreHost} {key : String → String → String} {last : ℚ}
  {memory sqlite : ActionStore}

theorem respond_alike {accepted : PreparedActionState → StoreAnswer}
    (haccepted : ∀ {state state' : PreparedActionState}, state.unbound = state'.unbound →
      (accepted state).unbound = (accepted state').unbound)
    {first second : Except ActionError StoredAction × ActionStore}
    (h : SameResult first.1 second.1) :
    (respond accepted first).1.unbound = (respond accepted second).1.unbound := by
  obtain ⟨result, store⟩ := first
  obtain ⟨result', store'⟩ := second
  cases result with
  | error error =>
    cases result' with
    | error error' =>
      have heq : error = error' := Except.error.inj h
      subst heq
      rfl
    | ok b => exact absurd h (by simp [SameResult, Except.map])
  | ok a =>
    cases result' with
    | error error' => exact absurd h (by simp [SameResult, Except.map])
    | ok b =>
      have heq : a.unbound = b.unbound := Except.ok.inj h
      have hstate : a.state.unbound = b.state.unbound := congrArg StoredAction.state heq
      exact haccepted hstate

theorem respond_isError {accepted : PreparedActionState → StoreAnswer}
    {result : Except ActionError StoredAction × ActionStore} (h : result.1.isOk = false) :
    (respond accepted result).1.isError = true := by
  obtain ⟨outcome, store⟩ := result
  cases outcome with
  | error error => rfl
  | ok stored => exact absurd h (by simp [Except.isOk, Except.toBool])

theorem respond_snd (accepted : PreparedActionState → StoreAnswer)
    (result : Except ActionError StoredAction × ActionStore) :
    (respond accepted result).2 = result.2 := by
  obtain ⟨outcome, store⟩ := result
  cases outcome <;> rfl

theorem check_of_isOk {owner : Owner} (h : owner.check.isOk = true) : owner.check = .ok () := by
  cases hcheck : owner.check with
  | ok value => rfl
  | error error => simp [hcheck, Except.isOk, Except.toBool] at h

/-- One call keeps the stores in agreement. -/
theorem answer_alike (hhost : ∀ space, Function.Injective (host.bindingDigest space))
    (hkey : ∀ space, Function.Injective (key space)) (h : StoresAgree host key last memory sqlite)
    {call : StoreCall × ℚ} (hle : last ≤ call.2) (hcall : call.1.wellFormed = true) :
    StoresAgree host key call.2 (StoreKind.memory.answer host memory call).2
        (StoreKind.sqlite.answer (host.rekey key) sqlite call).2 ∧
      SameAnswer host call (StoreKind.memory.answer host memory call).1
        (StoreKind.sqlite.answer (host.rekey key) sqlite call).1 := by
  obtain ⟨call, now⟩ := call
  cases call with
  | create request generated =>
    obtain ⟨hagree, hsame⟩ := create_alike h hle request generated
    simp only [StoreKind.answer_memory_create, StoreKind.answer_sqlite_create, respond_snd]
    refine ⟨hagree, ?_⟩
    rcases hsame with hsame | ⟨hlifetime, hfirst, hsecond⟩
    · exact .inl (respond_alike (congrArg (StoreAnswer.created generated)) hsame)
    · exact .inr ⟨hlifetime, respond_isError hfirst, respond_isError hsecond⟩
  | resolve handle owner =>
    simp only [StoreKind.answer_memory_resolve, StoreKind.answer_sqlite_resolve, respond_snd]
    rcases access_alike hhost hkey h hle handle (check_of_isOk hcall) with
      ⟨error, memory', sqlite', hm, hs, hagree⟩ | ⟨a, b, hm, hs, hab, hunbound⟩
    · rw [SQLiteActionStore.resolve, hm, hs]
      exact ⟨hagree, .inl rfl⟩
    · rw [SQLiteActionStore.resolve, hm, hs]
      exact ⟨h.mono hle, .inl (respond_alike (congrArg StoreAnswer.state) (congrArg Except.ok hunbound))⟩
  | transition handle owner expected target resultValue =>
    rw [StoreCall.wellFormed, Bool.and_eq_true] at hcall
    obtain ⟨hagree, hsame⟩ := transition_alike hhost hkey h hle handle (check_of_isOk hcall.1)
      hcall.2 resultValue
    simp only [StoreKind.answer_memory_transition, StoreKind.answer_sqlite_transition, respond_snd]
    refine ⟨hagree, ?_⟩
    rcases hsame with hsame | ⟨hmisplaced, hfirst, hsecond⟩
    · exact .inl (respond_alike (congrArg StoreAnswer.state) hsame)
    · exact .inr ⟨hmisplaced, respond_isError hfirst, respond_isError hsecond⟩

/-- Both stores answer a run of calls alike from states that agree. -/
theorem trace_alike (hhost : ∀ space, Function.Injective (host.bindingDigest space))
    (hkey : ∀ space, Function.Injective (key space)) {calls : List (StoreCall × ℚ)}
    (h : StoresAgree host key last memory sqlite) (hcalls : ∀ call ∈ calls, call.1.wellFormed = true)
    (hlast : ∀ call ∈ calls, last ≤ call.2) (hclock : calls.Pairwise fun a b => a.2 ≤ b.2) :
    List.Forall₂ (fun first second => first.1 = second.1 ∧
        SameAnswer host first.1 first.2 second.2)
      (Machine.trace (StoreKind.memory.answer host) memory calls)
      (Machine.trace (StoreKind.sqlite.answer (host.rekey key)) sqlite calls) := by
  induction calls generalizing last memory sqlite with
  | nil => exact .nil
  | cons call rest ih =>
    rw [List.pairwise_cons] at hclock
    rw [List.forall_mem_cons] at hcalls hlast
    obtain ⟨hagree, hanswer⟩ := answer_alike hhost hkey h hlast.1 hcalls.1
    exact .cons ⟨rfl, hanswer⟩ (ih hagree hcalls.2 hclock.1 hclock.2)

end Runs

/-- Over every run of well-formed calls under a clock that never goes back, both stores answer
alike; irregular calls are refused by both. -/
theorem stores_equivalent (host : StoreHost) (key : String → String → String)
    (hhost : ∀ space, Function.Injective (host.bindingDigest space))
    (hkey : ∀ space, Function.Injective (key space)) (calls : List (StoreCall × ℚ))
    (hcalls : ∀ call ∈ calls, call.1.wellFormed = true)
    (hclock : calls.Pairwise fun a b => a.2 ≤ b.2) :
    List.Forall₂ (fun first second => first.1 = second.1 ∧
        SameAnswer host first.1 first.2 second.2)
      (Machine.trace (StoreKind.memory.answer host) {} calls)
      (Machine.trace (StoreKind.sqlite.answer (host.rekey key)) {} calls) := by
  cases calls with
  | nil => exact .nil
  | cons call rest =>
    have hlast : ∀ other ∈ call :: rest, call.2 ≤ other.2 := by
      rw [List.forall_mem_cons]
      exact ⟨le_rfl, (List.pairwise_cons.mp hclock).1⟩
    exact trace_alike hhost hkey ⟨.nil, rfl, rfl⟩ hcalls hlast hclock

/-- A host of one action with readable keyed digests. -/
def StoreHost.plain : StoreHost where
  toClockwork := Clockwork.plain
  maxActions := 1
  bindingDigest := fun space value => space ++ ":" ++ value

def alice : Owner where
  principalId := "alice"
  sessionId := some "session"
  packDigest := "sha256:0000000000000000000000000000000000000000000000000000000000000000"

def orderRequest (expiresInSeconds : ℤ) : CreateRequest where
  capabilityId := "order.submit"
  owner := alice
  inputValue := .null
  previewValue := .null
  expiresInSeconds := expiresInSeconds

def orderHandle : String := "action-handle-action-handle-action-handle-01"

theorem bindingDigest_injective (mark : String) (space : String) :
    Function.Injective fun value => space ++ mark ++ value := by
  intro a b h
  have hlists := congrArg String.toList h
  exact String.toList_injective (by simpa using hlists)

theorem stores_equivalent_order :
    List.Forall₂ (fun first second => first.1 = second.1 ∧
        SameAnswer StoreHost.plain first.1 first.2 second.2)
      (Machine.trace (StoreKind.memory.answer StoreHost.plain) {}
        [(.create (orderRequest 60) orderHandle, 0), (.resolve orderHandle alice, 59),
          (.transition orderHandle alice .prepared .approved .null, 60)])
      (Machine.trace (StoreKind.sqlite.answer
        (StoreHost.plain.rekey fun space value => space ++ "/" ++ value)) {}
        [(.create (orderRequest 60) orderHandle, 0), (.resolve orderHandle alice, 59),
          (.transition orderHandle alice .prepared .approved .null, 60)]) :=
  stores_equivalent StoreHost.plain _ (bindingDigest_injective ":") (bindingDigest_injective "/")
    _ (by decide) (by decide)

/-- Two runs the stores answer differently: a transition of an absent handle that gives a result
with a target other than success, and a creation at full capacity at a reading that its lifetime
is too short to advance, as a sum of doubles. -/
theorem stores_not_equivalent :
    (∀ space, Function.Injective (StoreHost.plain.bindingDigest space)) ∧
    (let calls : List (StoreCall × ℚ) :=
        [(.transition orderHandle alice .prepared .approved (.bool true), 0)];
      (∀ call ∈ calls, call.1.wellFormed = true) ∧
      (Machine.trace (StoreKind.memory.answer StoreHost.plain) {} calls).map (·.2.unbound) ≠
        (Machine.trace (StoreKind.sqlite.answer StoreHost.plain) {} calls).map (·.2.unbound)) ∧
    let host : StoreHost := { StoreHost.plain with
      later := fun now seconds => if now = 2 ^ 53 ∧ seconds = 1 then now else now + seconds }
    let calls : List (StoreCall × ℚ) :=
      [(.create (orderRequest 2) orderHandle, 2 ^ 53),
        (.create (orderRequest 1) ("other-" ++ orderHandle), 2 ^ 53)];
    (∀ call ∈ calls, call.1.wellFormed = true) ∧ (calls.Pairwise fun a b => a.2 ≤ b.2) ∧
    (Machine.trace (StoreKind.memory.answer host) {} calls).map (·.2.unbound) ≠
      (Machine.trace (StoreKind.sqlite.answer host) {} calls).map (·.2.unbound) := by
  refine ⟨bindingDigest_injective ":", ?_, ?_⟩
  · decide
  · decide +kernel

end CapabilityCompiler.Actions
