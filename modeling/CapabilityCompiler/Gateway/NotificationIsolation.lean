import CapabilityCompiler.Gateway.Service
import CapabilityCompiler.Gateway.VaultDurability

/-! A source 401 of one session: while its mark can be made, the service stays open and every other
session is kept, under every interleaving of the calls. -/
namespace CapabilityCompiler.Gateway
open Foundation

/-! Conditions. -/

/-- A mark addresses no session that requires reauthentication already, and a look for expired
sessions can read the clock. -/
def TurnMeets (gateway : GatewayState) : ServiceRequest × Reading → Prop
  | (.store (.markReauthRequired sessionId), reading) => ∀ now digest record, reading = .reads now →
      gateway.vault.inner.digestBySessionId.get? sessionId = some digest →
      gateway.vault.inner.byDigest.get? digest = some record →
        record.expiry < now ∨ record.status ≠ .reauthRequired ∧ record.sourceReached now = false
  | (.store .popExpiredRecords, reading) => ∃ now, reading = .reads now
  | _ => True

/-- Replies that close no service. -/
def Expected : ServiceRequest → ServiceReply → Prop
  | .store (.markReauthRequired _), reply =>
    (∃ record, reply = .answered (.answered (.marked record))) ∨
      ∃ failure, reply = .answered (.answered (.failed failure)) ∧
        (failure.kind = .expired ∨ failure.kind = .invalid)
  | .store .popExpiredRecords, reply => ∃ records, reply = .answered (.answered (.removed records))
  | .store (.revokeSession _), reply | .store (.revokeToken _), reply =>
    ∃ record, reply = .answered (.answered (.revoked record))
  | _, _ => True

/-- Requests that close nothing, and create a session with its own authentication only. -/
def Harmless : ServiceRequest → Prop
  | .setClosed | .closeStore | .closeStrategy => False
  | .store operation => ∀ request generated authentication,
      operation = .create request generated (some authentication) →
        requestBinding request authentication = true
  | _ => True

/-- A notification marks its session, looks for expired ones and erases states, and no other call
closes anything. -/
def MaySend : ServiceCall → ServiceRequest → Prop
  | .markReauthRequired sessionId, .store (.markReauthRequired marked) => marked = sessionId
  | .markReauthRequired _, .store .popExpiredRecords => True
  | .markReauthRequired _, .invalidate _ => True
  | .markReauthRequired _, _ => False
  | _, request => Harmless request

/-- The service and its store are open, and the vault has the rows of its records. -/
structure Serving (host : VaultHost) (gateway : GatewayState) : Prop where
  isOpen : gateway.closed = false
  storeOpen : gateway.storeClosed = false
  backed : Backed host gateway.vault

/-! What the calls send. -/

section Careful
variable {allowed : ServiceRequest → Prop}

/-- While the replies are expected, only allowed requests are sent. -/
abbrev Careful (allowed : ServiceRequest → Prop) (p : ServiceProcess) : Prop :=
  Process.Within Expected allowed p

theorem careful_invalidateRecords (hinvalidate : ∀ key, allowed (.invalidate key))
    (records : List GatewaySessionRecord) {next : ServiceProcess} (h : Careful allowed next) :
    Careful allowed (invalidateRecords records next) := by
  induction records with
  | nil => exact h
  | cons record rest ih => exact .request (hinvalidate _) fun _ _ => ih

theorem careful_drainRemovedAuthStates (hinvalidate : ∀ key, allowed (.invalidate key))
    (hpop : allowed (.store .popExpiredRecords)) {next : Bool → ServiceProcess}
    (h : Careful allowed (next false)) : Careful allowed (drainRemovedAuthStates next) := by
  refine .request hpop fun reply hreply => ?_
  obtain ⟨records, rfl⟩ := hreply
  exact careful_invalidateRecords hinvalidate records h

/-- An expected reply to a mark does not close the service. -/
theorem careful_reauthOutcome (sessionId : String) :
    Careful (MaySend (.markReauthRequired sessionId)) (reauthOutcome sessionId) := by
  refine .request rfl fun reply hreply => ?_
  refine careful_drainRemovedAuthStates (fun _ => trivial) trivial ?_
  simp only [Bool.false_eq_true, if_false]
  rcases hreply with ⟨record, rfl⟩ | ⟨failure, rfl, hkind⟩
  · exact .request trivial fun _ _ => .done _
  · simp only [reauthFinish, if_pos hkind]
    exact .failed _

theorem harmless_store {operation : VaultOperation}
    (hother : ∀ request generated authentication,
      operation ≠ .create request generated (some authentication)) :
    Harmless (.store operation) :=
  fun request generated authentication heq => absurd heq (hother request generated authentication)

theorem harmless_pop : Harmless (.store .popExpiredRecords) := harmless_store (by simp)

theorem careful_rollback (sessionId : String) (key : Option AuthStateKey)
    (failure : SessionFailure) : Careful Harmless (rollback sessionId key failure) := by
  refine .request (harmless_store (by simp)) fun reply hreply => ?_
  obtain ⟨record, rfl⟩ := hreply
  cases key with
  | none => exact .failed failure
  | some key => exact .request trivial fun _ _ => .failed failure

theorem careful_publishSession (sessionId token : String) (record : GatewaySessionRecord)
    (removed : List GatewaySessionRecord) (key : AuthStateKey) :
    Careful Harmless (publishSession sessionId token record removed key) := by
  refine .request trivial fun reply _ => ?_
  split
  · refine careful_invalidateRecords (fun _ => trivial) removed (.request trivial fun reply _ => ?_)
    split
    · split
      · exact careful_rollback sessionId _ _
      · exact .done _
    · exact careful_rollback sessionId _ _
  · exact careful_rollback sessionId _ _

theorem careful_createOutcome (config : ServiceConfig) (creation : Creation) :
    Careful Harmless (createOutcome config creation) := by
  refine .request trivial fun reply _ => ?_
  split
  · exact .failed _
  · refine careful_drainRemovedAuthStates (fun _ => trivial) harmless_pop ?_
    simp only [Bool.false_eq_true, if_false]
    split
    · exact .failed _
    · split
      · exact careful_rollback _ _ _
      · rename_i login hlogin
        split
        · exact careful_rollback _ _ _
        · rename_i context hcontext
          refine .request trivial fun reply _ => ?_
          split
          · exact careful_rollback _ _ _
          · refine .request ?_ fun reply _ => ?_
            · intro request generated authentication heq
              obtain ⟨rfl, -, hsame⟩ := VaultOperation.create.inj heq
              rw [← Option.some.inj hsame]
              exact requestBinding_contextOf hcontext
            · split
              · exact careful_publishSession _ _ _ _ _
              · exact careful_rollback _ _ _

theorem careful_deleteOutcome (token : String) : Careful Harmless (deleteOutcome token) := by
  refine .request (harmless_store (by simp)) fun reply hreply => ?_
  obtain ⟨record, rfl⟩ := hreply
  refine careful_invalidateRecords (fun _ => trivial) _
    (careful_drainRemovedAuthStates (fun _ => trivial) harmless_pop ?_)
  exact .done _

theorem careful_resolveOutcome {operation : VaultOperation} (h : Harmless (.store operation)) :
    Careful Harmless (resolveOutcome operation) := by
  refine .request h fun reply _ => ?_
  split
  · exact .done _
  · exact .failed _

theorem careful_process (config : ServiceConfig) (call : ServiceCall) :
    Careful (MaySend call) (call.process config) := by
  cases call with
  | createSession creation => exact careful_createOutcome config creation
  | deleteCurrent token => exact careful_deleteOutcome token
  | markReauthRequired sessionId => exact careful_reauthOutcome sessionId
  | resolveToken token => exact careful_resolveOutcome (harmless_store (by simp))
  | resolveSessionId sessionId => exact careful_resolveOutcome (harmless_store (by simp))

theorem harmless_of_maySend {call : ServiceCall} {request : ServiceRequest}
    (h : MaySend call request) : Harmless request := by
  unfold MaySend at h
  split at h
  · exact harmless_store (by simp)
  · exact harmless_pop
  · trivial
  · exact absurd h id
  · exact h

end Careful

/-! Answers. -/

section Answers
variable {settings : StoreSettings} {host : VaultHost} {gateway : GatewayState} {reading : Reading}

/-- A mark that addresses no session in need of reauthentication is answered as expected. -/
theorem expected_markDurable {vault : Vault} (h : Backed host vault) {sessionId : String}
    (hmeets : ∀ now digest record, reading = .reads now →
      vault.inner.digestBySessionId.get? sessionId = some digest →
      vault.inner.byDigest.get? digest = some record →
        record.expiry < now ∨ record.status ≠ .reauthRequired ∧ record.sourceReached now = false) :
    (∃ record, (markDurable host vault reading sessionId).1 = .answered (.marked record)) ∨
      ∃ failure, (markDurable host vault reading sessionId).1 = .answered (.failed failure) ∧
        (failure.kind = .expired ∨ failure.kind = .invalid) := by
  rcases markDurable_cases reading h sessionId with ⟨failure, heq, hkind⟩ |
    ⟨now, digest, record, reason, hreading, hsession, hfound, hlate, hreauth, heq⟩ |
    ⟨digest, record, -, -, heq⟩
  · exact .inr ⟨failure, congrArg Prod.fst heq, hkind⟩
  · exfalso
    rcases hmeets now digest record hreading hsession hfound with hexpired | ⟨hstatus, hboundary⟩
    · exact hlate hexpired
    · rcases hreauth with hmarked | hreached
      · exact hstatus hmarked
      · rw [hboundary] at hreached
        exact absurd hreached (by simp)
  · exact .inl ⟨record.marked, congrArg Prod.fst heq⟩

theorem answerService_store (h : Serving host gateway) (operation : VaultOperation) :
    answerService settings host gateway (.store operation, reading) =
      (.answered (vaultStep settings host gateway.vault (operation, reading)).1,
        { gateway with
          vault := (vaultStep settings host gateway.vault (operation, reading)).2 }) := by
  rw [answerService, h.storeOpen]
  rfl

theorem revoked_revokeSession (store : SessionStore) (sessionId : String) :
    ∃ record, (revokeSession store sessionId).1 = .revoked record := by
  unfold revokeSession
  split
  · exact ⟨none, rfl⟩
  · exact ⟨_, rfl⟩

theorem revoked_revokeToken (host : SessionHost) (store : SessionStore) (token : String) :
    ∃ record, (revokeToken host store token).1 = .revoked record := by
  unfold revokeToken
  split
  · exact ⟨none, rfl⟩
  · split
    · exact ⟨none, rfl⟩
    · exact ⟨_, rfl⟩

/-- While the service serves, a harmless request that meets the condition is answered as expected. -/
theorem expected_answer (h : Serving host gateway) {request : ServiceRequest}
    (hmeets : TurnMeets gateway (request, reading)) :
    Expected request (answerService settings host gateway (request, reading)).1 := by
  cases request with
  | store operation =>
    rw [answerService_store h]
    cases operation with
    | markReauthRequired sessionId =>
      rcases expected_markDurable h.backed hmeets with ⟨record, heq⟩ | ⟨failure, heq, hkind⟩
      · exact .inl ⟨record, congrArg ServiceReply.answered heq⟩
      · exact .inr ⟨failure, congrArg ServiceReply.answered heq, hkind⟩
    | popExpiredRecords =>
      obtain ⟨now, rfl⟩ := hmeets
      rcases purgeDurable_cases (.reads now) h.backed with ⟨failure, hnow, -⟩ | ⟨now', -, heq⟩
      · exact absurd hnow (by simp [freshNow])
      · exact ⟨_, congrArg ServiceReply.answered (congrArg Prod.fst heq)⟩
    | revokeSession sessionId =>
      obtain ⟨record, hrecord⟩ := revoked_revokeSession gateway.vault.inner sessionId
      exact ⟨record, by rw [vaultStep, hrecord]⟩
    | revokeToken token =>
      obtain ⟨record, hrecord⟩ :=
        revoked_revokeToken host.toSessionHost gateway.vault.inner token
      exact ⟨record, by rw [vaultStep, hrecord]⟩
    | _ => trivial
  | _ => trivial

theorem serving_answer (hsession : Function.Injective host.sessionDigest)
    (htoken : Function.Injective host.tokenDigest) (h : Serving host gateway)
    {request : ServiceRequest} (hharmless : Harmless request) :
    Serving host (answerService settings host gateway (request, reading)).2 := by
  cases request with
  | isClosed | clock | invalidate key => exact ⟨h.isOpen, h.storeOpen, h.backed⟩
  | setClosed | closeStore | closeStrategy => exact absurd hharmless id
  | store operation =>
    rw [answerService_store h]
    exact ⟨h.isOpen, h.storeOpen, h.backed.step hsession htoken hharmless⟩
  | bindState key =>
    rw [answerService]
    split
    · exact h
    · exact ⟨h.isOpen, h.storeOpen, h.backed⟩

/-! Other sessions. -/

/-- The session is in memory and its row decodes to it. -/
structure Durable (host : VaultHost) (gateway : GatewayState) (record : GatewaySessionRecord) :
    Prop where
  found : gateway.vault.inner.byDigest.get? record.tokenDigest = some record
  filed : ∃ row ∈ gateway.vault.rows, row.tokenDigest = record.tokenDigest ∧
    decryptRow host row = .ok (record, row.authentication)

/-- While the service serves, a session that does not require reauthentication is durable. -/
theorem Serving.durable (h : Serving host gateway) {digest : String}
    {record : GatewaySessionRecord}
    (hfound : gateway.vault.inner.byDigest.get? digest = some record)
    (hactive : record.status ≠ .reauthRequired) : Durable host gateway record := by
  obtain rfl := h.backed.indexed.keyed _ _ hfound
  obtain ⟨row, hrow, hdigest, hbacks⟩ := h.backed.backed _ record hfound
  refine ⟨hfound, row, hrow, hdigest, ?_⟩
  rw [decryptRow_of_valid (h.backed.tabled.valid row hrow), hbacks.of_active hactive]

/-- A durable session can be resolved while its own lifetime lasts. -/
theorem Durable.resolves (hserving : Serving host gateway) {record : GatewaySessionRecord}
    (h : Durable host gateway record) {now : ℚ} (hlive : Resolvable now record) :
    (answerService settings host gateway
      (.store (.resolveSessionId record.sessionId), .reads now)).1 =
        .answered (.answered (.resolved record)) := by
  have hopen : ¬ gateway.vault.inner.closed = true := by rw [hserving.backed.isOpen]; simp
  have hsession := hserving.backed.indexed.session_of_get? h.found
  have hresolved : resolveSessionId gateway.vault.inner (.reads now) record.sessionId =
      (.resolved record, gateway.vault.inner) := by
    rw [resolveSessionId, if_neg hopen, hsession]
    simp only [freshNow]
    rcases resolveDigest_cases gateway.vault.inner record.tokenDigest now with
      ⟨failure, heq, hkind⟩ | ⟨other, hother, -, heq⟩ | ⟨other, reason, hother, -, hreauth, heq⟩
    · exfalso
      have hearly : ¬ record.expiry < now := not_lt.mpr hlive.early.le
      simp [resolveDigest, h.found, hearly, hlive.authenticated, hlive.unreached,
        not_le.mpr hlive.early] at heq
    · rw [heq, Option.some.inj (hother.symm.trans h.found)]
    · exfalso
      rw [Option.some.inj (hother.symm.trans h.found)] at hreauth
      rcases hreauth with hmarked | hreached
      · exact hlive.authenticated hmarked
      · rw [hlive.unreached] at hreached
        exact absurd hreached (by simp)
  rw [answerService_store hserving, vaultStep, hresolved]
  rfl

theorem durable_markDurable (h : Backed host gateway.vault) {sessionId : String}
    {record : GatewaySessionRecord} (hother : record.sessionId ≠ sessionId)
    (hdurable : Durable host gateway record) :
    Durable host { gateway with vault := (markDurable host gateway.vault reading sessionId).2 }
      record := by
  -- The marked record is another one, so it has another digest.
  have hne : ∀ digest marked, gateway.vault.inner.digestBySessionId.get? sessionId = some digest →
      gateway.vault.inner.byDigest.get? digest = some marked → record.tokenDigest ≠ digest := by
    intro digest marked hsession hmarked hsame
    subst hsame
    have hknown := h.indexed.session_of_get? hdurable.found
    obtain ⟨r, hr, hid⟩ := (h.indexed.inverse _ _).mpr hsession
    exact hother (by rw [← hid, Option.some.inj (hr.symm.trans hdurable.found)])
  obtain ⟨row, hrow, hdigest, hdecrypted⟩ := hdurable.filed
  rcases markDurable_cases reading h sessionId with ⟨failure, heq, -⟩ |
    ⟨now, digest, marked, reason, -, hsession, hmarked, -, -, heq⟩ |
    ⟨digest, marked, hsession, hmarked, heq⟩
  · rw [heq]
    exact hdurable
  · rw [heq]
    refine ⟨?_, row, hrow, hdigest, hdecrypted⟩
    simp only [Table.get?_put_of_ne (hne digest marked hsession hmarked)]
    exact hdurable.found
  · rw [heq]
    refine ⟨?_, row, ?_, hdigest, hdecrypted⟩
    · simp only [Table.get?_put_of_ne (hne digest marked hsession hmarked)]
      exact hdurable.found
    · have hmem := mem_markAt digest hrow
      rwa [if_neg (by rw [hdigest]; exact hne digest marked hsession hmarked)] at hmem

theorem durable_purgeDurable (h : Backed host gateway.vault) {record : GatewaySessionRecord}
    (hdurable : Durable host gateway record)
    (hlive : ∀ now, reading = .reads now → Resolvable now record) :
    Durable host { gateway with vault := (purgeDurable gateway.vault reading).2 } record := by
  obtain ⟨row, hrow, hdigest, hdecrypted⟩ := hdurable.filed
  rcases purgeDurable_cases reading h with ⟨failure, -, heq⟩ | ⟨now, hreading, heq⟩
  · rw [heq]
    exact hdurable
  · have hresolvable := hlive now hreading
    have hearly : ¬ record.expiry < now := not_lt.mpr hresolvable.early.le
    have hkept : record.tokenDigest ∉
        (gateway.vault.inner.expiredRecords now).map (·.tokenDigest) := by
      intro hmem
      obtain ⟨other, hexpired, hsame⟩ := List.mem_map.mp hmem
      obtain ⟨hstored, hpast⟩ := isExpired_of_mem hexpired
      have hother := h.indexed.get?_of_mem hstored
      rw [hsame, hdurable.found] at hother
      rw [← Option.some.inj hother] at hpast
      simp [SessionStore.isExpired, hearly, hresolvable.authenticated, hresolvable.unreached,
        not_le.mpr hresolvable.early] at hpast
    have hlooked : SessionStore.afterLook now record = record := by
      rw [SessionStore.afterLook, if_neg hearly, hresolvable.unreached]
      rfl
    rw [heq]
    refine ⟨?_, row, ?_, hdigest, hdecrypted⟩
    · rw [SessionStore.get?_removeAll, if_neg hkept, SessionStore.looked, Table.get?_mapValues,
        hdurable.found, Option.map_some, hlooked]
    · exact List.mem_filter.mpr ⟨hrow, decide_eq_true (by rw [hdigest]; exact hkept)⟩

/-- A request of a notification keeps the other sessions that live at its time. -/
theorem durable_answer (h : Serving host gateway) {sessionId : String} {request : ServiceRequest}
    (hsends : MaySend (.markReauthRequired sessionId) request) {record : GatewaySessionRecord}
    (hother : record.sessionId ≠ sessionId) (hdurable : Durable host gateway record)
    (hlive : ∀ now, reading = .reads now → Resolvable now record) :
    Durable host (answerService settings host gateway (request, reading)).2 record := by
  cases request with
  | store operation =>
    rw [answerService_store h]
    cases operation with
    | markReauthRequired marked =>
      obtain rfl : marked = sessionId := hsends
      exact durable_markDurable h.backed hother hdurable
    | popExpiredRecords => exact durable_purgeDurable h.backed hdurable hlive
    | _ => exact absurd hsends id
  | invalidate key => exact ⟨hdurable.found, hdurable.filed⟩
  | _ => exact absurd hsends id

end Answers

/-! Runs. -/

/-- A service that starts over these rows. -/
def startedOver (rows : List VaultRow) : ServiceWorld where
  object := { vault := { inner := storeOf rows, rows } }

/-- In every run whose turns meet the condition, from rows that an earlier service may have left, the
service stays open and its active sessions are durable; and each turn of a notification keeps every
other session that lives at its time, so that it can still be resolved. -/
theorem notification_isolated (config : ServiceConfig) (settings : StoreSettings)
    (host : VaultHost) (hsession : Function.Injective host.sessionDigest)
    (htoken : Function.Injective host.tokenDigest) (rows : List VaultRow) (hrows : Tabled host rows)
    (inputs : List ServiceInput)
    (hrun : Machine.Along (serviceStep config settings host) (Turns.Meets TurnMeets)
      (startedOver rows) inputs) :
    let world := Machine.after (serviceStep config settings host) (startedOver rows) inputs
    (world.object.closed = false ∧ world.object.storeClosed = false) ∧
    (∀ digest record, world.object.vault.inner.byDigest.get? digest = some record →
      record.status ≠ .reauthRequired → Durable host world.object record) ∧
    ∀ task reading sessionId request reply, Turns.Meets TurnMeets world (.turn task reading) →
      (serviceStep config settings host world (.turn task reading)).1 =
        some (.markReauthRequired sessionId, request, reply) →
      let next := (serviceStep config settings host world (.turn task reading)).2.object
      next.closed = false ∧ next.storeClosed = false ∧
      ∀ record, record.sessionId ≠ sessionId → Durable host world.object record →
        (∀ now, reading = .reads now → Resolvable now record) →
          Durable host next record ∧ ∀ now, Resolvable now record →
            (answerService settings host next
              (.store (.resolveSessionId record.sessionId), .reads now)).1 =
                .answered (.answered (.resolved record)) := by
  intro world
  have hprocess : ∀ call, Process.Within Expected (MaySend call) (call.process config) :=
    careful_process config
  have hanswer : ∀ gateway call request reading, Serving host gateway → MaySend call request →
      TurnMeets gateway (request, reading) →
        Expected request (answerService settings host gateway (request, reading)).1 ∧
          Serving host (answerService settings host gateway (request, reading)).2 :=
    fun gateway call request reading hserving hsends hmeets => ⟨expected_answer hserving hmeets,
      serving_answer hsession htoken hserving (harmless_of_maySend hsends)⟩
  have hstart : Turns.Kept (Serving host) Expected MaySend (startedOver rows) :=
    ⟨⟨rfl, rfl, hrows.backed⟩, fun call p hmem => absurd hmem List.not_mem_nil⟩
  have hkept : Turns.Kept (Serving host) Expected MaySend world :=
    Turns.Kept.along hprocess hanswer hrun hstart
  refine ⟨⟨hkept.object.isOpen, hkept.object.storeOpen⟩, ?_, ?_⟩
  · intro digest record hfound hactive
    exact hkept.object.durable hfound hactive
  · intro task reading sessionId request reply hmeets hanswered next
    have hnext := hkept.step hprocess hanswer hmeets
    refine ⟨hnext.object.isOpen, hnext.object.storeOpen, fun record hother hdurable hlive => ?_⟩
    obtain ⟨i, given, resume, hinput, htask, heq⟩ := Turns.answered_of_some hanswered
    obtain ⟨rfl, rfl⟩ : task = i ∧ reading = given := by simpa using hinput
    have hsends := (hkept.within _ _ (List.mem_of_getElem? htask)).of_request.1
    have hstill : Durable host next record := by
      have hdone : Durable host (answerService settings host world.object (request, reading)).2
          record := durable_answer hkept.object hsends hother hdurable hlive
      rwa [heq] at hdone
    exact ⟨hstill, fun now hresolvable => hstill.resolves hnext.object hresolvable⟩

/-! Two sessions, one of which is notified. -/

section Example

private def twoSessions : StoreSettings := .brief 2 Nat.two_pos

private def namedHost : VaultHost where
  tokenDigest := id
  later := fun now ttl => now + ttl
  sessionDigest := id

private def anonymousConfig : ServiceConfig where
  hasPrincipalPointer := false
  hasTenantPointer := false
  scopeMapping := [("source.read", {"read"})]
  targetSystemId := "target"
  deploymentScopeCeiling := {"read"}

private def creationOf (name token : String) : Creation where
  sessionId := name
  authStateHandle := "handle"
  anonymousPrincipal := "anonymous"
  login := .ok
    { token := "source-token"
      principal := ""
      sourceScopes := some {"source.read"}
      tenant := []
      expiresAt := none
      refreshAt := none }
  token := some token

private def firstToken : String := "AAAAAAAAAAAAAAAAAAAAAAAAAAAAAAAAAAAAAAAAAAA"

private def secondToken : String := "AAAAAAAAAAAAAAAAAAAAAAAAAAAAAAAAAAAAAAAAAAE"

private def bothCreated : List ServiceInput :=
  [.call (.createSession (creationOf "s1" firstToken))] ++ List.replicate 6 (.turn 0 (.reads 1)) ++
    [.call (.createSession (creationOf "s2" secondToken))] ++
      List.replicate 6 (.turn 1 (.reads 1))

private def exampleStep : ServiceWorld → ServiceInput →
    Option (ServiceCall × ServiceRequest × ServiceReply) × ServiceWorld :=
  serviceStep anonymousConfig twoSessions namedHost

private def bothRows : List VaultRow :=
  (Machine.after exampleStep { object := {} } bothCreated).object.vault.rows

private theorem bothRows_tabled : Tabled namedHost bothRows where
  digests := by decide +kernel
  sessions := by decide +kernel
  valid := by
    have hall : bothRows.all (rowValid namedHost) = true := by decide +kernel
    exact List.all_eq_true.mp hall
  minted := by
    have hall : bothRows.all (fun row => isToken row.tokenDigest) = true := by decide +kernel
    exact fun row hrow => ⟨row.tokenDigest, List.all_eq_true.mp hall row hrow, rfl⟩

private def notified : List ServiceInput := [.call (.markReauthRequired "s1")]

private theorem notified_meets :
    Turns.Meets TurnMeets (Machine.after exampleStep (startedOver bothRows) notified)
      (.turn 0 (.reads 2)) := by
  intro call request resume htask
  obtain ⟨-, rfl, -⟩ : ServiceCall.markReauthRequired "s1" = call ∧
      ServiceRequest.store (.markReauthRequired "s1") = request ∧ _ = resume := by
    simpa [Machine.after, exampleStep, serviceStep, Turns.step, startedOver, notified,
      ServiceCall.process, reauthOutcome] using htask
  intro now digest record hreading _ hfound
  obtain rfl := Reading.reads.inj hreading
  have hall : (storeOf bothRows).byDigest.all (fun entry =>
      entry.2.status ≠ .reauthRequired && !entry.2.sourceReached 2) = true := by
    decide +kernel
  have hentry := List.all_eq_true.mp hall _ (Table.mem_of_get? hfound)
  exact .inr (by simpa using hentry)

theorem notification_isolated_second : ∃ record, record.sessionId = "s2" ∧
    (answerService twoSessions namedHost
      (exampleStep (Machine.after exampleStep (startedOver bothRows) notified)
        (.turn 0 (.reads 2))).2.object
      (.store (.resolveSessionId "s2"), .reads 3)).1 = .answered (.answered (.resolved record)) := by
  obtain ⟨-, hdurable, hturn⟩ := notification_isolated anonymousConfig twoSessions namedHost
    Function.injective_id Function.injective_id bothRows bothRows_tabled notified
    ⟨trivial, trivial⟩
  have hsome : ((storeOf bothRows).byDigest.get? secondToken).any (fun record =>
      record.sessionId = "s2" && record.status ≠ .reauthRequired && !record.sourceReached 2 &&
        !record.sourceReached 3 && 3 < record.expiry) = true := by
    decide +kernel
  obtain ⟨record, hfound, hrecord⟩ := (Option.any_eq_true _ _).mp hsome
  simp only [Bool.and_eq_true, decide_eq_true_eq, Bool.not_eq_true'] at hrecord
  obtain ⟨⟨⟨⟨hname, hstatus⟩, htwo⟩, hthree⟩, hlate⟩ := hrecord
  have hactive : Durable namedHost
      (Machine.after exampleStep (startedOver bothRows) notified).object record :=
    hdurable secondToken record hfound hstatus
  obtain ⟨-, -, hother⟩ := hturn 0 (.reads 2) "s1" _ _ notified_meets rfl
  have hnamed : record.sessionId ≠ "s1" := by
    rw [hname]
    decide
  have hlive : ∀ now, Reading.reads 2 = .reads now → Resolvable now record := by
    intro now hnow
    obtain rfl := Reading.reads.inj hnow
    exact ⟨hstatus, htwo, lt_trans (by decide) hlate⟩
  obtain ⟨-, hresolves⟩ := hother record hnamed hactive hlive
  refine ⟨record, hname, ?_⟩
  rw [← hname]
  exact hresolves 3 ⟨hstatus, hthree, hlate⟩

private def notifiedTwice : List ServiceInput :=
  bothCreated ++ [.call (.markReauthRequired "s1"), .call (.markReauthRequired "s1"),
    .turn 2 (.reads 2), .turn 3 (.reads 2)] ++ List.replicate 3 (.turn 3 (.reads 2))

/-- Two notifications of one session close the service and delete every row. -/
theorem second_notification_closes :
    (Machine.after exampleStep { object := {} } bothCreated).object.vault.rows.length = 2 ∧
    (Machine.after exampleStep { object := {} } notifiedTwice).object.closed = true ∧
    (Machine.after exampleStep { object := {} } notifiedTwice).object.vault.rows = [] := by
  decide +kernel

end Example

end CapabilityCompiler.Gateway
