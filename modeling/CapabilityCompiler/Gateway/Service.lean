import CapabilityCompiler.Foundation.Turns
import CapabilityCompiler.Gateway.Context
import CapabilityCompiler.Gateway.Vault

/-! The session service over the durable vault: each operation is a process of requests, and the
processes of the calls interleave. Cleanups are shielded, so a caller's cancellation ends none. -/
namespace CapabilityCompiler.Gateway
open Foundation

/-! Logging in. -/

structure ServiceConfig where
  hasPrincipalPointer : Bool
  hasTenantPointer : Bool
  scopeMapping : ScopeMapping
  targetSystemId : String
  deploymentScopeCeiling : Finset String

/-- What the source has answered to a login, with its scopes if they are discovered. -/
structure LoginResponse where
  token : String
  principal : String
  sourceScopes : Option (Finset String)
  tenant : Fields
  expiresAt : Option ℚ
  refreshAt : Option ℚ

/-- `_authentication_result`, with the discovered scopes. -/
def authenticationResult (config : ServiceConfig) (login : LoginResponse) :
    AuthenticationResult where
  token := some login.token
  tokenType := some "Bearer"
  principalId := if config.hasPrincipalPointer then some login.principal else none
  sourceScopes := login.sourceScopes
  tenantContext := if config.hasTenantPointer then some login.tenant else none
  expiresAt := login.expiresAt
  refreshAt := login.refreshAt
  paired := rfl

/-- What the generators and the source give to one creation. -/
structure Creation where
  sessionId : String
  authStateHandle : String
  anonymousPrincipal : String
  login : Except SessionFailure LoginResponse
  token : Option String

def isSafeGeneratedValue (value : String) : Bool :=
  value ≠ "" && value.toList.all (!Text.isSpace ·)

/-- The principal of a login: the source's, or an anonymous one. -/
def principalOf (config : ServiceConfig) (creation : Creation) (result : AuthenticationResult) :
    Except SessionFailure String :=
  match if config.hasPrincipalPointer then result.principalId else none with
  | some principal => .ok principal
  | none =>
    if isSafeGeneratedValue creation.anonymousPrincipal then .ok creation.anonymousPrincipal
    else .error (invalid "anonymous_principal_generation_failed")

def contextOf (config : ServiceConfig) (creation : Creation) (result : AuthenticationResult) :
    Except SessionFailure PrincipalContext :=
  match result.sourceScopes with
  | none => .error (invalid "source_scopes_unavailable")
  | some scopes => match principalOf config creation result with
    | .error failure => .error failure
    | .ok principal =>
      match PrincipalContext.build? principal (some creation.sessionId) config.targetSystemId
        (some scopes) config.deploymentScopeCeiling
        (if config.hasTenantPointer then result.tenantContext.map .frozen else none)
        creation.authStateHandle config.scopeMapping with
      | none => .error (invalid "session_creation_failed")
      | some context => .ok context

def requestOf (creation : Creation) (context : PrincipalContext) (result : AuthenticationResult) :
    SessionRequest where
  sessionId := creation.sessionId
  principalContext := context
  sourceExpiresAt := result.expiresAt.map some
  sourceRefreshAt := result.refreshAt.map some

section Creating
variable {config : ServiceConfig} {creation : Creation} {login : LoginResponse}
  {context : PrincipalContext}

/-- What a context of the service is built from. -/
theorem contextOf_cases {result : AuthenticationResult}
    (h : contextOf config creation result = .ok context) :
    ∃ scopes principal, result.sourceScopes = some scopes ∧
      principalOf config creation result = .ok principal ∧
      PrincipalContext.build? principal (some creation.sessionId) config.targetSystemId
        (some scopes) config.deploymentScopeCeiling
        (if config.hasTenantPointer then result.tenantContext.map .frozen else none)
        creation.authStateHandle config.scopeMapping = some context := by
  unfold contextOf at h
  split at h
  · exact absurd h (by simp)
  · rename_i scopes hscopes
    split at h
    · exact absurd h (by simp)
    · rename_i principal hprincipal
      split at h
      · exact absurd h (by simp)
      · rename_i built hbuilt
        obtain rfl := Except.ok.inj h
        exact ⟨scopes, principal, hscopes, hprincipal, hbuilt⟩

/-- The tenant context is the one of the login, and it has scalars only. -/
theorem tenant_contextOf (h : contextOf config creation (authenticationResult config login) =
      .ok context) :
    context.tenantContext = (authenticationResult config login).tenantContext ∧
      ∀ fields, context.tenantContext = some fields → fields.all (·.2.isScalar) = true := by
  obtain ⟨scopes, principal, -, -, hbuilt⟩ := contextOf_cases h
  obtain ⟨-, -, -, -, -, -, -, -, -, htenant⟩ := PrincipalContext.of_build? hbuilt
  rw [htenant]
  cases hpointer : config.hasTenantPointer with
  | false => simp [authenticationResult, hpointer]
  | true =>
    have hscalars : login.tenant.all (·.2.isScalar) = true := by
      unfold PrincipalContext.build? at hbuilt
      split at hbuilt
      · exact absurd hbuilt (by simp)
      · simp only [authenticationResult, hpointer, if_true, Option.map_some] at hbuilt
        obtain ⟨fields, hfields, -⟩ := Option.map_eq_some_iff.mp hbuilt
        unfold freezeTenant at hfields
        simp only at hfields
        split at hfields
        · assumption
        · exact absurd hfields (by simp)
    simp only [authenticationResult, hpointer, if_true, Option.map_some, Option.bind_some,
      freezeTenant, hscalars]
    refine ⟨trivial, fun fields hfields => ?_⟩
    rw [← Option.some.inj hfields]
    exact hscalars

theorem sameTenant_refl (tenant : Option Fields) : sameTenant tenant tenant = true := by
  cases tenant with
  | none => rfl
  | some fields => exact Json.pyEqual_refl _

/-- The service creates a session with the authentication that its context is built from. -/
theorem requestBinding_contextOf
    (h : contextOf config creation (authenticationResult config login) = .ok context) :
    requestBinding (requestOf creation context (authenticationResult config login))
      (authenticationResult config login) = true := by
  obtain ⟨scopes, principal, hscopes, hprincipal, hbuilt⟩ := contextOf_cases h
  obtain ⟨-, -, hid, -, -, hsource, -⟩ := PrincipalContext.of_build? hbuilt
  have hmatches : (authenticationResult config login).principalId.all
      (· = context.principalId) = true := by
    rw [hid]
    unfold principalOf at hprincipal
    cases hpointer : config.hasPrincipalPointer with
    | false => simp [authenticationResult, hpointer]
    | true =>
      simp only [authenticationResult, hpointer, if_true] at hprincipal ⊢
      simpa using Except.ok.inj hprincipal
  have hscope : (authenticationResult config login).sourceScopes = context.sourceScopes := by
    rw [hscopes, hsource]
  have hjoin : ∀ t : Option ℚ, (t.map some).join = t := by
    intro t
    cases t with
    | none => rfl
    | some t => rfl
  simp only [requestBinding, requestOf, hjoin, (tenant_contextOf h).1, sameTenant_refl, hscope,
    eq_self, decide_true, Bool.and_true]
  exact hmatches

end Creating

/-! Requests. -/

structure AuthStateKey where
  principalId : String
  targetSystemId : String
  gatewaySessionId : Option String
  authStateHandle : String
deriving DecidableEq

def PrincipalContext.authStateKey (context : PrincipalContext) : AuthStateKey where
  principalId := context.principalId
  targetSystemId := context.targetSystemId
  gatewaySessionId := context.gatewaySessionId
  authStateHandle := context.authStateHandle

def GatewaySessionRecord.authStateKey (record : GatewaySessionRecord) : AuthStateKey :=
  record.principalContext.authStateKey

inductive ServiceRequest where
  | isClosed
  | setClosed
  | store (operation : VaultOperation)
  /-- The fatal close of the vault: every row is deleted. -/
  | closeStore
  | bindState (key : AuthStateKey)
  | invalidate (key : AuthStateKey)
  | closeStrategy
  | clock

inductive ServiceReply where
  | unit
  | flag (value : Bool)
  | answered (answer : VaultAnswer)
  | time (reading : Reading)

/-- The service with its vault and its authentication strategy. -/
structure GatewayState where
  vault : Vault := {}
  storeClosed : Bool := false
  closed : Bool := false
  states : List AuthStateKey := []
  strategyClosed : Bool := false

section Answer
variable (settings : StoreSettings) (host : VaultHost)

/-- One request is answered, with what the clock gives. -/
def answerService (gateway : GatewayState) :
    ServiceRequest × Reading → ServiceReply × GatewayState
  | (.isClosed, _) => (.flag gateway.closed, gateway)
  | (.setClosed, _) => (.unit, { gateway with closed := true })
  | (.store operation, reading) =>
    if gateway.storeClosed then
      (.answered (.answered (.failed (invalid "store_closed"))), gateway)
    else
      let answered := vaultStep settings host gateway.vault (operation, reading)
      (.answered answered.1, { gateway with vault := answered.2 })
  | (.closeStore, _) =>
    if gateway.storeClosed then (.answered (.answered (.removed [])), gateway)
    else
      let removed := close gateway.vault.inner
      (.answered (.answered removed.1),
        { gateway with vault := { inner := removed.2, rows := [] }, storeClosed := true })
  | (.bindState key, _) =>
    if gateway.strategyClosed then (.flag false, gateway)
    else (.flag true, { gateway with states := key :: gateway.states.filter (· ≠ key) })
  | (.invalidate key, _) => (.unit, { gateway with states := gateway.states.filter (· ≠ key) })
  | (.closeStrategy, _) => (.unit, { gateway with states := [], strategyClosed := true })
  | (.clock, reading) => (.time reading, gateway)

end Answer

/-! Operations. -/

inductive ServiceResult where
  | created (token : String) (record : GatewaySessionRecord)
  | resolved (record : GatewaySessionRecord)
  | finished
deriving DecidableEq

abbrev ServiceProcess := Process ServiceRequest ServiceReply SessionFailure ServiceResult

/-- `_invalidate_records` -/
def invalidateRecords : List GatewaySessionRecord → ServiceProcess → ServiceProcess
  | [], next => next
  | record :: rest, next =>
    .request (.invalidate record.authStateKey) fun _ => invalidateRecords rest next

/-- `_close_resources`, once the service is closed; the operation fails. -/
def closeService (failure : SessionFailure) : ServiceProcess :=
  .request .setClosed fun _ => .request .closeStore fun reply =>
    let removed := match reply with
      | .answered (.answered (.removed records)) => records
      | _ => []
    invalidateRecords removed (.request .closeStrategy fun _ => .failed failure)

/-- `_drain_removed_auth_states`: `next` is told whether it has failed. -/
def drainRemovedAuthStates (next : Bool → ServiceProcess) : ServiceProcess :=
  .request (.store .popExpiredRecords) fun
    | .answered (.answered (.removed records)) => invalidateRecords records (next false)
    | _ => next true

/-- `_rollback`: the session is revoked, and its state is erased if there is one. -/
def rollback (sessionId : String) (key : Option AuthStateKey) (failure : SessionFailure) :
    ServiceProcess :=
  .request (.store (.revokeSession sessionId)) fun reply =>
    let finish : ServiceProcess := match reply with
      | .answered (.answered (.revoked _)) => .failed failure
      | _ => closeService (invalid "session_cleanup_failed")
    match key with
    | none => finish
    | some key => .request (.invalidate key) fun _ => finish

/-- `_runtime_failure`: an error that is no session error has its own reason. -/
def creationFailure : ServiceReply → SessionFailure
  | .answered (.answered (.failed failure)) => failure
  | _ => invalid "session_creation_failed"

/-- The session that the store has created is bound and handed out. -/
def publishSession (sessionId : String) (token : String) (record : GatewaySessionRecord)
    (removed : List GatewaySessionRecord) (key : AuthStateKey) : ServiceProcess :=
  .request (.bindState key) fun
    | .flag true => invalidateRecords removed <| .request .clock fun
      | .time (.reads now) =>
        if record.expiresAt ≤ now then
          rollback sessionId (some key) (invalid "session_lifetime_invalid")
        else .done (.created token record)
      | _ => rollback sessionId (some key) (invalid "session_lifetime_invalid")
    | _ => rollback sessionId (some key) (invalid "session_creation_failed")

/-- `_create_outcome` -/
def createOutcome (config : ServiceConfig) (creation : Creation) : ServiceProcess :=
  .request .isClosed fun
    | .flag true => .failed (invalid "service_closed")
    | _ => drainRemovedAuthStates fun failed =>
      if failed then closeService (invalid "expired_state_cleanup_failed")
      else if !isSafeGeneratedValue creation.sessionId ||
          !isSafeGeneratedValue creation.authStateHandle then
        .failed (invalid "identifier_generation_failed")
      else match creation.login with
        | .error failure => rollback creation.sessionId none failure
        | .ok login =>
          let result := authenticationResult config login
          match contextOf config creation result with
          | .error failure => rollback creation.sessionId none failure
          | .ok context => .request .isClosed fun
            | .flag true =>
              rollback creation.sessionId (some context.authStateKey) (invalid "service_closed")
            | _ => .request (.store (.create (requestOf creation context result) creation.token
                (some result))) fun
              | .answered (.answered (.created token record removed)) =>
                publishSession creation.sessionId token record removed context.authStateKey
              | reply => rollback creation.sessionId (some context.authStateKey)
                  (creationFailure reply)

/-- `_delete_outcome` -/
def deleteOutcome (token : String) : ServiceProcess :=
  .request (.store (.revokeToken token)) fun
    | .answered (.answered (.revoked record)) =>
      invalidateRecords record.toList <| drainRemovedAuthStates fun failed =>
        if failed then closeService (invalid "session_delete_failed") else .done .finished
    | _ => closeService (invalid "session_delete_failed")

/-- The end of `_reauth_outcome`: only an expired or an invalid session is an expected failure. -/
def reauthFinish : ServiceReply → ServiceProcess
  | .answered (.answered (.failed failure)) =>
    if failure.kind = .expired ∨ failure.kind = .invalid then .failed failure
    else closeService (invalid "session_reauth_failed")
  | .answered (.answered (.marked record)) =>
    .request (.invalidate record.authStateKey) fun _ => .done .finished
  | _ => closeService (invalid "session_reauth_failed")

/-- `_reauth_outcome` -/
def reauthOutcome (sessionId : String) : ServiceProcess :=
  .request (.store (.markReauthRequired sessionId)) fun marked =>
    drainRemovedAuthStates fun failed =>
      if failed then closeService (invalid "session_reauth_failed") else reauthFinish marked

/-- A resolution goes to the store alone. -/
def resolveOutcome (operation : VaultOperation) : ServiceProcess :=
  .request (.store operation) fun
    | .answered (.answered (.resolved record)) => .done (.resolved record)
    | reply => .failed (creationFailure reply)

/-! Calls. -/

inductive ServiceCall where
  | createSession (creation : Creation)
  | deleteCurrent (token : String)
  /-- A source 401 of a session. -/
  | markReauthRequired (sessionId : String)
  | resolveToken (token : String)
  | resolveSessionId (sessionId : String)

def ServiceCall.process (config : ServiceConfig) : ServiceCall → ServiceProcess
  | .createSession creation => createOutcome config creation
  | .deleteCurrent token => deleteOutcome token
  | .markReauthRequired sessionId => reauthOutcome sessionId
  | .resolveToken token => resolveOutcome (.resolveToken token)
  | .resolveSessionId sessionId => resolveOutcome (.resolveSessionId sessionId)

abbrev ServiceWorld := Turns.World ServiceCall ServiceRequest ServiceReply SessionFailure
  ServiceResult GatewayState

abbrev ServiceInput := Turns.Input ServiceCall Reading

/-- A call is made, or a call that is running takes its turn. -/
def serviceStep (config : ServiceConfig) (settings : StoreSettings) (host : VaultHost) :
    ServiceWorld → ServiceInput →
      Option (ServiceCall × ServiceRequest × ServiceReply) × ServiceWorld :=
  Turns.step (ServiceCall.process config) (answerService settings host)

end CapabilityCompiler.Gateway
