import CapabilityCompiler.Foundation.Machine
import CapabilityCompiler.Foundation.Table
import CapabilityCompiler.Gateway.Models

/-! The session store in memory: every operation runs under the store's lock. -/
namespace CapabilityCompiler.Gateway
open Foundation

/-! Tokens. -/

def isTokenChar (c : Char) : Bool :=
  (('A' ≤ c && c ≤ 'Z') || ('a' ≤ c && c ≤ 'z') || ('0' ≤ c && c ≤ '9')) || c = '_' || c = '-'

/-- The token is URL-safe base64 text, of at least 43 characters, of 32 bytes. -/
def isToken (token : String) : Bool :=
  let length := token.toList.length
  43 ≤ length && token.toList.all isTokenChar && length % 4 ≠ 1 && length * 3 / 4 = 32

/-! Failures. -/

inductive FailureKind where
  | invalid
  | expired
  | reauth
  | capacity
deriving DecidableEq

structure SessionFailure where
  kind : FailureKind
  reason : String
deriving DecidableEq

/-- What is raised for a failure; its reason is not shown. -/
def SessionFailure.error (failure : SessionFailure) : RuntimeError :=
  match failure.kind with
  | .expired =>
    { code := "ACC_GATEWAY_SESSION_EXPIRED"
      status := 401
      message := "Gateway session has expired." }
  | .reauth =>
    { code := "ACC_GATEWAY_REAUTH_REQUIRED"
      status := 401
      message := "Gateway session requires reauthentication." }
  | .capacity =>
    { code := "ACC_GATEWAY_SESSION_CAPACITY_REACHED"
      status := 503
      message := "Gateway session capacity has been reached." }
  | .invalid =>
    { code := "ACC_GATEWAY_SESSION_INVALID"
      status := 401
      message := "Gateway session is invalid." }

def invalid (reason : String) : SessionFailure := ⟨.invalid, reason⟩

/-- What the clock gives: it may raise, and it may give no finite number. -/
inductive Reading where
  | failed
  | invalid
  | reads (now : ℚ)
deriving DecidableEq

def freshNow : Reading → Except SessionFailure ℚ
  | .failed => .error (invalid "clock_failed")
  | .invalid => .error (invalid "clock_invalid")
  | .reads now => .ok now

/-! The store. -/

/-- The bounds of a store. -/
structure StoreSettings where
  maxSessions : ℕ
  ttlSeconds : ℕ
  maxSessions_pos : 0 < maxSessions
  ttlSeconds_bounded : 1 ≤ ttlSeconds ∧ ttlSeconds ≤ 86400

/-- Sessions of ten seconds. -/
def StoreSettings.brief (maxSessions : ℕ) (h : 0 < maxSessions) : StoreSettings where
  maxSessions := maxSessions
  ttlSeconds := 10
  maxSessions_pos := h
  ttlSeconds_bounded := by decide

/-- The hashing of tokens, and the sum of a reading and a lifetime as the host rounds it. -/
structure SessionHost where
  tokenDigest : String → String
  later : ℚ → ℕ → ℚ

structure SessionStore where
  byDigest : Table String GatewaySessionRecord := []
  digestBySessionId : Table String String := []
  closed : Bool := false

/-- What a session is created from. A boundary that is no finite number is present without a
value. -/
structure SessionRequest where
  sessionId : String
  principalContext : PrincipalContext
  sourceExpiresAt : Option (Option ℚ)
  sourceRefreshAt : Option (Option ℚ)

/-- The finite source boundaries, if both hold in the future. -/
def sourceBoundaries (now : ℚ) (request : SessionRequest) :
    Except SessionFailure (Option ℚ × Option ℚ) :=
  match request.sourceExpiresAt, request.sourceRefreshAt with
  | some none, _ => .error (invalid "source_expiry_invalid")
  | _, some none => .error (invalid "source_refresh_invalid")
  | expires, refresh =>
    let expiry := expires.join
    let refresh := refresh.join
    if expiry.any fun e => refresh.any fun r => decide (e < r) then
      .error (invalid "source_refresh_after_expiry")
    else if refresh.any fun r => decide (r ≤ now) then
      .error ⟨.reauth, "source_refresh_reached"⟩
    else if expiry.any fun e => decide (e ≤ now) then
      .error ⟨.reauth, "source_authentication_expired"⟩
    else .ok (expiry, refresh)

namespace SessionStore

/-- The record is past its gateway expiry, which is looked at again after the source boundaries. -/
def isExpired (now : ℚ) (record : GatewaySessionRecord) : Bool :=
  if record.expiry < now then true
  else if record.status = .reauthRequired || record.sourceReached now then false
  else decide (record.expiry ≤ now)

/-- The record as a look for expired ones leaves it. -/
def afterLook (now : ℚ) (record : GatewaySessionRecord) : GatewaySessionRecord :=
  if record.expiry < now then record
  else if record.sourceReached now then record.marked
  else record

variable (store : SessionStore)

def expiredRecords (now : ℚ) : List GatewaySessionRecord :=
  (store.byDigest.map Prod.snd).filter (isExpired now)

/-- Looking for expired records marks those that require reauthentication. -/
def looked (now : ℚ) : SessionStore :=
  { store with byDigest := store.byDigest.mapValues (afterLook now) }

def remove (record : GatewaySessionRecord) : SessionStore :=
  { store with
    byDigest := store.byDigest.erase record.tokenDigest
    digestBySessionId := store.digestBySessionId.erase record.sessionId }

def removeAll (records : List GatewaySessionRecord) : SessionStore :=
  records.foldl remove store

def put (record : GatewaySessionRecord) : SessionStore :=
  { store with byDigest := store.byDigest.put record.tokenDigest record }

def insert (record : GatewaySessionRecord) : SessionStore :=
  { store.put record with
    digestBySessionId := store.digestBySessionId.put record.sessionId record.tokenDigest }

end SessionStore

/-! Operations. -/

inductive SessionOperation where
  /-- The token generator gives a text, or fails. -/
  | create (request : SessionRequest) (generated : Option String)
  | restore (record : GatewaySessionRecord)
  | resolveToken (token : String)
  | resolveSessionId (sessionId : String)
  | revoke (sessionId : String)
  | revokeSession (sessionId : String)
  | revokeToken (token : String)
  | markReauthRequired (sessionId : String)
  | purgeExpired
  | popExpiredRecords
  | close

inductive SessionAnswer where
  | created (token : String) (record : GatewaySessionRecord) (removed : List GatewaySessionRecord)
  | restored
  | resolved (record : GatewaySessionRecord)
  | revoked (record : Option GatewaySessionRecord)
  | marked (record : GatewaySessionRecord)
  | removed (records : List GatewaySessionRecord)
  /-- "Gateway session restore failed." -/
  | notRestored
  | failed (failure : SessionFailure)
deriving DecidableEq

section Operations
variable (settings : StoreSettings) (host : SessionHost) (store : SessionStore)

/-- The last steps of a creation: the token is generated and the record is stored in place of the
expired ones. -/
def publish (looked : SessionStore) (now : ℚ) (boundaries : Option ℚ × Option ℚ)
    (expired : List GatewaySessionRecord) (request : SessionRequest) :
    Option String → SessionAnswer × SessionStore
  | none => (.failed (invalid "token_generation_failed"), looked)
  | some token =>
    if !isToken token then (.failed (invalid "token_generation_invalid"), looked)
    else
      let digest := host.tokenDigest token
      if (looked.byDigest.get? digest).isSome then
        (.failed (invalid "token_generation_duplicate"), looked)
      else
        let gatewayExpiresAt := host.later now settings.ttlSeconds
        let expiresAt := (boundaries.1.toList ++ boundaries.2.toList).foldl min gatewayExpiresAt
        match GatewaySessionRecord.build? request.sessionId digest request.principalContext now
          expiresAt (some gatewayExpiresAt) boundaries.1 boundaries.2 .active with
        | none => (.failed (invalid "session_record_invalid"), looked)
        | some record => (.created token record expired, (looked.removeAll expired).insert record)

def create (reading : Reading) (request : SessionRequest) (generated : Option String) :
    SessionAnswer × SessionStore :=
  if store.closed then (.failed (invalid "store_closed"), store)
  else match freshNow reading with
    | .error failure => (.failed failure, store)
    | .ok now => match sourceBoundaries now request with
      | .error failure => (.failed failure, store)
      | .ok boundaries =>
        let expired := store.expiredRecords now
        let looked := store.looked now
        if settings.maxSessions ≤ looked.byDigest.length - expired.length then
          (.failed ⟨.capacity, "capacity_reached"⟩, looked)
        else if (looked.digestBySessionId.get? request.sessionId).any fun digest =>
            digest ∉ expired.map (·.tokenDigest) then
          (.failed (invalid "duplicate_session_id"), looked)
        else publish settings host looked now boundaries expired request generated

/-- A validated durable record is put into the store. -/
def restore (record : GatewaySessionRecord) : SessionAnswer × SessionStore :=
  if store.closed || (store.byDigest.get? record.tokenDigest).isSome ||
      (store.digestBySessionId.get? record.sessionId).isSome then
    (.notRestored, store)
  else (.restored, store.insert record)

def resolveDigest (digest : String) (now : ℚ) : SessionAnswer × SessionStore :=
  match store.byDigest.get? digest with
  | none => (.failed (invalid "token_unknown"), store)
  | some record =>
    if record.expiry < now then (.failed ⟨.expired, "session_expired"⟩, store)
    else if record.status = .reauthRequired then (.failed ⟨.reauth, "reauth_required"⟩, store)
    else if record.sourceReached now then
      (.failed ⟨.reauth, "source_authentication_expired"⟩,
        { store with byDigest := store.byDigest.put digest record.marked })
    else if record.expiry ≤ now then (.failed ⟨.expired, "session_expired"⟩, store)
    else (.resolved record, store)

def resolveToken (reading : Reading) (token : String) : SessionAnswer × SessionStore :=
  if !isToken token then (.failed (invalid "token_invalid"), store)
  else if store.closed then (.failed (invalid "store_closed"), store)
  else match freshNow reading with
    | .error failure => (.failed failure, store)
    | .ok now => resolveDigest store (host.tokenDigest token) now

def resolveSessionId (reading : Reading) (sessionId : String) : SessionAnswer × SessionStore :=
  if store.closed then (.failed (invalid "store_closed"), store)
  else match store.digestBySessionId.get? sessionId with
    | none => (.failed (invalid "session_unknown"), store)
    | some digest => match freshNow reading with
      | .error failure => (.failed failure, store)
      | .ok now => resolveDigest store digest now

def revoke (sessionId : String) : SessionAnswer × SessionStore :=
  match store.digestBySessionId.get? sessionId with
  | none => (.revoked none, store)
  | some digest => match store.byDigest.get? digest with
    | none => (.revoked none, store)
    | some record => (.revoked (some record), store.remove record)

def revokeSession (sessionId : String) : SessionAnswer × SessionStore :=
  match store.digestBySessionId.get? sessionId with
  | none => (.revoked none, store)
  | some digest => (.revoked (store.byDigest.get? digest),
      { store with
        byDigest := store.byDigest.erase digest
        digestBySessionId := store.digestBySessionId.erase sessionId })

def revokeToken (token : String) : SessionAnswer × SessionStore :=
  if !isToken token then (.revoked none, store)
  else match store.byDigest.get? (host.tokenDigest token) with
    | none => (.revoked none, store)
    | some record => (.revoked (some record),
        { store with
          byDigest := store.byDigest.erase (host.tokenDigest token)
          digestBySessionId := store.digestBySessionId.erase record.sessionId })

def markReauthRequired (reading : Reading) (sessionId : String) : SessionAnswer × SessionStore :=
  if store.closed then (.failed (invalid "store_closed"), store)
  else match store.digestBySessionId.get? sessionId with
    | none => (.failed (invalid "session_unknown"), store)
    | some digest => match freshNow reading with
      | .error failure => (.failed failure, store)
      | .ok now => match store.byDigest.get? digest with
        | none => (.failed (invalid "session_unknown"), store)
        | some record =>
          if record.expiry < now then (.failed ⟨.expired, "session_expired"⟩, store)
          else (.marked record.marked,
            { store with byDigest := store.byDigest.put digest record.marked })

def collectExpired (now : ℚ) : SessionAnswer × SessionStore :=
  let expired := store.expiredRecords now
  (.removed expired, (store.looked now).removeAll expired)

def purgeExpired (reading : Reading) : SessionAnswer × SessionStore :=
  if store.closed then (.failed (invalid "store_closed"), store)
  else match freshNow reading with
    | .error failure => (.failed failure, store)
    | .ok now => collectExpired store now

def popExpiredRecords (reading : Reading) : SessionAnswer × SessionStore :=
  if store.closed then (.removed [], store)
  else match freshNow reading with
    | .error failure => (.failed failure, store)
    | .ok now => collectExpired store now

def close : SessionAnswer × SessionStore :=
  if store.closed then (.removed [], store)
  else
    let records := store.byDigest.map Prod.snd
    (.removed records, { store with closed := true }.removeAll records)

/-- One operation, with what the clock gives to it. -/
def sessionStep (store : SessionStore) :
    SessionOperation × Reading → SessionAnswer × SessionStore
  | (.create request generated, reading) => create settings host store reading request generated
  | (.restore record, _) => restore store record
  | (.resolveToken token, reading) => resolveToken host store reading token
  | (.resolveSessionId sessionId, reading) => resolveSessionId store reading sessionId
  | (.revoke sessionId, _) => revoke store sessionId
  | (.revokeSession sessionId, _) => revokeSession store sessionId
  | (.revokeToken token, _) => revokeToken host store token
  | (.markReauthRequired sessionId, reading) => markReauthRequired store reading sessionId
  | (.purgeExpired, reading) => purgeExpired store reading
  | (.popExpiredRecords, reading) => popExpiredRecords store reading
  | (.close, _) => close store

end Operations
end CapabilityCompiler.Gateway
