import CapabilityCompiler.Foundation.Json
import CapabilityCompiler.Gateway.SessionInvariant

/-! The durable session vault: every operation on the store in memory is mirrored into rows, and the
store is read back from the rows when the vault is opened. -/
namespace CapabilityCompiler.Gateway
open Foundation

/-! Authentication. -/

/-- What a source login has given. -/
structure AuthenticationResult where
  token : Option String
  tokenType : Option String
  principalId : Option String
  sourceScopes : Option (Finset String)
  tenantContext : Option Fields
  expiresAt : Option ℚ
  refreshAt : Option ℚ
  paired : token.isSome = tokenType.isSome
deriving DecidableEq

/-- Equality of tenant contexts, whatever the order of their fields. -/
def sameTenant : Option Fields → Option Fields → Bool
  | none, none => true
  | some first, some second => Json.pyEqual (.obj first) (.obj second)
  | _, _ => false

/-- The authentication belongs to the session of the record. -/
def semanticBinding (record : GatewaySessionRecord) (authentication : AuthenticationResult) : Bool :=
  let context := record.principalContext
  authentication.principalId.all (· = context.principalId) &&
  authentication.sourceScopes = context.sourceScopes &&
  sameTenant authentication.tenantContext context.tenantContext &&
  authentication.expiresAt = record.sourceExpiresAt &&
  authentication.refreshAt = record.sourceRefreshAt

/-- The authentication is the one that the session is created with. -/
def requestBinding (request : SessionRequest) (authentication : AuthenticationResult) : Bool :=
  let context := request.principalContext
  authentication.principalId.all (· = context.principalId) &&
  authentication.sourceScopes = context.sourceScopes &&
  sameTenant authentication.tenantContext context.tenantContext &&
  authentication.expiresAt = request.sourceExpiresAt.join &&
  authentication.refreshAt = request.sourceRefreshAt.join

/-! Rows. -/

/-- A row with the plaintext of its ciphertext. -/
structure VaultRow where
  tokenDigest : String
  sessionDigest : String
  record : GatewaySessionRecord
  authentication : AuthenticationResult
deriving DecidableEq

/-- The index of sessions is keyed. -/
structure VaultHost extends SessionHost where
  sessionDigest : String → String

structure Vault where
  inner : SessionStore := {}
  rows : List VaultRow := []

/-- What a vault answers: the answer of the store in memory, or the error of the database. -/
inductive VaultAnswer where
  | answered (answer : SessionAnswer)
  | integrityError
deriving DecidableEq

inductive VaultOperation where
  | create (request : SessionRequest) (generated : Option String)
      (authentication : Option AuthenticationResult)
  | resolveToken (token : String)
  | resolveSessionId (sessionId : String)
  | revoke (sessionId : String)
  | revokeSession (sessionId : String)
  | revokeToken (token : String)
  | markReauthRequired (sessionId : String)
  | purgeExpired
  | popExpiredRecords
  /-- The vault is closed, opened again and its sessions are restored. -/
  | restart

/-- The operation on the store in memory. -/
def VaultOperation.memory? : VaultOperation → Option SessionOperation
  | .create request generated _ => some (.create request generated)
  | .resolveToken token => some (.resolveToken token)
  | .resolveSessionId sessionId => some (.resolveSessionId sessionId)
  | .revoke sessionId => some (.revoke sessionId)
  | .revokeSession sessionId => some (.revokeSession sessionId)
  | .revokeToken token => some (.revokeToken token)
  | .markReauthRequired sessionId => some (.markReauthRequired sessionId)
  | .purgeExpired => some .purgeExpired
  | .popExpiredRecords => some .popExpiredRecords
  | .restart => none

section Rows
variable (host : VaultHost)

/-- The checks on a decrypted row. -/
def rowValid (row : VaultRow) : Bool :=
  row.record.tokenDigest = row.tokenDigest &&
  host.sessionDigest row.record.sessionId = row.sessionDigest &&
  semanticBinding row.record row.authentication

def decryptRow (row : VaultRow) :
    Except SessionFailure (GatewaySessionRecord × AuthenticationResult) :=
  if rowValid host row then .ok (row.record, row.authentication)
  else .error (invalid "row_invalid")

/-- `INSERT`: both digests are unique. -/
def insertRow (record : GatewaySessionRecord) (authentication : AuthenticationResult)
    (rows : List VaultRow) : Option (List VaultRow) :=
  let digest := host.sessionDigest record.sessionId
  if rows.any fun row => row.tokenDigest = record.tokenDigest || row.sessionDigest = digest then none
  else some (rows ++ [{ tokenDigest := record.tokenDigest, sessionDigest := digest, record
                        authentication }])

def rewriteRecord (record : GatewaySessionRecord) (rows : List VaultRow) :
    Except SessionFailure (List VaultRow) :=
  match rows.find? (·.tokenDigest = record.tokenDigest) with
  | none => .error (invalid "row_unknown")
  | some row => match decryptRow host row with
    | .error failure => .error failure
    | .ok _ => .ok (rows.map fun row =>
        if row.tokenDigest = record.tokenDigest then { row with record } else row)

def persistReauthDigest (digest : String) (rows : List VaultRow) :
    Except SessionFailure (List VaultRow) :=
  match rows.find? (·.tokenDigest = digest) with
  | none => .ok rows
  | some row => match decryptRow host row with
    | .error failure => .error failure
    | .ok (record, _) =>
      if record.status = .reauthRequired then .ok rows else rewriteRecord host record.marked rows

def persistReauthSession (sessionId : String) (rows : List VaultRow) :
    Except SessionFailure (List VaultRow) :=
  match rows.find? (·.sessionDigest = host.sessionDigest sessionId) with
  | none => .ok rows
  | some row => persistReauthDigest host row.tokenDigest rows

def deleteDigests (digests : List String) (rows : List VaultRow) : List VaultRow :=
  rows.filter (·.tokenDigest ∉ digests)

def deleteSession (sessionId : String) (rows : List VaultRow) : List VaultRow :=
  rows.filter (·.sessionDigest ≠ host.sessionDigest sessionId)

end Rows

/-! Operations. -/

section Operations
variable (settings : StoreSettings) (host : VaultHost) (vault : Vault)

/-- A resolution by the store in memory; its reauthentication error is persisted first. -/
def resolved (persist : List VaultRow → Except SessionFailure (List VaultRow)) :
    SessionAnswer × SessionStore → VaultAnswer × Vault
  | (.failed failure, inner) =>
    if failure.kind = .reauth then
      match persist vault.rows with
      | .error other => (.answered (.failed other), { vault with inner })
      | .ok rows => (.answered (.failed failure), { inner, rows })
    else (.answered (.failed failure), { vault with inner })
  | (answer, inner) => (.answered answer, { vault with inner })

def createDurable (reading : Reading) (request : SessionRequest) (generated : Option String) :
    Option AuthenticationResult → VaultAnswer × Vault
  | none => (.answered (.failed (invalid "authentication_missing")), vault)
  | some authentication =>
    match create settings host.toSessionHost vault.inner reading request generated with
    | (.created token record removed, inner) =>
      match insertRow host record authentication vault.rows with
      | some rows => (.answered (.created token record removed), { inner, rows })
      | none => (.integrityError,
          { vault with inner := (revokeSession inner request.sessionId).2 })
    | (answer, inner) => (.answered answer, { vault with inner })

/-- The session is resolved, its row is rewritten and the store in memory is marked. -/
def markDurable (reading : Reading) (sessionId : String) : VaultAnswer × Vault :=
  match resolveSessionId vault.inner reading sessionId with
  | (.resolved record, inner) =>
    match rewriteRecord host record.marked vault.rows with
    | .error failure => (.answered (.failed failure), { vault with inner })
    | .ok rows =>
      let marked := markReauthRequired inner reading sessionId
      (.answered marked.1, { inner := marked.2, rows })
  | (answer, inner) => (.answered answer, { vault with inner })

def purgeDurable (reading : Reading) : VaultAnswer × Vault :=
  match purgeExpired vault.inner reading with
  | (.removed records, inner) => (.answered (.removed records),
      { inner, rows := deleteDigests (records.map (·.tokenDigest)) vault.rows })
  | (answer, inner) => (.answered answer, { vault with inner })

/-- The rows that the vault is opened with: all are checked, and those past their expiry are
deleted. A clock that gives no finite number is taken to fail. -/
def loadRows (reading : Reading) : Except SessionFailure (List VaultRow) :=
  match freshNow reading with
  | .error failure => .error failure
  | .ok now =>
    if vault.rows.all (rowValid host) then .ok (vault.rows.filter fun row => now < row.record.expiry)
    else .error (invalid "row_invalid")

/-- The restored records, one after the other; the first that is not restored is an error. -/
def restoreRows : SessionStore → List VaultRow → SessionAnswer × SessionStore
  | store, [] => (.restored, store)
  | store, row :: rest => match restore store row.record with
    | (.restored, next) => restoreRows next rest
    | (answer, next) => (answer, next)

def restartVault (reading : Reading) : VaultAnswer × Vault :=
  match loadRows host vault reading with
  | .error failure => (.answered (.failed failure), vault)
  | .ok rows =>
    let restored := restoreRows {} rows
    (.answered restored.1, { inner := restored.2, rows })

def vaultStep : VaultOperation × Reading → VaultAnswer × Vault
  | (.create request generated authentication, reading) =>
    createDurable settings host vault reading request generated authentication
  | (.resolveToken token, reading) =>
    resolved vault (persistReauthDigest host (host.tokenDigest token))
      (resolveToken host.toSessionHost vault.inner reading token)
  | (.resolveSessionId sessionId, reading) =>
    resolved vault (persistReauthSession host sessionId)
      (resolveSessionId vault.inner reading sessionId)
  | (.revoke sessionId, _) | (.revokeSession sessionId, _) =>
    let revoked := revokeSession vault.inner sessionId
    (.answered revoked.1, { inner := revoked.2, rows := deleteSession host sessionId vault.rows })
  | (.revokeToken token, _) =>
    let revoked := revokeToken host.toSessionHost vault.inner token
    (.answered revoked.1,
      { inner := revoked.2, rows := deleteDigests [host.tokenDigest token] vault.rows })
  | (.markReauthRequired sessionId, reading) => markDurable host vault reading sessionId
  | (.purgeExpired, reading) | (.popExpiredRecords, reading) => purgeDurable vault reading
  | (.restart, reading) => restartVault host vault reading

end Operations
end CapabilityCompiler.Gateway
