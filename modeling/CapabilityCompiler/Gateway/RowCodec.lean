import CapabilityCompiler.Foundation.JsonText
import CapabilityCompiler.Gateway.Context
import CapabilityCompiler.Gateway.Vault
import Mathlib.Data.Finset.Sort

/-! The rows of the vault as they are stored: a sealed JSON text under two plaintext digests. -/
namespace CapabilityCompiler.Gateway
open Foundation

/-! Encoding. -/

def GatewaySessionStatus.value : GatewaySessionStatus → String
  | .active => "active"
  | .reauthRequired => "reauth_required"
  | .revoked => "revoked"
  | .expired => "expired"

/-- `sorted(scopes)` -/
def sortedScopes (scopes : Finset String) : Json :=
  .arr ((Text.sorted scopes).map .str)

def timeJson : Option ℚ → Json
  | none => .null
  | some t => .float t

def textJson : Option String → Json
  | none => .null
  | some text => .str text

/-- `_json_plain` of a tenant context. -/
def tenantJson : Option Fields → Json
  | none => .null
  | some fields => .obj fields

def principalJson (context : PrincipalContext) : Fields :=
  [("principal_id", .str context.principalId),
    ("target_system_id", .str context.targetSystemId),
    ("source_scopes", sortedScopes (context.sourceScopes.getD ∅)),
    ("deployment_scope_ceiling", sortedScopes context.deploymentScopeCeiling),
    ("effective_scopes", sortedScopes context.effectiveScopes),
    ("tenant_context", tenantJson context.tenantContext),
    ("auth_state_handle", .str context.authStateHandle)]

/-- `_record_json` -/
def recordJson (record : GatewaySessionRecord) : Fields :=
  [("session_id", .str record.sessionId),
    ("token_digest", .str record.tokenDigest),
    ("created_at", .float record.createdAt),
    ("expires_at", .float record.expiresAt),
    ("gateway_expires_at", .float record.gatewayExpiresAt),
    ("source_expires_at", timeJson record.sourceExpiresAt),
    ("source_refresh_at", timeJson record.sourceRefreshAt),
    ("status", .str record.status.value),
    ("principal", .obj (principalJson record.principalContext))]

/-- `_authentication_json` -/
def authenticationJson (authentication : AuthenticationResult) : Fields :=
  [("token", textJson authentication.token),
    ("token_type", textJson authentication.tokenType),
    ("principal_id", textJson authentication.principalId),
    ("source_scopes", match authentication.sourceScopes with
      | none => .null
      | some scopes => sortedScopes scopes),
    ("tenant_context", tenantJson authentication.tenantContext),
    ("expires_at", timeJson authentication.expiresAt),
    ("refresh_at", timeJson authentication.refreshAt)]

def schemaVersion : ℤ := 1

def rowPayload (record : GatewaySessionRecord) (authentication : AuthenticationResult) : Json :=
  .obj [("schema_version", .int schemaVersion), ("record", .obj (recordJson record)),
    ("authentication", .obj (authenticationJson authentication))]

/-! Decoding. -/

def readString (fields : Fields) (key : String) : Option String :=
  match Json.field? key fields with
  | some (.str text) => some text
  | _ => none

/-- A missing value counts as none. -/
def readOptionalString (fields : Fields) (key : String) : Option (Option String) :=
  match Json.field? key fields with
  | none | some .null => some none
  | some (.str text) => some (some text)
  | _ => none

def readNumber (fields : Fields) (key : String) : Option ℚ :=
  (Json.field? key fields).bind Json.num?

def timeOf : Json → Option (Option ℚ)
  | .null => some none
  | value => value.num?.map some

def readOptionalTime (fields : Fields) (key : String) : Option (Option ℚ) :=
  match Json.field? key fields with
  | none => some none
  | some value => timeOf value

/-- `_string_list` -/
def stringList : Json → Option (List String)
  | .arr items => items.mapM fun
    | .str text => some text
    | _ => none
  | _ => none

def readStrings (fields : Fields) (key : String) : Option (List String) :=
  (Json.field? key fields).bind stringList

/-- A missing value counts as none. -/
def readOptionalScopes (fields : Fields) (key : String) : Option (Option (Finset String)) :=
  match Json.field? key fields with
  | none | some .null => some none
  | some value => (stringList value).map fun scopes => some scopes.toFinset

def readTenant (fields : Fields) : Option (Option Fields) :=
  match Json.field? "tenant_context" fields with
  | none | some .null => some none
  | some (.obj tenant) => some (some tenant)
  | _ => none

def readStatus (fields : Fields) : Option GatewaySessionStatus :=
  match readString fields "status" with
  | some "active" => some .active
  | some "reauth_required" => some .reauthRequired
  | some "revoked" => some .revoked
  | some "expired" => some .expired
  | _ => none

/-- The context of a stored record: each source scope is mapped to the effective scopes, which have
to come out again. -/
def contextFromJson (sessionId : String) (principal : Fields) : Option PrincipalContext := do
  let sourceScopes ← readStrings principal "source_scopes"
  let effective ← readStrings principal "effective_scopes"
  let principalId ← readString principal "principal_id"
  let targetSystemId ← readString principal "target_system_id"
  let ceiling ← readStrings principal "deployment_scope_ceiling"
  let tenant ← readTenant principal
  let authStateHandle ← readString principal "auth_state_handle"
  let context ← PrincipalContext.build? principalId (some sessionId) targetSystemId
    (some sourceScopes.toFinset) ceiling.toFinset (tenant.map .document) authStateHandle
    (sourceScopes.map fun scope => (scope, effective.toFinset))
  if context.effectiveScopes = effective.toFinset then some context else none

/-- `_record_from_json` -/
def recordFromJson : Json → Option GatewaySessionRecord
  | .obj fields =>
    match Json.field? "principal" fields with
    | some (.obj principal) => do
      let sessionId ← readString fields "session_id"
      let context ← contextFromJson sessionId principal
      let tokenDigest ← readString fields "token_digest"
      let createdAt ← readNumber fields "created_at"
      let expiresAt ← readNumber fields "expires_at"
      let gatewayExpiresAt ← (Json.field? "gateway_expires_at" fields).bind timeOf
      let sourceExpiresAt ← readOptionalTime fields "source_expires_at"
      let sourceRefreshAt ← readOptionalTime fields "source_refresh_at"
      let status ← readStatus fields
      GatewaySessionRecord.build? sessionId tokenDigest context createdAt expiresAt
        gatewayExpiresAt sourceExpiresAt sourceRefreshAt status
    | _ => none
  | _ => none

/-- `_authentication_from_json` -/
def authenticationFromJson : Json → Option AuthenticationResult
  | .obj fields => do
    let token ← readOptionalString fields "token"
    let tokenType ← readOptionalString fields "token_type"
    let principalId ← readOptionalString fields "principal_id"
    let sourceScopes ← readOptionalScopes fields "source_scopes"
    let tenantContext ← readTenant fields
    let expiresAt ← readOptionalTime fields "expires_at"
    let refreshAt ← readOptionalTime fields "refresh_at"
    if paired : token.isSome = tokenType.isSome then
      some { token, tokenType, principalId, sourceScopes, tenantContext, expiresAt, refreshAt
             paired }
    else none
  | _ => none

/-! Sealing. -/

/-- Authenticated encryption, and the JSON text of the host. A text stands for its bytes. -/
structure RowHost (Key Nonce Ciphertext : Type) where
  printer : Printer
  loads : String → Option Json
  sealText : Key → Nonce → String → String → Ciphertext
  openText : Key → Nonce → Ciphertext → String → Option String

/-- What a vault is bound to. -/
structure VaultIdentity where
  projectId : String
  packSha256 : String
  scopeMappingSha256 : String
  scopeCeilingSha256 : String

structure SealedRow (Nonce Ciphertext : Type) where
  tokenDigest : String
  sessionDigest : String
  nonce : Nonce
  ciphertext : Ciphertext

def nul : String := String.singleton (Char.ofNat 0)

/-- The part of the associated data that all rows of a vault share. -/
def aadHead (identity : VaultIdentity) : String :=
  "v1" ++ nul ++ identity.projectId ++ nul ++ identity.packSha256 ++ nul ++
    identity.scopeMappingSha256 ++ nul ++ identity.scopeCeilingSha256 ++ nul

/-- `_row_aad` -/
def rowAad (identity : VaultIdentity) (sessionDigest digest : String) : String :=
  aadHead identity ++ (sessionDigest ++ nul ++ digest)

section Sealing
variable {Key Nonce Ciphertext : Type} (host : VaultHost) (rowHost : RowHost Key Nonce Ciphertext)
  (identity : VaultIdentity) (key : Key)

/-- `_encrypt`, with the columns of the row. -/
def encrypt (nonce : Nonce) (record : GatewaySessionRecord)
    (authentication : AuthenticationResult) : SealedRow Nonce Ciphertext where
  tokenDigest := record.tokenDigest
  sessionDigest := host.sessionDigest record.sessionId
  nonce := nonce
  ciphertext := rowHost.sealText key nonce (rowHost.printer.dumps (rowPayload record authentication))
    (rowAad identity (host.sessionDigest record.sessionId) record.tokenDigest)

/-- `_decrypt_row`: the row is opened and decoded, and then its bindings are checked. -/
def decryptSealedRow (row : SealedRow Nonce Ciphertext) :
    Except SessionFailure (GatewaySessionRecord × AuthenticationResult) :=
  match rowHost.openText key row.nonce row.ciphertext
      (rowAad identity row.sessionDigest row.tokenDigest) with
  | none => .error (invalid "row_invalid")
  | some text => match rowHost.loads text with
    | some (.obj payload) =>
      if (Json.field? "schema_version" payload).any (Json.pyEqual · (.int schemaVersion)) then
        match (Json.field? "record" payload).bind recordFromJson,
          (Json.field? "authentication" payload).bind authenticationFromJson with
        | some record, some authentication => decryptRow host
            { tokenDigest := row.tokenDigest, sessionDigest := row.sessionDigest, record
              authentication }
        | _, _ => .error (invalid "row_invalid")
      else .error (invalid "row_invalid")
    | _ => .error (invalid "row_invalid")

end Sealing
end CapabilityCompiler.Gateway
