import CapabilityCompiler.Errors
import CapabilityCompiler.Foundation.Json
import CapabilityCompiler.Foundation.Text
import Mathlib.Data.Finset.Basic
import Mathlib.Data.Rat.Defs

/-! The sessions of the gateway. -/
namespace CapabilityCompiler.Gateway
open Foundation

/-- The identity that a trusted transport has established. -/
structure PrincipalContext where
  principalId : String
  gatewaySessionId : Option String
  targetSystemId : String
  sourceScopes : Option (Finset String)
  deploymentScopeCeiling : Finset String
  effectiveScopes : Finset String
  tenantContext : Option Fields
  authStateHandle : String
deriving DecidableEq

inductive GatewaySessionStatus where
  | active
  | reauthRequired
  | revoked
  | expired
deriving DecidableEq

/-- Neither control characters nor whitespace nor wildcards. -/
def exactText (value : String) : Bool :=
  value ≠ "" && value.toList.all fun c => !Text.isControl c && !Text.isSpace c && c ≠ '*'

/-- Session state with its validated lifetime. -/
structure GatewaySessionRecord where
  sessionId : String
  tokenDigest : String
  principalContext : PrincipalContext
  createdAt : ℚ
  expiresAt : ℚ
  gatewayExpiresAt : ℚ
  sourceExpiresAt : Option ℚ
  sourceRefreshAt : Option ℚ
  status : GatewaySessionStatus
  exact : exactText sessionId = true
  lifetime : createdAt < expiresAt
  gatewayLifetime : createdAt < gatewayExpiresAt
  gatewayZero : gatewayExpiresAt = 0 → expiresAt = 0
  sourceLifetime : ∀ t ∈ sourceExpiresAt, createdAt < t
  refreshLifetime : ∀ t ∈ sourceRefreshAt, createdAt < t
  refreshed : ∀ refresh ∈ sourceRefreshAt, ∀ expiry ∈ sourceExpiresAt, refresh ≤ expiry
  bound : principalContext.gatewaySessionId = some sessionId
deriving DecidableEq

namespace GatewaySessionRecord

/-- No gateway expiry, or one of zero, is replaced by the expiry. -/
def gatewayOr (expiresAt : ℚ) : Option ℚ → ℚ
  | some t => if t = 0 then expiresAt else t
  | none => expiresAt

theorem gatewayOr_zero {expiresAt : ℚ} {gatewayExpiresAt : Option ℚ}
    (h : gatewayOr expiresAt gatewayExpiresAt = 0) : expiresAt = 0 := by
  unfold gatewayOr at h
  split at h
  · split at h
    · exact h
    · exact absurd h ‹_›
  · exact h

/-- The validated record of these values, if they are valid. -/
def build? (sessionId tokenDigest : String) (principalContext : PrincipalContext)
    (createdAt expiresAt : ℚ) (gatewayExpiresAt sourceExpiresAt sourceRefreshAt : Option ℚ)
    (status : GatewaySessionStatus) : Option GatewaySessionRecord :=
  let gateway := gatewayOr expiresAt gatewayExpiresAt
  if h : exactText sessionId = true ∧ createdAt < expiresAt ∧ createdAt < gateway ∧
      (∀ t ∈ sourceExpiresAt, createdAt < t) ∧ (∀ t ∈ sourceRefreshAt, createdAt < t) ∧
      (∀ refresh ∈ sourceRefreshAt, ∀ expiry ∈ sourceExpiresAt, refresh ≤ expiry) ∧
      principalContext.gatewaySessionId = some sessionId then
    some
      { sessionId, tokenDigest, principalContext, createdAt, expiresAt, sourceExpiresAt
        sourceRefreshAt, status
        gatewayExpiresAt := gateway
        exact := h.1
        lifetime := h.2.1
        gatewayLifetime := h.2.2.1
        gatewayZero := gatewayOr_zero
        sourceLifetime := h.2.2.2.1
        refreshLifetime := h.2.2.2.2.1
        refreshed := h.2.2.2.2.2.1
        bound := h.2.2.2.2.2.2 }
  else none

/-- A built record has the values it was built from. -/
theorem of_build? {sessionId tokenDigest : String} {principalContext : PrincipalContext}
    {createdAt expiresAt : ℚ} {gatewayExpiresAt sourceExpiresAt sourceRefreshAt : Option ℚ}
    {status : GatewaySessionStatus} {record : GatewaySessionRecord}
    (h : build? sessionId tokenDigest principalContext createdAt expiresAt gatewayExpiresAt
      sourceExpiresAt sourceRefreshAt status = some record) :
    record.sessionId = sessionId ∧ record.tokenDigest = tokenDigest ∧
      record.principalContext = principalContext ∧ record.createdAt = createdAt ∧
      record.expiresAt = expiresAt ∧
      record.gatewayExpiresAt = gatewayOr expiresAt gatewayExpiresAt ∧
      record.sourceExpiresAt = sourceExpiresAt ∧ record.sourceRefreshAt = sourceRefreshAt ∧
      record.status = status := by
  unfold build? at h
  simp only at h
  split at h
  · rw [← Option.some.inj h]
    exact ⟨rfl, rfl, rfl, rfl, rfl, rfl, rfl, rfl, rfl⟩
  · exact absurd h (by simp)

variable (record : GatewaySessionRecord)

/-- The gateway expiry that is in force: zero counts as none. -/
def expiry : ℚ :=
  if record.gatewayExpiresAt = 0 then record.expiresAt else record.gatewayExpiresAt

theorem expiry_eq : record.expiry = record.gatewayExpiresAt := by
  unfold expiry
  split
  · rename_i hzero
    rw [hzero, record.gatewayZero hzero]
  · rfl

/-- A boundary of the source authentication has been reached. -/
def sourceReached (now : ℚ) : Bool :=
  record.sourceRefreshAt.any (fun t => decide (t ≤ now)) ||
    record.sourceExpiresAt.any (fun t => decide (t ≤ now))

def withStatus (status : GatewaySessionStatus) : GatewaySessionRecord :=
  { record with status := status }

/-- The record once it requires reauthentication. -/
def marked : GatewaySessionRecord := record.withStatus .reauthRequired

@[simp] theorem marked_status : record.marked.status = .reauthRequired := rfl

@[simp] theorem marked_tokenDigest : record.marked.tokenDigest = record.tokenDigest := rfl

@[simp] theorem marked_sessionId : record.marked.sessionId = record.sessionId := rfl

@[simp] theorem marked_marked : record.marked.marked = record.marked := rfl

@[simp] theorem expiry_marked : record.marked.expiry = record.expiry := rfl

@[simp] theorem sourceReached_marked (now : ℚ) :
    record.marked.sourceReached now = record.sourceReached now := rfl

theorem marked_of_status (h : record.status = .reauthRequired) : record.marked = record := by
  cases record
  simp only at h
  subst h
  rfl

end GatewaySessionRecord
end CapabilityCompiler.Gateway
