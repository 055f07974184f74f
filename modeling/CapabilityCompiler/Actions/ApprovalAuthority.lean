import CapabilityCompiler.Actions.ActionModels
import CapabilityCompiler.Foundation.Machine
import CapabilityCompiler.Foundation.Table

/-! The durable authority for one-time approvals: every call is one transaction on its decisions. -/
namespace CapabilityCompiler.Actions
open Foundation

/-- What an approval is bound to. -/
structure ApprovalBinding where
  actionDigest : String
  capabilityId : String
  principalDigest : String
  sessionDigest : Option String
  packDigest : String
  inputDigest : String
  previewDigest : String
  actionExpiresAt : ℚ
deriving DecidableEq

def ApprovalBinding.fromRecord (record : PreparedActionRecord) : ApprovalBinding where
  actionDigest := record.handleDigest
  capabilityId := record.capabilityId
  principalDigest := record.principalDigest
  sessionDigest := record.sessionDigest
  packDigest := record.packDigest
  inputDigest := record.inputDigest
  previewDigest := record.previewDigest
  actionExpiresAt := record.expiresAt

@[ext] structure ApprovalGrant where
  approvalDigest : String
  binding : ApprovalBinding
  approvedAt : ℚ
  expiresAt : ℚ
  decisionId : Option String := none
  approverId : Option String := none
  lifetime : approvedAt < expiresAt ∧ expiresAt ≤ binding.actionExpiresAt
  together : decisionId.isSome = approverId.isSome

instance : DecidableEq ApprovalGrant := fun _ _ => decidable_of_iff' _ ApprovalGrant.ext_iff

inductive ApprovalDecisionStatus where
  | approved
  | consumed
  | revoked
  | expired
deriving DecidableEq

/-- A decision of an approver. The fields of its end agree with its status. -/
structure ApprovalDecisionRecord where
  decisionId : String
  approverId : String
  binding : ApprovalBinding
  approvedAt : ℚ
  expiresAt : ℚ
  status : ApprovalDecisionStatus
  consumedAt : Option ℚ := none
  revokedAt : Option ℚ := none
  revokedBy : Option String := none
  lifetime : approvedAt < expiresAt ∧ expiresAt ≤ binding.actionExpiresAt
  settled : match status with
    | .consumed => consumedAt.isSome ∧ revokedAt = none
    | .revoked => revokedAt.isSome ∧ revokedBy.isSome ∧ consumedAt = none
    | _ => consumedAt = none ∧ revokedAt = none ∧ revokedBy = none

namespace ApprovalDecisionRecord
variable (record : ApprovalDecisionRecord)

def expire : ApprovalDecisionRecord :=
  { record with
    status := .expired, consumedAt := none, revokedAt := none, revokedBy := none
    settled := ⟨rfl, rfl, rfl⟩ }

def consume (now : ℚ) : ApprovalDecisionRecord :=
  { record with
    status := .consumed, consumedAt := some now, revokedAt := none, revokedBy := none
    settled := ⟨rfl, rfl⟩ }

def revoke (now : ℚ) (revokedBy : String) : ApprovalDecisionRecord :=
  { record with
    status := .revoked, consumedAt := none, revokedAt := some now, revokedBy := some revokedBy
    settled := ⟨rfl, rfl, rfl⟩ }

def grant (digest : String) : ApprovalGrant where
  approvalDigest := digest
  binding := record.binding
  approvedAt := record.approvedAt
  expiresAt := record.expiresAt
  decisionId := some record.decisionId
  approverId := some record.approverId
  lifetime := record.lifetime
  together := rfl

/-- An approved decision past its own expiry ends. -/
def expireDue (now : ℚ) : ApprovalDecisionRecord :=
  if record.status = .approved ∧ record.expiresAt ≤ now then record.expire else record

end ApprovalDecisionRecord

def approvalInvalid (message : String) : ActionError := .runtime
  { code := "ACC_RUNTIME_ACTION_APPROVAL_INVALID", status := 403, message := message }

def approvalExpired : ActionError := .runtime
  { code := "ACC_RUNTIME_ACTION_APPROVAL_EXPIRED", status := 410
    message := "approval has expired" }

def auditIdentifier (value fieldName : String) : Except ActionError String := do
  let checked ← exactIdentifier value fieldName
  if 256 < checked.utf8ByteSize then
    .error (.valueError (fieldName ++ " cannot exceed 256 UTF-8 bytes"))
  else return checked

/-- The decisions under the digests of their handles. -/
structure ApprovalAuthority where
  decisions : Table String ApprovalDecisionRecord := []
  closed : Bool := false

structure AuthorityHost extends Clockwork where
  maxDecisions : ℕ

namespace ApprovalAuthority

def approvalDigest (host : AuthorityHost) (handle : String) : Except ActionError String :=
  if isHandle handle then .ok (host.digest.sha256 handle)
  else .error (approvalInvalid "approval is invalid")

variable (host : AuthorityHost) (authority : ApprovalAuthority)

def ensureOpen : Except ActionError Unit :=
  if authority.closed then .error (approvalInvalid "approval authority is closed") else .ok ()

/-- Due decisions expire and the new one is inserted, in one transaction. -/
def issueSync (digest decisionId approverId : String) (binding : ApprovalBinding)
    (approvedAt expiresAt : ℚ) : Except ActionError ApprovalAuthority :=
  if h : approvedAt < expiresAt ∧ expiresAt ≤ binding.actionExpiresAt then
    let decisions := Table.mapValues (·.expireDue approvedAt) authority.decisions
    if host.maxDecisions ≤ decisions.length then
      .error (approvalInvalid "approval decision capacity is exhausted")
    else if (Table.get? digest decisions).isSome ∨ ∃ p ∈ decisions, p.2.decisionId = decisionId then
      .error (approvalInvalid "approval decision is not unique")
    else .ok { authority with
      decisions := Table.put digest
        { decisionId := decisionId, approverId := approverId, binding := binding
          approvedAt := approvedAt, expiresAt := expiresAt, status := .approved
          lifetime := h, settled := ⟨rfl, rfl, rfl⟩ } decisions }
  else .error (.valueError "approval decision expiry is invalid")

/-- Issue a handle; `generated` is what the generator returns. -/
def issue (binding : ApprovalBinding) (decisionId approverId : String) (expiresInSeconds : ℤ)
    (now : ℚ) (generated : String) : Except ActionError ApprovalAuthority := do
  let decision ← auditIdentifier decisionId "decision_id"
  let approver ← auditIdentifier approverId "approver_id"
  if expiresInSeconds < 1 ∨ 900 < expiresInSeconds then
    .error (.valueError "expires_in_seconds must be between 1 and 900")
  else
    let expiresAt := host.later now expiresInSeconds.toNat
    if binding.actionExpiresAt < expiresAt then
      .error (.valueError "approval cannot outlive the prepared Action")
    else if isHandle generated then do
      authority.ensureOpen
      authority.issueSync host (host.digest.sha256 generated) decision approver binding now expiresAt
    else .error (approvalInvalid "approval handle generation failed")

/-- Consume a decision, or end it if it is due. -/
def verifySync (digest : String) (expected : ApprovalBinding) (now : ℚ) :
    Except ActionError ApprovalDecisionRecord × ApprovalAuthority :=
  match Table.get? digest authority.decisions with
  | none => (.error (approvalInvalid "approval is invalid"), authority)
  | some record =>
    if record.status = .approved ∧
        (record.expiresAt ≤ now ∨ record.binding.actionExpiresAt ≤ now) then
      (.error approvalExpired,
        { authority with decisions := Table.put digest record.expire authority.decisions })
    else if record.binding ≠ expected ∨ record.status ≠ .approved then
      (.error (approvalInvalid "approval is invalid"), authority)
    else (.ok (record.consume now),
      { authority with decisions := Table.put digest (record.consume now) authority.decisions })

def verify (handle : String) (expected : ApprovalBinding) (now : ℚ) :
    Except ActionError ApprovalGrant × ApprovalAuthority :=
  match approvalDigest host handle with
  | .error error => (.error error, authority)
  | .ok digest => match authority.ensureOpen with
    | .error error => (.error error, authority)
    | .ok _ =>
      let verified := authority.verifySync digest expected now
      (verified.1.map (·.grant digest), verified.2)

def revokeSync (digest revokedBy : String) (now : ℚ) :
    Except ActionError (ApprovalDecisionRecord × ApprovalAuthority) :=
  match Table.get? digest authority.decisions with
  | none => .error (approvalInvalid "approval is invalid")
  | some record =>
    if record.status ≠ .approved then .error (approvalInvalid "approval is invalid")
    else .ok (record.revoke now revokedBy,
      { authority with
        decisions := Table.put digest (record.revoke now revokedBy) authority.decisions })

def revoke (handle revokedBy : String) (now : ℚ) :
    Except ActionError (ApprovalDecisionRecord × ApprovalAuthority) := do
  let digest ← approvalDigest host handle
  let actor ← auditIdentifier revokedBy "revoked_by"
  authority.ensureOpen
  authority.revokeSync digest actor now

def decision (decisionId : String) : Except ActionError ApprovalDecisionRecord := do
  let checked ← auditIdentifier decisionId "decision_id"
  authority.ensureOpen
  match authority.decisions.find? (·.2.decisionId = checked) with
  | some found => return found.2
  | none => .error (approvalInvalid "approval decision was not found")

end ApprovalAuthority

/-! The calls of an authority, one after the other. -/

/-- A call with the clock reading of its transaction. -/
inductive ApprovalCall where
  | issue (binding : ApprovalBinding) (decisionId approverId : String) (expiresInSeconds : ℤ)
      (now : ℚ) (generated : String)
  | verify (handle : String) (expected : ApprovalBinding) (now : ℚ)
  | revoke (handle revokedBy : String) (now : ℚ)
  | decision (decisionId : String)
  | close
  /-- A new authority over the same decisions. -/
  | restart

inductive ApprovalAnswer where
  | issued (handle : String)
  | granted (grant : ApprovalGrant)
  | decided (record : ApprovalDecisionRecord)
  | raised (error : ActionError)
  | done

namespace ApprovalAuthority

def answer (host : AuthorityHost) (authority : ApprovalAuthority) :
    ApprovalCall → ApprovalAnswer × ApprovalAuthority
  | .issue binding decisionId approverId expiresInSeconds now generated =>
    match authority.issue host binding decisionId approverId expiresInSeconds now generated with
    | .ok authority' => (.issued generated, authority')
    | .error error => (.raised error, authority)
  | .verify handle expected now =>
    let verified := authority.verify host handle expected now
    match verified.1 with
    | .ok grant => (.granted grant, verified.2)
    | .error error => (.raised error, verified.2)
  | .revoke handle revokedBy now =>
    match authority.revoke host handle revokedBy now with
    | .ok (record, authority') => (.decided record, authority')
    | .error error => (.raised error, authority)
  | .decision decisionId =>
    match authority.decision decisionId with
    | .ok record => (.decided record, authority)
    | .error error => (.raised error, authority)
  | .close => (.done, { authority with closed := true })
  | .restart => (.done, { authority with closed := false })

end ApprovalAuthority
end CapabilityCompiler.Actions
