import CapabilityCompiler.Actions.ActionModels
import CapabilityCompiler.Foundation.MacChain
import CapabilityCompiler.Foundation.Machine

/-! The authenticated audit journal: events as rows of a database that is verified as a whole
before every append. -/
namespace CapabilityCompiler.Actions
open Foundation

/-! Events. -/

inductive AuditLifecycle where
  | prepare
  | approve
  | commit
  | status
deriving DecidableEq

inductive AuditCategory where
  | started
  | success
  | replayed
  | denied
  | invalid
  | internal
  | cancelled
  | outcomeUnknown
deriving DecidableEq

def lifecycleNames : List (String × AuditLifecycle) :=
  [("prepare", .prepare), ("approve", .approve), ("commit", .commit), ("status", .status)]

def categoryNames : List (String × AuditCategory) :=
  [("started", .started), ("success", .success), ("replayed", .replayed), ("denied", .denied),
    ("invalid", .invalid), ("internal", .internal), ("cancelled", .cancelled),
    ("outcome_unknown", .outcomeUnknown)]

def statusNames : List (String × PreparedActionStatus) :=
  [("prepared", .prepared), ("approved", .approved), ("committing", .committing),
    ("succeeded", .succeeded), ("failed", .failed), ("outcome_unknown", .outcomeUnknown),
    ("expired", .expired)]

def nameOf {α : Type} [DecidableEq α] (names : List (String × α)) (value : α) : String :=
  ((names.find? (·.2 = value)).map Prod.fst).getD ""

def valueOf {α : Type} (names : List (String × α)) (name : String) : Option α :=
  (names.find? (·.1 = name)).map Prod.snd

/-- A time is an integer or a finite double. -/
inductive AuditTime where
  | int (n : ℤ)
  | float (q : ℚ)
deriving DecidableEq

def AuditTime.value : AuditTime → ℚ
  | .int n => n
  | .float q => q

def AuditTime.json : AuditTime → Json
  | .int n => .int n
  | .float q => .float q

structure AuditFields where
  lifecycle : AuditLifecycle
  capabilityId : String
  status : Option PreparedActionStatus
  resultCategory : AuditCategory
  packDigest : String
  principalDigest : String
  sessionDigest : Option String
  eventId : String
  occurredAt : AuditTime
  actionDigest : Option String
  approvalDecisionId : Option String
deriving DecidableEq

def isDigest (value : String) : Bool := value.toList.length = 64 && value.toList.all isLowerHex

def isOk {ε α : Type} : Except ε α → Bool
  | .ok _ => true
  | .error _ => false

/-- A completed event has a status. -/
def AuditCategory.completed (category : AuditCategory) : Bool :=
  category = .success || category = .replayed || category = .outcomeUnknown

def AuditFields.valid (fields : AuditFields) : Bool :=
  isOk (exactIdentifier fields.capabilityId "capability_id") &&
  !(fields.resultCategory = .started && fields.status.isSome) &&
  !(fields.resultCategory.completed && fields.status.isNone) &&
  isOk (validatePackDigest fields.packDigest) &&
  isDigest fields.principalDigest && fields.sessionDigest.all isDigest &&
  isDigest fields.eventId && fields.actionDigest.all isDigest &&
  fields.approvalDecisionId.all (fun decision =>
    isOk (exactIdentifier decision "approval_decision_id") &&
      fields.lifecycle = .approve && fields.resultCategory = .success) &&
  !(fields.actionDigest.isNone && fields.lifecycle ≠ .prepare) &&
  !(fields.lifecycle = .prepare && fields.resultCategory.completed && fields.actionDigest.isNone)

/-- One event, which cannot contain business material. -/
structure AuditEvent where
  fields : AuditFields
  valid : fields.valid = true
deriving DecidableEq

def AuditEvent.build? (fields : AuditFields) : Option AuditEvent :=
  if h : fields.valid = true then some ⟨fields, h⟩ else none

def optionalText : Option String → Json
  | none => .null
  | some text => .str text

def AuditEvent.toDict (event : AuditEvent) : Fields :=
  let fields := event.fields
  [("event_id", .str fields.eventId), ("occurred_at", fields.occurredAt.json),
    ("lifecycle", .str (nameOf lifecycleNames fields.lifecycle)),
    ("capability_id", .str fields.capabilityId),
    ("status", optionalText (fields.status.map (nameOf statusNames))),
    ("result_category", .str (nameOf categoryNames fields.resultCategory)),
    ("pack_digest", .str fields.packDigest), ("principal_digest", .str fields.principalDigest),
    ("session_digest", optionalText fields.sessionDigest),
    ("action_digest", optionalText fields.actionDigest),
    ("approval_decision_id", optionalText fields.approvalDecisionId)]

def eventKeys : List String :=
  ["event_id", "occurred_at", "lifecycle", "capability_id", "status", "result_category",
    "pack_digest", "principal_digest", "session_digest", "action_digest", "approval_decision_id"]

/-! The host. -/

/-- What the journal uses of its host: JSON texts, hashing, the MAC under the integrity key of the
material of an event, and the rounding of a number to a `REAL` column. -/
structure AuditHost (μ : Type) extends Policies.Digest where
  loads : String → Option Json
  hmac : ℕ → String → String → μ → μ
  zeroMac : μ
  real : ℚ → ℚ

section Journal
variable {μ : Type} (host : AuditHost μ)

/-- `canonical_json_bytes(event.to_dict())` -/
def encodeEvent (event : AuditEvent) : String := host.dumps (.obj event.toDict)

def readText (fields : Fields) (key : String) : Option String :=
  match Json.field? key fields with
  | some (.str text) => some text
  | _ => none

def readOptional (fields : Fields) (key : String) : Option (Option String) :=
  match Json.field? key fields with
  | some .null => some none
  | some (.str text) => some (some text)
  | _ => none

def readTime (fields : Fields) (key : String) : Option AuditTime :=
  match Json.field? key fields with
  | some (.int n) => some (.int n)
  | some (.float q) => some (.float q)
  | _ => none

def readStatus (fields : Fields) : Option (Option PreparedActionStatus) :=
  (readOptional fields "status").bind fun status => match status with
    | none => some none
    | some name => (valueOf statusNames name).map some

/-- The event of a document that has the fields of an event. -/
def eventOfDict (fields : Fields) : Option AuditEvent := do
  let eventId ← readText fields "event_id"
  let occurredAt ← readTime fields "occurred_at"
  let lifecycle ← (readText fields "lifecycle").bind (valueOf lifecycleNames)
  let capabilityId ← readText fields "capability_id"
  let status ← readStatus fields
  let resultCategory ← (readText fields "result_category").bind (valueOf categoryNames)
  let packDigest ← readText fields "pack_digest"
  let principalDigest ← readText fields "principal_digest"
  let sessionDigest ← readOptional fields "session_digest"
  let actionDigest ← readOptional fields "action_digest"
  let approvalDecisionId ← readOptional fields "approval_decision_id"
  AuditEvent.build?
    { lifecycle, capabilityId, status, resultCategory, packDigest, principalDigest, sessionDigest
      eventId, occurredAt, actionDigest, approvalDecisionId }

def hasEventKeys (fields : Fields) : Bool :=
  fields.all (fun field => eventKeys.contains field.1) &&
    eventKeys.all fun key => (Json.field? key fields).isSome

/-- A payload is the canonical text of its event. -/
def decodeEvent (payload : String) : Option AuditEvent :=
  match host.loads payload with
  | some (.obj fields) =>
    if hasEventKeys fields then
      (eventOfDict fields).bind fun event =>
        if encodeEvent host event = payload then some event else none
    else none
  | _ => none

/-! The database. -/

structure AuditRow (μ : Type) where
  sequence : ℤ
  eventId : String
  occurredAt : ℚ
  eventPayload : String
  previousMac : μ
  eventMac : μ
deriving DecidableEq

/-- The rows in the order of their sequence numbers, and the counter that numbers the rows. -/
structure Journal (μ : Type) where
  rows : List (AuditRow μ) := []
  counter : ℕ := 0

def eventMac (sequence : ℕ) (eventId payload : String) (previous : μ) : μ :=
  host.hmac sequence eventId (host.sha256 payload) previous

variable [DecidableEq μ]

def verifyRows : ℕ → μ → List (AuditRow μ) → Except String (ℕ × μ)
  | expected, previous, [] => .ok (expected - 1, previous)
  | expected, previous, row :: rest =>
    if row.sequence ≠ expected ∨ row.previousMac ≠ previous ∨
        row.eventMac ≠ eventMac host expected row.eventId row.eventPayload previous then
      .error "Action audit chain integrity check failed"
    else match decodeEvent host row.eventPayload with
      | none => .error "Action audit event payload is invalid"
      | some event =>
        if event.fields.eventId ≠ row.eventId ∨ event.fields.occurredAt.value ≠ row.occurredAt then
          .error "Action audit row integrity check failed"
        else verifyRows (expected + 1) row.eventMac rest

/-- The number of rows and the last MAC of a journal that is a chain of events. -/
def verifyChain (maxEvents : ℕ) (journal : Journal μ) : Except String (ℕ × μ) :=
  if maxEvents < journal.rows.length then
    .error "Action audit journal exceeds its configured bound"
  else verifyRows host 1 host.zeroMac journal.rows

/-- The number that the table gives to its next row. -/
def Journal.nextSequence (journal : Journal μ) : ℤ :=
  journal.rows.foldl (fun largest row => max largest row.sequence) (journal.counter : ℤ) + 1

/-- The chain is verified and the event is inserted in one transaction. -/
def appendSync (maxEvents : ℕ) (event : AuditEvent) (journal : Journal μ) :
    Except String (Journal μ) :=
  match verifyChain host maxEvents journal with
  | .error message => .error message
  | .ok (sequence, previous) =>
    let payload := encodeEvent host event
    if maxEvents ≤ sequence then .error "Action audit journal is full"
    else if journal.rows.any fun row => row.eventId = event.fields.eventId then
      .error "Durable Action audit append failed"
    else
      let row : AuditRow μ :=
        { sequence := journal.nextSequence
          eventId := event.fields.eventId
          occurredAt := host.real event.fields.occurredAt.value
          eventPayload := payload
          previousMac := previous
          eventMac := eventMac host (sequence + 1) event.fields.eventId payload previous }
      .ok { rows := journal.rows ++ [row], counter := journal.nextSequence.toNat }

/-! Runs. -/

/-- A process appends an event under its bound, or the database is edited by someone else. -/
inductive AuditStep (μ : Type) where
  | append (maxEvents : ℕ) (event : AuditEvent)
  | replace (journal : Journal μ)

/-- The journal with the histories it had: the events in it after each append. -/
structure AuditState (μ : Type) where
  journal : Journal μ := {}
  histories : List (List AuditEvent) := []

def Journal.events (journal : Journal μ) : List AuditEvent :=
  journal.rows.filterMap fun row => decodeEvent host row.eventPayload

def auditStep (state : AuditState μ) : AuditStep μ → Except String Unit × AuditState μ
  | .append maxEvents event => match appendSync host maxEvents event state.journal with
    | .error message => (.error message, state)
    | .ok journal => (.ok (),
        { journal, histories := state.histories ++ [state.journal.events host ++ [event]] })
  | .replace journal => (.ok (), { state with journal })

end Journal
end CapabilityCompiler.Actions
