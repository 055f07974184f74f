import Mathlib
import CapabilityCompiler.Actions.ActionStore
import CapabilityCompiler.Actions.AuditJournal

/-! The rows of the action store over a database: their columns, their MAC, and how they are
read. -/
namespace CapabilityCompiler.Actions
open Foundation

/-- A double that is a number. -/
inductive Double where
  | finite (q : ℚ)
  | infinite (negative : Bool)
deriving DecidableEq

/-- What a column may hold. -/
inductive ColumnValue where
  | null
  | integer (n : ℤ)
  | real (value : Double)
  | text (text : String)
  | blob (bytes : ByteArray)
deriving DecidableEq

/-- The host of a store with a database. Bytes are hashed, and authenticated under the integrity
key of the store. -/
structure ActionRowHost (μ : Type) extends StoreHost where
  loads : ByteArray → Option Json
  hashBytes : ByteArray → String
  hmac : ByteArray → μ
  hash_toUTF8 : ∀ text : String, hashBytes text.toUTF8 = digest.sha256 text

/-- The columns before the MAC; the table is strict, so that each has its type. -/
structure ActionColumns where
  handleDigest : String
  capabilityId : String
  principalDigest : String
  sessionDigest : Option String
  packDigest : String
  inputDigest : String
  previewDigest : String
  createdAt : Double
  expiresAt : Double
  status : String
  inputPayload : ByteArray
  previewPayload : ByteArray
  resultPayload : Option ByteArray
deriving DecidableEq

def ColumnValue.ofText : Option String → ColumnValue
  | none => .null
  | some value => .text value

def ColumnValue.ofBlob : Option ByteArray → ColumnValue
  | none => .null
  | some value => .blob value

/-- The columns in the order of the table. -/
def ActionColumns.values (columns : ActionColumns) : List ColumnValue :=
  [.text columns.handleDigest, .text columns.capabilityId, .text columns.principalDigest,
    .ofText columns.sessionDigest, .text columns.packDigest, .text columns.inputDigest,
    .text columns.previewDigest, .real columns.createdAt, .real columns.expiresAt,
    .text columns.status, .blob columns.inputPayload, .blob columns.previewPayload,
    .ofBlob columns.resultPayload]

structure ActionRow (μ : Type) where
  columns : ActionColumns
  rowMac : μ

/-- A row that has been verified and read, with the bytes of its payloads. -/
structure DecodedRow where
  record : PreparedActionRecord
  inputBytes : ByteArray
  previewBytes : ByteArray
  resultBytes : Option ByteArray

def rowValues (record : PreparedActionRecord) (inputBytes previewBytes : ByteArray)
    (resultBytes : Option ByteArray) : ActionColumns where
  handleDigest := record.handleDigest
  capabilityId := record.capabilityId
  principalDigest := record.principalDigest
  sessionDigest := record.sessionDigest
  packDigest := record.packDigest
  inputDigest := record.inputDigest
  previewDigest := record.previewDigest
  createdAt := .finite record.createdAt
  expiresAt := .finite record.expiresAt
  status := nameOf statusNames record.status
  inputPayload := inputBytes
  previewPayload := previewBytes
  resultPayload := resultBytes

/-- The record of a row, if it passes the checks of its constructor. -/
def recordOf (columns : ActionColumns) : Option PreparedActionRecord :=
  match columns.createdAt, columns.expiresAt, valueOf statusNames columns.status with
  | .finite createdAt, .finite expiresAt, some status =>
    if isDigest columns.handleDigest &&
        isOk (exactIdentifier columns.capabilityId "capability_id") &&
        isDigest columns.principalDigest && columns.sessionDigest.all isDigest &&
        isOk (validatePackDigest columns.packDigest) && isDigest columns.inputDigest &&
        isDigest columns.previewDigest then
      if h : createdAt < expiresAt then some
        { handleDigest := columns.handleDigest
          capabilityId := columns.capabilityId
          principalDigest := columns.principalDigest
          sessionDigest := columns.sessionDigest
          packDigest := columns.packDigest
          inputDigest := columns.inputDigest
          previewDigest := columns.previewDigest
          createdAt := createdAt
          expiresAt := expiresAt
          status := status
          lifetime := h }
      else none
    else none
  | _, _, _ => none

def rowIntegrity : ActionError := conflict "Action Store row integrity check failed"

def notCanonical : ActionError :=
  .valueError "Action values must contain finite canonical JSON"

namespace ActionRowHost
variable {μ : Type} (host : ActionRowHost μ)

def canonicalBytes (value : Json) : ByteArray := (host.digest.dumps value).toUTF8

/-- What the MAC covers of a column; an infinite double has no JSON. -/
def macValue : ColumnValue → Option Json
  | .null => some .null
  | .integer n => some (.int n)
  | .real (.finite q) => some (.float q)
  | .real (.infinite _) => none
  | .text text => some (.str text)
  | .blob bytes =>
    some (.obj [("sha256", .str (host.hashBytes bytes)), ("length", .int bytes.size)])

/-- The document whose canonical bytes the MAC covers. -/
def macDocument (values : List ColumnValue) : Option Json :=
  (values.mapM host.macValue).map .arr

def rowMac (values : List ColumnValue) : Option μ :=
  (host.macDocument values).map fun document => host.hmac (host.canonicalBytes document)

/-- The row that is written for an action. -/
def encodeRow (stored : StoredAction) : Option (ActionRow μ) :=
  let columns := rowValues stored.record (host.canonicalBytes stored.inputValue)
    (host.canonicalBytes stored.previewValue) (stored.resultValue.map host.canonicalBytes)
  (host.rowMac columns.values).map fun mac => ⟨columns, mac⟩

/-- A payload that is a canonical text. -/
def isCanonical (bytes : ByteArray) : Bool :=
  (host.loads bytes).any fun value => host.canonicalBytes value = bytes

/-- The checks on a row whose MAC is right. -/
def readRow (columns : ActionColumns) : Option DecodedRow :=
  match recordOf columns with
  | none => none
  | some record =>
    if host.isCanonical columns.inputPayload && host.isCanonical columns.previewPayload &&
        columns.resultPayload.all host.isCanonical &&
        decide (host.hashBytes columns.inputPayload = columns.inputDigest) &&
        decide (host.hashBytes columns.previewPayload = columns.previewDigest) then
      some ⟨record, columns.inputPayload, columns.previewPayload, columns.resultPayload⟩
    else none

variable [DecidableEq μ]

def verifyRow (row : ActionRow μ) : Except ActionError Unit :=
  match host.rowMac row.columns.values with
  | none => .error notCanonical
  | some mac => if row.rowMac = mac then .ok () else .error rowIntegrity

def decodeRow (row : ActionRow μ) : Except ActionError DecodedRow :=
  match host.verifyRow row with
  | .error error => .error error
  | .ok _ => match host.readRow row.columns with
    | none => .error rowIntegrity
    | some decoded => .ok decoded

end ActionRowHost
end CapabilityCompiler.Actions
