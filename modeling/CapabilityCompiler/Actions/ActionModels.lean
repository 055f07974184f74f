import CapabilityCompiler.Errors
import CapabilityCompiler.Foundation.Text
import CapabilityCompiler.Policies.Enforcer

/-! Immutable models of the state of an action, and the checks on their parts. -/
namespace CapabilityCompiler.Actions
open Foundation

/-- What a call raises: an error of the runtime, or the host's `ValueError`. -/
inductive ActionError where
  | runtime (error : RuntimeError)
  | valueError (message : String)
deriving DecidableEq

/-- The characters the host strips from the ends of a text. -/
def isSpace (c : Char) : Bool :=
  let n := c.toNat
  (9 ≤ n && n ≤ 13) || (28 ≤ n && n ≤ 32) || n = 0x85 || n = 0xa0 || n = 0x1680 ||
    (0x2000 ≤ n && n ≤ 0x200a) || n = 0x2028 || n = 0x2029 || n = 0x202f || n = 0x205f || n = 0x3000

def isControlCharacter (c : Char) : Bool := c.toNat < 32 || (127 ≤ c.toNat && c.toNat < 160)

def exactIdentifier (value fieldName : String) : Except ActionError String :=
  let chars := value.toList
  if chars = [] || chars.head?.any isSpace || chars.getLast?.any isSpace then
    .error (.valueError (fieldName ++ " must be a nonempty exact value"))
  else if chars.any isControlCharacter then
    .error (.valueError (fieldName ++ " cannot contain control or surrogate characters"))
  else .ok value

/-- An identifier that may be absent. -/
def exactIdentifier? (value : Option String) (fieldName : String) :
    Except ActionError (Option String) :=
  match value with
  | none => .ok none
  | some value => (exactIdentifier value fieldName).map some

def isLowerHex (c : Char) : Bool := c.isDigit || ('a' ≤ c && c ≤ 'f')

def validatePackDigest (value : String) : Except ActionError Unit :=
  match Text.dropPrefix? "sha256:".toList value.toList with
  | some hex =>
    if hex.length = 64 && hex.all isLowerHex then .ok ()
    else .error (.valueError "pack_digest must use sha256:<lowercase hex> format")
  | none => .error (.valueError "pack_digest must use sha256:<lowercase hex> format")

/-- `[A-Za-z0-9_-]{43,}` -/
def isHandle (value : String) : Bool :=
  let chars := value.toList
  decide (43 ≤ chars.length) && chars.all fun c => c.isAlphanum || c = '_' || c = '-'

inductive PreparedActionStatus where
  | prepared
  | approved
  | committing
  | succeeded
  | failed
  | outcomeUnknown
  | expired
deriving DecidableEq

/-- The binding metadata of an action under the digest of its opaque handle. -/
@[ext] structure PreparedActionRecord where
  handleDigest : String
  capabilityId : String
  principalDigest : String
  sessionDigest : Option String
  packDigest : String
  inputDigest : String
  previewDigest : String
  createdAt : ℚ
  expiresAt : ℚ
  status : PreparedActionStatus
  lifetime : createdAt < expiresAt

instance : DecidableEq PreparedActionRecord := fun _ _ => decidable_of_iff' _ PreparedActionRecord.ext_iff

/-- The lifetime of the examples. -/
theorem minute_pos : (0 : ℚ) < 60 := by norm_num

/-- A record with its payloads. -/
structure PreparedActionState where
  record : PreparedActionRecord
  inputValue : Json
  previewValue : Json
  resultValue : Json := .null
deriving DecidableEq

/-- The clock and the hashing of the host. The sum of a reading and a lifetime is rounded as the
host rounds it. -/
structure Clockwork where
  digest : Policies.Digest
  later : ℚ → ℕ → ℚ

/-- The digest of a canonical JSON text. -/
def Clockwork.jsonDigest (host : Clockwork) (value : Json) : String :=
  host.digest.sha256 (host.digest.dumps value)

/-- Exact sums, and texts that are their own digests. -/
def Clockwork.plain : Clockwork where
  digest := { floatRepr := fun _ => "", sha256 := id }
  later := fun now seconds => now + seconds

end CapabilityCompiler.Actions
