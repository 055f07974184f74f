import CapabilityCompiler.Actions.RuntimeExecutor
import CapabilityCompiler.Foundation.JsonPointer
import CapabilityCompiler.Foundation.Table
import CapabilityCompiler.Providers.HttpOperation

/-! The one request of a mutation: the arguments fill its URL and its body, the Runtime adds its
controls, and nothing is sent before both fit together. -/
namespace CapabilityCompiler.Providers
open Foundation Models Actions

/-- What the provider relies on: the printing of doubles, `str.casefold`, and the schema validator
with the paths of its first error. -/
structure HttpHost where
  printer : Printer
  casefold : String → String
  firstError : Fields → Json → Option (List String × List String)

/-- A compiled operation that mutates. -/
structure ActionOperation extends ExecutableOperation where
  inputSchema : Fields
  outputSchema : Fields
  mutates : http.safety.effect ≠ .read

abbrev Headers := Table String String

structure HttpRequest where
  method : String
  url : List Char
  headers : Headers
  content : Option String
  timeoutSeconds : ℕ

/-- How sending a request, or preparing one, can fail. -/
inductive SendError where
  | unauthorized
  | failed (error : RuntimeError)
  | timedOut
  | broken
  | cancelled

/-- One generation-bound request attempt of the authentication strategy. -/
structure RequestAttempt where
  headers : Headers
  stateKey : String

/-- What one call takes besides its arguments: the origin that is configured, the answers of the
authentication strategy and of the upstream, and the values of the Runtime. -/
structure ActionCall where
  baseUrl : Except RuntimeError (List Char)
  authStateKey : String
  authorize : Except SendError RequestAttempt
  idempotencyKey : String
  concurrencyToken : Json
  respond : HttpRequest → Except SendError Json

namespace HttpProvider

def operationError (operation : ActionOperation) (message : String) : RuntimeError where
  code := "ACC_RUNTIME_HTTP_OPERATION_INVALID"
  status := 500
  message
  details := [("operation", .str operation.id)]

/-- `_request_headers`. -/
def requestHeaders (host : HttpHost) (operation : ActionOperation) (attempt : RequestAttempt) :
    Except RuntimeError Headers :=
  attempt.headers.foldlM (fun headers header =>
      if host.casefold header.1 = "cookie" then
        .error (operationError operation "cookie authentication is not supported by this provider")
      else .ok (Table.put header.1 header.2 headers))
    [("Accept", "application/json")]

/-- The tokens of a pointer; text before its first slash does not count. -/
def pointerTokens (pointer : String) : List String :=
  (Text.splitChars '/' pointer.toList).tail.map fun token =>
    Text.unescapeToken (String.ofList token)

/-- For a valid pointer these are the tokens of RFC 6901. -/
theorem pointerTokens_eq {pointer : String} {tokens : List String}
    (h : JsonPointer.tokens? pointer = some tokens) (hne : tokens ≠ []) :
    pointerTokens pointer = tokens := by
  rcases JsonPointer.tokens?_eq_some h with ⟨-, rfl⟩ | ⟨rest, hrest, -, rfl⟩
  · exact absurd rfl hne
  · rw [pointerTokens, hrest, Text.splitChars, if_pos rfl, List.tail_cons]

/-- Objects on the way are created or gone into; whatever else stands there is a conflict. -/
def injectBodyTokens (operation : ActionOperation) (value : Json) :
    List String → Fields → Except RuntimeError Fields
  | [], _ => .error (operationError operation "Action request body pointer is invalid")
  | [final], body =>
    if (Json.field? final body).isSome then
      .error (operationError operation "Action request body mappings conflict")
    else .ok (setField final value body)
  | token :: rest, body =>
    match Json.field? token body with
    | none => do
      let child ← injectBodyTokens operation value rest []
      return setField token (.obj child) body
    | some (.obj existing) => do
      let child ← injectBodyTokens operation value rest existing
      return setField token (.obj child) body
    | some _ => .error (operationError operation "Action request body mappings conflict")

def injectBodyPointer (operation : ActionOperation) (body : Fields) (pointer : String)
    (value : Json) : Except RuntimeError Fields :=
  injectBodyTokens operation value (pointerTokens pointer) body

def requestBody (operation : ActionOperation) (arguments : Fields) :
    Except RuntimeError (Option Fields) :=
  match operation.http.request with
  | none => .ok none
  | some request => do
    let body ← request.bodyParameters.foldlM (fun body parameter =>
        match Json.field? parameter.2 arguments with
        | none => .ok body
        | some value => injectBodyPointer operation body parameter.1 value)
      ([] : Fields)
    return some body

def injectHeader (host : HttpHost) (operation : ActionOperation) (headers : Headers)
    (name value : String) : Except RuntimeError Headers :=
  if headers.any (fun existing => host.casefold existing.1 = host.casefold name) then
    .error (operationError operation "Runtime-owned Action header conflicts with an existing header")
  else .ok (Table.put name value headers)

def headerScalar (host : HttpHost) (operation : ActionOperation) (value : Json) :
    Except RuntimeError String :=
  match value with
  | .bool b => .ok (if b then "true" else "false")
  | .str s => .ok s
  | .int n => .ok (toString n)
  | .float q => .ok (host.printer.floatRepr q)
  | _ => .error (operationError operation "Runtime-owned Action header value must be scalar")

/-- A request in the making. -/
structure Draft where
  headers : Headers
  body : Option Fields

def injectRuntimeTarget (host : HttpHost) (operation : ActionOperation) (draft : Draft)
    (target : RuntimeInjectionTarget) (value : Json) : Except RuntimeError Draft :=
  match target with
  | .header name => do
    let rendered ← headerScalar host operation value
    let headers ← injectHeader host operation draft.headers name rendered
    return { draft with headers }
  | .body pointer =>
    match draft.body with
    | none =>
      .error (operationError operation "Action body injection requires a declared JSON request")
    | some body => do
      let filled ← injectBodyPointer operation body pointer value
      return { draft with body := some filled }

def injectIdempotency (host : HttpHost) (operation : ActionOperation) (idempotencyKey : String)
    (draft : Draft) : Except RuntimeError Draft :=
  match operation.http.safety.idempotency with
  | .sourceKey target => injectRuntimeTarget host operation draft target (.str idempotencyKey)
  | _ => .ok draft

def injectConcurrency (host : HttpHost) (operation : ActionOperation) (concurrencyToken : Json)
    (draft : Draft) : Except RuntimeError Draft :=
  match operation.http.safety.concurrency with
  | .required _ target =>
    if concurrencyToken = .null then
      .error (operationError operation "required Action concurrency token is unavailable")
    else injectRuntimeTarget host operation draft target concurrencyToken
  | _ => .ok draft

def injectActionControls (host : HttpHost) (operation : ActionOperation) (idempotencyKey : String)
    (concurrencyToken : Json) (draft : Draft) : Except RuntimeError Draft := do
  let keyed ← injectIdempotency host operation idempotencyKey draft
  injectConcurrency host operation concurrencyToken keyed

def encodeRequestBody (host : HttpHost) (operation : ActionOperation) (body : Option Fields) :
    Except RuntimeError (Option String) :=
  match operation.http.request with
  | none => .ok none
  | some request =>
    let encoded := host.printer.dumps ((body.map Json.obj).getD .null)
    if request.maxRequestBytes < encoded.utf8ByteSize then
      .error
        { code := "ACC_RUNTIME_HTTP_REQUEST_TOO_LARGE"
          status := 400
          message := "Action request body exceeded its configured size limit"
          details := [("operation", .str operation.id),
            ("limit_bytes", .int request.maxRequestBytes), ("phase", .str "operation")] }
    else .ok (some encoded)

def validateSchema (host : HttpHost) (operation : ActionOperation) (schema : Fields) (value : Json)
    (inputValue : Bool) : Except RuntimeError Unit :=
  match host.firstError schema value with
  | none => .ok ()
  | some (path, schemaPath) =>
    .error
      { code := if inputValue then "ACC_RUNTIME_INPUT_SCHEMA_INVALID"
          else "ACC_RUNTIME_OUTPUT_SCHEMA_INVALID"
        status := if inputValue then 400 else 502
        message := if inputValue then "operation input does not match its schema"
          else "upstream output does not match the operation schema"
        details := [("operation", .str operation.id), ("path", .arr (path.map .str)),
          ("schema_path", .arr (schemaPath.map .str))] }

/-- `_authentication_attempt`. -/
def authenticationAttempt (operation : ActionOperation) (call : ActionCall) :
    Except SendError RequestAttempt := do
  let attempt ← call.authorize
  if attempt.stateKey ≠ call.authStateKey then
    throw (.failed (operationError operation
      "authentication attempt does not belong to the PrincipalContext"))
  return attempt

/-- The headers and the body that are sent, with the controls in them. -/
def draftRequest (host : HttpHost) (operation : ActionOperation) (arguments : Fields)
    (call : ActionCall) (attempt : RequestAttempt) :
    Except RuntimeError (Headers × Option String) := do
  let headers ← requestHeaders host operation attempt
  let body ← requestBody operation arguments
  let draft ← injectActionControls host operation call.idempotencyKey call.concurrencyToken
    { headers, body }
  let encoded ← encodeRequestBody host operation draft.body
  match encoded with
  | none => return (draft.headers, none)
  | some text =>
    let headers ← injectHeader host operation draft.headers "Content-Type" "application/json"
    return (headers, some text)

/-- An error of the provider ends the call. -/
def failing {α : Type} (result : Except RuntimeError α) : Except SendError α :=
  result.mapError .failed

/-- Everything that happens before the request is sent. -/
def prepareRequest (host : HttpHost) (operation : ActionOperation) (arguments : Fields)
    (call : ActionCall) : Except SendError HttpRequest := do
  failing (validateSchema host operation operation.inputSchema (.obj arguments) true)
  let baseUrl ← failing call.baseUrl
  let url ← failing (requestUrl host.printer baseUrl operation.toExecutableOperation arguments)
  let attempt ← authenticationAttempt operation call
  let (headers, content) ← failing (draftRequest host operation arguments call attempt)
  return {
    method := operation.http.method
    url
    headers
    content
    timeoutSeconds := operation.http.timeoutSeconds }

/-- What comes back is checked against the output schema. -/
def receive (host : HttpHost) (operation : ActionOperation) (answer : Except SendError Json) :
    Except SendError Json :=
  match answer with
  | .error .unauthorized =>
    .error (.failed
      { code := "ACC_RUNTIME_AUTH_UNAUTHORIZED"
        status := 401
        message := "source authentication is unauthorized"
        details := [("operation", .str operation.id)] })
  | .error error => .error error
  | .ok value => do
    failing (validateSchema host operation operation.outputSchema value false)
    return value

/-- The requests that are sent, and the outcome. -/
def executeAction (host : HttpHost) (operation : ActionOperation) (arguments : Fields)
    (call : ActionCall) : List HttpRequest × Except SendError Json :=
  match prepareRequest host operation arguments call with
  | .error error => ([], .error error)
  | .ok request => ([request], receive host operation (call.respond request))

/-- What the caller sees of a failure; `none` is a cancellation. -/
def providerFailure (operation : ActionOperation) : SendError → Option RuntimeError
  | .cancelled => none
  | .failed error => some { error with message := "runtime request failed" }
  | .timedOut => some
      { code := "ACC_RUNTIME_HTTP_TIMEOUT"
        status := 504
        message := "upstream request timed out"
        details := [("operation", .str operation.id), ("phase", .str "operation")] }
  | .unauthorized | .broken => some
      { code := "ACC_RUNTIME_HTTP_REQUEST_FAILED"
        status := 502
        message := "upstream request failed"
        details := [("operation", .str operation.id)] }

def callAction (host : HttpHost) (operation : ActionOperation) (arguments : Fields)
    (call : ActionCall) : List HttpRequest × Except (Option RuntimeError) Json :=
  let (sent, outcome) := executeAction host operation arguments call
  (sent, outcome.mapError (providerFailure operation))

end HttpProvider

end CapabilityCompiler.Providers
