import CapabilityCompiler.Foundation.Fallible
import CapabilityCompiler.Foundation.JsonPointer
import CapabilityCompiler.Foundation.Table

/-! The middleware in front of the gateway: it checks the headers of a request, buffers its body and
replays it to the application as one message. -/
namespace CapabilityCompiler.Gateway
open Foundation

abbrev Bytes := List UInt8

structure RequestScope where
  type : String
  path : String
  headers : List (Bytes × Bytes)

/-- A message of the server; a body or a flag that is left out has its default. -/
structure ReceiveMessage where
  type : String
  body : Option Bytes
  moreBody : Option Bool
deriving DecidableEq

namespace ReceiveMessage

def isRequest (message : ReceiveMessage) : Bool := message.type == "http.request"

def chunk (message : ReceiveMessage) : Bytes := message.body.getD []

def hasMore (message : ReceiveMessage) : Bool := message.moreBody.getD false

end ReceiveMessage

structure RequestSecurityMiddleware where
  allowedHosts : List String
  allowedOrigins : List String
  maxBodySize : ℕ
  pathBodyLimits : Table String ℕ
  hosts_ne : allowedHosts ≠ []
  size_pos : 0 < maxBodySize
  limits_le : ∀ entry ∈ pathBodyLimits, 0 < entry.2 ∧ entry.2 ≤ maxBodySize

/-! Headers. -/

def lowerByte (byte : UInt8) : UInt8 := if 65 ≤ byte ∧ byte ≤ 90 then byte + 32 else byte

def asciiBytes (text : String) : Bytes := text.toList.map fun c => UInt8.ofNat c.toNat

def headerValues (headers : List (Bytes × Bytes)) (name : String) : List Bytes :=
  (headers.filter fun header => header.1.map lowerByte == asciiBytes name).map Prod.snd

/-- A value of visible ASCII characters. -/
def decodedHeader (value : Bytes) : Option String :=
  if value ≠ [] ∧ value.all (fun byte => decide (0x21 ≤ byte ∧ byte ≤ 0x7e)) then
    some (String.ofList (value.map fun byte => Char.ofNat byte.toNat))
  else none

/-- The most digits that `int` reads. -/
def maxLengthDigits : ℕ := 4300

def strictContentLength (value : Bytes) : Option ℕ :=
  (decodedHeader value).bind fun decoded =>
    if decoded.toList.all JsonPointer.isDigit ∧ decoded.length ≤ maxLengthDigits then
      some (JsonPointer.digits decoded.toList)
    else none

/-- What is sent instead of calling the application. -/
structure SafeError where
  statusCode : ℕ
  code : String
deriving DecidableEq

def refuse {α : Type} (statusCode : ℕ) (code : String) : Except SafeError α :=
  .error ⟨statusCode, code⟩

namespace RequestSecurityMiddleware
variable (middleware : RequestSecurityMiddleware)

def bodyLimit (scope : RequestScope) : ℕ :=
  (middleware.pathBodyLimits.get? scope.path).getD middleware.maxBodySize

def checkHost (scope : RequestScope) : Except SafeError Unit :=
  match headerValues scope.headers "host" with
  | [host] =>
    if (decodedHeader host).any (middleware.allowedHosts.contains ·) then .ok ()
    else refuse 421 "invalid_host"
  | _ => refuse 421 "invalid_host"

def checkOrigin (scope : RequestScope) : Except SafeError Unit :=
  match headerValues scope.headers "origin" with
  | [] => .ok ()
  | [origin] =>
    if (decodedHeader origin).any (middleware.allowedOrigins.contains ·) then .ok ()
    else refuse 403 "invalid_origin"
  | _ => refuse 403 "invalid_origin"

def checkFraming (scope : RequestScope) : Except SafeError Unit :=
  let contentLengths := headerValues scope.headers "content-length"
  let transferEncodings := headerValues scope.headers "transfer-encoding"
  if 1 < contentLengths.length ∨ 1 < transferEncodings.length then
    refuse 400 "invalid_request_framing"
  else if contentLengths ≠ [] ∧ transferEncodings ≠ [] then refuse 400 "invalid_request_framing"
  else if transferEncodings.any fun encoding =>
      ((decodedHeader encoding).getD "").toLower != "chunked" then
    refuse 400 "invalid_request_framing"
  else .ok ()

/-- The length that a request declares for its body. -/
def declaredLength (scope : RequestScope) : Except SafeError (Option ℕ) :=
  match headerValues scope.headers "content-length" with
  | [] => .ok none
  | contentLength :: _ =>
    match strictContentLength contentLength with
    | none => refuse 400 "invalid_content_length"
    | some declared =>
      if middleware.bodyLimit scope < declared then refuse 413 "request_body_too_large"
      else .ok (some declared)

def checkAuthorization (scope : RequestScope) : Except SafeError Unit :=
  if 1 < (headerValues scope.headers "authorization").length then
    refuse 400 "invalid_authorization_header"
  else .ok ()

/-- The checks of the headers; what they let through may declare a length. -/
def checkHeaders (scope : RequestScope) : Except SafeError (Option ℕ) := do
  middleware.checkHost scope
  middleware.checkOrigin scope
  checkFraming scope
  let declared ← middleware.declaredLength scope
  checkAuthorization scope
  return declared

/-! The body. -/

/-- How the loop over the messages of the server ends. -/
inductive Buffering where
  | waiting
  | tooLarge
  | ended (buffered : Bytes) (cached incoming : List ReceiveMessage)

/-- A message of another type is kept for the application. -/
def buffer (limit : ℕ) : Bytes → List ReceiveMessage → Buffering
  | _, [] => .waiting
  | buffered, message :: incoming =>
    if !message.isRequest then .ended buffered [message] incoming
    else if limit < buffered.length + message.chunk.length then .tooLarge
    else if message.hasMore then buffer limit (buffered ++ message.chunk) incoming
    else .ended (buffered ++ message.chunk) [] incoming

/-- What the application receives from: the messages that are kept, then those of the server. -/
structure Replay where
  cached : List ReceiveMessage
  incoming : List ReceiveMessage
deriving DecidableEq

inductive Handling where
  | waiting
  | error (error : SafeError)
  | unchecked (receive : Replay)
  | app (receive : Replay)
deriving DecidableEq

def completeBody (body : Bytes) : ReceiveMessage := ⟨"http.request", some body, some false⟩

def handle (scope : RequestScope) (incoming : List ReceiveMessage) : Handling :=
  if scope.type ≠ "http" then .unchecked ⟨[], incoming⟩
  else match middleware.checkHeaders scope with
    | .error error => .error error
    | .ok declared =>
      match buffer (middleware.bodyLimit scope) [] incoming with
      | .waiting => .waiting
      | .tooLarge => .error ⟨413, "request_body_too_large"⟩
      | .ended buffered cached incoming =>
        if declared.any (· ≠ buffered.length) then .error ⟨400, "content_length_mismatch"⟩
        else .app ⟨completeBody buffered :: cached, incoming⟩

end RequestSecurityMiddleware

namespace RequestSecurityMiddleware.Replay

/-- One call of the replaying function; it blocks when nothing has arrived. -/
def receive : Replay → Option (ReceiveMessage × Replay)
  | ⟨message :: cached, incoming⟩ => some (message, ⟨cached, incoming⟩)
  | ⟨[], message :: incoming⟩ => some (message, ⟨[], incoming⟩)
  | ⟨[], []⟩ => none

/-- What a number of calls returns. -/
def received : ℕ → Replay → List ReceiveMessage
  | 0, _ => []
  | calls + 1, replay =>
    match replay.receive with
    | some (message, next) => message :: received calls next
    | none => []

/-- The calls return what is kept, then what arrives: in order, unchanged and once. -/
theorem received_eq (calls : ℕ) (replay : Replay) :
    replay.received calls = (replay.cached ++ replay.incoming).take calls := by
  induction calls generalizing replay with
  | zero => rfl
  | succ calls ih =>
    obtain ⟨cached, incoming⟩ := replay
    cases cached with
    | cons message cached =>
      show message :: received calls ⟨cached, incoming⟩ = _
      rw [ih]
      rfl
    | nil =>
      cases incoming with
      | nil => rfl
      | cons message incoming =>
        show message :: received calls ⟨[], incoming⟩ = _
        rw [ih]
        rfl

end RequestSecurityMiddleware.Replay

namespace RequestSecurityMiddleware

/-- A message that ends a body, as the application understands it. -/
def Final (message : ReceiveMessage) : Prop :=
  message.isRequest = true ∧ message.hasMore = false

/-- A message with a chunk that is not the last one. -/
def Continues (message : ReceiveMessage) : Prop :=
  message.isRequest = true ∧ message.hasMore = true

/-- The chunks of messages in order. -/
def bodyOf (messages : List ReceiveMessage) : Bytes := messages.flatMap (·.chunk)

/-- How a loop that has ended went: over chunks to the last one, or to a message of another type. -/
inductive Ended (limit : ℕ) (buffered : Bytes) (messages : List ReceiveMessage) :
    Bytes → List ReceiveMessage → List ReceiveMessage → Prop
  | final {chunks rest : List ReceiveMessage} {last : ReceiveMessage}
      (hmessages : messages = chunks ++ last :: rest) (hchunks : ∀ chunk ∈ chunks, Continues chunk)
      (hlast : Final last)
      (hlimit : (buffered ++ bodyOf (chunks ++ [last])).length ≤ limit) :
      Ended limit buffered messages (buffered ++ bodyOf (chunks ++ [last])) [] rest
  | interrupted {chunks rest : List ReceiveMessage} {other : ReceiveMessage}
      (hmessages : messages = chunks ++ other :: rest) (hchunks : ∀ chunk ∈ chunks, Continues chunk)
      (hother : other.isRequest = false) (hlimit : (buffered ++ bodyOf chunks).length ≤ limit) :
      Ended limit buffered messages (buffered ++ bodyOf chunks) [other] rest

theorem Ended.cons {limit : ℕ} {buffered body : Bytes} {message : ReceiveMessage}
    {messages cached rest : List ReceiveMessage} (hmessage : Continues message)
    (h : Ended limit (buffered ++ message.chunk) messages body cached rest) :
    Ended limit buffered (message :: messages) body cached rest := by
  have hbody : ∀ others, buffered ++ message.chunk ++ bodyOf others =
      buffered ++ bodyOf (message :: others) := by
    intro others
    rw [List.append_assoc]
    rfl
  cases h with
  | @final chunks rest last hmessages hchunks hlast hlimit =>
    rw [hbody] at hlimit ⊢
    have hchunks := List.forall_mem_cons.mpr ⟨hmessage, hchunks⟩
    exact @Ended.final limit buffered _ (message :: chunks) rest last (by rw [hmessages]; rfl)
      hchunks hlast hlimit
  | @interrupted chunks rest other hmessages hchunks hother hlimit =>
    rw [hbody] at hlimit ⊢
    have hchunks := List.forall_mem_cons.mpr ⟨hmessage, hchunks⟩
    exact .interrupted (by rw [hmessages]; rfl) hchunks hother hlimit

theorem ended_of_buffer {limit : ℕ} {buffered body : Bytes}
    {messages cached rest : List ReceiveMessage} (hlimit : buffered.length ≤ limit)
    (h : buffer limit buffered messages = .ended body cached rest) :
    Ended limit buffered messages body cached rest := by
  induction messages generalizing buffered with
  | nil => exact absurd h (by simp [buffer])
  | cons message messages ih =>
    unfold buffer at h
    split_ifs at h with hother hlarge hmore
    · obtain ⟨rfl, rfl, rfl⟩ := Buffering.ended.inj h
      have hbody : buffered ++ bodyOf [] = buffered := List.append_nil _
      have hended := @Ended.interrupted limit buffered (message :: messages) [] messages message rfl
        (by simp) (by simpa using hother) (by rwa [hbody])
      rwa [hbody] at hended
    · have hrequest : message.isRequest = true := by simpa using hother
      exact (ih (by rw [List.length_append]; omega) h).cons ⟨hrequest, hmore⟩
    · obtain ⟨rfl, rfl, rfl⟩ := Buffering.ended.inj h
      have hbody : bodyOf ([] ++ [message]) = message.chunk := by simp [bodyOf]
      have hlast : Final message := ⟨by simpa using hother, by simpa using hmore⟩
      have hended := @Ended.final limit buffered (message :: messages) [] messages message rfl
        (by simp) hlast (by rw [hbody, List.length_append]; omega)
      rwa [hbody] at hended

/-- Chunks that fit are read up to a message of another type. -/
theorem buffer_of_interrupted {limit : ℕ} {buffered : Bytes} {chunks rest : List ReceiveMessage}
    {other : ReceiveMessage} (hchunks : ∀ chunk ∈ chunks, Continues chunk)
    (hother : other.isRequest = false) (hlimit : (buffered ++ bodyOf chunks).length ≤ limit) :
    buffer limit buffered (chunks ++ other :: rest) =
      .ended (buffered ++ bodyOf chunks) [other] rest := by
  induction chunks generalizing buffered with
  | nil => simp [buffer, hother, bodyOf]
  | cons chunk chunks ih =>
    obtain ⟨hchunk, hchunks⟩ := List.forall_mem_cons.mp hchunks
    have hbody : buffered ++ bodyOf (chunk :: chunks) =
        buffered ++ chunk.chunk ++ bodyOf chunks := by
      rw [List.append_assoc]
      rfl
    rw [hbody] at hlimit ⊢
    have hfits : ¬ limit < buffered.length + chunk.chunk.length := by
      rw [List.length_append, List.length_append] at hlimit
      omega
    rw [List.cons_append, buffer, hchunk.1, hchunk.2, if_neg (by simp), if_neg hfits, if_pos rfl]
    exact ih hchunks hlimit

/-! All or nothing. -/

variable (middleware : RequestSecurityMiddleware) (scope : RequestScope)
  (messages : List ReceiveMessage)

/-- The length in the header of a request, if it has one. -/
def contentLength : Option ℕ :=
  (headerValues scope.headers "content-length").head?.bind strictContentLength

/-- Whenever the application receives a complete body, it is the chunks up to the last one, within the
limit and as long as declared, and the messages behind it follow as they are. -/
def AllOrNothing : Prop :=
  ∀ replay, middleware.handle scope messages = .app replay →
    ∀ calls first later, replay.received calls = first :: later → Final first →
      ∃ chunks last rest, messages = chunks ++ last :: rest ∧
        (∀ chunk ∈ chunks, Continues chunk) ∧ Final last ∧
        first.chunk = bodyOf (chunks ++ [last]) ∧
        first.chunk.length ≤ middleware.bodyLimit scope ∧
        (∀ declared, contentLength scope = some declared → first.chunk.length = declared) ∧
        later = rest.take (calls - 1)

/-- The headers are let through, and before the last chunk a message of another type comes, after
chunks within the limit and of the declared length, if there is one. -/
def BrokenOff : Prop :=
  scope.type = "http" ∧ ∃ declared, middleware.checkHeaders scope = .ok declared ∧
    ∃ chunks other rest, messages = chunks ++ other :: rest ∧
      (∀ chunk ∈ chunks, Continues chunk) ∧ other.isRequest = false ∧
      (bodyOf chunks).length ≤ middleware.bodyLimit scope ∧
      declared.any (· ≠ (bodyOf chunks).length) = false

variable {middleware scope messages}

theorem declaredLength_eq {declared : Option ℕ} (h : middleware.declaredLength scope = .ok declared) :
    declared = contentLength scope := by
  unfold declaredLength at h
  unfold contentLength
  cases hvalues : headerValues scope.headers "content-length" with
  | nil =>
    rw [hvalues] at h
    exact (Except.ok.inj h).symm
  | cons value others =>
    simp only [hvalues] at h
    rw [List.head?_cons, Option.bind_some]
    cases hlength : strictContentLength value with
    | none =>
      rw [hlength] at h
      exact absurd h (by simp [refuse])
    | some length =>
      simp only [hlength] at h
      split_ifs at h with hlarge
      · exact absurd h (by simp [refuse])
      · exact (Except.ok.inj h).symm

theorem checkHeaders_eq {declared : Option ℕ} (h : middleware.checkHeaders scope = .ok declared) :
    declared = contentLength scope := by
  unfold checkHeaders at h
  obtain ⟨_, -, h⟩ := exists_of_bind h
  obtain ⟨_, -, h⟩ := exists_of_bind h
  obtain ⟨_, -, h⟩ := exists_of_bind h
  obtain ⟨length, hlength, h⟩ := exists_of_bind h
  obtain ⟨_, -, h⟩ := exists_of_bind h
  obtain rfl := Except.ok.inj h
  exact declaredLength_eq hlength

/-- What is handed to the application: the buffered body, then what is kept and what arrives. -/
theorem handle_eq_app {replay : Replay} (h : middleware.handle scope messages = .app replay) :
    scope.type = "http" ∧ ∃ declared body cached rest,
      middleware.checkHeaders scope = .ok declared ∧
      Ended (middleware.bodyLimit scope) [] messages body cached rest ∧
      declared.any (· ≠ body.length) = false ∧ replay = ⟨completeBody body :: cached, rest⟩ := by
  unfold handle at h
  split_ifs at h with htype
  refine ⟨by simpa using htype, ?_⟩
  cases hcheck : middleware.checkHeaders scope with
  | error error =>
    rw [hcheck] at h
    cases h
  | ok declared =>
    simp only [hcheck] at h
    cases hbuffer : buffer (middleware.bodyLimit scope) [] messages with
    | waiting =>
      rw [hbuffer] at h
      cases h
    | tooLarge =>
      rw [hbuffer] at h
      cases h
    | ended body cached rest =>
      simp only [hbuffer] at h
      split_ifs at h with hmismatch
      have hended := ended_of_buffer (by simp) hbuffer
      exact ⟨declared, body, cached, rest, rfl, hended, by simpa using hmismatch,
        (Handling.app.inj h).symm⟩

/-- A break-off in the middle of a body is the one way to a body that is not complete. -/
theorem allOrNothing_iff : AllOrNothing middleware scope messages ↔
    ¬ BrokenOff middleware scope messages := by
  constructor
  · rintro hproperty ⟨htype, declared, hcheck, chunks, other, rest, hmessages, hchunks, hother,
      hlimit, hdeclared⟩
    have hbuffer := @buffer_of_interrupted (middleware.bodyLimit scope) [] chunks rest other hchunks
      hother hlimit
    rw [List.nil_append] at hbuffer
    have hhandle : middleware.handle scope messages =
        .app ⟨completeBody (bodyOf chunks) :: [other], rest⟩ := by
      unfold handle
      rw [if_neg (by simp [htype]), hcheck, hmessages]
      simp only [hbuffer, hdeclared, Bool.false_eq_true, if_false]
    obtain ⟨front, last, behind, hsplit, hfront, hlast, -⟩ :=
      hproperty _ hhandle 1 _ [] rfl ⟨rfl, rfl⟩
    -- the first message that does not continue a body cannot be of both kinds
    have hfirst : ∀ {before after : List ReceiveMessage} {message : ReceiveMessage},
        messages = before ++ message :: after → (∀ chunk ∈ before, Continues chunk) →
        ¬ Continues message →
        messages.find? (fun message => !(message.isRequest && message.hasMore)) = some message := by
      intro before after message hsame hbefore hmessage
      rw [hsame, List.find?_append, List.find?_eq_none.mpr (fun chunk hchunk => by
        simp [(hbefore chunk hchunk).1, (hbefore chunk hchunk).2]), Option.none_or,
        List.find?_cons_of_pos]
      by_contra hcontinues
      have hboth : message.isRequest = true ∧ message.hasMore = true := by simpa using hcontinues
      exact hmessage hboth
    have hone := hfirst hmessages hchunks (fun hcontinues => by simp [hcontinues.1] at hother)
    have htwo := hfirst hsplit hfront (fun hcontinues => by
      have hmore := hlast.2
      rw [hcontinues.2] at hmore
      simp at hmore)
    obtain rfl := Option.some.inj (hone.symm.trans htwo)
    rw [hlast.1] at hother
    simp at hother
  · intro hwhole replay hhandle calls first later hreceived hfinal
    obtain ⟨htype, declared, body, cached, rest, hcheck, hended, hdeclared, rfl⟩ :=
      handle_eq_app hhandle
    cases hended with
    | interrupted hmessages hchunks hother hlimit =>
      exact absurd ⟨htype, declared, hcheck, _, _, _, hmessages, hchunks, hother, hlimit, hdeclared⟩
        hwhole
    | @final chunks rest last hmessages hchunks hlast hlimit =>
      rw [Replay.received_eq] at hreceived
      cases calls with
      | zero => exact absurd hreceived (by simp)
      | succ calls =>
        obtain ⟨rfl, rfl⟩ := List.cons.inj hreceived
        refine ⟨chunks, last, rest, hmessages, hchunks, hlast, rfl, hlimit, ?_, rfl⟩
        intro length hlength
        rw [checkHeaders_eq hcheck, hlength] at hdeclared
        have hequal : length = (bodyOf ([] ++ (chunks ++ [last]))).length := by simpa using hdeclared
        exact hequal.symm

/-! A client that breaks off a chunked upload. -/

def gatewayMiddleware : RequestSecurityMiddleware where
  allowedHosts := ["gateway.test"]
  allowedOrigins := []
  maxBodySize := 8
  pathBodyLimits := []
  hosts_ne := by simp
  size_pos := by omega
  limits_le := by simp

def chunkedUpload : RequestScope where
  type := "http"
  path := "/mcp"
  headers := [(asciiBytes "host", asciiBytes "gateway.test"),
    (asciiBytes "transfer-encoding", asciiBytes "chunked")]

/-- Two of three bytes, then the connection is closed. -/
def brokenUpload : List ReceiveMessage :=
  [⟨"http.request", some (asciiBytes "{}"), some true⟩, ⟨"http.disconnect", none, none⟩]

/-- The application is handed the two bytes as the complete body. -/
theorem broken_upload_completed :
    ¬ AllOrNothing gatewayMiddleware chunkedUpload brokenUpload := by
  intro hproperty
  obtain ⟨chunks, last, rest, hmessages, -, hlast, -⟩ := hproperty
    ⟨[completeBody (asciiBytes "{}"), ⟨"http.disconnect", none, none⟩], []⟩ (by decide +kernel) 1
    (completeBody (asciiBytes "{}")) [] rfl ⟨rfl, rfl⟩
  have hmem : last ∈ brokenUpload := by rw [hmessages]; simp
  have hnone : ∀ message ∈ brokenUpload, ¬ (message.isRequest = true ∧ message.hasMore = false) := by
    decide +kernel
  exact hnone last hmem hlast

end RequestSecurityMiddleware
end CapabilityCompiler.Gateway
