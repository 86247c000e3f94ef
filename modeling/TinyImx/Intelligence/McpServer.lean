import Mathlib
import TinyImx.Intelligence.HttpCodec
import TinyImx.Intelligence.McpDispatcher
import TinyImx.Lib.Act

/-!
# The tool server

`Server::HandleRequest` answers one request on its connection: it refuses what the checks of the HTTP
request, the verifier or the JSON parser refuse, and hands the rest to the dispatcher.
-/

namespace TinyImx.Intelligence

open Local (Bytes ascii decimal)

/-! ## The server -/

structure ServerOptions where
  endpointPath : Bytes := ascii "/mcp"
  requestTimeout : ℤ := 5000
  allowedOrigins : List Bytes := []

structure AuthResult where
  ok : Bool := false
  principal : Principal := {}
  error : Bytes := []

inductive ConnectionAction where
  | send (response : Bytes)
  | shutdown

def reasonPhrase : ℕ → String
  | 200 => "OK"
  | 400 => "Bad Request"
  | 401 => "Unauthorized"
  | 403 => "Forbidden"
  | 404 => "Not Found"
  | 405 => "Method Not Allowed"
  | 408 => "Request Timeout"
  | 413 => "Payload Too Large"
  | 415 => "Unsupported Media Type"
  | 429 => "Too Many Requests"
  | 500 => "Internal Server Error"
  | 503 => "Service Unavailable"
  | _ => "Error"

def encodeJsonResponse (status : ℕ) (body : Bytes) : Bytes :=
  ascii "HTTP/1.1 " ++ decimal status ++ ascii " " ++ ascii (reasonPhrase status) ++ crlf ++
    ascii "Content-Type: application/json" ++ crlf ++
    ascii "Content-Length: " ++ decimal body.length ++ crlf ++
    ascii "Connection: close" ++ crlf ++
    ascii "Cache-Control: no-store" ++ crlf ++
    ascii "X-Content-Type-Options: nosniff" ++ crlf ++ crlf ++ body

/-- `Server`, with what it is given. -/
structure Server where
  lib : Json.Library
  registry : Registry
  options : ServerOptions := {}
  verify : Bytes → AuthResult

def simpleError (code : Int64) (message : Bytes) : Json := makeJsonRpcError .null code message

def healthBody : Json :=
  .object [member "status" (literal "ok"), member "service" (literal "tinyimx-mcp")]

def HttpRequest.header (request : HttpRequest) (name : String) : Bytes :=
  Intelligence.header request.headers (ascii name)

def withClientInfo (context : RequestContext) (metaJson : Json) : Except Bytes RequestContext :=
  match metaJson.find (ascii "io.modelcontextprotocol/clientInfo") with
  | none => .ok context
  | some info =>
    if info.isObject = false then .ok context
    else do
      let clientName ← valueString info "name"
      let clientVersion ← valueString info "version"
      return { context with clientName, clientVersion }

namespace Server

variable (server : Server)

attribute [local instance] bytes_lawful

def originAllowed (origin : Bytes) : Bool :=
  origin = [] ∨ origin ∈ server.options.allowedOrigins

def refusal (request : HttpRequest) : Option (ℕ × Json) :=
  if request.target ≠ server.options.endpointPath then
    some (404, simpleError kMethodNotFound (ascii "unknown endpoint"))
  else if request.method ≠ ascii "POST" then
    some (405, simpleError kInvalidRequest (ascii "MCP endpoint accepts POST only"))
  else if (ascii "application/json").isPrefixOf (request.header "content-type") = false then
    some (415, simpleError kInvalidRequest (ascii "Content-Type must be application/json"))
  else if server.originAllowed (request.header "origin") = false then
    some (403, simpleError kForbidden (ascii "Origin is not allowed"))
  else if request.header "mcp-protocol-version" = [] ∨ request.header "mcp-method" = [] then
    some (400, makeJsonRpcError .null kHeaderMismatch
      (ascii "MCP-Protocol-Version and Mcp-Method are required"))
  else none

def replyAndClose (status : ℕ) (body : Json) : Act (List ConnectionAction) Bytes Unit := do
  let text ← Act.inspect fun _ => server.lib.dump body
  Act.modify (· ++ [.send (encodeJsonResponse status text)])
  Act.modify (· ++ [.shutdown])

/-- The end of `HandleRequest`, with a body that was parsed.  The times are those at which it sets the
deadline and the dispatcher looks at it. -/
def serve (received now : ℤ) (principal : Principal) (request : HttpRequest) (body : Json) :
    Except Bytes DispatchResult := do
  let context : RequestContext := {
    principal, requestId := request.header "x-request-id", traceId := request.header "traceparent"
    deadline := received + server.options.requestTimeout }
  let params ← valueJson body "params" (.object [])
  let metaJson ← valueJson params "_meta" (.object [])
  let context ← withClientInfo context metaJson
  dispatch server.lib server.registry now context
    { protocolVersion := request.header "mcp-protocol-version"
      methodHeader := request.header "mcp-method"
      nameHeader := request.header "mcp-name" } body

def handleRequest (received now : ℤ) (request : HttpRequest) :
    Act (List ConnectionAction) Bytes Unit :=
  if request.target = ascii "/health" ∧ request.method = ascii "GET" then
    server.replyAndClose 200 healthBody
  else match server.refusal request with
    | some (status, body) => server.replyAndClose status body
    | none =>
      let auth := server.verify (request.header "authorization")
      if auth.ok = false then server.replyAndClose 401 (simpleError kUnauthorized auth.error)
      else match server.lib.parse request.body with
        | .error (.parseError what) =>
          server.replyAndClose 400 (makeJsonRpcError .null kParseError what)
        | .error (.outOfRange what) => Act.throw what
        | .ok body => do
          let result ← Act.inspect fun _ => server.serve received now auth.principal request body
          server.replyAndClose result.httpStatus result.body

/-! ## Answers -/

open Json (IsUtf8)

variable {server : Server} {request : HttpRequest} {body : Json} {actions : List ConnectionAction}

/-- A body is sent on the connection, which is then shut down, and no exception escapes. -/
def Replies (server : Server) (body : Json) (actions : List ConnectionAction)
    (outcome : Except Bytes Unit × List ConnectionAction) : Prop :=
  ∃ status text, server.lib.dump body = .ok text ∧
    outcome = (.ok (), actions ++ [.send (encodeJsonResponse status text), .shutdown])

theorem replies_replyAndClose (hstrict : server.lib.Strict) (h : body.Texts) (status : ℕ) :
    Replies server body actions (server.replyAndClose status body actions) := by
  obtain ⟨text, hdump⟩ := (hstrict.writes body).2 h
  refine ⟨status, text, hdump, ?_⟩
  have hinspect : (Act.inspect fun _ => server.lib.dump body : Act (List ConnectionAction) Bytes Bytes)
      actions = (.ok text, actions) := by rw [Act.inspect_apply, hdump]
  unfold replyAndClose
  rw [Act.bind_of_ok hinspect, Act.bind_of_ok (Act.modify_apply _ _), Act.modify_apply,
    List.append_assoc]
  rfl

def IsHealth (request : HttpRequest) : Prop :=
  request.target = ascii "/health" ∧ request.method = ascii "GET"

structure Admits (server : Server) (request : HttpRequest) (json : Json) : Prop where
  notHealth : ¬ IsHealth request
  refusal : server.refusal request = none
  verified : (server.verify (request.header "authorization")).ok = true
  parsed : server.lib.parse request.body = .ok json

/-- What an answer quotes are texts: the error of the verifier, the message of the parser, and the texts
of the registry. -/
structure Quotes (server : Server) (request : HttpRequest) : Prop where
  verifier : (server.verify (request.header "authorization")).ok = false →
    IsUtf8 (server.verify (request.header "authorization")).error
  parser : ∀ what, server.lib.parse request.body = .error (.parseError what) → IsUtf8 what
  registry : server.registry.IsText

theorem texts_simpleError {code : Int64} {message : List Char}
    (h : AsciiChars message) : (simpleError code (ascii (String.ofList message))).Texts :=
  texts_makeJsonRpcError .null (isUtf8_chars h)

theorem refusal_spec {status : ℕ} (h : server.refusal request = some (status, body)) :
    body.Texts ∧ body.find (ascii "id") = some .null := by
  unfold refusal at h
  split at h
  · cases h
    exact ⟨texts_simpleError (by decide), rfl⟩
  split at h
  · cases h
    exact ⟨texts_simpleError (by decide), rfl⟩
  split at h
  · cases h
    exact ⟨texts_simpleError (by decide), rfl⟩
  split at h
  · cases h
    exact ⟨texts_simpleError (by decide), rfl⟩
  split at h
  · cases h
    exact ⟨texts_simpleError (by decide), rfl⟩
  · cases h

theorem withClientInfo_of_typed {context : RequestContext} (htyped : Typed body)
    (htexts : body.Texts) : ∃ context', withClientInfo context (metaOf body) = .ok context' := by
  unfold withClientInfo
  cases hfind : (metaOf body).find (ascii "io.modelcontextprotocol/clientInfo") with
  | none => exact ⟨context, rfl⟩
  | some info =>
    simp only
    split
    · exact ⟨context, rfl⟩
    next hobject =>
    rw [Bool.not_eq_false] at hobject
    obtain ⟨hname, hversion⟩ := htyped.client info hfind hobject
    have hinfo := (texts_metaOf htexts).find hfind
    obtain ⟨name, hname, -⟩ := valueString_of_absentOr hobject hinfo hname
    obtain ⟨version, hversion, -⟩ := valueString_of_absentOr hobject hinfo hversion
    rw [hname, hversion]
    exact ⟨_, rfl⟩

theorem serve_answers (hstrict : server.lib.Strict) (hregistry : server.registry.IsText)
    (htexts : body.Texts) (htyped : Typed body) (received now : ℤ) (principal : Principal)
    (request : HttpRequest) :
    ∃ result, server.serve received now principal request body = .ok result ∧
      Answers (idOf body) result := by
  have hparams := @valueJson_of_object body (.object []) "params" htyped.object
  have hmeta := @valueJson_of_object (paramsOf body) (.object []) "_meta" htyped.params
  unfold serve
  rw [hparams, ok_bind, show (body.find (ascii "params")).getD (.object []) = paramsOf body from rfl,
    hmeta, ok_bind, show ((paramsOf body).find (ascii "_meta")).getD (.object []) = metaOf body from rfl]
  obtain ⟨context, hcontext⟩ := @withClientInfo_of_typed body {
    principal, requestId := request.header "x-request-id", traceId := request.header "traceparent"
    deadline := received + server.options.requestTimeout } htyped htexts
  rw [hcontext, ok_bind]
  exact dispatch_answers hstrict hregistry htexts htyped now _

noncomputable def sampleLibrary : Json.Library :=
  open Classical in
  { parse := fun body =>
      if body = ascii "\x7b\"id\":1\x7d" then .ok (.object [member "id" (.unsigned 1)])
      else .error (.parseError (ascii "[json.exception.parse_error.101] parse error"))
    dump := fun json =>
      if json.Texts then .ok (ascii
        "\x7b\"error\":\x7b\"code\":-32600,\"message\":\"jsonrpc must be 2.0\"\x7d,\"id\":1,\"jsonrpc\":\"2.0\"\x7d")
      else .error (ascii "[json.exception.type_error.316] invalid UTF-8 byte")
    truncate := Rat.floor }

theorem strict_sampleLibrary : sampleLibrary.Strict where
  reads body json h := by
    unfold sampleLibrary at h
    dsimp only at h
    split at h
    · cases h
      exact (textMembers_nil.cons (by decide) (.unsigned 1)).object
    · cases h
  writes json := by
    unfold sampleLibrary
    dsimp only
    split
    · next htexts => exact ⟨fun _ => htexts, fun _ => ⟨_, rfl⟩⟩
    · next htexts =>
      refine ⟨fun h => ?_, fun h => absurd h htexts⟩
      obtain ⟨body, h⟩ := h
      cases h
  written json body h := by
    unfold sampleLibrary at h
    dsimp only at h
    split at h
    · cases h
      exact isUtf8_chars (by decide)
    · cases h
  message json what h := by
    unfold sampleLibrary at h
    dsimp only at h
    split at h
    · cases h
    · cases h
      exact isUtf8_chars (by decide)

noncomputable def sampleServer : Server :=
  { lib := sampleLibrary, registry := {}, verify := fun _ => { ok := true } }

def sampleRequest : HttpRequest :=
  { method := ascii "POST", target := ascii "/mcp", version := ascii "HTTP/1.1"
    headers := [(ascii "content-type", ascii "application/json"),
      (ascii "mcp-protocol-version", kProtocolVersion), (ascii "mcp-method", ascii "tools/list")]
    body := ascii "\x7b\"id\":1\x7d" }

theorem parse_sampleRequest :
    sampleServer.lib.parse sampleRequest.body = .ok (.object [member "id" (.unsigned 1)]) := by
  unfold sampleServer sampleLibrary
  dsimp only
  exact if_pos rfl

theorem handleRequest_of_not_object {received now : ℤ} (h : Admits server request body)
    (hobject : body.isObject = false) :
    ∃ what, server.handleRequest received now request actions = (.error what, actions) := by
  have hlookup : ∃ what, valueJson body "params" (.object []) = .error what := by
    cases body with
    | object members => cases hobject
    | _ => exact ⟨_, rfl⟩
  obtain ⟨what, hlookup⟩ := hlookup
  refine ⟨what, ?_⟩
  have hserve : server.serve received now (server.verify (request.header "authorization")).principal
      request body = .error what := by
    unfold serve
    rw [hlookup]
    rfl
  have hinspect : (Act.inspect fun _ => server.serve received now
      (server.verify (request.header "authorization")).principal request body :
      Act (List ConnectionAction) Bytes DispatchResult) actions = (.error what, actions) := by
    rw [Act.inspect_apply, hserve]
  unfold handleRequest
  rw [if_neg (show ¬ (request.target = ascii "/health" ∧ request.method = ascii "GET") from
    h.notHealth), h.refusal]
  simp only
  rw [if_neg (by rw [h.verified]; exact Bool.noConfusion), h.parsed]
  exact Act.bind_of_error hinspect

end Server

end TinyImx.Intelligence
