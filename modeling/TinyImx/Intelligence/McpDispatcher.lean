import TinyImx.Intelligence.McpTypes

/-!
# The dispatcher of the tool server

`Dispatcher::Dispatch` checks a request against its headers and calls the handler of a tool, a resource
or a prompt.  A lookup of a field with a default throws where the field has another type; those outside
of the `try` block of `DispatchRequest` are not caught.
-/

namespace TinyImx.Intelligence

open Local (Bytes ascii)

structure DispatchMetadata where
  protocolVersion : Bytes := []
  methodHeader : Bytes := []
  nameHeader : Bytes := []

def errorResult (id : Json) (code : Int64) (message : Bytes) (httpStatus : ℕ) : DispatchResult :=
  { httpStatus, body := makeJsonRpcError id code message }

def rpcResult (id result : Json) : DispatchResult :=
  { httpStatus := 200, body := makeJsonRpcResult id result }

def metaString (json : Json) (key : String) : Bytes :=
  match json.find (ascii key) with
  | some (.string text) => text
  | _ => []

/-- `value` with a default that is a text; what it throws is its message. -/
def valueString (json : Json) (key : String) : Except Bytes Bytes :=
  (json.value (ascii key) Json.getString []).mapError ascii

def valueJson (json : Json) (key : String) (default : Json) : Except Bytes Json :=
  (json.value (ascii key) Json.getJson default).mapError ascii

def nameField (method : Bytes) : Option String :=
  if method = ascii "tools/call" ∨ method = ascii "prompts/get" then some "name"
  else if method = ascii "resources/read" then some "uri"
  else none

section

variable (lib : Json.Library) (registry : Registry)

def discovered : Json :=
  makeCompleteResult (.object [
    member "supportedVersions" (.array [.string kProtocolVersion]),
    member "capabilities" (.object (
      (if registry.tools = [] then [] else [member "tools" (.object [])]) ++
      (if registry.resources = [] then [] else [member "resources" (.object [])]) ++
      (if registry.prompts = [] then [] else [member "prompts" (.object [])]))),
    member "serverInfo" (.object [member "name" (literal "TinyIMX MCPServer"),
      member "version" (literal "m19"),
      member "description" (literal "TinyIMX AI-safe microservice capability gateway")]),
    member "instructions" (literal ("Use TinyIMX tools only for the authenticated principal. " ++
      "Durable business ownership remains in domain services."))]) "public" 30000

def textContent (text : Bytes) : Json :=
  .array [.object [member "type" (literal "text"), member "text" (.string text)]]

def callTool (context : RequestContext) (id params : Json) : Except Thrown DispatchResult := do
  let name ← (valueString params "name").mapError .exception
  if name = [] then
    return errorResult id kInvalidParams (ascii "tools/call requires name") 200
  match registry.findTool name with
  | none => return errorResult id kMethodNotFound (ascii "unknown tool: " ++ name) 200
  | some (definition, handler) =>
    match missingScope context.principal definition.requiredScopes with
    | some missing => return errorResult id kForbidden (ascii "missing scope: " ++ missing) 403
    | none =>
      let arguments ← (valueJson params "arguments" (.object [])).mapError .exception
      let content ← handler context arguments
      let text ← (lib.dump content).mapError .exception
      return rpcResult id (makeCompleteResult (.object [member "content" (textContent text),
        member "structuredContent" content, member "isError" (.boolean false)]) "private" 0)

def readResource (context : RequestContext) (id params : Json) : Except Thrown DispatchResult := do
  let uri ← (valueString params "uri").mapError .exception
  match registry.findResource uri with
  | none => return errorResult id kMethodNotFound (ascii "unknown resource: " ++ uri) 200
  | some (definition, handler) =>
    match missingScope context.principal definition.requiredScopes with
    | some missing => return errorResult id kForbidden (ascii "missing scope: " ++ missing) 403
    | none =>
      let data ← handler context params
      let text ← (lib.dump data).mapError .exception
      return rpcResult id (makeCompleteResult (.object [member "contents" (.array [.object [
        member "uri" (.string uri), member "mimeType" (.string definition.mimeType),
        member "text" (.string text)]])]) "private" 0)

def getPrompt (context : RequestContext) (id params : Json) : Except Thrown DispatchResult := do
  let name ← (valueString params "name").mapError .exception
  match registry.findPrompt name with
  | none => return errorResult id kMethodNotFound (ascii "unknown prompt: " ++ name) 200
  | some (definition, handler) =>
    match missingScope context.principal definition.requiredScopes with
    | some missing => return errorResult id kForbidden (ascii "missing scope: " ++ missing) 403
    | none =>
      let arguments ← (valueJson params "arguments" (.object [])).mapError .exception
      let result ← handler context arguments
      return rpcResult id (makeCompleteResult result "private" 0)

def toolErrorJson (code what : Bytes) (details : Json) : Json :=
  .object [member "error" (.object ([member "code" (.string code), member "message" (.string what)] ++
    if details.isEmpty then [] else [member "details" details]))]

def rescue (id : Json) : Except Thrown DispatchResult → Except Bytes DispatchResult
  | .ok result => .ok result
  | .error (.toolError code what details) => do
    let toolError := toolErrorJson code what details
    let text ← lib.dump toolError
    return rpcResult id (makeCompleteResult (.object [member "content" (textContent text),
      member "structuredContent" toolError, member "isError" (.boolean true)]) "private" 0)
  | .error (.exception what) =>
    .ok (errorResult id kInternalError (ascii "handler failure: " ++ what) 500)
  | .error .other => .ok (errorResult id kInternalError (ascii "handler failure") 500)

/-- `DispatchRequest`, with the time at which it looks at the deadline. -/
def dispatchRequest (now : ℤ) (context : RequestContext) (id : Json) (method : Bytes)
    (params : Json) : Except Bytes DispatchResult :=
  let listed (key : String) (items : Json) : DispatchResult :=
    rpcResult id (makeCompleteResult (.object [member key items]) "private" 30000)
  if context.deadlineExpired now then
    .ok (errorResult id kInternalError (ascii "request deadline exceeded") 408)
  else if method = ascii "server/discover" then .ok (rpcResult id (discovered registry))
  else if method = ascii "tools/list" then .ok (listed "tools" registry.listTools)
  else if method = ascii "resources/list" then .ok (listed "resources" registry.listResources)
  else if method = ascii "prompts/list" then .ok (listed "prompts" registry.listPrompts)
  else if method = ascii "tools/call" then rescue lib id (callTool lib registry context id params)
  else if method = ascii "resources/read" then
    rescue lib id (readResource lib registry context id params)
  else if method = ascii "prompts/get" then rescue lib id (getPrompt registry context id params)
  else .ok (errorResult id kMethodNotFound (ascii "unsupported MCP method: " ++ method) 200)

def dispatch (now : ℤ) (context : RequestContext) (metadata : DispatchMetadata) (request : Json) :
    Except Bytes DispatchResult := do
  if request.isObject = false then
    return errorResult .null kInvalidRequest (ascii "request must be an object") 400
  let jsonrpc ← valueString request "jsonrpc"
  if jsonrpc ≠ kJsonRpcVersion then
    let id ← valueJson request "id" .null
    return errorResult id kInvalidRequest (ascii "jsonrpc must be 2.0") 400
  match request.find (ascii "id") with
  | none =>
    return errorResult .null kInvalidRequest
      (ascii "notifications are not accepted on this endpoint") 400
  | some id =>
    match request.find (ascii "method") with
    | some (.string method) =>
      let params ← valueJson request "params" (.object [])
      if params.isObject = false then
        return errorResult id kInvalidParams (ascii "params must be an object") 200
      let metaJson ← valueJson params "_meta" (.object [])
      let bodyProtocol := metaString metaJson "io.modelcontextprotocol/protocolVersion"
      let protocol := if metadata.protocolVersion ≠ [] then metadata.protocolVersion else bodyProtocol
      if protocol ≠ kProtocolVersion then
        return errorResult id kUnsupportedProtocolVersion
          (ascii "unsupported MCP protocol version") 400
      if bodyProtocol ≠ [] ∧ metadata.protocolVersion ≠ [] ∧
          bodyProtocol ≠ metadata.protocolVersion then
        return errorResult id kHeaderMismatch
          (ascii "MCP-Protocol-Version does not match request _meta") 400
      if metadata.methodHeader = [] ∨ metadata.methodHeader ≠ method then
        return errorResult id kHeaderMismatch
          (ascii (if metadata.methodHeader = [] then "Mcp-Method header is required"
            else "Mcp-Method does not match JSON-RPC method")) 400
      match nameField method with
      | none => dispatchRequest lib registry now context id method params
      | some field =>
        let bodyName ← valueString params field
        if metadata.nameHeader = [] ∨ metadata.nameHeader ≠ bodyName then
          return errorResult id kHeaderMismatch
            (ascii (if metadata.nameHeader = [] then "Mcp-Name header is required"
              else "Mcp-Name does not match request body")) 400
        dispatchRequest lib registry now context id method params
    | _ => return errorResult id kInvalidRequest (ascii "method must be a string") 400

end

/-! ## Lookups -/

open Json (IsUtf8)

variable {lib : Json.Library} {registry : Registry} {id json params body default : Json}

theorem valueJson_of_object {key : String} (h : json.isObject = true) :
    valueJson json key default = .ok ((json.find (ascii key)).getD default) := by
  obtain ⟨members, rfl⟩ := Json.isObject_iff.1 h
  unfold valueJson Json.value Json.find
  dsimp only
  cases members.lookup (ascii key) <;> rfl

theorem valueString_of_absentOr {key : String} (h : json.isObject = true) (htexts : json.Texts)
    (hkey : json.absentOr (ascii key) Json.isString = true) :
    ∃ text, valueString json key = .ok text ∧ IsUtf8 text := by
  obtain ⟨members, rfl⟩ := Json.isObject_iff.1 h
  unfold valueString Json.value
  dsimp only
  cases hfind : members.lookup (ascii key) with
  | none => exact ⟨[], rfl, Json.isUtf8_nil⟩
  | some field =>
    obtain ⟨text, rfl⟩ := Json.isString_iff.1 (Json.absentOr_iff.1 hkey field hfind)
    refine ⟨text, rfl, ?_⟩
    cases @Json.Texts.find _ _ (ascii key) htexts hfind with
    | string htext => exact htext

/-! ## What is answered -/

def Answers (id : Json) (result : DispatchResult) : Prop :=
  result.body.Texts ∧ result.body.find (ascii "id") = some id

theorem answers_errorResult {code : Int64} {message : Bytes} {httpStatus : ℕ} (hid : id.Texts)
    (h : IsUtf8 message) : Answers id (errorResult id code message httpStatus) :=
  ⟨texts_makeJsonRpcError hid h, find_id_makeJsonRpcError⟩

theorem answers_rpcResult {result : Json} (hid : id.Texts) (h : result.Texts) :
    Answers id (rpcResult id result) :=
  ⟨texts_makeJsonRpcResult hid h, find_id_makeJsonRpcResult⟩

theorem ok_bind {ε α β : Type} {a : α} {g : α → Except ε β} : (Except.ok a >>= g) = g a := rfl

theorem mapError_ok_bind {ε ε' α β : Type} {f : ε → ε'} {a : α} {g : α → Except ε' β} :
    ((Except.ok a).mapError f >>= g) = g a := rfl

def Settles (id : Json) : Except Thrown DispatchResult → Prop
  | .ok result => Answers id result
  | .error thrown => thrown.IsText

theorem texts_textContent {text : Bytes} (h : IsUtf8 text) : (textContent text).Texts := by
  refine Json.texts_array_iff.2 fun item hitem => ?_
  obtain rfl := List.mem_singleton.1 hitem
  exact ((textMembers_nil.cons (by decide) (.string h)).cons (by decide)
    (texts_literal (by decide))).object

theorem missingScope_text {principal : Principal} {scopes : List Bytes} {missing : Bytes}
    (h : ∀ scope ∈ scopes, IsUtf8 scope) (hmissing : missingScope principal scopes = some missing) :
    IsUtf8 missing :=
  h missing (List.mem_of_find?_eq_some hmissing)

theorem lookup_mem {α β : Type} [BEq α] [LawfulBEq α] {entries : List (α × β)} {key : α} {value : β}
    (h : entries.lookup key = some value) : (key, value) ∈ entries := by
  obtain ⟨before, behind, rfl, -⟩ := List.lookup_eq_some_iff.1 h
  simp

section

variable {context : RequestContext}

theorem callTool_settles (hstrict : lib.Strict) (hregistry : registry.IsText) (hid : id.Texts)
    (hparams : params.isObject = true) {name : Bytes} (hname : valueString params "name" = .ok name)
    (htext : IsUtf8 name) : Settles id (callTool lib registry context id params) := by
  unfold callTool
  rw [hname, valueJson_of_object hparams, mapError_ok_bind]
  split
  · exact answers_errorResult hid (isUtf8_chars (by decide))
  cases hfind : registry.findTool name with
  | none => exact answers_errorResult hid ((isUtf8_chars (by decide)).append htext)
  | some entry =>
    obtain ⟨hdefinition, hthrows⟩ := hregistry.tools _ (lookup_mem hfind)
    cases hmissing : missingScope context.principal entry.1.requiredScopes with
    | some missing =>
      simp only [hmissing]
      exact answers_errorResult hid ((isUtf8_chars (by decide)).append
        (missingScope_text hdefinition.2.2 hmissing))
    | none =>
      simp only [hmissing]
      cases hhandled : entry.2 context ((params.find (ascii "arguments")).getD (.object [])) with
      | error thrown =>
        have hthrown : thrown.IsText := hthrows _ _ _ hhandled
        change Settles id (entry.2 context _ >>= _)
        rw [hhandled]
        exact hthrown
      | ok content =>
        change Settles id (entry.2 context _ >>= _)
        rw [hhandled]
        change Settles id ((lib.dump content).mapError .exception >>= _)
        cases hdump : lib.dump content with
        | error what => exact hstrict.message content what hdump
        | ok text =>
          have hcontent := (hstrict.writes content).1 ⟨text, hdump⟩
          refine answers_rpcResult hid (texts_makeCompleteResult (TextMembers.object ?_) (by decide))
          exact ((textMembers_nil.cons (by decide) (.boolean false)).cons (by decide) hcontent).cons
            (by decide) (texts_textContent (hstrict.written content text hdump))

theorem readResource_settles (hstrict : lib.Strict) (hregistry : registry.IsText) (hid : id.Texts)
    {uri : Bytes} (huri : valueString params "uri" = .ok uri) (htext : IsUtf8 uri) :
    Settles id (readResource lib registry context id params) := by
  unfold readResource
  rw [huri, mapError_ok_bind]
  cases hfind : registry.findResource uri with
  | none => exact answers_errorResult hid ((isUtf8_chars (by decide)).append htext)
  | some entry =>
    obtain ⟨hdefinition, hthrows⟩ := hregistry.resources _ (lookup_mem hfind)
    cases hmissing : missingScope context.principal entry.1.requiredScopes with
    | some missing =>
      simp only [hmissing]
      exact answers_errorResult hid ((isUtf8_chars (by decide)).append
        (missingScope_text hdefinition.2.2 hmissing))
    | none =>
      simp only [hmissing]
      cases hhandled : entry.2 context params with
      | error thrown => exact hthrows _ _ _ hhandled
      | ok data =>
        change Settles id ((lib.dump data).mapError .exception >>= _)
        cases hdump : lib.dump data with
        | error what => exact hstrict.message data what hdump
        | ok text =>
          have hmime := hdefinition.1 entry.1.mimeType (by simp)
          refine answers_rpcResult hid (texts_makeCompleteResult (TextMembers.object ?_) (by decide))
          refine textMembers_nil.cons (by decide) (Json.texts_array_iff.2 fun item hitem => ?_)
          obtain rfl := List.mem_singleton.1 hitem
          exact (((textMembers_nil.cons (by decide)
            (.string (hstrict.written data text hdump))).cons (by decide) (.string hmime)).cons
            (by decide) (.string htext)).object

theorem getPrompt_settles (hregistry : registry.IsText) (hid : id.Texts)
    (hparams : params.isObject = true) {name : Bytes} (hname : valueString params "name" = .ok name)
    (htext : IsUtf8 name) : Settles id (getPrompt registry context id params) := by
  unfold getPrompt
  rw [hname, valueJson_of_object hparams, mapError_ok_bind]
  cases hfind : registry.findPrompt name with
  | none => exact answers_errorResult hid ((isUtf8_chars (by decide)).append htext)
  | some entry =>
    obtain ⟨hdefinition, hthrows, hreturns⟩ := hregistry.prompts _ (lookup_mem hfind)
    cases hmissing : missingScope context.principal entry.1.requiredScopes with
    | some missing =>
      simp only [hmissing]
      exact answers_errorResult hid ((isUtf8_chars (by decide)).append
        (missingScope_text hdefinition.2.2 hmissing))
    | none =>
      simp only [hmissing]
      change Settles id (entry.2 context _ >>= _)
      cases hhandled : entry.2 context ((params.find (ascii "arguments")).getD (.object [])) with
      | error thrown => exact hthrows _ _ _ hhandled
      | ok result =>
        exact answers_rpcResult hid (texts_makeCompleteResult (hreturns _ _ _ hhandled) (by decide))

theorem rescue_answers (hstrict : lib.Strict) (hid : id.Texts)
    {attempt : Except Thrown DispatchResult} (h : Settles id attempt) :
    ∃ result, rescue lib id attempt = .ok result ∧ Answers id result := by
  match attempt with
  | .ok result => exact ⟨result, rfl, h⟩
  | .error (.exception what) =>
    exact ⟨_, rfl, answers_errorResult hid ((isUtf8_chars (by decide)).append h)⟩
  | .error .other => exact ⟨_, rfl, answers_errorResult hid (isUtf8_chars (by decide))⟩
  | .error (.toolError code what details) =>
    obtain ⟨hcode, hwhat, hdetails⟩ := h
    have herror : (toolErrorJson code what details).Texts := by
      refine (textMembers_nil.cons (by decide) (TextMembers.object ?_)).object
      refine TextMembers.append ((textMembers_nil.cons (by decide) (.string hwhat)).cons (by decide)
        (.string hcode)) ?_
      split
      · exact textMembers_nil
      · exact textMembers_nil.cons (by decide) hdetails
    obtain ⟨text, hdump⟩ := (hstrict.writes _).2 herror
    unfold rescue
    simp only
    rw [hdump]
    refine ⟨_, rfl, answers_rpcResult hid (texts_makeCompleteResult (TextMembers.object ?_)
      (by decide))⟩
    exact ((textMembers_nil.cons (by decide) (.boolean true)).cons (by decide) herror).cons
      (by decide) (texts_textContent (hstrict.written _ text hdump))

theorem texts_discovered : (discovered registry).Texts := by
  refine texts_makeCompleteResult (TextMembers.object ?_) (by decide)
  have hinstructions : IsUtf8 (ascii ("Use TinyIMX tools only for the authenticated principal. " ++
      "Durable business ownership remains in domain services.")) :=
    isUtf8_ascii _ (isAscii_append (isAscii_chars (by decide)) (isAscii_chars (by decide)))
  refine TextMembers.cons (TextMembers.cons (TextMembers.cons (textMembers_nil.cons (by decide)
    (.string hinstructions)) (by decide) ?_) (by decide) ?_) (by decide) ?_
  · exact (((textMembers_nil.cons (by decide) (texts_literal (by decide))).cons (by decide)
      (texts_literal (by decide))).cons (by decide) (texts_literal (by decide))).object
  · have hempty : (Json.object []).Texts := textMembers_nil.object
    refine TextMembers.object (TextMembers.append (TextMembers.append ?_ ?_) ?_) <;> split
    all_goals first
      | exact textMembers_nil
      | exact textMembers_nil.cons (by decide) hempty
  · refine Json.texts_array_iff.2 fun item hitem => ?_
    obtain rfl := List.mem_singleton.1 hitem
    exact .string (isUtf8_chars (by decide))

def Looks (params : Json) (field : String) : Prop :=
  ∃ name, valueString params field = .ok name ∧ IsUtf8 name

theorem dispatchRequest_answers (hstrict : lib.Strict) (hregistry : registry.IsText)
    (hid : id.Texts) (hparams : params.isObject = true) {now : ℤ} {method : Bytes}
    (hmethod : IsUtf8 method)
    (hlooks : ∀ field, nameField method = some field → Looks params field) :
    ∃ result, dispatchRequest lib registry now context id method params = .ok result ∧
      Answers id result := by
  obtain ⟨htools, hresources, hprompts⟩ := hregistry.lists
  have hlisted : ∀ {key : List Char} {items : Json}, AsciiChars key →
      items.Texts → Answers id (rpcResult id (makeCompleteResult
        (.object [member (String.ofList key) items]) "private" 30000)) :=
    fun hkey hitems => answers_rpcResult hid
      (texts_makeCompleteResult (textMembers_nil.cons hkey hitems).object (by decide))
  unfold dispatchRequest
  split
  · exact ⟨_, rfl, answers_errorResult hid (isUtf8_chars (by decide))⟩
  split
  · exact ⟨_, rfl, answers_rpcResult hid texts_discovered⟩
  split
  · exact ⟨_, rfl, hlisted (by decide) htools⟩
  split
  · exact ⟨_, rfl, hlisted (by decide) hresources⟩
  split
  · exact ⟨_, rfl, hlisted (by decide) hprompts⟩
  split
  · next hcall =>
    obtain ⟨name, hname, htext⟩ := hlooks "name" (if_pos (.inl hcall))
    exact rescue_answers hstrict hid (callTool_settles hstrict hregistry hid hparams hname htext)
  split
  · next hcall =>
    obtain ⟨uri, huri, htext⟩ := hlooks "uri" (by rw [hcall]; decide)
    exact rescue_answers hstrict hid (readResource_settles hstrict hregistry hid huri htext)
  split
  · next hcall =>
    obtain ⟨name, hname, htext⟩ := hlooks "name" (if_pos (.inr hcall))
    exact rescue_answers hstrict hid (getPrompt_settles hregistry hid hparams hname htext)
  · exact ⟨_, rfl, answers_errorResult hid ((isUtf8_chars (by decide)).append hmethod)⟩

/-! ## Requests whose fields have their types -/

def paramsOf (body : Json) : Json := (body.find (ascii "params")).getD (.object [])

def metaOf (body : Json) : Json := ((paramsOf body).find (ascii "_meta")).getD (.object [])

/-- The body is an object, and the fields that are looked up with a default outside of the `try` block
are left out or have the type of the default. -/
structure Typed (body : Json) : Prop where
  object : body.isObject = true
  jsonrpc : body.absentOr (ascii "jsonrpc") Json.isString = true
  params : (paramsOf body).isObject = true
  client : ∀ info, (metaOf body).find (ascii "io.modelcontextprotocol/clientInfo") = some info →
    info.isObject = true → info.absentOr (ascii "name") Json.isString = true ∧
      info.absentOr (ascii "version") Json.isString = true
  name : ∀ method field, body.find (ascii "method") = some (.string method) →
    nameField method = some field → (paramsOf body).absentOr (ascii field) Json.isString = true

theorem texts_paramsOf (h : body.Texts) : (paramsOf body).Texts := by
  unfold paramsOf
  cases hfind : body.find (ascii "params") with
  | none => exact textMembers_nil.object
  | some params => exact h.find hfind

theorem texts_metaOf (h : body.Texts) : (metaOf body).Texts := by
  unfold metaOf
  cases hfind : (paramsOf body).find (ascii "_meta") with
  | none => exact textMembers_nil.object
  | some metaJson => exact (texts_paramsOf h).find hfind

def idOf (body : Json) : Json := (body.find (ascii "id")).getD .null

/-- A request whose fields have their types is answered under its id. -/
theorem dispatch_answers (hstrict : lib.Strict) (hregistry : registry.IsText) (htexts : body.Texts)
    (htyped : Typed body) (now : ℤ) (metadata : DispatchMetadata) :
    ∃ result, dispatch lib registry now context metadata body = .ok result ∧
      Answers (idOf body) result := by
  obtain ⟨jsonrpc, hjsonrpc, -⟩ := valueString_of_absentOr htyped.object htexts htyped.jsonrpc
  have hid : (idOf body).Texts := by
    unfold idOf
    cases hfind : body.find (ascii "id") with
    | none => exact .null
    | some id => exact htexts.find hfind
  unfold dispatch
  rw [if_neg (by rw [htyped.object]; exact Bool.noConfusion), hjsonrpc, ok_bind,
    valueJson_of_object htyped.object, valueJson_of_object htyped.object, ok_bind]
  split
  · exact ⟨_, rfl, answers_errorResult hid (isUtf8_chars (by decide))⟩
  have herror : ∀ {message : List Char} {code : Int64} {status : ℕ},
      AsciiChars message → ∃ result,
        (pure (errorResult (idOf body) code (ascii (String.ofList message)) status) :
          Except Bytes _) = .ok result ∧ Answers (idOf body) result :=
    fun hmessage => ⟨_, rfl, answers_errorResult hid (isUtf8_chars hmessage)⟩
  cases hfind : body.find (ascii "id") with
  | none =>
    have hnull : idOf body = .null := by rw [idOf, hfind]; rfl
    simp only
    rw [← hnull]
    exact herror (by decide)
  | some id =>
    have hsome : idOf body = id := by rw [idOf, hfind]; rfl
    simp only
    rw [← hsome]
    split
    swap
    · exact herror (by decide)
    next method hmethod =>
    have hmethodText : IsUtf8 method := by
      cases htexts.find hmethod with
      | string h => exact h
    have hmeta := @valueJson_of_object (paramsOf body) (.object []) "_meta" htyped.params
    rw [ok_bind, show (body.find (ascii "params")).getD (.object []) = paramsOf body from rfl,
      if_neg (by rw [htyped.params]; exact Bool.noConfusion), hmeta, ok_bind]
    generalize (if metadata.protocolVersion ≠ [] then metadata.protocolVersion else _) = protocol
    split
    · exact herror (by decide)
    split
    · exact herror (by decide)
    split
    · split <;> exact herror (by decide)
    have hlooks : ∀ field, nameField method = some field → Looks (paramsOf body) field :=
      fun field hfield => valueString_of_absentOr htyped.params (texts_paramsOf htexts)
        (htyped.name method field hmethod hfield)
    have hrequest := @dispatchRequest_answers lib registry (idOf body) (paramsOf body) context hstrict
      hregistry hid htyped.params now method hmethodText hlooks
    split
    · exact hrequest
    next field hfield =>
    obtain ⟨bodyName, hbodyName, -⟩ := hlooks field hfield
    rw [hbodyName, ok_bind]
    split
    · split <;> exact herror (by decide)
    · exact hrequest

end

end TinyImx.Intelligence
