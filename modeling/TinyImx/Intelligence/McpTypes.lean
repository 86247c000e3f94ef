import Mathlib
import TinyImx.Lib.Json
import TinyImx.Local.Types

/-!
# Messages of the tool server

The bodies of JSON-RPC responses, what is registered, and the handlers behind it.
-/

namespace TinyImx.Intelligence

open Local (Bytes ascii)

def kProtocolVersion : Bytes := ascii "2026-07-28"
def kJsonRpcVersion : Bytes := ascii "2.0"

def kParseError : Int64 := -32700
def kInvalidRequest : Int64 := -32600
def kMethodNotFound : Int64 := -32601
def kInvalidParams : Int64 := -32602
def kInternalError : Int64 := -32603
def kHeaderMismatch : Int64 := -32020
def kUnsupportedProtocolVersion : Int64 := -32022
def kUnauthorized : Int64 := -32040
def kForbidden : Int64 := -32041

structure Principal where
  userId : UInt64 := 0
  subject : Bytes := []
  scopes : List Bytes := []

/-- `RequestContext`, with a time of 0 where there is no deadline. -/
structure RequestContext where
  requestId : Bytes := []
  traceId : Bytes := []
  principal : Principal := {}
  deadline : ℤ := 0
  clientName : Bytes := []
  clientVersion : Bytes := []

def RequestContext.deadlineExpired (context : RequestContext) (now : ℤ) : Bool :=
  context.deadline ≠ 0 ∧ context.deadline ≤ now

/-- What a handler throws: a `ToolExecutionError`, another exception with its `what()`, or something
that is none. -/
inductive Thrown where
  | toolError (code what : Bytes) (details : Json)
  | exception (what : Bytes)
  | other

abbrev Handler := RequestContext → Json → Except Thrown Json

structure ToolDefinition where
  name : Bytes
  title : Bytes := []
  description : Bytes := []
  inputSchema : Json := .object []
  requiredScopes : List Bytes := []

structure ResourceDefinition where
  uri : Bytes
  name : Bytes := []
  description : Bytes := []
  mimeType : Bytes := ascii "application/json"
  requiredScopes : List Bytes := []

structure PromptDefinition where
  name : Bytes
  title : Bytes := []
  description : Bytes := []
  arguments : Json := .array []
  requiredScopes : List Bytes := []

structure DispatchResult where
  httpStatus : ℕ := 200
  body : Json := .object []

/-! ## Bodies -/

def member (key : String) (value : Json) : Bytes × Json := (ascii key, value)

def literal (text : String) : Json := .string (ascii text)

def makeJsonRpcResult (id result : Json) : Json :=
  .object [member "jsonrpc" (.string kJsonRpcVersion), member "id" id, member "result" result]

def makeJsonRpcError (id : Json) (code : Int64) (message : Bytes) : Json :=
  .object [member "jsonrpc" (.string kJsonRpcVersion), member "id" id,
    member "error" (.object [member "code" (.integer code), member "message" (.string message)])]

def makeCompleteResult (payload : Json) (cacheScope : String) (ttlMs : UInt64) : Json :=
  let payload := if payload.isObject then payload else .object [member "value" payload]
  ((payload.set (ascii "resultType") (literal "complete")).set (ascii "cacheScope")
    (literal cacheScope)).set (ascii "ttlMs") (.unsigned ttlMs)

/-! ## The registry -/

/-- `Registry`, each map in the order of its keys. -/
structure Registry where
  tools : List (Bytes × ToolDefinition × Handler) := []
  resources : List (Bytes × ResourceDefinition × Handler) := []
  prompts : List (Bytes × PromptDefinition × Handler) := []

def scopesJson (scopes : List Bytes) : Json := .array (scopes.map .string)

/-- The members that a listed definition has where its title or its scopes are not empty. -/
def titleMember (title : Bytes) : List (Bytes × Json) :=
  if title = [] then [] else [member "title" (.string title)]

def scopesMember (scopes : List Bytes) : List (Bytes × Json) :=
  if scopes = [] then []
  else [member "_meta" (.object [member "io.tinyimx/requiredScopes" (scopesJson scopes)])]

def ToolDefinition.listed (d : ToolDefinition) : Json :=
  .object ([member "name" (.string d.name), member "description" (.string d.description),
    member "inputSchema" d.inputSchema] ++ titleMember d.title ++ scopesMember d.requiredScopes)

def ResourceDefinition.listed (d : ResourceDefinition) : Json :=
  .object ([member "uri" (.string d.uri), member "name" (.string d.name),
    member "description" (.string d.description), member "mimeType" (.string d.mimeType)] ++
    scopesMember d.requiredScopes)

def PromptDefinition.listed (d : PromptDefinition) : Json :=
  .object ([member "name" (.string d.name), member "description" (.string d.description),
    member "arguments" d.arguments] ++ titleMember d.title ++ scopesMember d.requiredScopes)

namespace Registry

variable (registry : Registry)

def listTools : Json := .array (registry.tools.map fun entry => entry.2.1.listed)
def listResources : Json := .array (registry.resources.map fun entry => entry.2.1.listed)
def listPrompts : Json := .array (registry.prompts.map fun entry => entry.2.1.listed)

def findTool (name : Bytes) : Option (ToolDefinition × Handler) := registry.tools.lookup name
def findResource (uri : Bytes) : Option (ResourceDefinition × Handler) := registry.resources.lookup uri
def findPrompt (name : Bytes) : Option (PromptDefinition × Handler) := registry.prompts.lookup name

end Registry

theorem bytes_lawful : LawfulBEq Bytes := inferInstance

attribute [local instance] bytes_lawful

/-- `Authorized`: the first required scope that the principal has not, if there is one. -/
def missingScope (principal : Principal) (requiredScopes : List Bytes) : Option Bytes :=
  requiredScopes.find? fun scope => scope ∉ principal.scopes

/-! ## Texts -/

open Json (IsUtf8 isUtf8_of_lt texts_object_iff texts_array_iff)

def isAscii (s : String) : Bool := s.toList.all fun c => Nat.blt c.toNat 128

theorem isUtf8_ascii (s : String) (h : isAscii s = true) : IsUtf8 (ascii s) := by
  refine isUtf8_of_lt fun b hb => ?_
  obtain ⟨c, hc, rfl⟩ := List.mem_map.1 hb
  have hlt : c.toNat < 128 := Nat.le_of_ble_eq_true (List.all_eq_true.1 h c hc)
  rw [UInt8.lt_iff_toNat_lt, UInt8.toNat_ofNat_of_lt' (hlt.trans (by decide))]
  exact hlt

theorem isAscii_append {s t : String} (hs : isAscii s = true) (ht : isAscii t = true) :
    isAscii (s ++ t) = true := by
  rw [isAscii, String.toList_append, List.all_append, Bool.and_eq_true]
  exact ⟨hs, ht⟩

def AsciiChars (chars : List Char) : Prop := chars.all (fun c => Nat.blt c.toNat 128) = true

instance (chars : List Char) : Decidable (AsciiChars chars) :=
  inferInstanceAs (Decidable (_ = true))

theorem isAscii_chars {chars : List Char} (h : AsciiChars chars) :
    isAscii (String.ofList chars) = true := by
  rw [isAscii, String.toList_ofList]
  exact h

theorem isUtf8_chars {chars : List Char} (h : AsciiChars chars) :
    IsUtf8 (ascii (String.ofList chars)) :=
  isUtf8_ascii _ (isAscii_chars h)

theorem texts_literal {chars : List Char} (h : AsciiChars chars) :
    (literal (String.ofList chars)).Texts :=
  .string (isUtf8_chars h)

def TextMembers (members : List (Bytes × Json)) : Prop :=
  ∀ entry ∈ members, IsUtf8 entry.1 ∧ entry.2.Texts

theorem TextMembers.object {members : List (Bytes × Json)} (h : TextMembers members) :
    (Json.object members).Texts :=
  texts_object_iff.2 h

theorem textMembers_nil : TextMembers [] := fun _ h => absurd h List.not_mem_nil

theorem TextMembers.cons {key : List Char} {value : Json} {members : List (Bytes × Json)}
    (h : TextMembers members) (hkey : AsciiChars key) (hvalue : value.Texts) :
    TextMembers (member (String.ofList key) value :: members) :=
  List.forall_mem_cons.2 ⟨⟨isUtf8_chars hkey, hvalue⟩, h⟩

theorem TextMembers.append {a b : List (Bytes × Json)} (ha : TextMembers a) (hb : TextMembers b) :
    TextMembers (a ++ b) :=
  List.forall_mem_append.2 ⟨ha, hb⟩

variable {id result payload : Json} {message : Bytes}

theorem texts_makeJsonRpcResult (hid : id.Texts) (h : result.Texts) :
    (makeJsonRpcResult id result).Texts :=
  (((textMembers_nil.cons (by decide) h).cons (by decide) hid).cons (by decide)
    (.string (isUtf8_chars (by decide)))).object

theorem texts_makeJsonRpcError {code : Int64} (hid : id.Texts) (h : IsUtf8 message) :
    (makeJsonRpcError id code message).Texts :=
  (((textMembers_nil.cons (by decide) ((textMembers_nil.cons (by decide) (.string h)).cons (by decide)
    (.integer code)).object).cons (by decide) hid).cons (by decide)
    (.string (isUtf8_chars (by decide)))).object

theorem texts_makeCompleteResult {cacheScope : List Char} {ttlMs : UInt64} (h : payload.Texts)
    (hscope : AsciiChars cacheScope) :
    (makeCompleteResult payload (String.ofList cacheScope) ttlMs).Texts := by
  have hpayload : (if payload.isObject then payload else .object [member "value" payload]).Texts := by
    split
    · exact h
    · exact (textMembers_nil.cons (by decide) h).object
  exact ((hpayload.set (isUtf8_chars (by decide)) (texts_literal (by decide))).set
    (isUtf8_chars (by decide)) (texts_literal hscope)).set (isUtf8_chars (by decide))
    (.unsigned ttlMs)

theorem find_id_makeJsonRpcResult :
    (makeJsonRpcResult id result).find (ascii "id") = some id := rfl

theorem find_id_makeJsonRpcError {code : Int64} :
    (makeJsonRpcError id code message).find (ascii "id") = some id := rfl

/-! ## Texts of what is registered -/

def Thrown.IsText : Thrown → Prop
  | .toolError code what details => IsUtf8 code ∧ IsUtf8 what ∧ details.Texts
  | .exception what => IsUtf8 what
  | .other => True

def ThrowsTexts (handler : Handler) : Prop :=
  ∀ context arguments thrown, handler context arguments = .error thrown → thrown.IsText

def ReturnsTexts (handler : Handler) : Prop :=
  ∀ context arguments value, handler context arguments = .ok value → value.Texts

def TextDefinition (texts : List Bytes) (schema : Json) (requiredScopes : List Bytes) : Prop :=
  (∀ text ∈ texts, IsUtf8 text) ∧ schema.Texts ∧ ∀ scope ∈ requiredScopes, IsUtf8 scope

def ToolDefinition.IsText (d : ToolDefinition) : Prop :=
  TextDefinition [d.name, d.title, d.description] d.inputSchema d.requiredScopes

def ResourceDefinition.IsText (d : ResourceDefinition) : Prop :=
  TextDefinition [d.uri, d.name, d.description, d.mimeType] .null d.requiredScopes

def PromptDefinition.IsText (d : PromptDefinition) : Prop :=
  TextDefinition [d.name, d.title, d.description] d.arguments d.requiredScopes

/-- The texts that the registry puts into responses are texts: those of the definitions, of what
handlers throw, and of what the handlers of prompts return. -/
structure Registry.IsText (registry : Registry) : Prop where
  tools : ∀ entry ∈ registry.tools, entry.2.1.IsText ∧ ThrowsTexts entry.2.2
  resources : ∀ entry ∈ registry.resources, entry.2.1.IsText ∧ ThrowsTexts entry.2.2
  prompts : ∀ entry ∈ registry.prompts,
    entry.2.1.IsText ∧ ThrowsTexts entry.2.2 ∧ ReturnsTexts entry.2.2

variable {scopes : List Bytes} {title : Bytes}

theorem texts_titleMember (h : IsUtf8 title) : TextMembers (titleMember title) := by
  unfold titleMember
  split
  · exact textMembers_nil
  · exact textMembers_nil.cons (by decide) (.string h)

theorem texts_scopesMember (h : ∀ scope ∈ scopes, IsUtf8 scope) :
    TextMembers (scopesMember scopes) := by
  unfold scopesMember
  split
  · exact textMembers_nil
  · refine textMembers_nil.cons (by decide) (textMembers_nil.cons (by decide) ?_).object
    refine texts_array_iff.2 fun item hitem => ?_
    obtain ⟨scope, hscope, rfl⟩ := List.mem_map.1 hitem
    exact .string (h scope hscope)

theorem ToolDefinition.IsText.listed {d : ToolDefinition} (h : d.IsText) : d.listed.Texts := by
  obtain ⟨htexts, hschema, hscopes⟩ := h
  simp only [List.forall_mem_cons] at htexts
  exact (TextMembers.append (TextMembers.append (((textMembers_nil.cons (by decide) hschema).cons
    (by decide) (.string htexts.2.2.1)).cons (by decide) (.string htexts.1))
    (texts_titleMember htexts.2.1)) (texts_scopesMember hscopes)).object

theorem ResourceDefinition.IsText.listed {d : ResourceDefinition} (h : d.IsText) :
    d.listed.Texts := by
  obtain ⟨htexts, -, hscopes⟩ := h
  simp only [List.forall_mem_cons] at htexts
  exact (TextMembers.append ((((textMembers_nil.cons (by decide) (.string htexts.2.2.2.1)).cons
    (by decide) (.string htexts.2.2.1)).cons (by decide) (.string htexts.2.1)).cons (by decide)
    (.string htexts.1)) (texts_scopesMember hscopes)).object

theorem PromptDefinition.IsText.listed {d : PromptDefinition} (h : d.IsText) : d.listed.Texts := by
  obtain ⟨htexts, hschema, hscopes⟩ := h
  simp only [List.forall_mem_cons] at htexts
  exact (TextMembers.append (TextMembers.append (((textMembers_nil.cons (by decide) hschema).cons
    (by decide) (.string htexts.2.2.1)).cons (by decide) (.string htexts.1))
    (texts_titleMember htexts.2.1)) (texts_scopesMember hscopes)).object

theorem Registry.IsText.lists {registry : Registry} (h : registry.IsText) :
    registry.listTools.Texts ∧ registry.listResources.Texts ∧ registry.listPrompts.Texts := by
  refine ⟨?_, ?_, ?_⟩ <;> refine texts_array_iff.2 fun item hitem => ?_ <;>
    obtain ⟨entry, hentry, rfl⟩ := List.mem_map.1 hitem
  · exact (h.tools entry hentry).1.listed
  · exact (h.resources entry hentry).1.listed
  · exact (h.prompts entry hentry).1.listed

end TinyImx.Intelligence
