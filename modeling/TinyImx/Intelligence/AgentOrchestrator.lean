import Mathlib
import TinyImx.Intelligence.McpTypes
import TinyImx.Lib.Act

/-!
# Runs of the agent

`AgentOrchestrator::Run` lets a provider of completions call tools.  Provider and tool client may answer
in any way, and throw: what they answer may depend on all that happened before.  The limits of a run
are statements about the completions and the calls of tools in the order in which they are made.
-/

namespace TinyImx.Agent

open Local (Bytes ascii)
open Intelligence (kProtocolVersion member)

/-! ## The program -/

structure ToolCall where
  id : Bytes := []
  name : Bytes
  arguments : Json := .object []

structure Message where
  role : String
  content : Bytes
  toolCallId : Bytes := []
  toolCalls : List ToolCall := []

/-- `ToolDefinition` of a provider. -/
structure ToolDefinition where
  name : Bytes
  description : Bytes
  parameters : Json

structure CompletionRequest where
  model : Bytes
  messages : List Message
  tools : List ToolDefinition

structure CompletionResult where
  ok : Bool := false
  content : Bytes := []
  toolCalls : List ToolCall := []
  error : Bytes := []

structure AgentOptions where
  model : Bytes
  systemPrompt : Bytes
  allowedTools : List Bytes := []
  maxToolRounds : ℕ := 4
  maxToolCallsPerRound : ℕ := 8
  maxTotalToolCalls : ℕ := 16
  repeatedIdenticalCallLimit : ℕ := 3

structure AgentResult where
  ok : Bool := false
  answer : Bytes := []
  toolRounds : ℕ := 0
  toolCalls : ℕ := 0
  error : Bytes := []

structure ClientTool where
  name : Bytes
  description : Bytes := []
  inputSchema : Json := .object []

structure DiscoverResponse where
  ok : Bool := false
  supportedVersions : List Bytes := []
  error : Bytes := []

structure ListToolsResponse where
  ok : Bool := false
  tools : List ClientTool := []
  error : Bytes := []

structure CallToolResponse where
  ok : Bool := false
  isError : Bool := false
  structuredContent : Json := .object []
  content : Json := .array []
  error : Bytes := []

inductive Event where
  | complete (request : CompletionRequest) (answer : Except Bytes CompletionResult)
  | callTool (name : Bytes) (arguments : Json)

abbrev Provider := List Event → CompletionRequest → Except Bytes CompletionResult

/-- `IToolClient`. -/
structure ToolClient where
  discover : Except Bytes DiscoverResponse
  listTools : Except Bytes ListToolsResponse
  callTool : List Event → Bytes → Json → Except Bytes CallToolResponse

attribute [local instance] Intelligence.bytes_lawful

/-- The loop of `BuildAllowedTools`, with the names that were seen. -/
def allowedTools (tools : List ClientTool) :
    List Bytes → List Bytes → Except Bytes (List ToolDefinition)
  | _, [] => .ok []
  | seen, name :: names =>
    if name = [] ∨ name ∈ seen then allowedTools tools seen names
    else match tools.find? fun tool => tool.name = name with
      | none => .error (ascii "allowed tool is not published by MCPServer: " ++ name)
      | some tool => do
        let rest ← allowedTools tools (name :: seen) names
        return { name := tool.name, description := tool.description,
                 parameters := tool.inputSchema } :: rest

def buildAllowedTools (options : AgentOptions) (tools : List ClientTool) :
    Except Bytes (List ToolDefinition) := do
  let out ← allowedTools tools [] options.allowedTools
  if out.isEmpty then .error (ascii "agent tool allowlist is empty") else return out

def complete (provider : Provider) (request : CompletionRequest) :
    Act (List Event) Bytes CompletionResult := fun events =>
  (provider events request, events ++ [.complete request (provider events request)])

def callTool (client : ToolClient) (name : Bytes) (arguments : Json) :
    Act (List Event) Bytes CallToolResponse := fun events =>
  (client.callTool events name arguments, events ++ [.callTool name arguments])

/-- The variables of the loops.  The count of calls is below the number of messages, which are in
memory, and does not wrap. -/
structure Progress where
  messages : List Message
  signatureCounts : Bytes → ℕ := fun _ => 0
  totalToolCalls : ℕ := 0

def failed (round totalToolCalls : ℕ) (error : Bytes) : AgentResult :=
  { toolRounds := round, toolCalls := totalToolCalls, error }

def systemMessage (options : AgentOptions) : Message :=
  { role := "system", content := options.systemPrompt }

def userMessage (userPrompt : Bytes) : Message := { role := "user", content := userPrompt }

def assistantMessage (completion : CompletionResult) : Message :=
  { role := "assistant", content := completion.content, toolCalls := completion.toolCalls }

def toolMessage (call : ToolCall) (content : Bytes) : Message :=
  { role := "tool", content, toolCallId := call.id }

def toolPayload (call : ToolCall) (tool : CallToolResponse) : Json :=
  .object ([member "tool" (.string call.name), member "isError" (.boolean tool.isError),
    member "structuredContent" tool.structuredContent] ++
      if tool.content.isEmpty then [] else [member "content" tool.content])

def toolSignature (call : ToolCall) (text : Bytes) : Bytes := call.name ++ ascii "\n" ++ text

section

variable (lib : Json.Library) (options : AgentOptions) (provider : Provider) (client : ToolClient)

def runCalls (round : ℕ) :
    List ToolCall → Progress → Act (List Event) Bytes (AgentResult ⊕ Progress)
  | [], progress => pure (.inr progress)
  | call :: calls, progress =>
    if call.name ∉ options.allowedTools then
      pure (.inl (failed round progress.totalToolCalls
        (ascii "AI requested a tool outside the execution allowlist: " ++ call.name)))
    else if call.arguments.isObject = false then
      pure (.inl (failed round progress.totalToolCalls
        (ascii "AI requested non-object arguments for tool: " ++ call.name)))
    else do
      let text ← Act.inspect fun _ => lib.dump call.arguments
      let signature := toolSignature call text
      let repeated := progress.signatureCounts signature + 1
      if options.repeatedIdenticalCallLimit ≤ repeated then
        pure (.inl (failed round progress.totalToolCalls
          (ascii "repeated identical tool-call limit reached for: " ++ call.name)))
      else do
        let tool ← callTool client call.name call.arguments
        if tool.ok = false then
          pure (.inl (failed round progress.totalToolCalls
            (ascii "MCP tools/call failed for " ++ call.name ++ ascii ": " ++ tool.error)))
        else do
          let payload ← Act.inspect fun _ => lib.dump (toolPayload call tool)
          runCalls round calls {
            messages := progress.messages ++ [toolMessage call payload]
            signatureCounts := Function.update progress.signatureCounts signature repeated
            totalToolCalls := progress.totalToolCalls + 1 }

def runRounds (tools : List ToolDefinition) : ℕ → ℕ → Progress → Act (List Event) Bytes AgentResult
  | 0, _, progress =>
    pure (failed options.maxToolRounds progress.totalToolCalls
      (ascii "agent loop terminated unexpectedly"))
  | rounds + 1, round, progress => do
    let completion ← complete provider { model := options.model, messages := progress.messages, tools }
    if completion.ok = false then
      pure (failed round progress.totalToolCalls (ascii "AI completion failed: " ++ completion.error))
    else if completion.toolCalls.isEmpty then
      pure (if completion.content = [] then
          failed round progress.totalToolCalls (ascii "AI completion returned an empty final answer")
        else
          { ok := true, answer := completion.content, toolRounds := round
            toolCalls := progress.totalToolCalls })
    else if round = options.maxToolRounds then
      pure (failed round progress.totalToolCalls (ascii "maximum tool-call rounds exceeded"))
    else if options.maxToolCallsPerRound < completion.toolCalls.length then
      pure (failed round progress.totalToolCalls (ascii "AI requested too many tools in one round"))
    else if options.maxTotalToolCalls < progress.totalToolCalls + completion.toolCalls.length then
      pure (failed round progress.totalToolCalls (ascii "maximum total tool calls exceeded"))
    else do
      let outcome ← runCalls lib options client round completion.toolCalls
        { progress with messages := progress.messages ++ [assistantMessage completion] }
      match outcome with
      | .inl result => pure result
      | .inr progress => runRounds tools rounds (round + 1) progress

def runWith (userPrompt : Bytes) (tools : List ToolDefinition) : Act (List Event) Bytes AgentResult :=
  runRounds lib options provider client tools (options.maxToolRounds + 1) 0
    { messages := [systemMessage options, userMessage userPrompt] }

def refusal (userPrompt : Bytes) : Option Bytes :=
  if userPrompt = [] then some (ascii "user prompt is empty")
  else if options.model = [] then some (ascii "agent model is empty")
  else if options.maxToolRounds = 0 ∨ options.maxToolCallsPerRound = 0 ∨
      options.maxTotalToolCalls = 0 ∨ options.repeatedIdenticalCallLimit = 0 then
    some (ascii "agent safety limits must be positive")
  else none

end

def run (lib : Json.Library) (options : AgentOptions) (provider : Option Provider)
    (client : Option ToolClient) (userPrompt : Bytes) : Act (List Event) Bytes AgentResult :=
  match provider, client with
  | none, _ => pure (failed 0 0 (ascii "AI provider is not configured"))
  | some _, none => pure (failed 0 0 (ascii "MCP client is not configured"))
  | some provider, some client =>
    match refusal options userPrompt with
    | some error => pure (failed 0 0 error)
    | none => do
      let discovery ← Act.inspect fun _ => client.discover
      if discovery.ok = false then
        pure (failed 0 0 (ascii "MCP discovery failed: " ++ discovery.error))
      else if kProtocolVersion ∉ discovery.supportedVersions then
        pure (failed 0 0 (ascii "MCPServer does not advertise required protocol version"))
      else do
        let listed ← Act.inspect fun _ => client.listTools
        if listed.ok = false then
          pure (failed 0 0 (ascii "MCP tools/list failed: " ++ listed.error))
        else match buildAllowedTools options listed.tools with
          | .error error => pure (failed 0 0 error)
          | .ok tools => runWith lib options provider client userPrompt tools

/-! ## The limits of a run -/

def requests (events : List Event) : List CompletionRequest :=
  events.filterMap fun
    | .complete request _ => some request
    | .callTool _ _ => none

def completions (events : List Event) : List CompletionResult :=
  events.filterMap fun
    | .complete _ (.ok completion) => some completion
    | _ => none

def calls (events : List Event) : List (Bytes × Json) :=
  events.filterMap fun
    | .complete _ _ => none
    | .callTool name arguments => some (name, arguments)

/-- The messages before the completion that follows some completions: for each of them its own message,
and one for each call it requests, with the id of this call. -/
inductive Conversation (options : AgentOptions) (userPrompt : Bytes) :
    List CompletionResult → List Message → Prop
  | start : Conversation options userPrompt [] [systemMessage options, userMessage userPrompt]
  | round {earlier : List CompletionResult} {messages : List Message}
      (completion : CompletionResult) (contents : List Bytes) :
      Conversation options userPrompt earlier messages →
      contents.length = completion.toolCalls.length →
      Conversation options userPrompt (earlier ++ [completion]) (messages ++
        assistantMessage completion :: List.zipWith toolMessage completion.toolCalls contents)

structure Respects (options : AgentOptions) (published : List Bytes) (userPrompt : Bytes)
    (events : List Event) : Prop where
  rounds : (requests events).length ≤ options.maxToolRounds + 1
  total : (calls events).length ≤ options.maxTotalToolCalls
  perRound : ∀ stretch, stretch <:+: events → requests stretch = [] →
    (calls stretch).length ≤ options.maxToolCallsPerRound
  allowed : ∀ call ∈ calls events, call.1 ∈ options.allowedTools ∧ (call.1 = [] ∨ call.1 ∈ published)
  repeated : ∀ n call, (List.replicate n call).Sublist (calls events) → n = 0 ∨
    n < options.repeatedIdenticalCallLimit
  conversation : ∀ before request answer, before ++ [.complete request answer] <+: events →
    Conversation options userPrompt (completions before) request.messages

variable {lib : Json.Library} {options : AgentOptions} {provider : Provider} {client : ToolClient}
variable {published : List Bytes} {userPrompt : Bytes} {events : List Event}

theorem respects_nil : Respects options published userPrompt [] where
  rounds := Nat.zero_le _
  total := Nat.zero_le _
  perRound stretch h _ := by
    rw [List.infix_nil.1 h]
    exact Nat.zero_le _
  allowed call h := absurd h List.not_mem_nil
  repeated n call h := by
    have hle := h.length_le
    rw [List.length_replicate] at hle
    exact .inl (Nat.le_zero.1 hle)
  conversation before request answer h := absurd (List.prefix_nil.1 h) (by simp)

theorem requests_append (a b : List Event) : requests (a ++ b) = requests a ++ requests b :=
  List.filterMap_append

theorem calls_append (a b : List Event) : calls (a ++ b) = calls a ++ calls b :=
  List.filterMap_append

theorem completions_append (a b : List Event) : completions (a ++ b) = completions a ++ completions b :=
  List.filterMap_append

theorem Respects.complete (h : Respects options published userPrompt events)
    {request : CompletionRequest} {answer : Except Bytes CompletionResult}
    (hrounds : (requests events).length ≤ options.maxToolRounds)
    (hmessages : Conversation options userPrompt (completions events) request.messages) :
    Respects options published userPrompt (events ++ [.complete request answer]) where
  rounds := by
    rw [requests_append, List.length_append]
    exact Nat.succ_le_succ hrounds
  total := by
    rw [calls_append, List.length_append]
    exact h.total
  perRound stretch hinfix hnone := by
    rcases List.infix_concat_iff.1 hinfix with hsuffix | hinfix
    · rcases List.suffix_concat_iff.1 hsuffix with rfl | ⟨rest, rfl, -⟩
      · exact Nat.zero_le _
      · rw [requests_append] at hnone
        exact absurd hnone (by simp [requests])
    · exact h.perRound stretch hinfix hnone
  allowed call hmem := by
    rw [calls_append, List.mem_append] at hmem
    exact h.allowed call (hmem.resolve_right List.not_mem_nil)
  repeated n call hsub := by
    rw [calls_append] at hsub
    exact h.repeated n call (by simpa [calls] using hsub)
  conversation before request' answer' hprefix := by
    rcases List.prefix_concat_iff.1 hprefix with heq | hprefix
    · obtain ⟨rfl, hlast⟩ := List.append_inj' heq rfl
      cases hlast
      exact hmessages
    · exact h.conversation before request' answer' hprefix

def Since (events : List Event) (n : ℕ) : Prop :=
  ∀ stretch, stretch <:+ events → requests stretch = [] → (calls stretch).length ≤ n

theorem since_complete {request : CompletionRequest} {answer : Except Bytes CompletionResult} :
    Since (events ++ [.complete request answer]) 0 := by
  intro stretch hsuffix hnone
  rcases List.suffix_concat_iff.1 hsuffix with rfl | ⟨rest, rfl, -⟩
  · exact Nat.zero_le _
  · rw [requests_append] at hnone
    exact absurd hnone (by simp [requests])

theorem Since.callTool {n : ℕ} (h : Since events n) {name : Bytes} {arguments : Json} :
    Since (events ++ [.callTool name arguments]) (n + 1) := by
  intro stretch hsuffix hnone
  rcases List.suffix_concat_iff.1 hsuffix with rfl | ⟨rest, rfl, hrest⟩
  · exact Nat.zero_le _
  · rw [requests_append, List.append_eq_nil_iff] at hnone
    rw [calls_append, List.length_append]
    exact Nat.succ_le_succ (h rest hrest hnone.1)

def Counts (lib : Json.Library) (events : List Event) (counts : Bytes → ℕ) : Prop :=
  ∀ call text, lib.dump call.arguments = .ok text →
    ∀ n, (List.replicate n (call.name, call.arguments)).Sublist (calls events) →
      n ≤ counts (toolSignature call text)

theorem replicate_sublist_concat {α : Type} {n : ℕ} {x y : α} {l : List α}
    (h : (List.replicate n x).Sublist (l ++ [y])) :
    (List.replicate n x).Sublist l ∨ x = y ∧ ∃ m, n = m + 1 ∧ (List.replicate m x).Sublist l := by
  classical
  rw [List.replicate_sublist_iff, List.count_append] at h
  by_cases heq : x = y
  · subst heq
    rw [List.count_singleton_self] at h
    cases n with
    | zero => exact .inl (List.nil_sublist l)
    | succ n => exact .inr ⟨rfl, n, rfl, List.replicate_sublist_iff.2 (by omega)⟩
  · rw [List.count_singleton, if_neg (by simpa using fun h => heq h.symm), Nat.add_zero] at h
    exact .inl (List.replicate_sublist_iff.2 h)

theorem Respects.callTool (h : Respects options published userPrompt events) {call : ToolCall}
    (htotal : (calls events).length < options.maxTotalToolCalls) {n : ℕ} (hsince : Since events n)
    (hn : n < options.maxToolCallsPerRound) (hallowed : call.name ∈ options.allowedTools)
    (hpublished : call.name = [] ∨ call.name ∈ published)
    (hrepeated : ∀ n, (List.replicate n (call.name, call.arguments)).Sublist (calls events) →
      n + 1 < options.repeatedIdenticalCallLimit) :
    Respects options published userPrompt (events ++ [.callTool call.name call.arguments]) where
  rounds := by
    rw [requests_append, List.length_append]
    exact h.rounds
  total := by
    rw [calls_append, List.length_append]
    exact htotal
  perRound stretch hinfix hnone := by
    rcases List.infix_concat_iff.1 hinfix with hsuffix | hinfix
    · exact (hsince.callTool stretch hsuffix hnone).trans hn
    · exact h.perRound stretch hinfix hnone
  allowed other hmem := by
    rw [calls_append, List.mem_append] at hmem
    rcases hmem with hmem | hmem
    · exact h.allowed other hmem
    · obtain rfl := List.mem_singleton.1 hmem
      exact ⟨hallowed, hpublished⟩
  repeated n other hsub := by
    rw [calls_append] at hsub
    rcases replicate_sublist_concat hsub with hsub | ⟨rfl, m, rfl, hrest⟩
    · exact h.repeated n other hsub
    · exact .inr (hrepeated m hrest)
  conversation before request answer hprefix := by
    rcases List.prefix_concat_iff.1 hprefix with heq | hprefix
    · cases (List.append_inj' heq rfl).2
    · exact h.conversation before request answer hprefix

theorem Counts.callTool {counts : Bytes → ℕ} (h : Counts lib events counts) {call : ToolCall}
    {text : Bytes} (hdump : lib.dump call.arguments = .ok text) :
    Counts lib (events ++ [.callTool call.name call.arguments])
      (Function.update counts (toolSignature call text) (counts (toolSignature call text) + 1)) := by
  intro other text' hdump' n hsub
  rw [calls_append] at hsub
  have hmono : ∀ signature, counts signature ≤ Function.update counts (toolSignature call text)
      (counts (toolSignature call text) + 1) signature := by
    intro signature
    grind
  rcases replicate_sublist_concat hsub with hsub | ⟨heq, m, rfl, hrest⟩
  · exact (h other text' hdump' n hsub).trans (hmono _)
  · obtain ⟨hname, harguments⟩ := Prod.mk.inj heq
    rw [harguments, hdump] at hdump'
    obtain rfl := Except.ok.inj hdump'
    have hsame : toolSignature other text = toolSignature call text := by
      rw [toolSignature, toolSignature, hname]
    rw [hsame, Function.update_self]
    refine Nat.succ_le_succ (h call text hdump m ?_)
    rwa [← hname, ← harguments]

/-! ## The loops -/

structure AtCall (lib : Json.Library) (options : AgentOptions) (published : List Bytes)
    (userPrompt : Bytes) (pending : ℕ) (progress : Progress) (events : List Event) : Prop where
  respects : Respects options published userPrompt events
  since : ∃ n, Since events n ∧ n + pending ≤ options.maxToolCallsPerRound
  total : (calls events).length = progress.totalToolCalls
  room : progress.totalToolCalls + pending ≤ options.maxTotalToolCalls
  counts : Counts lib events progress.signatureCounts

theorem AtCall.callTool {pending : ℕ} {progress : Progress}
    (h : AtCall lib options published userPrompt (pending + 1) progress events) {call : ToolCall}
    (hpublished : ∀ name ∈ options.allowedTools, name = [] ∨ name ∈ published)
    (hallowed : call.name ∈ options.allowedTools) {text : Bytes}
    (hdump : lib.dump call.arguments = .ok text)
    (hrepeated : progress.signatureCounts (toolSignature call text) + 1 <
      options.repeatedIdenticalCallLimit) (messages : List Message) :
    AtCall lib options published userPrompt pending
      { messages
        signatureCounts := Function.update progress.signatureCounts (toolSignature call text)
          (progress.signatureCounts (toolSignature call text) + 1)
        totalToolCalls := progress.totalToolCalls + 1 }
      (events ++ [.callTool call.name call.arguments]) := by
  obtain ⟨n, hsince, hn⟩ := h.since
  have hroom := h.room
  refine ⟨?_, ⟨n + 1, hsince.callTool, by omega⟩, ?_, ?_, h.counts.callTool hdump⟩
  · refine h.respects.callTool (by rw [h.total]; omega) hsince (by omega) hallowed
      (hpublished _ hallowed) fun m hsub => ?_
    have := h.counts call text hdump m hsub
    omega
  · rw [calls_append, List.length_append, h.total]
    rfl
  · dsimp only
    omega

/-- How the loop over the calls of a completion ends: within the limits, and with a message for each
call where it goes on. -/
structure Called (lib : Json.Library) (options : AgentOptions) (published : List Bytes)
    (userPrompt : Bytes) (events : List Event) (pending : List ToolCall) (messages : List Message)
    (outcome : Except Bytes (AgentResult ⊕ Progress) × List Event) : Prop where
  respects : Respects options published userPrompt outcome.2
  requests : requests outcome.2 = requests events
  completions : completions outcome.2 = completions events
  goesOn : ∀ progress, outcome.1 = .ok (.inr progress) →
    AtCall lib options published userPrompt 0 progress outcome.2 ∧
      ∃ contents : List Bytes, contents.length = pending.length ∧
        progress.messages = messages ++ List.zipWith toolMessage pending contents

theorem called_of_stop {pending : List ToolCall} {messages : List Message}
    {outcome : Except Bytes (AgentResult ⊕ Progress)} {events' : List Event}
    (hrespects : Respects options published userPrompt events')
    (hrequests : requests events' = requests events)
    (hcompletions : completions events' = completions events)
    (hstop : ∀ progress, outcome ≠ .ok (.inr progress)) :
    Called lib options published userPrompt events pending messages (outcome, events') :=
  ⟨hrespects, hrequests, hcompletions, fun progress h => absurd h (hstop progress)⟩

theorem runCalls_spec (hpublished : ∀ name ∈ options.allowedTools, name = [] ∨ name ∈ published)
    {round : ℕ} {pending : List ToolCall} {progress : Progress}
    (h : AtCall lib options published userPrompt pending.length progress events) :
    Called lib options published userPrompt events pending progress.messages
      (runCalls lib options client round pending progress events) := by
  induction pending generalizing progress events with
  | nil =>
    refine ⟨h.respects, rfl, rfl, fun progress' heq => ?_⟩
    cases heq
    exact ⟨h, [], rfl, (List.append_nil _).symm⟩
  | cons call pending ih =>
    rw [runCalls]
    split
    · exact called_of_stop h.respects rfl rfl fun _ heq => by cases heq
    next hallowed =>
    split
    · exact called_of_stop h.respects rfl rfl fun _ heq => by cases heq
    cases hdump : lib.dump call.arguments with
    | error what =>
      rw [Act.inspect_error_bind]
      exact called_of_stop h.respects rfl rfl fun _ heq => by cases heq
    | ok text =>
    rw [Act.inspect_ok_bind]
    split
    · exact called_of_stop h.respects rfl rfl fun _ heq => by cases heq
    next hrepeated =>
    have hcall := h.callTool hpublished (not_not.1 hallowed) hdump (Nat.lt_of_not_le hrepeated)
    have hrequests : requests (events ++ [.callTool call.name call.arguments]) = requests events := by
      rw [requests_append]
      exact List.append_nil _
    have hcompletions :
        completions (events ++ [.callTool call.name call.arguments]) = completions events := by
      rw [completions_append]
      exact List.append_nil _
    have hstop : ∀ outcome : Except Bytes (AgentResult ⊕ Progress),
        (∀ progress, outcome ≠ .ok (.inr progress)) →
        Called lib options published userPrompt events (call :: pending) progress.messages
          (outcome, events ++ [.callTool call.name call.arguments]) :=
      fun _ => called_of_stop (hcall []).respects hrequests hcompletions
    cases htool : client.callTool events call.name call.arguments with
    | error what =>
      rw [Act.bind_of_error (show callTool client call.name call.arguments events = _ by
        rw [callTool, htool])]
      exact hstop _ fun _ heq => by cases heq
    | ok tool =>
    rw [Act.bind_of_ok (show callTool client call.name call.arguments events = _ by
      rw [callTool, htool])]
    split
    · exact hstop _ fun _ heq => by cases heq
    cases hpayload : lib.dump (toolPayload call tool) with
    | error what =>
      rw [Act.inspect_error_bind]
      exact hstop _ fun _ heq => by cases heq
    | ok payload =>
    rw [Act.inspect_ok_bind]
    have hrest := ih (hcall (progress.messages ++ [toolMessage call payload]))
    refine ⟨hrest.respects, hrest.requests.trans hrequests, hrest.completions.trans hcompletions,
      fun progress' heq => ?_⟩
    obtain ⟨hat, contents, hlength, hmessages⟩ := hrest.goesOn progress' heq
    refine ⟨hat, payload :: contents, congrArg (· + 1) hlength, ?_⟩
    rw [hmessages, List.append_assoc]
    rfl

structure AtRound (lib : Json.Library) (options : AgentOptions) (published : List Bytes)
    (userPrompt : Bytes) (round : ℕ) (progress : Progress) (events : List Event) : Prop where
  respects : Respects options published userPrompt events
  rounds : (requests events).length = round
  total : (calls events).length = progress.totalToolCalls
  counts : Counts lib events progress.signatureCounts
  conversation : Conversation options userPrompt (completions events) progress.messages

/-- The loop over the rounds keeps the limits. -/
theorem runRounds_respects (hpublished : ∀ name ∈ options.allowedTools, name = [] ∨ name ∈ published)
    {tools : List ToolDefinition} {rounds round : ℕ} {progress : Progress}
    (hrounds : rounds + round = options.maxToolRounds + 1)
    (h : AtRound lib options published userPrompt round progress events) :
    Respects options published userPrompt
      (runRounds lib options provider client tools rounds round progress events).2 := by
  induction rounds generalizing round progress events with
  | zero => exact h.respects
  | succ rounds ih =>
    rw [runRounds]
    generalize hrequest : ({ model := options.model, messages := progress.messages, tools } :
      CompletionRequest) = request
    have hasked : Respects options published userPrompt
        (events ++ [.complete request (provider events request)]) := by
      refine h.respects.complete (by rw [h.rounds]; omega) ?_
      rw [← hrequest]
      exact h.conversation
    cases hanswer : provider events request with
    | error what =>
      rw [hanswer] at hasked
      rw [Act.bind_of_error (show complete provider request events = _ by rw [complete, hanswer])]
      exact hasked
    | ok completion =>
    rw [hanswer] at hasked
    rw [Act.bind_of_ok (show complete provider request events = _ by rw [complete, hanswer])]
    split
    · exact hasked
    split
    · exact hasked
    split
    · exact hasked
    split
    · exact hasked
    next hperRound =>
    split
    · exact hasked
    next htotal =>
    have hcompletions : completions (events ++ [.complete request (.ok completion)]) =
        completions events ++ [completion] := by
      rw [completions_append]
      rfl
    have hat : AtCall lib options published userPrompt completion.toolCalls.length
        { progress with messages := progress.messages ++ [assistantMessage completion] }
        (events ++ [.complete request (.ok completion)]) := by
      refine ⟨hasked, ⟨0, since_complete, by omega⟩, ?_, Nat.not_lt.1 htotal, ?_⟩
      · rw [calls_append, List.length_append, h.total]
        rfl
      · intro call text hdump n hsub
        rw [calls_append] at hsub
        exact h.counts call text hdump n (by simpa [calls] using hsub)
    have hcalled := @runCalls_spec lib options client published userPrompt _ hpublished round _ _ hat
    rw [Act.bind_apply]
    cases hrun : runCalls lib options client round completion.toolCalls
        { progress with messages := progress.messages ++ [assistantMessage completion] }
        (events ++ [.complete request (.ok completion)]) with
    | mk outcome events' =>
    rw [hrun] at hcalled
    match outcome with
    | .error what => exact hcalled.respects
    | .ok (.inl result) => exact hcalled.respects
    | .ok (.inr progress') =>
      obtain ⟨hat', contents, hlength, hmessages⟩ := hcalled.goesOn progress' rfl
      refine ih (by omega) ⟨hcalled.respects, ?_, hat'.total, hat'.counts, ?_⟩
      · rw [hcalled.requests, requests_append, List.length_append, h.rounds]
        rfl
      · rw [hcalled.completions, hcompletions, hmessages, List.append_assoc]
        exact .round completion contents h.conversation hlength

/-! ## Main theorem -/

def publishedNames (tools : List ClientTool) : List Bytes := tools.map ClientTool.name

theorem allowedTools_published {tools : List ClientTool} {seen names : List Bytes}
    {out : List ToolDefinition} (h : allowedTools tools seen names = .ok out)
    (hseen : ∀ name ∈ seen, name ∈ publishedNames tools) :
    ∀ name ∈ names, name = [] ∨ name ∈ publishedNames tools := by
  induction names generalizing seen out with
  | nil => exact fun _ h => absurd h List.not_mem_nil
  | cons name names ih =>
    rw [allowedTools] at h
    rw [List.forall_mem_cons]
    split at h
    · next hskip => exact ⟨hskip.imp_right (hseen name), ih h hseen⟩
    cases hfind : tools.find? fun tool => tool.name = name with
    | none =>
      rw [hfind] at h
      cases h
    | some tool =>
      rw [hfind] at h
      have hname : name ∈ publishedNames tools := by
        have hsame : tool.name = name := by simpa using List.find?_some hfind
        exact List.mem_map.2 ⟨tool, List.mem_of_find?_eq_some hfind, hsame⟩
      cases hrest : allowedTools tools (name :: seen) names with
      | error error =>
        rw [hrest] at h
        cases h
      | ok rest => exact ⟨.inr hname, ih hrest (List.forall_mem_cons.2 ⟨hname, hseen⟩)⟩

def publishedBy (client : Option ToolClient) : List Bytes :=
  match client with
  | none => []
  | some client =>
    match client.listTools with
    | .ok listed => publishedNames listed.tools
    | .error _ => []

/-- Every run keeps the limits. -/
theorem run_respects (lib : Json.Library) (options : AgentOptions) (provider : Option Provider)
    (client : Option ToolClient) (userPrompt : Bytes) :
    Respects options (publishedBy client) userPrompt
      (run lib options provider client userPrompt []).2 := by
  unfold run
  match provider, client with
  | none, _ => exact respects_nil
  | some _, none => exact respects_nil
  | some provider, some client =>
    cases hrefusal : refusal options userPrompt with
    | some error => exact respects_nil
    | none =>
    dsimp only
    cases hdiscover : client.discover with
    | error what => exact respects_nil
    | ok discovery =>
    rw [Act.inspect_ok_bind]
    split
    · exact respects_nil
    split
    · exact respects_nil
    cases hlisted : client.listTools with
    | error what => exact respects_nil
    | ok listed =>
    rw [Act.inspect_ok_bind]
    split
    · exact respects_nil
    cases hallowed : allowedTools listed.tools [] options.allowedTools with
    | error error =>
      have hbuild : buildAllowedTools options listed.tools = .error error := by
        rw [buildAllowedTools, hallowed]
        rfl
      rw [hbuild]
      exact respects_nil
    | ok tools =>
    have hbuild : buildAllowedTools options listed.tools =
        if tools.isEmpty then .error (ascii "agent tool allowlist is empty") else .ok tools := by
      rw [buildAllowedTools, hallowed]
      rfl
    rw [hbuild]
    split
    · exact respects_nil
    have hnames : publishedBy (some client) = publishedNames listed.tools := by
      unfold publishedBy
      simp only [hlisted]
    rw [hnames]
    have hpublished := allowedTools_published hallowed fun _ h => absurd h List.not_mem_nil
    refine runRounds_respects hpublished rfl ⟨respects_nil, rfl, rfl, ?_, .start⟩
    intro call text _ n hsub
    have hle := hsub.length_le
    rw [List.length_replicate] at hle
    exact hle.trans (Nat.zero_le _)

/-- A run in which a tool is called that no server publishes: the allowlist has an empty name, and the
provider asks for it. -/
theorem empty_name_called :
    let lib : Json.Library :=
      { parse := fun _ => .ok (.object []), dump := fun _ => .ok [], truncate := Rat.floor }
    let options : AgentOptions :=
      { model := ascii "m", systemPrompt := [], allowedTools := [[], ascii "a"] }
    let provider : Provider := fun _ _ => .ok { ok := true, toolCalls := [⟨ascii "1", [], .object []⟩] }
    let client : ToolClient :=
      { discover := .ok { ok := true, supportedVersions := [kProtocolVersion] }
        listTools := .ok { ok := true, tools := [⟨ascii "a", [], .object []⟩] }
        callTool := fun _ _ _ => .ok { ok := true } }
    publishedBy (some client) = [ascii "a"] ∧
      ([] : Bytes) ∈ (calls (run lib options (some provider) (some client) (ascii "p") []).2).map
        Prod.fst := by
  refine ⟨rfl, ?_⟩
  decide

end TinyImx.Agent
