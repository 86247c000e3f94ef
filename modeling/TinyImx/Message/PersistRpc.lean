import TinyImx.Lib.Positions
import TinyImx.Message.GroupCalls

/-!
# A batch of persist RPCs

`PersistPrivateMessageBatchCore` hands the calls of a batch that are neither expired nor cancelled to
the application service, which hands those that are valid to the repository.  Both write what comes back
to the positions that they kept.
-/

namespace TinyImx.Message.PersistRpc

open TinyImx.Local (Bytes Status DeliveryState PersistOutcome PersistInput PersistResult MessageView
  CommittedUnreadSnapshot)

/-! ## The application service -/

/-- `MessageRepositoryPort`, on a state of its own. -/
structure Repository (σ : Type) where
  persistPrivateMessage : PersistInput → σ → PersistResult × σ
  persistPrivateMessages : List PersistInput → σ → List PersistResult × σ

def validPrivatePersist (input : PersistInput) : Bool :=
  input.fromUserId ≠ 0 ∧ input.toUserId ≠ 0 ∧ input.fromUserId ≠ input.toUserId ∧
    input.clientMessageId ≠ [] ∧ input.clientMessageId.length ≤ 64 ∧
    1 ≤ input.messageType ∧ input.messageType ≤ 3 ∧ input.content ≠ []

def invalidRequest : PersistResult :=
  { status := .invalidArgument, message := "invalid PersistPrivateMessage application request" }

def noRepository : PersistResult :=
  { status := .storageError, message := "message repository port is unavailable" }

def countMismatch : PersistResult :=
  { message := "private batch repository result count mismatch" }

section

variable {σ : Type}

def persistPrivateMessage (repository : Option (Repository σ)) (input : PersistInput) (s : σ) :
    PersistResult × σ :=
  if validPrivatePersist input = false then (invalidRequest, s)
  else match repository with
    | none => (noRepository, s)
    | some repository => repository.persistPrivateMessage input s

def initialResult (repository : Option (Repository σ)) (input : PersistInput) : PersistResult :=
  if validPrivatePersist input = false then invalidRequest
  else match repository with
    | none => noRepository
    | some _ => {}

def persistPrivateMessages (repository : Option (Repository σ)) (inputs : List PersistInput) (s : σ) :
    List PersistResult × σ :=
  if 64 < inputs.length then
    (inputs.map fun _ =>
      { status := .invalidArgument, message := "private persistence batch exceeds64" }, s)
  else
    let out := inputs.map (initialResult repository)
    match repository with
    | none => (out, s)
    | some repository =>
      let valid := inputs.filter validPrivatePersist
      let indexes := Positions.indices validPrivatePersist 0 inputs
      if valid = [] then (out, s)
      else
        let (results, s) := repository.persistPrivateMessages valid s
        if results.length ≠ valid.length then
          (Positions.write out indexes (List.replicate indexes.length countMismatch), s)
        else (Positions.write out indexes results, s)

/-! ## The RPC -/

/-- `grpc::Status`. -/
structure RpcStatus where
  code : StatusCode
  message : String := ""

/-- `ServerContextBase`, as far as it is read. -/
structure ServerContext where
  deadline : ℤ
  cancelled : Bool

/-- `PrivatePersistCallView`: a response is named by its place.  The time is that at which the loop of
the batch reads the clock for the call. -/
structure CallView where
  context : Option ServerContext
  request : Option PersistInput
  response : Option ℕ
  now : ℤ

/-- `MessageDeliveryState` of the protocol. -/
inductive ProtoDeliveryState where
  | unspecified | pending | receiverConfirmed | read | failed

def toProtoDeliveryState : DeliveryState → ProtoDeliveryState
  | .pending => .pending
  | .receiverConfirmed => .receiverConfirmed
  | .read => .read
  | .failed => .failed

structure MessageRecord where
  messageId : ℕ := 0
  clientMessageId : Bytes := []
  fromUserId : ℕ := 0
  toUserId : ℕ := 0
  messageType : ℕ := 0
  content : Bytes := []
  deliveryState : ProtoDeliveryState := .unspecified
  createdAt : Bytes := []
  receiverConfirmedAt : Bytes := []
  readAt : Bytes := []

def fillMessage (source : MessageView) : MessageRecord :=
  { source with deliveryState := toProtoDeliveryState source.deliveryState }

/-- `PersistPrivateMessageResponse`. -/
structure Response where
  result : Option PersistOutcome := none
  messageId : ℕ := 0
  record : Option MessageRecord := none
  message : String := ""
  committedUnread : Option CommittedUnreadSnapshot := none

def validFor (snapshot : CommittedUnreadSnapshot) (messageId receiver peer : ℕ) : Bool :=
  messageId ≠ 0 ∧ receiver ≠ 0 ∧ peer ≠ 0 ∧ receiver ≠ peer ∧ snapshot.messageId = messageId ∧
    snapshot.receiverUserId = receiver ∧ snapshot.peerUserId = peer ∧ snapshot.privateUnread ≠ 0 ∧
    snapshot.privateUnread ≤ snapshot.totalUnread ∧ snapshot.totalUnread ≤ 9223372036854775807

/-- The response that `FillPrivatePersistResult` makes of a completed result. -/
def filledResponse (result : PersistResult) : Response :=
  { result := some result.outcome, messageId := result.messageId, message := result.message
    record := some (fillMessage result.record)
    committedUnread :=
      if result.outcome = .created then
        result.committedUnread.filter fun snapshot =>
          validFor snapshot result.messageId result.record.toUserId result.record.fromUserId
      else none }

def fillPrivatePersistResult (result : PersistResult) (response : ℕ) (responses : ℕ → Response) :
    RpcStatus × (ℕ → Response) :=
  if result.status ≠ .succeeded then
    ({ code := mapApplicationFailure result.status, message := result.message }, responses)
  else ({ code := .ok }, Function.update responses response (filledResponse result))

structure World (σ : Type) where
  repository : σ
  responses : ℕ → Response

def invalidArguments : RpcStatus :=
  { code := .invalidArgument, message := "invalid PersistPrivateMessage RPC arguments" }

def noService : RpcStatus :=
  { code := .unavailable, message := "MessageService application service is unavailable" }

abbrev Service (σ : Type) := Option (Option (Repository σ))

def persistPrivateMessageCore (service : Service σ) (call : CallView) (w : World σ) :
    RpcStatus × World σ :=
  match call.context, call.request, call.response, service with
  | some _, some request, some response, some repository =>
    let (result, repository) := persistPrivateMessage repository request w.repository
    let (status, responses) := fillPrivatePersistResult result response w.responses
    (status, { repository, responses })
  | some _, some _, some _, none => (noService, w)
  | _, _, _, _ => (invalidArguments, w)

/-- What the batch makes of a call before the application service is asked: a status, or the request
that it hands on with the place of its response. -/
def screen (service : Service σ) (call : CallView) : RpcStatus ⊕ (PersistInput × ℕ) :=
  match call.context, call.request, call.response, service with
  | some context, some request, some response, some _ =>
    if context.deadline ≤ call.now then
      .inl { code := .deadlineExceeded, message := "private ready batch expired before repository" }
    else if context.cancelled then
      .inl { code := .cancelled, message := "PersistPrivateMessage RPC cancelled before repository" }
    else .inr (request, response)
  | some _, some _, some _, none => .inl noService
  | _, _, _, _ => .inl invalidArguments

def batchUnavailable : RpcStatus :=
  { code := .unavailable, message := "private ready batch unavailable" }

def admitted (service : Service σ) (call : CallView) : Bool := (screen service call).isRight

def initialStatus (service : Service σ) (call : CallView) : RpcStatus :=
  match screen service call with
  | .inl status => status
  | .inr _ => batchUnavailable

def requests (service : Service σ) (calls : List CallView) : List PersistInput :=
  calls.filterMap fun call => (screen service call).getRight?.map Prod.fst

/-- The last loop of the batch: statuses and responses, from the positions and results that are left. -/
def fillResults (calls : List CallView) :
    List ℕ → List PersistResult → List RpcStatus → (ℕ → Response) → List RpcStatus × (ℕ → Response)
  | i :: indexes, result :: results, statuses, responses =>
    match calls[i]?.bind CallView.response with
    | some response =>
      let (status, responses) := fillPrivatePersistResult result response responses
      fillResults calls indexes results (statuses.set i status) responses
    | none => fillResults calls indexes results statuses responses
  | _, _, statuses, responses => (statuses, responses)

def persistPrivateMessageBatchCore (service : Service σ) (calls : List CallView) (w : World σ) :
    List RpcStatus × World σ :=
  if 64 < calls.length then (calls.map fun _ => batchUnavailable, w)
  else
    let statuses := calls.map (initialStatus service)
    let inputs := requests service calls
    let indexes := Positions.indices (admitted service) 0 calls
    match service with
    | none => (statuses, w)
    | some repository =>
      if inputs = [] then (statuses, w)
      else
        let (results, s) := persistPrivateMessages repository inputs w.repository
        if results.length ≠ inputs.length then (statuses, { w with repository := s })
        else
          let (statuses, responses) := fillResults calls indexes results statuses w.responses
          (statuses, { repository := s, responses })

/-! ## One call after another -/

def CallView.expired (call : CallView) : Bool :=
  call.context.any fun context => context.deadline ≤ call.now

def CallView.cancelled (call : CallView) : Bool := call.context.any ServerContext.cancelled

def persistCall (service : Service σ) (call : CallView) (w : World σ) : RpcStatus × World σ :=
  if call.expired || call.cancelled then (initialStatus service call, w)
  else persistPrivateMessageCore service call w

def Repository.Sequential (repository : Repository σ) : Prop :=
  ∀ inputs s, inputs.length ≤ 64 → (∀ input ∈ inputs, validPrivatePersist input) →
    repository.persistPrivateMessages inputs s =
      Positions.inOrder repository.persistPrivateMessage inputs s

theorem persistPrivateMessage_some (repository : Repository σ) :
    persistPrivateMessage (some repository) = fun input s =>
      if validPrivatePersist input then repository.persistPrivateMessage input s
      else (initialResult (some repository) input, s) := by
  funext input s
  cases hvalid : validPrivatePersist input <;>
    simp [persistPrivateMessage, initialResult, hvalid]

theorem persistPrivateMessage_none :
    persistPrivateMessage (none : Option (Repository σ)) = fun input s =>
      (initialResult (none : Option (Repository σ)) input, s) := by
  funext input s
  cases hvalid : validPrivatePersist input <;>
    simp [persistPrivateMessage, initialResult, hvalid]

theorem persistPrivateMessages_eq {repository : Option (Repository σ)}
    (hseq : ∀ r, repository = some r → r.Sequential) {inputs : List PersistInput}
    (hlen : inputs.length ≤ 64) (s : σ) :
    persistPrivateMessages repository inputs s =
      Positions.inOrder (persistPrivateMessage repository) inputs s := by
  rw [persistPrivateMessages, if_neg (by omega)]
  cases repository with
  | none => rw [persistPrivateMessage_none, Positions.inOrder_pure]
  | some repository =>
    rw [persistPrivateMessage_some, ← Positions.fill_inOrder, ← Positions.write_indices]
    obtain ⟨persist, persistAll⟩ := repository
    have hanswer : persistAll (inputs.filter validPrivatePersist) s =
        Positions.inOrder persist (inputs.filter validPrivatePersist) s :=
      hseq _ rfl _ s ((List.length_filter_le _ _).trans hlen)
        fun input hinput => (List.mem_filter.1 hinput).2
    simp only [hanswer, Positions.length_inOrder, ne_eq, not_true_eq_false, if_false]
    split
    · next hnone =>
      rw [hnone]
      cases Positions.indices validPrivatePersist 0 inputs <;> rfl
    · rfl

/-- The statuses and responses call by call: the next result for a call that was handed on. -/
def fillCalls (service : Service σ) :
    List CallView → List PersistResult → (ℕ → Response) → List RpcStatus × (ℕ → Response)
  | [], _, responses => ([], responses)
  | call :: calls, [], responses =>
    let (statuses, responses) := fillCalls service calls [] responses
    (initialStatus service call :: statuses, responses)
  | call :: calls, result :: results, responses =>
    match screen service call with
    | .inl status =>
      let (statuses, responses) := fillCalls service calls (result :: results) responses
      (status :: statuses, responses)
    | .inr (_, response) =>
      let (status, responses) := fillPrivatePersistResult result response responses
      let (statuses, responses) := fillCalls service calls results responses
      (status :: statuses, responses)

variable {service : Service σ} {call : CallView}

theorem screen_eq_inr {request : PersistInput} {response : ℕ}
    (h : screen service call = .inr (request, response)) :
    ∃ context repository, call.context = some context ∧ call.request = some request ∧
      call.response = some response ∧ service = some repository ∧ call.now < context.deadline ∧
      context.cancelled = false := by
  unfold screen at h
  split at h
  · next context request' response' repository hc hr ho =>
    grind
  · cases h
  · cases h

theorem initialStatus_of_inl {status : RpcStatus}
    (h : screen service call = .inl status) : initialStatus service call = status := by
  rw [initialStatus, h]

theorem fillCalls_nil (service : Service σ) (calls : List CallView) (responses : ℕ → Response) :
    fillCalls service calls [] responses = (calls.map (initialStatus service), responses) := by
  induction calls with
  | nil => rfl
  | cons call calls ih => simp only [fillCalls, ih, List.map_cons]

theorem fillCalls_of_inl {status : RpcStatus}
    (h : screen service call = .inl status) (calls : List CallView) (results : List PersistResult)
    (responses : ℕ → Response) : fillCalls service (call :: calls) results responses =
      (status :: (fillCalls service calls results responses).1,
        (fillCalls service calls results responses).2) := by
  cases results with
  | nil => simp only [fillCalls, initialStatus_of_inl h]
  | cons result results => simp only [fillCalls, h]

theorem fillResults_append (service : Service σ) (done calls : List CallView)
    (statuses : List RpcStatus) (hlen : statuses.length = done.length) (results : List PersistResult)
    (responses : ℕ → Response) :
    fillResults (done ++ calls) (Positions.indices (admitted service) done.length calls) results
        (statuses ++ calls.map (initialStatus service)) responses =
      (statuses ++ (fillCalls service calls results responses).1,
        (fillCalls service calls results responses).2) := by
  induction calls generalizing done statuses results responses with
  | nil => simp [Positions.indices, fillResults, fillCalls]
  | cons call calls ih =>
    have hnext : ∀ status : RpcStatus, (statuses ++ [status]).length = (done ++ [call]).length := by
      simp [hlen]
    cases hscreen : screen service call with
    | inl status =>
      rw [Positions.indices, if_neg (by simp [admitted, hscreen]), fillCalls_of_inl hscreen]
      simpa [initialStatus_of_inl hscreen] using
        ih (done ++ [call]) (statuses ++ [status]) (hnext status) results responses
    | inr handed =>
      obtain ⟨request, response⟩ := handed
      rw [Positions.indices, if_pos (by simp [admitted, hscreen])]
      cases results with
      | nil => simp [fillResults, fillCalls_nil]
      | cons result results =>
        obtain ⟨_, _, _, _, hresponse, _⟩ := screen_eq_inr hscreen
        have hcall : (done ++ call :: calls)[done.length]?.bind CallView.response = some response := by
          simpa using hresponse
        have hset : ∀ status : RpcStatus, (statuses ++ (call :: calls).map (initialStatus service)).set
            done.length status = statuses ++ [status] ++ calls.map (initialStatus service) := by
          simp [← hlen]
        simp only [fillResults, hcall, hset, fillCalls, hscreen]
        simpa using ih (done ++ [call]) (statuses ++
            [(fillPrivatePersistResult result response responses).1]) (hnext _) results
          (fillPrivatePersistResult result response responses).2

theorem persistCall_of_inl {status : RpcStatus}
    (h : screen service call = .inl status) (w : World σ) :
    persistCall service call w = (status, w) := by
  rw [persistCall, initialStatus_of_inl h]
  split
  · rfl
  · next hlive =>
    simp only [Bool.or_eq_true, not_or, Bool.not_eq_true] at hlive
    obtain ⟨hexpired, hcancelled⟩ := hlive
    unfold screen at h
    split at h
    · next context _ _ _ hcontext _ _ =>
      rw [CallView.expired, hcontext] at hexpired
      rw [CallView.cancelled, hcontext] at hcancelled
      grind
    · next hcontext hrequest hresponse =>
      cases h
      simp only [persistPrivateMessageCore, hcontext, hrequest, hresponse]
    · next hno hnone =>
      cases h
      unfold persistPrivateMessageCore
      simp_all

theorem persistCall_of_inr {repository : Option (Repository σ)}
    {request : PersistInput} {response : ℕ}
    (h : screen (some repository) call = .inr (request, response)) (w : World σ) :
    persistCall (some repository) call w =
      ((fillPrivatePersistResult (persistPrivateMessage repository request w.repository).1 response
          w.responses).1,
        { repository := (persistPrivateMessage repository request w.repository).2
          responses := (fillPrivatePersistResult (persistPrivateMessage repository request
            w.repository).1 response w.responses).2 }) := by
  obtain ⟨context, _, hcontext, hrequest, hresponse, -, hdeadline, hcancelled⟩ := screen_eq_inr h
  have hlive : (call.expired || call.cancelled) = false := by
    simpa [CallView.expired, CallView.cancelled, hcontext] using ⟨hdeadline, hcancelled⟩
  rw [persistCall, hlive]
  simp only [Bool.false_eq_true, if_false, persistPrivateMessageCore, hcontext, hrequest, hresponse]

theorem inOrder_persistCall (repository : Option (Repository σ)) (calls : List CallView) (w : World σ) :
    Positions.inOrder (persistCall (some repository)) calls w =
      let answered := Positions.inOrder (persistPrivateMessage repository)
        (requests (some repository) calls) w.repository
      let filled := fillCalls (some repository) calls answered.1 w.responses
      (filled.1, { repository := answered.2, responses := filled.2 }) := by
  induction calls generalizing w with
  | nil => rfl
  | cons call calls ih =>
    rw [Positions.inOrder_cons]
    cases hscreen : screen (some repository) call with
    | inl status =>
      have hrequests : requests (some repository) (call :: calls) = requests (some repository) calls := by
        simp [requests, hscreen]
      simp only [hrequests, persistCall_of_inl hscreen, fillCalls_of_inl hscreen, ih]
    | inr handed =>
      obtain ⟨request, response⟩ := handed
      have hrequests : requests (some repository) (call :: calls) =
          request :: requests (some repository) calls := by
        simp [requests, hscreen]
      simp only [hrequests, Positions.inOrder_cons, persistCall_of_inr hscreen, fillCalls, hscreen, ih]

theorem persistCall_none :
    persistCall (none : Service σ) = fun call w => (initialStatus (none : Service σ) call, w) := by
  funext call w
  cases hscreen : screen (none : Service σ) call with
  | inl status => rw [persistCall_of_inl hscreen, initialStatus_of_inl hscreen]
  | inr handed =>
    obtain ⟨_, _, _, _, _, hservice, _⟩ := screen_eq_inr hscreen
    cases hservice

theorem length_requests (service : Service σ) (calls : List CallView) :
    (requests service calls).length ≤ calls.length :=
  List.length_filterMap_le _ _

variable {calls : List CallView}

theorem batchCore_some (repository : Option (Repository σ)) (hlen : calls.length ≤ 64) (w : World σ)
    (hanswers : (persistPrivateMessages repository (requests (some repository) calls)
      w.repository).1.length = (requests (some repository) calls).length) :
    persistPrivateMessageBatchCore (some repository) calls w =
      if requests (some repository) calls = [] then (calls.map (initialStatus (some repository)), w)
      else
        let answered := persistPrivateMessages repository (requests (some repository) calls) w.repository
        let filled := fillCalls (some repository) calls answered.1 w.responses
        (filled.1, { repository := answered.2, responses := filled.2 }) := by
  rw [persistPrivateMessageBatchCore, if_neg (by omega)]
  have hfill := fillResults_append (some repository) [] calls [] rfl
  simp only [List.nil_append, List.length_nil] at hfill
  simp only [hanswers, ne_eq, not_true_eq_false, if_false, hfill]

theorem batchCore_eq (hseq : ∀ repository, service = some (some repository) →
      repository.Sequential) (hlen : calls.length ≤ 64) (w : World σ) :
    persistPrivateMessageBatchCore service calls w =
      Positions.inOrder (persistCall service) calls w := by
  cases service with
  | none =>
    rw [persistCall_none, Positions.inOrder_pure, persistPrivateMessageBatchCore, if_neg (by omega)]
  | some repository =>
    have hanswered := persistPrivateMessages_eq (fun r hr => hseq r (congrArg some hr))
      ((length_requests (some repository) calls).trans hlen) w.repository
    rw [batchCore_some repository hlen w (by rw [hanswered, Positions.length_inOrder]), hanswered,
      inOrder_persistCall]
    split
    · next hnone => simp only [hnone, Positions.inOrder, fillCalls_nil]
    · rfl

/-! ## An answer of the wrong length -/

def Repository.Mismatches (repository : Repository σ) (inputs : List PersistInput) (s : σ) : Prop :=
  (repository.persistPrivateMessages inputs s).1.length ≠ inputs.length

/-- The result of a request where the repository answers with too few or too many results. -/
def mismatchResult (input : PersistInput) : PersistResult :=
  if validPrivatePersist input then countMismatch else invalidRequest

theorem persistPrivateMessages_mismatch {repository : Repository σ} {inputs : List PersistInput}
    (hlen : inputs.length ≤ 64) {s : σ}
    (h : repository.Mismatches (inputs.filter validPrivatePersist) s) :
    (persistPrivateMessages (some repository) inputs s).1 = inputs.map mismatchResult := by
  have hinvalid : ∀ input, validPrivatePersist input = false →
      initialResult (some repository) input = invalidRequest := by
    intro input hinput
    rw [initialResult, if_pos hinput]
  rw [persistPrivateMessages, if_neg (by omega)]
  unfold Repository.Mismatches at h
  simp only [if_pos h]
  split
  · next hnone =>
    refine List.map_congr_left fun input hinput => ?_
    have hvalid : validPrivatePersist input = false := by
      simpa using List.filter_eq_nil_iff.1 hnone input hinput
    rw [hinvalid input hvalid, mismatchResult, hvalid]
    rfl
  · rw [Positions.write_replicate]
    refine List.map_congr_left fun input _ => ?_
    cases hvalid : validPrivatePersist input <;> simp [mismatchResult, hvalid, hinvalid]

/-- The status of a call where the repository answers with too few or too many results. -/
def mismatchStatus (service : Service σ) (call : CallView) : RpcStatus :=
  match screen service call with
  | .inl status => status
  | .inr (request, _) =>
    if validPrivatePersist request then
      { code := .unavailable, message := "private batch repository result count mismatch" }
    else { code := .invalidArgument, message := "invalid PersistPrivateMessage application request" }

theorem fillPrivatePersistResult_mismatch (input : PersistInput) (response : ℕ)
    (responses : ℕ → Response) :
    fillPrivatePersistResult (mismatchResult input) response responses =
      (if validPrivatePersist input then
          { code := .unavailable, message := "private batch repository result count mismatch" }
        else
          { code := .invalidArgument, message := "invalid PersistPrivateMessage application request" },
        responses) := by
  cases hvalid : validPrivatePersist input <;>
    simp [fillPrivatePersistResult, mismatchResult, hvalid, countMismatch, invalidRequest,
      mapApplicationFailure]

theorem fillCalls_mismatch (service : Service σ) (calls : List CallView) (responses : ℕ → Response) :
    fillCalls service calls ((requests service calls).map mismatchResult) responses =
      (calls.map (mismatchStatus service), responses) := by
  induction calls with
  | nil => rfl
  | cons call calls ih =>
    cases hscreen : screen service call with
    | inl status =>
      have hrequests : requests service (call :: calls) = requests service calls := by
        simp [requests, hscreen]
      rw [hrequests, fillCalls_of_inl hscreen, ih]
      simp [mismatchStatus, hscreen]
    | inr handed =>
      obtain ⟨request, response⟩ := handed
      have hrequests : requests service (call :: calls) = request :: requests service calls := by
        simp [requests, hscreen]
      rw [hrequests]
      simp only [List.map_cons, fillCalls, hscreen, fillPrivatePersistResult_mismatch, ih,
        mismatchStatus]

theorem batchCore_mismatch {repository : Repository σ} (hlen : calls.length ≤ 64) {w : World σ}
    (h : repository.Mismatches ((requests (some (some repository)) calls).filter validPrivatePersist)
      w.repository) :
    (persistPrivateMessageBatchCore (some (some repository)) calls w).1 =
        calls.map (mismatchStatus (some (some repository))) ∧
      (persistPrivateMessageBatchCore (some (some repository)) calls w).2.responses = w.responses := by
  have hanswered := persistPrivateMessages_mismatch
    ((length_requests (some (some repository)) calls).trans hlen) h
  have hfilled := fillCalls_mismatch (some (some repository)) calls w.responses
  rw [batchCore_some (some repository) hlen w (by rw [hanswered, List.length_map])]
  split
  · next hnone =>
    rw [hnone, List.map_nil, fillCalls_nil] at hfilled
    exact ⟨congrArg Prod.fst hfilled, rfl⟩
  · simp only [hanswered, hfilled, and_self]

/-! ## The batch -/

def live (calls : List CallView) : List CallView :=
  calls.filter fun call => !(call.expired || call.cancelled)

theorem requests_live (service : Service σ) (calls : List CallView) :
    requests service (live calls) = requests service calls := by
  induction calls with
  | nil => rfl
  | cons call calls ih =>
    cases hlive : call.expired || call.cancelled with
    | false =>
      rw [live, List.filter_cons_of_pos (by simp [hlive]), requests, List.filterMap_cons, requests,
        List.filterMap_cons, ← requests, ← requests, ← live, ih]
    | true =>
      have hscreen : ∃ status, screen service call = .inl status := by
        cases h : screen service call with
        | inl status => exact ⟨status, rfl⟩
        | inr handed =>
          obtain ⟨context, _, hcontext, _, _, _, hdeadline, hcancelled⟩ := screen_eq_inr h
          simp [CallView.expired, CallView.cancelled, hcontext, hcancelled] at hlive
          omega
      obtain ⟨status, hscreen⟩ := hscreen
      rw [live, List.filter_cons_of_neg (by simp [hlive]), ← live, ih]
      simp [requests, hscreen]

theorem batchCore_repository (repository : Option (Repository σ))
    (hlen : calls.length ≤ 64) (w : World σ) :
    (persistPrivateMessageBatchCore (some repository) calls w).2.repository =
      if requests (some repository) calls = [] then w.repository
      else (persistPrivateMessages repository (requests (some repository) calls) w.repository).2 := by
  rw [persistPrivateMessageBatchCore, if_neg (by omega)]
  grind

theorem batchCore_live (service : Service σ) (hlen : calls.length ≤ 64)
    (w : World σ) : (persistPrivateMessageBatchCore service (live calls) w).2.repository =
      (persistPrivateMessageBatchCore service calls w).2.repository := by
  have hlive : (live calls).length ≤ 64 := (List.length_filter_le _ _).trans hlen
  cases service with
  | none =>
    rw [persistPrivateMessageBatchCore, if_neg (by omega), persistPrivateMessageBatchCore,
      if_neg (by omega)]
  | some repository =>
    rw [batchCore_repository repository hlive, batchCore_repository repository hlen, requests_live]

/-- A batch of at most 64 calls gives every call the status and the response that it gets by itself,
one call after another; expired and cancelled calls have no effect on the repository, whatever the
repository answers; and with an answer of the wrong length every valid call fails and no response is
written. -/
theorem batch_agrees (service : Service σ) (calls : List CallView) (hlen : calls.length ≤ 64)
    (w : World σ) :
    ((∀ repository, service = some (some repository) → repository.Sequential) →
      persistPrivateMessageBatchCore service calls w =
          Positions.inOrder (persistCall service) calls w ∧
        (persistPrivateMessageBatchCore service calls w).1.length = calls.length) ∧
      (persistPrivateMessageBatchCore service (live calls) w).2.repository =
        (persistPrivateMessageBatchCore service calls w).2.repository ∧
      ∀ repository, service = some (some repository) →
        repository.Mismatches ((requests service calls).filter validPrivatePersist) w.repository →
          (persistPrivateMessageBatchCore service calls w).1 = calls.map (mismatchStatus service) ∧
            (persistPrivateMessageBatchCore service calls w).2.responses = w.responses := by
  refine ⟨fun hseq => ?_, batchCore_live service hlen w, ?_⟩
  · rw [batchCore_eq hseq hlen]
    exact ⟨rfl, Positions.length_inOrder _ _ _⟩
  · rintro repository rfl hmismatch
    exact batchCore_mismatch hlen hmismatch

end

def sampleRepository : Repository (List PersistInput) :=
  let persist (input : PersistInput) (stored : List PersistInput) :=
    match stored.findIdx? fun m =>
        m.fromUserId = input.fromUserId ∧ m.clientMessageId = input.clientMessageId with
    | some i => ({ status := .succeeded, outcome := .reused, messageId := i + 1 }, stored)
    | none =>
      ({ status := .succeeded, messageId := stored.length + 1 }, stored ++ [input])
  { persistPrivateMessage := persist, persistPrivateMessages := Positions.inOrder persist }

def shortRepository : Repository (List PersistInput) :=
  { sampleRepository with
    persistPrivateMessages := fun inputs stored =>
      let (results, stored) := sampleRepository.persistPrivateMessages inputs stored
      (results.dropLast, stored) }

def sampleInput (clientMessageId : Bytes) : PersistInput :=
  { fromUserId := 1, toUserId := 2, clientMessageId, messageType := 1, content := [104] }

def sampleCall (deadline : ℤ) (cancelled : Bool) (clientMessageId : Bytes) (response : ℕ) : CallView :=
  { context := some ⟨deadline, cancelled⟩, request := some (sampleInput clientMessageId)
    response := some response, now := 5 }

/-- Null arguments, an expired call, a cancelled one, an invalid one, and three with two client ids. -/
def sampleCalls : List CallView :=
  [{ context := none, request := none, response := none, now := 5 }, sampleCall 5 false [97] 1,
    sampleCall 9 true [97] 2, sampleCall 9 false [] 3, sampleCall 9 false [97] 4,
    sampleCall 9 false [98] 5, sampleCall 9 false [97] 6]

def sampleWorld : World (List PersistInput) := { repository := [], responses := fun _ => {} }

theorem batch_agrees_sample :
    (persistPrivateMessageBatchCore (some (some sampleRepository)) sampleCalls sampleWorld =
          Positions.inOrder (persistCall (some (some sampleRepository))) sampleCalls sampleWorld ∧
        (persistPrivateMessageBatchCore (some (some sampleRepository)) sampleCalls
          sampleWorld).1.map RpcStatus.code =
          [.invalidArgument, .deadlineExceeded, .cancelled, .invalidArgument, .ok, .ok, .ok] ∧
        [1, 2, 3, 4, 5, 6].map (fun i => ((persistPrivateMessageBatchCore (some (some sampleRepository))
          sampleCalls sampleWorld).2.responses i).messageId) = [0, 0, 0, 1, 2, 1]) ∧
      (persistPrivateMessageBatchCore (some (some shortRepository)) sampleCalls sampleWorld).1.map
          RpcStatus.code = [.invalidArgument, .deadlineExceeded, .cancelled, .invalidArgument,
            .unavailable, .unavailable, .unavailable] ∧
        (persistPrivateMessageBatchCore (some (some shortRepository)) sampleCalls
          sampleWorld).2.responses = sampleWorld.responses := by
  have hagrees := batch_agrees (some (some sampleRepository)) sampleCalls (by decide) sampleWorld
  have hshort := batch_agrees (some (some shortRepository)) sampleCalls (by decide) sampleWorld
  have hsequential : ∀ repository, some (some sampleRepository) = some (some repository) →
      repository.Sequential := by
    rintro repository ⟨⟩ inputs s - -
    rfl
  obtain ⟨hstatuses, hresponses⟩ := hshort.2.2 shortRepository rfl (by
    unfold Repository.Mismatches
    decide)
  refine ⟨⟨(hagrees.1 hsequential).1, by decide, by decide⟩, ?_, hresponses⟩
  rw [hstatuses]
  decide

end TinyImx.Message.PersistRpc
