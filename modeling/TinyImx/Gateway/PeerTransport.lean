import TinyImx.Lib.Run
import TinyImx.Protocol.RoundTrip

/-!
# The request table of a peer transport

A transport sends requests of two kinds to another gateway and keeps them in two tables under sequence
numbers of one space, until a response, a timeout or a failure completes them.  Everything runs on the
loop of the transport, but the callbacks are foreign code that may call the transport again while a
handler is in the middle of its work.

So the state has the code that is still to run, the innermost first.  Where foreign code is innermost it
may call the transport, which pushes code, or return.
-/

namespace TinyImx.Gateway.PeerTransport

open Net Protocol

/-- The requests of a chat message and those of a group message have a table and a queue each. -/
inductive Kind
  | chat
  | group
  deriving DecidableEq

inductive Status
  | ok
  | invalidArgument
  | notRunning
  | notConnected
  | encodeError
  | requestTimeout
  | disconnected
  | protocolError
  | stopped

inductive Request
  | chat (messageId fromUserId toUserId : UInt64) (messageBody : List UInt8)
  | group (messageId recipientUserId : UInt64)

namespace Request

def kind : Request → Kind
  | .chat _ _ _ _ => .chat
  | .group _ _ => .group

def type : Request → MessageType
  | .chat _ _ _ _ => ⟨3001⟩
  | .group _ _ => ⟨3003⟩

def valid : Request → Bool
  | .chat messageId fromUserId toUserId messageBody =>
    messageId ≠ 0 && fromUserId ≠ 0 && toUserId ≠ 0 && fromUserId ≠ toUserId &&
      !messageBody.isEmpty
  | .group messageId recipientUserId => messageId ≠ 0 && recipientUserId ≠ 0

end Request

def responseType : Kind → MessageType
  | .chat => ⟨3002⟩
  | .group => ⟨3004⟩

/-- The options of a transport, with the request bodies that carry its gateway and lease. -/
structure Wire (ρ : Type) where
  maxBodySize : ℕ
  serialize : Request → Except String (List UInt8)
  deserialize : Kind → List UInt8 → Except String ρ

structure Result (ρ : Type) where
  status : Status
  response : Option ρ
  errorMessage : String

def Result.failed {ρ : Type} (status : Status) (errorMessage : String) : Result ρ :=
  ⟨status, none, errorMessage⟩

structure Submission where
  id : ℕ
  request : Request
  callback : Bool

structure Pending where
  id : ℕ
  callback : Bool
  timeoutTimer : Option ℕ

/-- A timer of the loop: its id, what `HandleRequestTimeout` is called for, and the submission it was
armed for. -/
structure Timer where
  id : ℕ
  kind : Kind
  sequence : UInt32
  owner : ℕ

abbrev Table := List (UInt32 × Pending)

inductive Instr
  | outside
  | setDisconnected
  | failAllPending (kind : Kind) (status : Status) (text : String)
  | failEachPending (kind : Kind) (status : Status) (text : String) (entries : Table)
  | failQueued (kind : Kind) (status : Status) (text : String)
  | failEachQueued (status : Status) (text : String) (queued : List Submission)
  | flushQueued (kind : Kind)
  | flushEach (queued : List Submission)
  | forwardInLoop (submission : Submission)
  | packets (packets : List Packet)
  | cleared

inductive Cause
  | response (kind : Kind) (sequence : UInt32)
  | timeout (timer : Timer)
  | failure

inductive Event (ρ : Type)
  | given (id : ℕ) (kind : Kind) (sequence : UInt32)
  | completed (id : ℕ) (cause : Cause) (result : Result ρ)

structure State (ρ : Type) where
  running : Bool
  connected : Bool
  pendingCount : ℕ
  nextSequence : UInt32
  /-- `pending_requests_` and `pending_group_requests_`. -/
  tables : Kind → Table
  /-- `queued_forwards_` and `queued_group_forwards_`. -/
  queues : Kind → List Submission
  timers : List Timer
  nextTimer : ℕ
  /-- The posted calls of `StopInLoop`. -/
  stops : ℕ
  code : List Instr
  nextId : ℕ
  events : List (Event ρ)
  closed : Bool

def State.started {ρ : Type} : State ρ where
  running := true
  connected := false
  pendingCount := 0
  nextSequence := 1
  tables := fun _ => []
  queues := fun _ => []
  timers := []
  nextTimer := 0
  stops := 0
  code := []
  nextId := 0
  events := []
  closed := false

/-! ## Sequence numbers -/

/-- The loop of `NextSequence`: its result, and `next_sequence_` after it. -/
def nextSequenceLoop (used : UInt32 → Bool) : ℕ → UInt32 → UInt32 × UInt32
  | 0, next => (0, next)
  | attempts + 1, next =>
    let candidate := next
    let next := if next + 1 = 0 then 1 else next + 1
    if candidate = 0 then nextSequenceLoop used attempts next
    else if used candidate then nextSequenceLoop used attempts next
    else (candidate, next)

def maxAttempts : ℕ := 2 ^ 32 - 1

def Table.keys (t : Table) : List UInt32 := t.map Prod.fst

def Table.find (t : Table) (sequence : UInt32) : Option Pending :=
  (List.find? (fun e => e.1 = sequence) t).map Prod.snd

def Table.erase (t : Table) (sequence : UInt32) : Table := t.filter fun e => e.1 ≠ sequence

def Table.emplace (t : Table) (sequence : UInt32) (pending : Pending) : Table :=
  if (t.find sequence).isSome then t else t ++ [(sequence, pending)]

namespace State

variable {ρ : Type} (s : State ρ)

def used (sequence : UInt32) : Bool :=
  ((s.tables .chat).find sequence).isSome || ((s.tables .group).find sequence).isSome

def takeSequence : UInt32 × State ρ :=
  let (sequence, next) := nextSequenceLoop s.used maxAttempts s.nextSequence
  (sequence, { s with nextSequence := next })

/-! ## Pieces of the handlers -/

def push (code : List Instr) : State ρ := { s with code := code ++ s.code }

def setTable (kind : Kind) (table : Table) : State ρ :=
  { s with tables := fun k => if k = kind then table else s.tables k }

def setQueue (kind : Kind) (queue : List Submission) : State ρ :=
  { s with queues := fun k => if k = kind then queue else s.queues k }

def storeCount : State ρ :=
  { s with pendingCount := (s.tables .chat).length + (s.tables .group).length }

def cancel (timer : Option ℕ) : State ρ :=
  { s with timers := s.timers.filter fun t => some t.id ≠ timer }

def complete (id : ℕ) (callback : Bool) (cause : Cause) (result : Result ρ) : State ρ :=
  { s with
    events := s.events ++ [.completed id cause result]
    code := if callback then .outside :: s.code else s.code }

def reject (submission : Submission) (status : Status) (text : String) : State ρ :=
  s.complete submission.id submission.callback .failure (.failed status text)

def track (submission : Submission) (sequence : UInt32) (timerArmed : Bool) : State ρ :=
  let kind := submission.request.kind
  let timer := Timer.mk s.nextTimer kind sequence submission.id
  let timeoutTimer := if timerArmed then some timer.id else none
  let s := { s with
    timers := if timerArmed then s.timers ++ [timer] else s.timers
    nextTimer := s.nextTimer + 1
    events := s.events ++ [Event.given submission.id kind sequence] }
  (s.setTable kind
    ((s.tables kind).emplace sequence ⟨submission.id, submission.callback, timeoutTimer⟩)).storeCount

/-! ## Requests -/

/-- `ForwardChatInLoop` and `ForwardGroupMessageInLoop`, for a connection that can be used or not and
a loop that has timers or not.  `Send` is code outside the transport. -/
def forwardInLoop (w : Wire ρ) (submission : Submission) (connectionUsable timerArmed : Bool) :
    State ρ :=
  if !s.running then s.reject submission .notRunning "gateway peer transport is not running"
  else if !s.connected || !connectionUsable then
    s.setQueue submission.request.kind (s.queues submission.request.kind ++ [submission])
  else
    match w.serialize submission.request with
    | .error text => s.reject submission .invalidArgument text
    | .ok body =>
      let (sequence, s) := s.takeSequence
      if sequence = 0 then
        s.reject submission .protocolError "unable to allocate gateway peer sequence"
      else
        match encode w.maxBodySize ⟨submission.request.type, 0, sequence, body⟩ (.make 1024) with
        | (.error text, _) => s.reject submission .encodeError text
        | (.ok (), _) => (s.track submission sequence timerArmed).push [.outside]

/-- `HandleForwardChatResponse` and `HandleForwardGroupMessageResponse`. -/
def handleResponse (w : Wire ρ) (kind : Kind) (packet : Packet) : State ρ :=
  match (s.tables kind).find packet.seq with
  | none => s
  | some pending =>
    let s := ((s.setTable kind ((s.tables kind).erase packet.seq)).storeCount).cancel
      pending.timeoutTimer
    s.complete pending.id pending.callback (.response kind packet.seq)
      (match w.deserialize kind packet.body with
      | .error text => .failed .protocolError text
      | .ok response => ⟨.ok, some response, ""⟩)

def timeoutText : Kind → String
  | .chat => "gateway peer request timeout"
  | .group => "gateway peer group request timeout"

/-- `HandleRequestTimeout` and `HandleGroupRequestTimeout`, called by a timer that has fired. -/
def handleTimeout (timer : Timer) : State ρ :=
  let s := s.cancel (some timer.id)
  match (s.tables timer.kind).find timer.sequence with
  | none => s
  | some pending =>
    ((s.setTable timer.kind ((s.tables timer.kind).erase timer.sequence)).storeCount).complete
      pending.id pending.callback (.timeout timer)
      (.failed .requestTimeout (timeoutText timer.kind))

def handlePacket (w : Wire ρ) (packet : Packet) : State ρ :=
  if packet.type = responseType .chat then s.handleResponse w .chat packet
  else if packet.type = responseType .group then s.handleResponse w .group packet
  else s

/-- `FailAllPending` and `FailAllPendingGroup`; the map is gone through in some order.  The first stores
zero as the count. -/
def failAllPending (kind : Kind) (status : Status) (text : String) (order : Table) : State ρ :=
  match kind with
  | .chat =>
    if (s.tables .chat).isEmpty then { s with pendingCount := 0 }
    else ({ s.setTable .chat [] with pendingCount := 0 }).push [.failEachPending .chat status text order]
  | .group =>
    ({ s.setTable .group [] with pendingCount := (s.tables .chat).length }).push
      [.failEachPending .group status text order]

/-! ## Handlers -/

def failAll (status : Status) (text : String) (rest : List Instr) : List Instr :=
  .failAllPending .chat status text :: .failAllPending .group status text :: rest

def failAllQueued (status : Status) (text : String) (rest : List Instr) : List Instr :=
  .failQueued .chat status text :: .failQueued .group status text :: rest

/-- `StopInLoop`; `tcp_client_->Stop` is code outside the transport. -/
def stopInLoop : State ρ :=
  s.push (failAll .stopped "gateway peer transport stopped"
    (failAllQueued .stopped "gateway peer transport stopped" [.setDisconnected, .outside, .cleared]))

/-- `HandleConnection`; the connection state callback is code outside the transport. -/
def handleConnection (connected : Bool) : State ρ :=
  if connected then
    { s with connected := true }.push [.outside, .flushQueued .chat, .flushQueued .group]
  else
    { s with connected := false, running := false }.push
      (failAll .disconnected "gateway peer connection closed"
        (failAllQueued .disconnected "gateway peer connection closed" [.outside, .cleared]))

def handleConnectError (text : String) : State ρ :=
  { s with connected := false, running := false }.push
    (failAllQueued .notConnected ("gateway peer connect failed: " ++ text) [.outside])

def handleMessage (w : Wire ρ) (buffer : Buffer) : State ρ × Buffer :=
  let (result, buffer) := decode w.maxBodySize buffer
  match result.status with
  | .needMoreData => (s, buffer)
  | .ok => (s.push [.packets result.packets], buffer)
  | _ => (s.push (failAll .protocolError result.errorMessage [.outside]), buffer)

def stop : Option (State ρ) := if s.running then some { s with running := false } else none

def submit (request : Request) (callback : Bool) : State ρ :=
  { s with nextId := s.nextId + 1 }.push [.forwardInLoop ⟨s.nextId, request, callback⟩]

end State

/-! ## Steps -/

inductive LoopEvent
  | forward (request : Request) (callback : Bool)
  | message (buffer : Buffer)
  | timeout (timer : Timer)
  | connection (connected : Bool)
  | connectError (text : String)
  | stop

inductive Call
  | forward (request : Request) (callback : Bool)
  | connection (connected : Bool)
  | connectError (text : String)
  | stop

/-- What a piece of code finds: whether the connection can be used, whether the loop has timers, and
the order of a map. -/
structure Found where
  connectionUsable : Bool
  timerArmed : Bool
  order : Table

namespace State

variable {ρ : Type} (w : Wire ρ) (s : State ρ)

def handle : LoopEvent → State ρ
  | .forward request callback => s.submit request callback
  | .message buffer => (s.handleMessage w buffer).1
  | .timeout timer => s.handleTimeout timer
  | .connection connected => s.handleConnection connected
  | .connectError text => s.handleConnectError text
  | .stop => { s with stops := s.stops - 1 }.stopInLoop

/-- Whether the loop can call it: a timer is armed, a call of `StopInLoop` is posted. -/
def canHandle : LoopEvent → Prop
  | .timeout timer => timer ∈ s.timers
  | .stop => 0 < s.stops
  | _ => True

/-- `ForwardChat`, `ForwardGroupMessage` and `Stop` as called on the loop. -/
def call : Call → State ρ
  | .forward request callback => if request.valid && s.running then s.submit request callback else s
  | .connection connected => s.handleConnection connected
  | .connectError text => s.handleConnectError text
  | .stop => (s.stop.map stopInLoop).getD s

def exec (found : Found) : Instr → State ρ
  | .outside => s
  | .setDisconnected => { s with connected := false }
  | .failAllPending kind status text => s.failAllPending kind status text found.order
  | .failEachPending _ _ _ [] => s
  | .failEachPending kind status text ((_, pending) :: entries) =>
    ((s.push [.failEachPending kind status text entries]).cancel pending.timeoutTimer).complete pending.id
      pending.callback .failure (.failed status text)
  | .failQueued kind status text =>
    (s.setQueue kind []).push [.failEachQueued status text (s.queues kind)]
  | .failEachQueued _ _ [] => s
  | .failEachQueued status text (submission :: queued) =>
    (s.push [.failEachQueued status text queued]).reject submission status text
  | .flushQueued kind => (s.setQueue kind []).push [.flushEach (s.queues kind)]
  | .flushEach [] => s
  | .flushEach (submission :: queued) => s.push [.forwardInLoop submission, .flushEach queued]
  | .forwardInLoop submission =>
    s.forwardInLoop w submission found.connectionUsable found.timerArmed
  | .packets [] => s
  | .packets (packet :: packets) => (s.push [.packets packets]).handlePacket w packet
  | .cleared => { s with closed := true }

def fits (found : Found) : Instr → Prop
  | .failAllPending kind _ _ => found.order.Perm (s.tables kind)
  | _ => True

end State

inductive Label
  /-- `Stop` of another thread posts `StopInLoop`. -/
  | stopElsewhere
  | loop (event : LoopEvent)
  | exec (instr : Instr) (found : Found)
  | call (call : Call)
  | back

inductive Step {ρ : Type} (w : Wire ρ) : State ρ → Label → State ρ → Prop
  | stopElsewhere {s s' : State ρ} (h : s.stop = some s') :
      Step w s .stopElsewhere { s' with stops := s'.stops + 1 }
  | loop {s : State ρ} (event : LoopEvent) (hidle : s.code = []) (h : s.canHandle event) :
      Step w s (.loop event) (s.handle w event)
  | exec {s : State ρ} {instr : Instr} {code : List Instr} (found : Found)
      (hcode : s.code = instr :: code) (hinside : instr ≠ .outside) (h : s.fits found instr) :
      Step w s (.exec instr found) (State.exec w { s with code := code } found instr)
  | call {s : State ρ} {code : List Instr} (c : Call) (hcode : s.code = .outside :: code) :
      Step w s (.call c) (s.call c)
  | back {s : State ρ} {code : List Instr} (hcode : s.code = .outside :: code) :
      Step w s .back { s with code := code }

end TinyImx.Gateway.PeerTransport
