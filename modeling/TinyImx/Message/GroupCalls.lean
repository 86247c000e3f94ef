import TinyImx.Lib.Run
import TinyImx.Message.GroupPersist
import Mathlib.Logic.Function.Basic
import Mathlib.Data.List.Infix

/-!
# Calls that persist group messages

`PersistGroupMessage` of the service looks the message up, asks `GroupService` for a snapshot of the
group and hands both to `PersistAuthorizedGroupMessage`, which may also be called by itself, of the
application service or of the repository adapter.  Other calls take steps between any two lookups,
the authorization and the transaction of a call.  Any statement may fail, and a commit may take
effect and lose its reply.
-/

namespace TinyImx.Message

open TinyImx.Local (Bytes Status PersistOutcome Failure)

/-- `grpc::StatusCode`, as far as the service returns it. -/
inductive StatusCode where
  | ok | cancelled | unknown | invalidArgument | deadlineExceeded | notFound | permissionDenied
  | resourceExhausted | failedPrecondition | internal | unavailable | dataLoss
  deriving DecidableEq

def mapApplicationFailure : Status → StatusCode
  | .invalidArgument => .invalidArgument
  | .notFound => .notFound
  | .permissionDenied => .permissionDenied
  | .failedPrecondition => .failedPrecondition
  | .invalidRecord => .dataLoss
  | .storageError => .unavailable
  | .succeeded => .ok

structure RpcReply where
  code : StatusCode
  message : String := ""
  response : Option GroupPersistResult := none

inductive Result where
  | rpc (reply : RpcReply)
  | persist (result : GroupPersistResult)

def Result.Failed : Result → Prop
  | .rpc reply => reply.code ≠ .ok
  | .persist result => result.status ≠ .succeeded

inductive Entry where
  | service
  | application (snap : Snapshot)
  | adapter (snap : Snapshot)

structure Request where
  message : GroupMessage
  entry : Entry

inductive Phase where
  | lookup
  | authorize
  | persist (snap : Snapshot)
  | transaction (snap : Snapshot)
  | recoverInsert (error : String)
  | recoverCommit (error : String)
  | returned (result : Result)

structure Call where
  request : Request
  phase : Phase

structure State where
  db : Db
  calls : ℕ → Option Call

def State.initial : State := ⟨Db.empty, fun _ => none⟩

/-- A commit that takes effect: the call, the row and the authorization it was made from. -/
structure Commit where
  call : ℕ
  record : GroupMessageRecord
  snapshot : Snapshot

/-- The answer of `PrepareGroupMessageSend`. -/
inductive Authorization where
  | failed (code : StatusCode) (message : String)
  | denied (message : String)
  | allowed (snap : Snapshot)

inductive Label where
  | silent
  | authorized (call : ℕ) (answer : Authorization)
  | commit (commit : Commit)

/-! ## The service -/

def Entry.start : Entry → Phase
  | .service => .lookup
  | .application snap | .adapter snap => .persist snap

/-- What a call returns with the result of the adapter; `cancelled` says that the RPC is cancelled in
the delay after a durable result. -/
def Entry.finish (cancelled : Bool) (result : GroupPersistResult) : Entry → Result
  | .service =>
    if result.status ≠ .succeeded then
      .rpc { code := mapApplicationFailure result.status, message := result.message }
    else if result.accepted && cancelled then
      .rpc ⟨.cancelled, "PersistGroupMessage RPC cancelled after durable result", some result⟩
    else .rpc { code := .ok, response := some result }
  | .application _ | .adapter _ => .persist result

def fillExisting (m : GroupMessage) (record : GroupMessageRecord) : GroupPersistResult :=
  if record.message = m then
    ⟨.succeeded, .reused, record.messageId, some record, "existing group message reused"⟩
  else
    ⟨.succeeded, .idempotencyConflict, record.messageId, some record,
      "client_message_id already belongs to a different group message"⟩

variable {κ : Type} [DecidableEq κ] (collate : Bytes → κ)

/-- `FindGroupMessageByClientMessageId` of the application service. -/
def applicationFind (db : Db) (fault : Option String) (m : GroupMessage) :
    Except Failure (Option GroupMessageRecord) :=
  if m.fromUserId = 0 ∨ m.clientMessageId = [] ∨ 64 < m.clientMessageId.length then
    .error ⟨.invalidArgument, "invalid group message idempotency lookup"⟩
  else findGroupMessageByClientMessageId collate db fault m

def afterLookup (m : GroupMessage) : Except Failure (Option GroupMessageRecord) → Phase
  | .error e => .returned (.rpc { code := mapApplicationFailure e.status, message := e.message })
  | .ok (some record) =>
    .returned (.rpc { code := .ok, response := some (fillExisting m record) })
  | .ok none => .authorize

def afterAuthorize : Authorization → Phase
  | .failed code message => .returned (.rpc { code := code, message := message })
  | .denied message =>
    .returned (.rpc {
      code :=
        if "not active".toList <:+: message.toList then .failedPrecondition else .permissionDenied
      message := if message = "" then "group send permission denied" else message })
  | .allowed snap => .persist snap

/-! ## The adapter -/

def Entry.check (m : GroupMessage) (snap : Snapshot) : Entry → Except Failure Unit
  | .service | .application _ => do
    TinyImx.Local.require (validIdentity m snap) .invalidArgument
      "invalid authorized group message application request"
    checkAuthorized m snap
  | .adapter _ => checkAuthorized m snap

def afterPrecheck (request : Request) (snap : Snapshot) (cancelled : Bool)
    (precheck : Except Failure (Option GroupMessageRecord)) : Phase :=
  match request.entry.check request.message snap with
  | .error e => .returned (request.entry.finish cancelled (Failure.result e))
  | .ok () =>
    match precheck with
    | .error e => .returned (request.entry.finish cancelled
        (Failure.result ⟨e.status, "group message precheck failed: " ++ e.message⟩))
    | .ok (some record) =>
      .returned (request.entry.finish cancelled (setExisting request.message record))
    | .ok none => .transaction snap

def afterRollback (request : Request) (cancelled : Bool) : Rollback → Phase
  | .insert error => .recoverInsert error
  | .other failure => .returned (request.entry.finish cancelled (Failure.result failure))

def createdResult (record : GroupMessageRecord) : GroupPersistResult :=
  ⟨.succeeded, .created, record.messageId, some record,
    "group message, recipient snapshot, and outbox event committed"⟩

def afterRecoverInsert (m : GroupMessage) (error : String) :
    Except Failure (Option GroupMessageRecord) → GroupPersistResult
  | .ok (some record) => setExisting m record
  | _ => { status := .storageError, message := error }

def afterRecoverCommit (m : GroupMessage) (error : String) :
    Except Failure (Option GroupMessageRecord) → GroupPersistResult
  | .ok (some record) =>
    { setExisting m record with
      message := if sameIdentity m record then "commit outcome recovered as existing group message"
        else "commit outcome recovered as group-message idempotency conflict" }
  | _ => {
    status := .storageError
    message := "group message commit failed" ++ (if error = "" then "" else ": " ++ error) }

/-! ## Steps -/

def State.go (s : State) (c : ℕ) (request : Request) (phase : Phase) : State :=
  { s with calls := Function.update s.calls c (some ⟨request, phase⟩) }

inductive Step (topic : Bytes) : State → Label → State → Prop
  | begin {s : State} (c : ℕ) (request : Request) (hc : s.calls c = none) :
    Step topic s .silent (s.go c request request.entry.start)
  | cancel {s : State} {c : ℕ} {request : Request} (hc : s.calls c = some ⟨request, .lookup⟩) :
    Step topic s .silent (s.go c request (.returned (.rpc {
      code := .cancelled
      message := "PersistGroupMessage RPC cancelled before durable lookup" })))
  | lookup {s : State} {c : ℕ} {request : Request} (fault : Option String)
    (hc : s.calls c = some ⟨request, .lookup⟩) :
    Step topic s .silent (s.go c request (afterLookup request.message
      (applicationFind collate s.db fault request.message)))
  | authorize {s : State} {c : ℕ} {request : Request} (answer : Authorization)
    (hc : s.calls c = some ⟨request, .authorize⟩) :
    Step topic s (.authorized c answer) (s.go c request (afterAuthorize answer))
  | precheck {s : State} {c : ℕ} {request : Request} {snap : Snapshot} (fault : Option String)
    (cancelled : Bool) (hc : s.calls c = some ⟨request, .persist snap⟩) :
    Step topic s .silent (s.go c request (afterPrecheck request snap cancelled
      (findGroupMessageByClientMessageId collate s.db fault request.message)))
  | acquire {s : State} {c : ℕ} {request : Request} {snap : Snapshot} (message : String)
    (hc : s.calls c = some ⟨request, .transaction snap⟩) :
    Step topic s .silent (s.go c request (.returned (request.entry.finish false
      { status := .storageError, message := message })))
  | rollback {s : State} {c : ℕ} {request : Request} {snap : Snapshot} (f : Faults)
    {rollback : Rollback} (hc : s.calls c = some ⟨request, .transaction snap⟩)
    (hid : s.db.nextMessage ≤ f.insertId)
    (hrollback : persistOnConnection collate topic f request.message snap s.db = .error rollback) :
    Step topic s .silent (s.go c request (afterRollback request false rollback))
  | commit {s : State} {c : ℕ} {request : Request} {snap : Snapshot} (f : Faults)
    {record : GroupMessageRecord} {db : Db} (cancelled : Bool)
    (hc : s.calls c = some ⟨request, .transaction snap⟩) (hid : s.db.nextMessage ≤ f.insertId)
    (hcommit : persistOnConnection collate topic f request.message snap s.db = .ok (record, db)) :
    Step topic s (.commit ⟨c, record, snap⟩) (State.go ⟨db, s.calls⟩ c request
      (.returned (request.entry.finish cancelled (createdResult record))))
  | commitLost {s : State} {c : ℕ} {request : Request} {snap : Snapshot} (f : Faults)
    {record : GroupMessageRecord} {db : Db} (error : String)
    (hc : s.calls c = some ⟨request, .transaction snap⟩) (hid : s.db.nextMessage ≤ f.insertId)
    (hcommit : persistOnConnection collate topic f request.message snap s.db = .ok (record, db)) :
    Step topic s (.commit ⟨c, record, snap⟩) (State.go ⟨db, s.calls⟩ c request (.recoverCommit error))
  | commitFailed {s : State} {c : ℕ} {request : Request} {snap : Snapshot} (error : String)
    (hc : s.calls c = some ⟨request, .transaction snap⟩) :
    Step topic s .silent (s.go c request (.recoverCommit error))
  | recoverInsert {s : State} {c : ℕ} {request : Request} {error : String} (fault : Option String)
    (cancelled : Bool) (hc : s.calls c = some ⟨request, .recoverInsert error⟩) :
    Step topic s .silent (s.go c request (.returned (request.entry.finish cancelled
      (afterRecoverInsert request.message error
        (findGroupMessageByClientMessageId collate s.db fault request.message)))))
  | recoverCommit {s : State} {c : ℕ} {request : Request} {error : String} (fault : Option String)
    (cancelled : Bool) (hc : s.calls c = some ⟨request, .recoverCommit error⟩) :
    Step topic s .silent (s.go c request (.returned (request.entry.finish cancelled
      (afterRecoverCommit request.message error
        (findGroupMessageByClientMessageId collate s.db fault request.message)))))

end TinyImx.Message
