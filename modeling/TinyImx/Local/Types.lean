import TinyImx.Lib.Wal
import TinyImx.Lib.Act

/-!
# Data model of the local private-message store

The records, results and events of `MessageApplicationTypes.h`, `MessageEventFactory` and
`EventCodec`, and the key space of the store's engine.  Strings of the program are byte lists.  A key is kept by its
prefix family (`M/`, `I/`, …) and the numbers or bytes after it; the value stored under a key is
kept in decoded form, which takes the JSON library to round-trip what it dumped.
-/

namespace TinyImx.Local

abbrev Bytes := List UInt8

def ascii (s : String) : Bytes := s.toList.map fun c => UInt8.ofNat c.toNat

def decimal (n : ℕ) : Bytes := ascii (toString n)

/-- `MessageApplicationStatus`. -/
inductive Status where
  | succeeded | invalidArgument | notFound | permissionDenied | failedPrecondition | invalidRecord
  | storageError
  deriving DecidableEq

/-- `MessageDeliveryState`. -/
inductive DeliveryState where
  | pending | receiverConfirmed | read | failed
  deriving DecidableEq

/-- `PersistPrivateMessageOutcome`. -/
inductive PersistOutcome where
  | created | reused | idempotencyConflict
  deriving DecidableEq

structure Failure where
  status : Status
  message : String
  deriving DecidableEq

def require (value : Bool) (status : Status) (text : String) : Except Failure Unit :=
  if value then .ok () else .error ⟨status, text⟩

structure MessageView where
  messageId : ℕ := 0
  clientMessageId : Bytes := []
  fromUserId : ℕ := 0
  toUserId : ℕ := 0
  messageType : ℕ := 0
  content : Bytes := []
  deliveryState : DeliveryState := .pending
  createdAt : Bytes := []
  receiverConfirmedAt : Bytes := []
  readAt : Bytes := []

/-- `PrivateMessagePersistInput`. -/
structure PersistInput where
  fromUserId : ℕ
  toUserId : ℕ
  clientMessageId : Bytes
  messageType : ℕ
  content : Bytes

structure CommittedUnreadSnapshot where
  messageId : ℕ
  receiverUserId : ℕ
  peerUserId : ℕ
  privateUnread : ℕ
  totalUnread : ℕ

/-- `MessageRepositoryPersistResult`. -/
structure PersistResult where
  status : Status := .storageError
  outcome : PersistOutcome := .created
  messageId : ℕ := 0
  record : MessageView := {}
  message : String := ""
  committedUnread : Option CommittedUnreadSnapshot := none

/-- `MessageRepositoryMutationResult`. -/
structure MutationResult where
  status : Status := .storageError
  affectedRows : ℕ := 0
  message : String := ""
  deriving DecidableEq

/-- `MessageRepositoryGetResult`. -/
structure GetResult where
  status : Status := .storageError
  found : Bool := false
  record : MessageView := {}
  message : String := ""

def GetResult.Found (r : GetResult) : Bool := r.status = .succeeded && r.found

/-- `LocalIdentityResult`. -/
structure IdentityResult where
  status : Status := .storageError
  canonicalCid : Bytes := []
  message : String := ""

inductive Payload where
  | messageCreated (messageId fromUserId toUserId : ℕ)
  | dialogReadAdvanced (readerUserId peerUserId affectedRows : ℕ)

/-- `DomainEvent`, without the request and trace ids the store leaves empty. -/
structure DomainEvent where
  schemaVersion : ℕ
  eventId : Bytes
  eventType : Bytes
  aggregateType : Bytes
  aggregateId : Bytes
  producerService : Bytes
  occurredAt : Bytes
  payload : Payload

def DomainEvent.valid (e : DomainEvent) : Bool :=
  0 < e.schemaVersion && e.eventId ≠ [] && e.eventType ≠ [] && e.aggregateType ≠ [] &&
    e.aggregateId ≠ [] && e.producerService ≠ [] && e.occurredAt ≠ []

structure OutboxEventSpec where
  event : DomainEvent
  topic : Bytes
  tag : Bytes
  messageKey : Bytes

/-- `PendingLocalEvent`: what is stored under `E/` and `A/`; the body is the encoded event. -/
structure PendingLocalEvent where
  eventId : Bytes
  topic : Bytes
  tag : Bytes
  messageKey : Bytes
  body : DomainEvent

/-- What is stored under `F/`: the raw event, the reason and the time of the failure. -/
structure FailedLocalEvent where
  event : PendingLocalEvent
  reason : Bytes
  failedAt : Bytes

/-! ## The engine's key space -/

inductive Key where
  /-- `meta/high`: the reserved end of the message ids. -/
  | high
  /-- `M/mid`: the message record. -/
  | M (mid : ℕ)
  /-- `I/from/canonical`: the message created for a client message id. -/
  | I (fromUser : ℕ) (canonical : Bytes)
  /-- `K/mid`: the canonical client message id of a message. -/
  | K (mid : ℕ)
  /-- `U/user`: the user takes part in some message. -/
  | U (user : ℕ)
  /-- `H/low/high/mid`: history of a dialog, both directions. -/
  | H (low high mid : ℕ)
  /-- `P/receiver/mid`: a message that waits for its receiver. -/
  | P (receiver mid : ℕ)
  /-- `C/user/peer`: the latest message of a conversation. -/
  | C (user peer : ℕ)
  /-- `N/receiver`: all unread messages of a user. -/
  | N (receiver : ℕ)
  /-- `D/receiver/peer`: the unread messages of one dialog. -/
  | D (receiver peer : ℕ)
  /-- `Q/receiver`: the pending messages of a user. -/
  | Q (receiver : ℕ)
  /-- `R/receiver/peer`: the peer has written to the user. -/
  | R (receiver peer : ℕ)
  /-- `E/id`: an event to publish. -/
  | E (id : Bytes)
  /-- `A/id`: the event as it was created. -/
  | A (id : Bytes)
  /-- `F/id`: a quarantined event. -/
  | F (id : Bytes)
  deriving DecidableEq

@[reducible] def Key.Val : Key → Type
  | .high | .I .. | .C .. | .N _ | .D .. | .Q _ => ℕ
  | .M _ => MessageView
  | .K _ => Bytes
  | .U _ | .H .. | .P .. | .R .. => Unit
  | .E _ | .A _ => PendingLocalEvent
  | .F _ => FailedLocalEvent

abbrev Db := AList Key.Val

abbrev Write := Kv.Write Key.Val

def uint64Max : ℕ := 2 ^ 64 - 1

def int64Max : ℕ := 2 ^ 63 - 1

/-! ## Events -/

/-- What the operating system gives one call: the second-resolution text of `Now`, the ISO text of
`CurrentUtcIso8601`, and the stamp of `MakeReadEventId` (nanoseconds, process id, sequence). -/
structure Clock where
  now : Bytes
  iso : Bytes
  nanos : ℕ
  pid : ℕ
  sequence : ℕ
  /-- `%Y-%m-%d %H:%M:%S` of a four-digit year. -/
  now_length : now.length = 19
  iso_ne : iso ≠ []

def isValidTopic (topic : Bytes) : Bool :=
  topic ≠ [] && topic.length ≤ 128 && topic.all fun ch =>
    (97 ≤ ch && ch ≤ 122) || (65 ≤ ch && ch ≤ 90) || (48 ≤ ch && ch ≤ 57) || ch = 45 || ch = 95

def messageEventId (mid : ℕ) : Bytes := ascii "message.created.v1:" ++ decimal mid

def readEventId (clock : Clock) (reader peer : ℕ) : Bytes :=
  ascii "dialog.read_advanced.v1:" ++ decimal reader ++ ascii ":" ++ decimal peer ++ ascii ":" ++
    decimal clock.nanos ++ ascii ":" ++ decimal clock.pid ++ ascii ":" ++ decimal clock.sequence

/-- `MessageEventFactory::MessageCreated`; the topic was checked when the store was opened. -/
def messageCreated (clock : Clock) (message : MessageView) (topic : Bytes) : OutboxEventSpec where
  event :=
    { schemaVersion := 1
      eventId := messageEventId message.messageId
      eventType := ascii "message.created.v1"
      aggregateType := ascii "private_message"
      aggregateId := decimal message.messageId
      producerService := ascii "message-service"
      occurredAt := clock.iso
      payload := .messageCreated message.messageId message.fromUserId message.toUserId }
  topic := topic
  tag := ascii "message.created.v1"
  messageKey := messageEventId message.messageId

def dialogReadAdvanced (clock : Clock) (reader peer affected : ℕ) (topic : Bytes) :
    OutboxEventSpec where
  event :=
    { schemaVersion := 1
      eventId := readEventId clock reader peer
      eventType := ascii "dialog.read_advanced.v1"
      aggregateType := ascii "dialog"
      aggregateId := decimal reader ++ ascii ":" ++ decimal peer
      producerService := ascii "message-service"
      occurredAt := clock.iso
      payload := .dialogReadAdvanced reader peer affected }
  topic := topic
  tag := ascii "dialog.read_advanced.v1"
  messageKey := readEventId clock reader peer

/-- The row written for an event, or the failure of `EventCodec::Encode`. -/
def encodeEvent (spec : OutboxEventSpec) : Except Failure PendingLocalEvent :=
  if spec.event.valid then
    .ok ⟨spec.event.eventId, spec.topic, spec.tag, spec.messageKey, spec.event⟩
  else .error ⟨.invalidRecord, "local domain event encoding failed"⟩

def decodeEvent (row : PendingLocalEvent) (expected : Bytes) : Except Failure PendingLocalEvent :=
  if row.body.valid && row.body.eventId = row.eventId && row.eventId = expected &&
      isValidTopic row.topic && row.tag = row.body.eventType && row.messageKey = row.eventId then
    .ok row
  else .error ⟨.invalidRecord, "invalid local event envelope"⟩

/-- `DecodeRecord`: the checks on a stored message; the delivery state is in range by its type. -/
def decodeRecord (m : MessageView) (expected : ℕ) : Except Failure MessageView :=
  if m.messageId = expected && expected ≠ 0 && m.fromUserId ≠ 0 && m.toUserId ≠ 0 &&
      m.fromUserId ≠ m.toUserId && m.clientMessageId ≠ [] && m.clientMessageId.length ≤ 64 &&
      1 ≤ m.messageType && m.messageType ≤ 3 && m.content ≠ [] && m.createdAt.length = 19 then
    .ok m
  else .error ⟨.invalidRecord, "invalid local message record"⟩

def eventId (id : Bytes) : Except Failure Unit :=
  require (id ≠ [] && id.length ≤ 191 && !id.contains 0) .invalidArgument
    "invalid local event identity"

end TinyImx.Local
