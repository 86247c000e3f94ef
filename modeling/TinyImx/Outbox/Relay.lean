import Mathlib.Data.Finmap
import Mathlib.Data.Multiset.Replicate
import Mathlib.Algebra.Ring.Nat
import TinyImx.Lib.Run
import TinyImx.Outbox.Store

/-!
# The relays of the outbox

`OutboxRelay` claims batches in its poll thread, publishes the records in worker threads and renews
the leases of what is in flight in a third kind of thread.  A step is an access to the queue, to
`inflight_` or to the database, or a reply of the publisher.

A statement is sent in one step and takes effect in a later one, or never; the thread that sent it
goes on whether or not its reply came.  A claim hands over its records only with its reply.  The
counters of `Stats` are left out, and so are the waits: every wait may end at once.
-/

namespace TinyImx.Outbox

variable {ρ : Type}

/-- `OutboxRelayOptions`, as far as `ValidateOptions` lets a relay start with them. -/
structure Options where
  allowedTopic : String
  batchSize : ℕ
  publishBatchSize : ℕ
  workerThreads : ℕ
  maxInflight : ℕ
  leaseMs : ℕ
  retryBaseMs : ℕ
  retryMaxMs : ℕ
  publishedRetentionHours : ℕ
  cleanupBatchSize : ℕ
  batchSize_pos : 0 < batchSize
  publishBatchSize_pos : 0 < publishBatchSize
  publishBatchSize_le : publishBatchSize ≤ 64
  workerThreads_pos : 0 < workerThreads
  batchSize_le : batchSize ≤ maxInflight
  leaseMs_pos : 0 < leaseMs

/-! ## Validation -/

structure Envelope where
  schemaVersion : ℕ
  eventId : String
  eventType : String
  aggregateType : String
  aggregateId : String
  producerService : String
  deriving DecidableEq

/-- `EventCodec::Decode`, and the library's hash of a string. -/
structure Codec where
  decode : String → Except String Envelope
  hash : String → ℕ

def validateRecord (codec : Codec) (options : Options) (record : Record ρ) : Except String Unit := do
  let event := record.event
  if record.outboxId = 0 ∨ event.eventId = "" ∨ event.eventType = "" ∨ event.messageKey = "" then
    throw "outbox record has missing identity metadata"
  if event.topic ≠ options.allowedTopic then
    throw "outbox record topic is outside configured allowlist"
  if event.schemaVersion ≠ 1 then
    throw "outbox record schema version is unsupported"
  let decoded ← codec.decode event.payload
  if decoded ≠ ⟨event.schemaVersion, event.eventId, event.eventType, event.aggregateType,
      event.aggregateId, event.producerService⟩ then
    throw "outbox row metadata does not match encoded event envelope"
  if event.tag ≠ decoded.eventType then
    throw "outbox tag does not match event_type"
  if event.messageKey ≠ decoded.eventId then
    throw "outbox message_key does not match event_id"

def backoff (maxMs : ℕ) : ℕ → ℕ → ℕ
  | 0, delay => delay
  | n + 1, delay => if maxMs ≤ delay then maxMs else backoff maxMs n (min maxMs (delay * 2))

/-- `ComputeRetryDelayForTest`: the delay with a jitter of at most a fifth. -/
def computeRetryDelay (codec : Codec) (eventId : String) (nextAttemptCount baseMs maxMs : ℕ) : ℕ :=
  let delay : ℤ := backoff maxMs (min (nextAttemptCount - 1) 30) baseMs
  let bucket : ℤ := (codec.hash (eventId ++ ":" ++ toString nextAttemptCount) % 401 : ℕ) - 200
  (min (max (delay + (delay * bucket).tdiv 1000) 1) maxMs).toNat

/-! ## One relay -/

inductive Poll (ρ : Type) where
  | head
  /-- The claim is sent; `size` was the size of `inflight_`. -/
  | claiming (size : ℕ) (token : Token ρ)
  | claimed (size : ℕ) (records : List (Record ρ))
  /-- The records are in `inflight_` and not yet in the queue. -/
  | noted (records : List (Record ρ))
  | tail
  | exited

inductive Worker (ρ : Type) where
  | idle
  | processing (items rest published : List (Record ρ))
  | finishing (rest : List (Record ρ))
  | exited

inductive Renew (ρ : Type) where
  | waiting
  | renewing (owned : List (ℕ × Token ρ))
  | exited

/-- Where `ShutdownGraceful` is. -/
inductive Shutdown (ρ : Type) where
  | none
  | joining
  | draining
  | abandoning (rest : List (Record ρ))
  | stopping (drained : Bool)
  | renewing (drained : Bool)
  | returned (drained : Bool)

structure Relay (ρ : Type) where
  running : Bool
  workerStop : Bool
  renewStop : Bool
  claimGeneration : ℕ
  inflight : Finmap fun _ : ℕ => Token ρ
  queue : List (Record ρ)
  poll : Poll ρ
  workers : Multiset (Worker ρ)
  renew : Renew ρ
  shutdown : Shutdown ρ

def Relay.started (options : Options) : Relay ρ :=
  ⟨true, false, false, 0, ∅, [], .head, .replicate options.workerThreads .idle, .waiting, .none⟩

def noteRecords (records : List (Record ρ)) (inflight : Finmap fun _ : ℕ => Token ρ) :
    Finmap fun _ : ℕ => Token ρ :=
  records.foldl (fun inflight record => inflight.insert record.outboxId record.lockedBy) inflight

def Relay.finishRecord (relay : Relay ρ) (id : ℕ) : Relay ρ :=
  { relay with inflight := relay.inflight.erase id }

inductive PublishStatus where
  | published
  | retryableFailure
  | permanentFailure

/-- What a record came to in `ProcessRecord`: the statement it sends, none where the record goes
into the batch of the confirmed ones. -/
def processRecord (codec : Codec) (options : Options) (record : Record ρ) (status : PublishStatus) :
    Option (Mutation ρ) :=
  match validateRecord codec options record with
  | .error _ => some (.quarantine record.outboxId record.lockedBy false)
  | .ok () =>
    match status with
    | .published => none
    | .permanentFailure => some (.quarantine record.outboxId record.lockedBy true)
    | .retryableFailure =>
      let nextAttempt :=
        if record.attemptCount = 2 ^ 32 - 1 then record.attemptCount else record.attemptCount + 1
      some (.retry record.outboxId record.lockedBy (computeRetryDelay codec record.event.eventId
        nextAttempt options.retryBaseMs options.retryMaxMs))

def Record.target (record : Record ρ) : ℕ × Token ρ := (record.outboxId, record.lockedBy)

inductive Statement (ρ : Type) where
  | claim (token : Token ρ) (limit leaseMs : ℕ)
  | mutation (m : Mutation ρ)
  | cleanup (retentionHours limit : ℕ)

inductive Effect (ρ : Type) where
  | none
  | send (statement : Statement ρ)
  | publish (record : Record ρ)

inductive Relay.Step (codec : Codec) (options : Options) (self : ρ) :
    Relay ρ → Effect ρ → Relay ρ → Prop
  -- `PollLoop`
  | limited {relay : Relay ρ} : relay.poll = .head → relay.running = true →
      options.maxInflight - options.batchSize < relay.inflight.keys.card →
      Step codec options self relay .none { relay with poll := .tail }
  | sendClaim {relay : Relay ρ} {token : Token ρ} : relay.poll = .head → relay.running = true →
      relay.inflight.keys.card ≤ options.maxInflight - options.batchSize →
      token = ⟨self, relay.claimGeneration + 1⟩ →
      Step codec options self relay .none { relay with
        poll := .claiming relay.inflight.keys.card token
        claimGeneration := relay.claimGeneration + 1 }
  | loseClaim {relay : Relay ρ} {size : ℕ} {token : Token ρ} : relay.poll = .claiming size token →
      Step codec options self relay
        (.send (.claim token (min options.batchSize (options.maxInflight - size)) options.leaseMs))
        { relay with poll := .tail }
  | note {relay : Relay ρ} {size : ℕ} {records : List (Record ρ)} :
      relay.poll = .claimed size records →
      Step codec options self relay .none { relay with
        poll := .noted records
        inflight := noteRecords records relay.inflight }
  | push {relay : Relay ρ} {records : List (Record ρ)} : relay.poll = .noted records →
      Step codec options self relay .none { relay with
        poll := .tail
        queue := relay.queue ++ records }
  | cleanup {relay : Relay ρ} : relay.poll = .tail →
      Step codec options self relay
        (.send (.cleanup options.publishedRetentionHours options.cleanupBatchSize))
        { relay with poll := .head }
  | again {relay : Relay ρ} : relay.poll = .tail →
      Step codec options self relay .none { relay with poll := .head }
  | exitPoll {relay : Relay ρ} : relay.poll = .head → relay.running = false →
      Step codec options self relay .none { relay with poll := .exited }
  -- `WorkerLoop`
  | take {relay : Relay ρ} {workers : Multiset (Worker ρ)} {items queue : List (Record ρ)} :
      relay.workers = .idle ::ₘ workers → relay.queue ≠ [] →
      relay.queue.splitAt options.publishBatchSize = (items, queue) →
      Step codec options self relay .none { relay with
        queue
        workers := .processing items items [] ::ₘ workers }
  | refuse {relay : Relay ρ} {workers : Multiset (Worker ρ)} {record : Record ρ}
      {items rest published : List (Record ρ)} {m : Mutation ρ} {status : PublishStatus} :
      relay.workers = .processing items (record :: rest) published ::ₘ workers →
      processRecord codec options record status = some m →
      Step codec options self relay (.send (.mutation m)) { relay with
        workers := .processing items rest published ::ₘ workers }
  | confirm {relay : Relay ρ} {workers : Multiset (Worker ρ)} {record : Record ρ}
      {items rest published : List (Record ρ)} {status : PublishStatus} :
      relay.workers = .processing items (record :: rest) published ::ₘ workers →
      processRecord codec options record status = none →
      Step codec options self relay (.publish record) { relay with
        workers := .processing items rest (published ++ [record]) ::ₘ workers }
  | mark {relay : Relay ρ} {workers : Multiset (Worker ρ)} {items published : List (Record ρ)} :
      relay.workers = .processing items [] published ::ₘ workers → published ≠ [] →
      Step codec options self relay (.send (.mutation (.publish (published.map Record.target))))
        { relay with workers := .finishing items ::ₘ workers }
  | noMark {relay : Relay ρ} {workers : Multiset (Worker ρ)} {items : List (Record ρ)} :
      relay.workers = .processing items [] [] ::ₘ workers →
      Step codec options self relay .none { relay with workers := .finishing items ::ₘ workers }
  | finish {relay : Relay ρ} {workers : Multiset (Worker ρ)} {record : Record ρ}
      {rest : List (Record ρ)} : relay.workers = .finishing (record :: rest) ::ₘ workers →
      Step codec options self relay .none
        { relay.finishRecord record.outboxId with workers := .finishing rest ::ₘ workers }
  | finished {relay : Relay ρ} {workers : Multiset (Worker ρ)} :
      relay.workers = .finishing [] ::ₘ workers →
      Step codec options self relay .none { relay with workers := .idle ::ₘ workers }
  | exitWorker {relay : Relay ρ} {workers : Multiset (Worker ρ)} :
      relay.workers = .idle ::ₘ workers → relay.queue = [] → relay.workerStop = true →
      Step codec options self relay .none { relay with workers := .exited ::ₘ workers }
  -- `RenewLoop`
  | snapshot {relay : Relay ρ} {owned : List (ℕ × Token ρ)} : relay.renew = .waiting →
      relay.renewStop = false → (∀ target, target ∈ owned ↔
        relay.inflight.lookup target.1 = some target.2) →
      Step codec options self relay .none { relay with renew := .renewing owned }
  | renew {relay : Relay ρ} {target : ℕ × Token ρ} {owned : List (ℕ × Token ρ)} :
      relay.renew = .renewing (target :: owned) →
      Step codec options self relay
        (.send (.mutation (.renew target.1 target.2 options.leaseMs)))
        { relay with renew := .renewing owned }
  | renewed {relay : Relay ρ} : relay.renew = .renewing [] →
      Step codec options self relay .none { relay with renew := .waiting }
  | exitRenew {relay : Relay ρ} : relay.renew = .waiting → relay.renewStop = true →
      Step codec options self relay .none { relay with renew := .exited }
  -- `ShutdownGraceful`
  | shutdown {relay : Relay ρ} :
      relay.shutdown = .none ∨ (∃ drained, relay.shutdown = .returned drained) →
      Step codec options self relay .none { relay with running := false, shutdown := .joining }
  | joined {relay : Relay ρ} : relay.shutdown = .joining → relay.poll = .exited →
      Step codec options self relay .none { relay with shutdown := .draining }
  | drained {relay : Relay ρ} : relay.shutdown = .draining → relay.inflight.keys = ∅ →
      Step codec options self relay .none { relay with shutdown := .stopping true, workerStop := true }
  | abandon {relay : Relay ρ} : relay.shutdown = .draining →
      Step codec options self relay .none { relay with
        shutdown := .abandoning relay.queue
        queue := [] }
  | release {relay : Relay ρ} {record : Record ρ} {rest : List (Record ρ)} :
      relay.shutdown = .abandoning (record :: rest) →
      Step codec options self relay (.send (.mutation (.release record.outboxId record.lockedBy)))
        { relay.finishRecord record.outboxId with shutdown := .abandoning rest }
  | abandoned {relay : Relay ρ} : relay.shutdown = .abandoning [] →
      Step codec options self relay .none
        { relay with shutdown := .stopping false, workerStop := true }
  | joinWorkers {relay : Relay ρ} {drained : Bool} : relay.shutdown = .stopping drained →
      (∀ worker ∈ relay.workers, worker = .exited) →
      Step codec options self relay .none
        { relay with shutdown := .renewing drained, renewStop := true }
  | joinRenew {relay : Relay ρ} {drained : Bool} : relay.shutdown = .renewing drained →
      relay.renew = .exited →
      Step codec options self relay .none { relay with shutdown := .returned drained }

/-! ## The table and its relays -/

structure State (ρ : Type) where
  now : ℕ
  nextId : ℕ
  table : Table ρ
  network : Multiset (Statement ρ)
  relays : ρ → Option (Relay ρ)

def State.initial (options : ρ → Options) : State ρ :=
  ⟨0, 1, fun _ => none, 0, fun self => some (.started (options self))⟩

inductive Label (ρ : Type) where
  | silent
  | insert (id : ℕ) (event : Event)
  | claim (token : Token ρ) (ids : List ℕ)
  | publish (self : ρ) (record : Record ρ)
  | execute (m : Mutation ρ)
  | cleanup

def Effect.label (self : ρ) : Effect ρ → Label ρ
  | .none | .send _ => .silent
  | .publish record => .publish self record

def Effect.sent : Effect ρ → Multiset (Statement ρ)
  | .none | .publish _ => 0
  | .send statement => {statement}

def Relay.pendingClaim (options : Options) (relay : Relay ρ) : Multiset (Statement ρ) :=
  match relay.poll with
  | .claiming size token =>
    {.claim token (min options.batchSize (options.maxInflight - size)) options.leaseMs}
  | _ => 0

variable [DecidableEq ρ]

inductive Step (codec : Codec) (options : ρ → Options) : State ρ → Label ρ → State ρ → Prop
  | tick {s : State ρ} {now : ℕ} : s.now ≤ now → Step codec options s .silent { s with now }
  -- a producer's transaction
  | insert {s : State ρ} {id : ℕ} {event : Event} : s.nextId ≤ id →
      Step codec options s (.insert id event) { s with
        nextId := id + 1
        table := Function.update s.table id (some (.fresh event s.now)) }
  | relay {s : State ρ} {self : ρ} {relay relay' : Relay ρ} {effect : Effect ρ} :
      s.relays self = some relay → Relay.Step codec (options self) self relay effect relay' →
      Step codec options s (effect.label self) { s with
        relays := Function.update s.relays self (some relay')
        network := effect.sent + s.network }
  | crash {s : State ρ} {self : ρ} {relay : Relay ρ} : s.relays self = some relay →
      Step codec options s .silent { s with
        relays := Function.update s.relays self none
        network := relay.pendingClaim (options self) + s.network }
  -- a claim takes effect and its reply arrives
  | claim {s : State ρ} {self : ρ} {relay : Relay ρ} {size : ℕ} {token : Token ρ} {ids : List ℕ} :
      s.relays self = some relay → relay.poll = .claiming size token →
      Selects (min (options self).batchSize ((options self).maxInflight - size)) s.now s.table ids →
      Step codec options s (.claim token ids) { s with
        table := claimRows token (options self).leaseMs s.now ids s.table
        relays := Function.update s.relays self (some { relay with
          poll := .claimed size (claimRecords token ids s.table) }) }
  -- a statement that was sent takes effect
  | lateClaim {s : State ρ} {token : Token ρ} {limit leaseMs : ℕ} {ids : List ℕ}
      {network : Multiset (Statement ρ)} : s.network = .claim token limit leaseMs ::ₘ network →
      Selects limit s.now s.table ids →
      Step codec options s (.claim token ids) { s with
        network
        table := claimRows token leaseMs s.now ids s.table }
  | execute {s : State ρ} {m : Mutation ρ} {network : Multiset (Statement ρ)} :
      s.network = .mutation m ::ₘ network →
      Step codec options s (.execute m) { s with network, table := m.apply s.now s.table }
  | cleanup {s : State ρ} {retentionHours limit : ℕ} {ids : List ℕ}
      {network : Multiset (Statement ρ)} : s.network = .cleanup retentionHours limit ::ₘ network →
      ids.length ≤ limit →
      Step codec options s .cleanup { s with
        network
        table := cleanupPublished ids retentionHours s.now s.table }
  | drop {s : State ρ} {statement : Statement ρ} {network : Multiset (Statement ρ)} :
      s.network = statement ::ₘ network → Step codec options s .silent { s with network }

end TinyImx.Outbox
