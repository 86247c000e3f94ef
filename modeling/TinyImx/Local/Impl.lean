import TinyImx.Local.Types

/-!
# The store's owner and its primitives

`Store` is `LocalPrivateStore::Impl`: the engine's live map with its log, the message-id range, the
pending-event budget with its index, the per-user lock table and the fences.  The mutexes do not
appear: an operation is one atomic step here.  `Env` is everything one call is given from outside:
the clock, the answers of the hooks, the JSON library and the engine's answer to each write.
-/

namespace TinyImx.Local

structure Options where
  messageEventsTopic : Bytes
  firstMessageId : ℕ
  initialUserIds : List ℕ
  maxPendingEvents : ℕ := 65536
  exactUserLocking : Bool := false
  persistBatchEnable : Bool := false
  /-- whether a `resolve_identity` hook is configured -/
  resolveIdentity : Bool := false
  /-- `TINYIMX_NATIVE_PENDING_EVENT_INDEX_ENABLE` -/
  pendingEventIndex : Bool := false
  /-- `TINYIMX_NATIVE_PERSIST_UNREAD_REPLY_ENABLE` -/
  persistUnreadReply : Bool := false
  topic_valid : isValidTopic messageEventsTopic = true
  first_pos : 0 < firstMessageId
  first_lt : firstMessageId < int64Max - 4096
  pending_pos : 0 < maxPendingEvents
  pending_le : maxPendingEvents ≤ 1000000
  users_ne : initialUserIds ≠ []
  users_le : initialUserIds.length ≤ 100000
  users_pos : ∀ id ∈ initialUserIds, 0 < id
  users_nodup : initialUserIds.Nodup

/-- The engine's answer to a write.  A failed write changes no live key; whether its batch reached
the log is not known before the next recovery. -/
inductive WriteOutcome where
  | done
  | failed (logged : Bool) (text : String)
  deriving DecidableEq

abbrev LogEntry := Wal.Entry Key.Val

/-- What one call is given from outside.  The hooks may answer each item of a batch differently:
their first argument is the item's position. -/
structure Env where
  clock : Clock
  /-- `options.resolve_identity` -/
  resolve : ℕ → ℕ → ℕ → Bytes → IdentityResult
  /-- `options.before_new_message_commit` -/
  pin : ℕ → ℕ → ℕ → MutationResult
  /-- `options.admit_events` -/
  admitEvents : ℕ → Bool
  dumps : Bytes → Bool
  /-- `WriteBatch::GetDataSize` -/
  batchSize : List Write → ℕ
  /-- the engine's answer to its `n`-th write -/
  engine : ℕ → WriteOutcome

/-- `LocalPrivateStore::Impl`. -/
structure Store where
  db : Db
  log : List LogEntry
  nextId : ℕ
  reservedEnd : ℕ
  pendingEvents : ℕ
  pendingIndexEnabled : Bool
  pendingIndex : AList (fun _ : Bytes => Bool)
  userLocks : Finset ℕ
  poisoned : Bool
  closing : Bool
  engineWriteCalls : ℕ
  publications : ℕ
  syncedPublicationGeneration : ℕ
  publicationSyncInitialized : Bool

abbrev StoreM := Act Store Failure

def check {α : Type} (x : Except Failure α) : StoreM α := .inspect fun _ => x

/-! ## Checks -/

def checkOpen (s : Store) : Except Failure Unit :=
  require (!s.closing && !s.poisoned) .storageError "local store closed or requires recovery"

def actor (opts : Options) (id : ℕ) : Except Failure Unit := do
  require (0 < id) .invalidArgument "zero local actor"
  if opts.resolveIdentity then pure ()
  else
    require (opts.initialUserIds.contains id) .permissionDenied
      "actor absent from explicit local identity registry"

def dialog (opts : Options) (a b : ℕ) : Except Failure Unit := do
  actor opts a
  actor opts b
  require (a ≠ b) .invalidArgument "self dialog is invalid"

def checkLimit (n : ℕ) : Except Failure Unit :=
  require (0 < n && n ≤ 1001) .invalidArgument "invalid local query limit"

def identity (opts : Options) (env : Env) (item fromUser toUser : ℕ) (cid : Bytes) :
    Except Failure Bytes :=
  if opts.resolveIdentity then do
    let result := env.resolve item fromUser toUser cid
    if result.status ≠ .succeeded then .error ⟨result.status, result.message⟩ else pure ()
    require (result.canonicalCid.length ≤ 1024) .invalidRecord "invalid canonical local CID length"
    return result.canonicalCid
  else return cid

/-- `EncodeRecord(record).dump()`: the JSON library throws on a string it cannot dump. -/
def dumpRecord (env : Env) (m : MessageView) : Except Failure Unit :=
  require (env.dumps m.clientMessageId && env.dumps m.content) .invalidRecord
    "invalid local serialized record"

/-! ## Reads -/

def record (db : Db) (mid : ℕ) : Except Failure GetResult :=
  match db.lookup (.M mid) with
  | none => .ok { status := .succeeded }
  | some m => do
    let m ← decodeRecord m mid
    return { status := .succeeded, found := true, record := m }

def totalCount (db : Db) (receiver : ℕ) : ℕ := (db.lookup (.N receiver)).getD 0

def dialogCount (db : Db) (receiver peer : ℕ) : ℕ := (db.lookup (.D receiver peer)).getD 0

def pendingCount (db : Db) (receiver : ℕ) : ℕ := (db.lookup (.Q receiver)).getD 0

/-! ## Locks -/

def actorSet (actors : List ℕ) : List ℕ := actors.dedup.insertionSort (· ≤ ·)

def registerLock (a : ℕ) : StoreM Unit := do
  check (require (0 < a) .invalidArgument "zero local lock actor")
  let locks ← .read Store.userLocks
  if a ∈ locks then pure ()
  else do
    check (require (locks.card < 100000) .failedPrecondition
      "bounded local actor lock capacity reached")
    .modify fun s => { s with userLocks := insert a s.userLocks }

def lockActors : List ℕ → StoreM Unit
  | [] => pure ()
  | a :: as => do
    registerLock a
    lockActors as

/-- The locks of an operation: exact per-user locks, or stripes, which leave nothing behind. -/
def lockUsers (opts : Options) (actors : List ℕ) : StoreM Unit :=
  if opts.exactUserLocking then lockActors (actorSet actors) else pure ()

/-! ## Writes -/

/-- `Write`: one atomic batch.  A failed write poisons the owner until it is reopened. -/
def write (env : Env) (batch : List Write) (sync : Bool) : StoreM Unit := fun s =>
  if s.poisoned then
    (.error ⟨.storageError, "local owner requires recovery after write failure"⟩, s)
  else
    match env.engine s.engineWriteCalls with
    | .done =>
      (.ok (), { s with
        db := Kv.apply s.db batch
        log := s.log ++ [⟨batch, sync⟩]
        engineWriteCalls := s.engineWriteCalls + 1 })
    | .failed logged text =>
      (.error ⟨.storageError, "local engine: " ++ text⟩, { s with
        log := if logged then s.log ++ [⟨batch, false⟩] else s.log
        engineWriteCalls := s.engineWriteCalls + 1
        poisoned := true })

def nextMessageId (env : Env) : StoreM ℕ := do
  let s ← .read id
  if s.nextId > s.reservedEnd then do
    check (require (s.reservedEnd < int64Max - 4096) .failedPrecondition
      "local MID space exhausted")
    write env [.put .high (s.reservedEnd + 4096)] true
    .modify fun s' => { s' with reservedEnd := s.reservedEnd + 4096 }
  else pure ()
  .modify fun s' => { s' with nextId := s'.nextId + 1 }
  return s.nextId

/-! ## Event slots -/

def EventSlot.reserve (opts : Options) : StoreM Unit := do
  let n ← .read Store.pendingEvents
  check (require (n < opts.maxPendingEvents) .failedPrecondition
    "local pending event capacity reached")
  .modify fun s => { s with pendingEvents := s.pendingEvents + 1 }

def EventSlot.prepare (id : Bytes) : StoreM Unit := do
  let enabled ← .read Store.pendingIndexEnabled
  let index ← .read Store.pendingIndex
  if enabled then do
    check (require (index.lookup id).isNone .invalidRecord
      "duplicate prepared local event identity")
    .modify fun s => { s with pendingIndex := s.pendingIndex.insert id false }
  else pure ()

def EventSlot.commit (id : Bytes) (s : Store) : Store :=
  if s.pendingIndexEnabled then { s with pendingIndex := s.pendingIndex.insert id true } else s

/-- The part of `~EventSlot` that takes a prepared entry out of the index. -/
def EventSlot.unprepare (id : Bytes) (s : Store) : Store :=
  if s.pendingIndexEnabled then { s with pendingIndex := s.pendingIndex.erase id } else s

def EventSlot.release (s : Store) : Store := { s with pendingEvents := s.pendingEvents - 1 }

def eventWrites (row : PendingLocalEvent) : List Write :=
  [.put (.E row.eventId) row, .put (.A row.eventId) row]

/-! ## Calls and opening -/

def call {α β : Type} (x : StoreM α) (ok : α → β) (failed : Failure → β) (s : Store) : β × Store :=
  match (do Act.inspect checkOpen; x : StoreM α) s with
  | (.ok a, s') => (ok a, s')
  | (.error e, s') => (failed e, s')

def MutationResult.ofFailure (e : Failure) : MutationResult :=
  { status := e.status, message := e.message }

def eventKeys (db : Db) : List Bytes :=
  db.keys.filterMap fun | .E id => some id | _ => none

/-- The constructor on the recovered map and log: the first reservation, the id range, the pending
budget and its index. -/
def openStore (opts : Options) (db : Db) (log : List LogEntry) : Except Failure Store := do
  let fresh := (db.lookup .high).isNone
  let init : List Write := if fresh then [.put .high (opts.firstMessageId - 1)] else []
  let log := if fresh then log ++ [Wal.Entry.mk init true] else log
  let high := (db.lookup .high).getD (opts.firstMessageId - 1)
  require (opts.firstMessageId - 1 ≤ high && high < int64Max - 4096) .invalidRecord
    "invalid local MID high-water mark"
  let events := eventKeys db
  let indexed := opts.pendingEventIndex && decide (events.length ≤ opts.maxPendingEvents)
  return {
    db := Kv.apply db init
    -- the constructor ends with a sync of the recovered log
    log := Wal.synced log
    nextId := high + 1
    reservedEnd := high
    pendingEvents := events.length
    pendingIndexEnabled := indexed
    pendingIndex := if indexed then (events.map fun id => (⟨id, true⟩ : Sigma fun _ : Bytes => Bool)).toAList else ∅
    userLocks := if opts.exactUserLocking then opts.initialUserIds.toFinset else ∅
    poisoned := false
    closing := false
    engineWriteCalls := 0
    publications := 0
    syncedPublicationGeneration := 0
    publicationSyncInitialized := false }

end TinyImx.Local
