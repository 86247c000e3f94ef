import TinyImx.Local.Impl

/-!
# Publication progress of local events

`MarkEventsPublished` takes published events off `E/` with an unsynced write; `MarkEventFailed`
quarantines an event under `F/` and `RequeueFailedEvents` brings quarantined events back, both with
synced writes.
-/

namespace TinyImx.Local

def uniqueIds (ids : List Bytes) : List Bytes := ids.dedup.insertionSort (· ≤ ·)

/-- Whether the dump of a quarantined event succeeds: its stored bytes and the reason are text. -/
def dumpReason (env : Env) (reason : Bytes) : Except Failure Unit :=
  require (env.dumps reason) .invalidRecord "invalid local serialized record"

def markEventFailed (env : Env) (event reason : Bytes) : Store → MutationResult × Store :=
  call (do
    check (eventId event)
    check (require (reason ≠ [] && reason.length ≤ 128 && !reason.contains 0) .invalidArgument
      "invalid event failure reason")
    let value ← .read fun s => s.db.lookup (.E event)
    match value with
    | none => return { status := .succeeded }
    | some row => do
      let _ ← check (decodeEvent row event)
      check (dumpReason env reason)
      write env [.put (.F event) ⟨row, reason, env.clock.now⟩, .delete (.E event)] true
      .modify (EventSlot.unprepare event)
      .modify EventSlot.release
      return { status := .succeeded, affectedRows := 1 }) id MutationResult.ofFailure

/-- The loop of `RequeueFailedEvents` and the write after it.  The rest of the loop runs inside the
lifetime of each slot, so an exception anywhere gives all of them back. -/
def requeueLoop (opts : Options) (env : Env) :
    List Bytes → List PendingLocalEvent → StoreM MutationResult
  | [], rows =>
    if rows.isEmpty then pure { status := .succeeded }
    else do
      write env (rows.flatMap fun row => [.put (.E row.eventId) row, .delete (.F row.eventId)]) true
      .modify fun s => rows.foldl (fun s row => EventSlot.commit row.eventId s) s
      return { status := .succeeded, affectedRows := rows.length }
  | id :: rest, rows => do
    let value ← .read fun s => s.db.lookup (.F id)
    match value with
    | none => requeueLoop opts env rest rows
    | some failed => do
      let row ← check (decodeEvent failed.event id)
      .inspect fun s => require (s.db.lookup (.E id)).isNone .invalidRecord
        "event is both pending and failed"
      EventSlot.reserve opts
      .onThrow (do
        EventSlot.prepare id
        .onThrow (requeueLoop opts env rest (rows ++ [row])) (EventSlot.unprepare id))
        EventSlot.release

def requeueBody (opts : Options) (env : Env) (ids : List Bytes) : StoreM MutationResult := do
  check (require (ids.length ≤ 256) .invalidArgument "too many failed events to requeue")
  check (ids.forM eventId)
  requeueLoop opts env (uniqueIds ids) []

def requeueFailedEvents (opts : Options) (env : Env) (ids : List Bytes) :
    Store → MutationResult × Store :=
  call (requeueBody opts env ids) id MutationResult.ofFailure

def markEventsPublished (env : Env) (ids : List Bytes) : Store → MutationResult × Store :=
  call (do
    check (require (ids.length ≤ 256) .invalidArgument "too many local publication results")
    check (ids.forM eventId)
    let present ← .read fun s => (uniqueIds ids).filter fun id => (s.db.lookup (.E id)).isSome
    if present.isEmpty then return { status := .succeeded }
    else do
      write env (present.map fun id => .delete (.E id)) false
      .modify fun s => present.foldl (fun s id => EventSlot.unprepare id s) s
      .modify fun s => { s with
        pendingEvents := s.pendingEvents - present.length
        publications := s.publications + 1 }
      return { status := .succeeded, affectedRows := present.length }) id MutationResult.ofFailure

/-- `FlushWAL(true)`: every batch of the log is durable, or the owner is poisoned.  After a failed
write the tail of the log is not known, so nothing more is taken to be synced. -/
def flushLog (env : Env) : StoreM Unit := fun s =>
  match env.engine s.engineWriteCalls with
  | .done => (.ok (), { s with
      log := if s.poisoned then s.log else Wal.synced s.log
      engineWriteCalls := s.engineWriteCalls + 1 })
  | .failed _ text => (.error ⟨.storageError, "local engine: " ++ text⟩, { s with
      poisoned := true
      engineWriteCalls := s.engineWriteCalls + 1 })

def syncPublicationProgress (env : Env) : Store → MutationResult × Store :=
  call (do
    flushLog env
    return { status := .succeeded }) id MutationResult.ofFailure

def syncPublicationProgressIfDirty (env : Env) : Store → MutationResult × Store :=
  call (do
    let s ← .read fun s => s
    if s.publicationSyncInitialized && s.publications = s.syncedPublicationGeneration then
      return { status := .succeeded }
    else do
      flushLog env
      .modify fun s' => { s' with
        syncedPublicationGeneration := s.publications
        publicationSyncInitialized := true }
      return { status := .succeeded, affectedRows := 1 }) id MutationResult.ofFailure

def shutdown (env : Env) (s : Store) : Bool × Store :=
  match flushLog env { s with closing := true } with
  | (.ok (), s') => (!s'.poisoned, s')
  | (.error _, s') => (false, s')

end TinyImx.Local
