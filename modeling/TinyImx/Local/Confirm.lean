import TinyImx.Local.Impl

/-!
# Receiver confirmation and reading a dialog

The three ways to confirm a receiver (`ConfirmReceiver`, the all-or-nothing `ConfirmReceiverBatch`
and the per-request `ConfirmReceiverRequests`) and `MarkDialogRead`.
-/

namespace TinyImx.Local

/-- `ReceiverConfirmationDecision`: `none` authorises the change from pending to confirmed. -/
def receiverConfirmationDecision (lookup : GetResult) (receiver : ℕ) : Option MutationResult :=
  if lookup.status ≠ .succeeded then
    some { status := lookup.status, message := lookup.message }
  else if !lookup.found then
    some { status := .notFound, message := "private message not found" }
  else if lookup.record.toUserId ≠ receiver then
    some { status := .permissionDenied, message := "receiver does not own private message" }
  else
    match lookup.record.deliveryState with
    | .pending => none
    | .receiverConfirmed | .read =>
      some { status := .succeeded, message := "receiver confirmation already durable" }
    | .failed =>
      some { status := .failedPrecondition,
             message := "failed message cannot be receiver-confirmed" }

def confirmed (m : MessageView) (now : Bytes) : MessageView :=
  { m with deliveryState := .receiverConfirmed, receiverConfirmedAt := now }

def confirmWrites (m : MessageView) (now : Bytes) : List Write :=
  [.put (.M m.messageId) (confirmed m now), .delete (.P m.toUserId m.messageId)]

def pendingWrite (receiver pending count : ℕ) : Write :=
  if pending = count then .delete (.Q receiver) else .put (.Q receiver) (pending - count)

/-! ## One message -/

def confirmReceiver (opts : Options) (env : Env) (mid receiver : ℕ) :
    Store → MutationResult × Store :=
  call (do
    check (actor opts receiver)
    check (require (0 < mid) .invalidArgument "zero local MID")
    lockUsers opts [receiver]
    let found ← .inspect fun s => record s.db mid
    match receiverConfirmationDecision found receiver with
    | some decision => return decision
    | none => do
      let pending ← .read fun s => pendingCount s.db receiver
      check (require (0 < pending) .invalidRecord "local pending counter underflow")
      check (dumpRecord env (confirmed found.record env.clock.now))
      write env [.put (.M mid) (confirmed found.record env.clock.now), .delete (.P receiver mid),
        pendingWrite receiver pending 1] true
      return { status := .succeeded, affectedRows := 1 }) id MutationResult.ofFailure

/-! ## All or nothing -/

/-- The loop of `ConfirmReceiverBatch` before its locks: the receivers of the messages. -/
def batchReceivers (opts : Options) (db : Db) : List ℕ → List ℕ → Except Failure (List ℕ)
  | [], _ => .ok []
  | mid :: rest, seen => do
    require (mid ≠ 0 && !seen.contains mid) .invalidArgument
      "zero or duplicate local receiver MID"
    let found ← record db mid
    require found.Found .notFound "local receiver batch message missing"
    actor opts found.record.toUserId
    let receivers ← batchReceivers opts db rest (mid :: seen)
    return found.record.toUserId :: receivers

/-- What the confirmation loops collect: the batch so far and the receivers of the changed messages,
one entry for each message (the value of the program's `removed` map is its number of entries). -/
structure Confirmations where
  batch : List Write := []
  removed : List ℕ := []

def Confirmations.add (c : Confirmations) (m : MessageView) (now : Bytes) : Confirmations where
  batch := c.batch ++ confirmWrites m now
  removed := c.removed ++ [m.toUserId]

def confirmLoop (env : Env) (db : Db) (receivers : List ℕ) :
    List ℕ → Confirmations → Except Failure Confirmations
  | [], c => .ok c
  | mid :: rest, c => do
    let found ← record db mid
    require (found.Found && receivers.contains found.record.toUserId) .invalidRecord
      "local receiver batch identity changed"
    match receiverConfirmationDecision found found.record.toUserId with
    | some decision =>
      require (decision.status = .succeeded) decision.status decision.message
      confirmLoop env db receivers rest c
    | none =>
      dumpRecord env (confirmed found.record env.clock.now)
      confirmLoop env db receivers rest (c.add found.record env.clock.now)

def pendingWrites (db : Db) (text : String) (removed : List ℕ) : Except Failure (List Write) :=
  (actorSet removed).mapM fun r => do
    require (removed.count r ≤ pendingCount db r) .invalidRecord text
    return pendingWrite r (pendingCount db r) (removed.count r)

def confirmReceiverBatch (opts : Options) (env : Env) (mids : List ℕ) :
    Store → MutationResult × Store :=
  call (do
    check (require (mids ≠ [] && mids.length ≤ 100) .invalidArgument
      "invalid local receiver batch size")
    let receivers ← .inspect fun s => batchReceivers opts s.db mids []
    lockUsers opts receivers
    let c ← .inspect fun s => confirmLoop env s.db receivers mids {}
    if c.removed.isEmpty then return { status := .succeeded }
    else do
      let counters ← .inspect fun s =>
        pendingWrites s.db "local receiver batch pending underflow" c.removed
      write env (c.batch ++ counters) true
      return { status := .succeeded, affectedRows := c.removed.length })
    id MutationResult.ofFailure

/-! ## Independent requests -/

structure OwnedReceiverConfirmation where
  messageId : ℕ
  receiverUserId : ℕ

/-- The variables of the loop of `ConfirmReceiverRequests`. -/
structure Requests where
  results : List MutationResult := []
  provisional : List Bool := []
  changed : AList (fun _ : ℕ => MessageView) := ∅
  confirmations : Confirmations := {}

def Requests.push (q : Requests) (r : MutationResult) (provisional : Bool) : Requests :=
  { q with results := q.results ++ [r], provisional := q.provisional ++ [provisional] }

def Requests.confirm (q : Requests) (m : MessageView) (now : Bytes) : Requests where
  results := q.results ++ [{ affectedRows := 1 }]
  provisional := q.provisional ++ [true]
  changed := q.changed.insert m.messageId (confirmed m now)
  confirmations := q.confirmations.add m now

def checkRequest (opts : Options) (inp : OwnedReceiverConfirmation) : Except Failure Unit := do
  actor opts inp.receiverUserId
  require (0 < inp.messageId) .invalidArgument "zero local MID"

/-- What a request reads: the stored record, or what an earlier request of the group made of it. -/
def requestRecord (db : Db) (q : Requests) (mid : ℕ) : Except Failure GetResult := do
  let found ← record db mid
  match q.changed.lookup mid with
  | some m => return { found with record := m }
  | none => return found

/-- The loop of `ConfirmReceiverRequests`; an exception of the JSON library ends it. -/
def requestLoop (opts : Options) (env : Env) (db : Db) :
    List OwnedReceiverConfirmation → Requests → Requests × Option Failure
  | [], q => (q, none)
  | inp :: rest, q =>
    match checkRequest opts inp with
    | .error e => requestLoop opts env db rest (q.push (.ofFailure e) false)
    | .ok () =>
      match requestRecord db q inp.messageId with
      | .error e => requestLoop opts env db rest (q.push (.ofFailure e) false)
      | .ok found =>
        match receiverConfirmationDecision found inp.receiverUserId with
        | some decision =>
          requestLoop opts env db rest (q.push decision
            (decision.status = .succeeded && (q.changed.lookup inp.messageId).isSome))
        | none =>
          match dumpRecord env (confirmed found.record env.clock.now) with
          | .error e => (q.push ({} : MutationResult) false, some e)
          | .ok () => requestLoop opts env db rest (q.confirm found.record env.clock.now)

/-- `fail_provisional`; requests the loop did not reach keep their default result. -/
def Requests.fail (q : Requests) (n : ℕ) (e : Failure) : List MutationResult :=
  (q.results.zipWith (fun r p => if p then .ofFailure e else r) q.provisional) ++
    List.replicate (n - q.results.length) ({} : MutationResult)

def Requests.succeed (q : Requests) : List MutationResult :=
  q.results.zipWith (fun r p =>
    if p then
      { r with
        status := .succeeded
        message := if r.affectedRows ≠ 0 then "private message receiver confirmation durable"
          else "receiver confirmation already durable" }
    else r) q.provisional

def requestActors (opts : Options) (inputs : List OwnedReceiverConfirmation) : List ℕ :=
  inputs.filterMap fun inp =>
    match checkRequest opts inp with
    | .error _ => none
    | .ok () => some inp.receiverUserId

def requestBefore (opts : Options) (inp : OwnedReceiverConfirmation) : MutationResult :=
  match checkRequest opts inp with
  | .error e => .ofFailure e
  | .ok () => {}

def confirmReceiverRequests (opts : Options) (env : Env) (inputs : List OwnedReceiverConfirmation)
    (s : Store) : List MutationResult × Store :=
  if inputs.isEmpty then ([], s)
  else if 64 < inputs.length then
    (inputs.map fun _ =>
      { status := .invalidArgument, message := "owned receiver batch exceeds64" }, s)
  else
    match checkOpen s with
    | .error _ => (inputs.map fun _ => ({} : MutationResult), s)
    | .ok () =>
      match lockUsers opts (requestActors opts inputs) s with
      | (.error _, s') => (inputs.map (requestBefore opts), s')
      | (.ok (), s') =>
        match requestLoop opts env s'.db inputs {} with
        | (q, some e) => (q.fail inputs.length e, s')
        | (q, none) =>
          if q.confirmations.removed.isEmpty then (q.results, s')
          else
            match pendingWrites s'.db "owned receiver batch pending underflow"
                q.confirmations.removed with
            | .error e => (q.fail inputs.length e, s')
            | .ok counters =>
              match write env (q.confirmations.batch ++ counters) true s' with
              | (.error e, s'') => (q.fail inputs.length e, s'')
              | (.ok (), s'') => (q.succeed, s'')

/-! ## Reading a dialog -/

/-- The messages of a dialog in id order: the iterator over `DialogPrefix(a, b)`. -/
def dialogMessages (db : Db) (a b : ℕ) : List ℕ :=
  Kv.scan (fun
    | .H low high mid => if low = min a b ∧ high = max a b then some mid else none
    | _ => none) db

/-- What the loop of `MarkDialogRead` collects. -/
structure Reads where
  batch : List Write := []
  changed : ℕ := 0
  pendingRemoved : ℕ := 0

def markedRead (m : MessageView) (now : Bytes) : MessageView :=
  { m with
    deliveryState := .read
    readAt := now
    receiverConfirmedAt := if m.receiverConfirmedAt = [] then now else m.receiverConfirmedAt }

def unreadFor (m : MessageView) (reader : ℕ) : Bool :=
  m.toUserId = reader && (m.deliveryState = .pending || m.deliveryState = .receiverConfirmed)

def Reads.add (c : Reads) (m : MessageView) (reader : ℕ) (now : Bytes) : Reads where
  batch := c.batch ++ (if m.deliveryState = .pending then [.delete (.P reader m.messageId)] else [])
    ++ [.put (.M m.messageId) (markedRead m now)]
  changed := c.changed + 1
  pendingRemoved := c.pendingRemoved + if m.deliveryState = .pending then 1 else 0

def readLoop (env : Env) (db : Db) (reader peer : ℕ) : List ℕ → Reads → Except Failure Reads
  | [], c => .ok c
  | mid :: rest, c => do
    let found ← record db mid
    require found.Found .invalidRecord "orphan local history index"
    let m := found.record
    require ((m.fromUserId = reader && m.toUserId = peer) ||
        (m.fromUserId = peer && m.toUserId = reader))
      .invalidRecord "local read index identity mismatch"
    if unreadFor m reader then do
      dumpRecord env (markedRead m env.clock.now)
      require (env.batchSize (c.add m reader env.clock.now).batch ≤ 64 * 1024 * 1024)
        .failedPrecondition "local atomic read batch exceeds64MiB"
      readLoop env db reader peer rest (c.add m reader env.clock.now)
    else readLoop env db reader peer rest c

def checkReadCounters (c : Reads) (total dialog pending : ℕ) : Except Failure Unit :=
  require (dialog = c.changed && c.changed ≤ total && c.pendingRemoved ≤ pending) .invalidRecord
    "local dialog/read counters disagree"

def readWrites (reader peer total pending : ℕ) (c : Reads) : List Write :=
  [.put (.N reader) (total - c.changed), .delete (.D reader peer),
    pendingWrite reader pending c.pendingRemoved]

def readBody (opts : Options) (env : Env) (reader peer : ℕ) : StoreM MutationResult := do
  check (dialog opts reader peer)
  lockUsers opts [reader]
  let c ← .inspect fun s => readLoop env s.db reader peer (dialogMessages s.db reader peer) {}
  if c.changed = 0 then return { status := .succeeded }
  else do
    let db ← .read Store.db
    let total := totalCount db reader
    let pending := pendingCount db reader
    check (checkReadCounters c total (dialogCount db reader peer) pending)
    check (require (env.admitEvents 0) .storageError "local event admission fenced")
    EventSlot.reserve opts
    .onThrow (do
      let row ← check (encodeEvent
        (dialogReadAdvanced env.clock reader peer c.changed opts.messageEventsTopic))
      EventSlot.prepare row.eventId
      .onThrow
        (write env (c.batch ++ readWrites reader peer total pending c ++ eventWrites row) true)
        (EventSlot.unprepare row.eventId)
      .modify (EventSlot.commit row.eventId)
      return { status := .succeeded, affectedRows := c.changed })
      EventSlot.release

def markDialogRead (opts : Options) (env : Env) (reader peer : ℕ) :
    Store → MutationResult × Store :=
  call (readBody opts env reader peer) id MutationResult.ofFailure

end TinyImx.Local
