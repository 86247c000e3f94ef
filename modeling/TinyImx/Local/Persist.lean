import TinyImx.Local.Impl

/-!
# Persisting private messages

`persistPrivateMessage` is the single path, `persistPrivateMessages` the call for a group.  The
grouped path stages every item against the unchanged map, with the staged client ids and an overlay
of the counters in memory, and ends in one write; a failed write takes back every result that
depended on it.
-/

namespace TinyImx.Local

def PersistResult.ofFailure (e : Failure) : PersistResult :=
  { status := e.status, message := e.message }

/-- The checks before the locks: the two users, the input, and the canonical client id. -/
def checkInput (opts : Options) (env : Env) (item : ℕ) (inp : PersistInput) :
    Except Failure Bytes := do
  dialog opts inp.fromUserId inp.toUserId
  require (inp.clientMessageId ≠ [] && inp.clientMessageId.length ≤ 64 && 1 ≤ inp.messageType &&
    inp.messageType ≤ 3 && inp.content ≠ []) .invalidArgument "invalid local private message input"
  identity opts env item inp.fromUserId inp.toUserId inp.clientMessageId

def findExisting (db : Db) (fromUser : ℕ) (canonical : Bytes) :
    Except Failure (Option MessageView) :=
  match db.lookup (.I fromUser canonical) with
  | none => .ok none
  | some mid => do
    let found ← record db mid
    require found.Found .invalidRecord "orphan local CID index"
    require (found.record.fromUserId = fromUser &&
        db.lookup (.K found.record.messageId) = some canonical)
      .invalidRecord "mismatched local canonical identity"
    return some found.record

def sameMessage (existing : MessageView) (inp : PersistInput) : Bool :=
  existing.fromUserId = inp.fromUserId && existing.toUserId = inp.toUserId &&
    existing.clientMessageId = inp.clientMessageId && existing.messageType = inp.messageType &&
    existing.content = inp.content

def existingResult (existing : MessageView) (inp : PersistInput) : PersistResult where
  status := .succeeded
  outcome := if sameMessage existing inp then .reused else .idempotencyConflict
  messageId := existing.messageId
  record := existing

def checkBody (env : Env) (content : Bytes) : Except Failure Unit := do
  require (content.length ≤ 65535) .storageError "message exceeds legacy MySQL TEXT byte capacity"
  require (env.dumps content) .storageError "invalid legacy utf8mb4 message bytes"

def checkAdmission (env : Env) (item : ℕ) : Except Failure Unit :=
  require (env.admitEvents item) .storageError "local event admission fenced"

def checkPin (env : Env) (item fromUser toUser : ℕ) : Except Failure Unit :=
  let pinned := env.pin item fromUser toUser
  if pinned.status = .succeeded then .ok () else .error ⟨pinned.status, pinned.message⟩

def newRecord (clock : Clock) (inp : PersistInput) (mid : ℕ) : MessageView where
  messageId := mid
  clientMessageId := inp.clientMessageId
  fromUserId := inp.fromUserId
  toUserId := inp.toUserId
  messageType := inp.messageType
  content := inp.content
  createdAt := clock.now

def checkCounters (total dialog pending : ℕ) : Except Failure Unit :=
  require (total < uint64Max && dialog ≤ total && pending ≤ total) .invalidRecord
    "invalid local unread counters"

def messageWrites (m : MessageView) (canonical : Bytes) (total dialog pending : ℕ) : List Write :=
  [.put (.M m.messageId) m, .put (.I m.fromUserId canonical) m.messageId,
    .put (.K m.messageId) canonical, .put (.U m.fromUserId) (), .put (.U m.toUserId) (),
    .put (.H (min m.fromUserId m.toUserId) (max m.fromUserId m.toUserId) m.messageId) (),
    .put (.P m.toUserId m.messageId) (), .put (.C m.fromUserId m.toUserId) m.messageId,
    .put (.C m.toUserId m.fromUserId) m.messageId, .put (.N m.toUserId) (total + 1),
    .put (.D m.toUserId m.fromUserId) (dialog + 1), .put (.Q m.toUserId) (pending + 1),
    .put (.R m.toUserId m.fromUserId) ()]

def createdUnreadReply (opts : Options) (mid receiver peer privateUnread totalUnread : ℕ) :
    Option CommittedUnreadSnapshot :=
  if opts.persistUnreadReply && mid ≠ 0 && receiver ≠ 0 && peer ≠ 0 && receiver ≠ peer &&
      privateUnread ≠ 0 && privateUnread ≤ totalUnread && totalUnread ≤ int64Max then
    some ⟨mid, receiver, peer, privateUnread, totalUnread⟩
  else none

/-! ## The single path -/

def createMessage (opts : Options) (env : Env) (item : ℕ) (inp : PersistInput)
    (canonical : Bytes) : StoreM PersistResult := do
  check (checkBody env inp.content)
  check (checkAdmission env item)
  EventSlot.reserve opts
  .onThrow (do
    check (checkPin env item inp.fromUserId inp.toUserId)
    let mid ← nextMessageId env
    let m := newRecord env.clock inp mid
    let db ← .read Store.db
    let total := totalCount db inp.toUserId
    let dialog := dialogCount db inp.toUserId inp.fromUserId
    let pending := pendingCount db inp.toUserId
    check (checkCounters total dialog pending)
    check (dumpRecord env m)
    let row ← check (encodeEvent (messageCreated env.clock m opts.messageEventsTopic))
    EventSlot.prepare row.eventId
    .onThrow (write env (messageWrites m canonical total dialog pending ++ eventWrites row) true)
      (EventSlot.unprepare row.eventId)
    .modify (EventSlot.commit row.eventId)
    return {
      status := .succeeded
      outcome := .created
      messageId := mid
      record := m
      committedUnread :=
        createdUnreadReply opts mid inp.toUserId inp.fromUserId (dialog + 1) (total + 1) })
    EventSlot.release

def persistBody (opts : Options) (env : Env) (item : ℕ) (inp : PersistInput) :
    StoreM PersistResult := do
  let canonical ← check (checkInput opts env item inp)
  lockUsers opts [inp.fromUserId, inp.toUserId]
  let existing ← .inspect fun s => findExisting s.db inp.fromUserId canonical
  match existing with
  | some m => return existingResult m inp
  | none => createMessage opts env item inp canonical

def persistPrivateMessage (opts : Options) (env : Env) (item : ℕ) (inp : PersistInput) :
    Store → PersistResult × Store :=
  call (persistBody opts env item inp) id PersistResult.ofFailure

/-! ## The grouped path -/

structure Create where
  resultIndex : ℕ
  eventId : Bytes
  writes : List Write

structure Batch where
  out : List PersistResult := []
  provisional : List Bool := []
  stagedCids : AList (fun _ : ℕ × Bytes => ℕ) := ∅
  counters : AList (fun _ : Key => ℕ) := ∅
  creates : List Create := []

def Batch.count (b : Batch) (key : Key) (stored : ℕ) : ℕ := (b.counters.lookup key).getD stored

def Batch.push (b : Batch) (r : PersistResult) (provisional : Bool) : Batch :=
  { b with out := b.out ++ [r], provisional := b.provisional ++ [provisional] }

def Batch.stage (b : Batch) (m : MessageView) (canonical : Bytes) (total dialog pending : ℕ)
    (row : PendingLocalEvent) : Batch where
  out := b.out ++
    [{ status := .succeeded, outcome := .created, messageId := m.messageId, record := m }]
  provisional := b.provisional ++ [true]
  stagedCids := b.stagedCids.insert (m.fromUserId, canonical) b.out.length
  counters := ((b.counters.insert (.N m.toUserId) (total + 1)).insert
    (.D m.toUserId m.fromUserId) (dialog + 1)).insert (.Q m.toUserId) (pending + 1)
  creates := b.creates ++
    [⟨b.out.length, row.eventId, messageWrites m canonical total dialog pending ++ eventWrites row⟩]

def stageMessage (opts : Options) (env : Env) (b : Batch) (inp : PersistInput)
    (canonical : Bytes) : StoreM Batch := do
  let item := b.out.length
  check (checkBody env inp.content)
  check (checkAdmission env item)
  EventSlot.reserve opts
  .onThrow (do
    check (checkPin env item inp.fromUserId inp.toUserId)
    let mid ← nextMessageId env
    let m := newRecord env.clock inp mid
    let db ← .read Store.db
    let total := b.count (.N inp.toUserId) (totalCount db inp.toUserId)
    let dialog :=
      b.count (.D inp.toUserId inp.fromUserId) (dialogCount db inp.toUserId inp.fromUserId)
    let pending := b.count (.Q inp.toUserId) (pendingCount db inp.toUserId)
    check (checkCounters total dialog pending)
    let row ← check (encodeEvent (messageCreated env.clock m opts.messageEventsTopic))
    check (dumpRecord env m)
    EventSlot.prepare row.eventId
    return b.stage m canonical total dialog pending row)
    EventSlot.release

/-- One round of the staging loop; `checked` is the outcome of the item's first checks. -/
def stageItem (opts : Options) (env : Env) (inp : PersistInput) (checked : Except Failure Bytes)
    (b : Batch) (s : Store) : Batch × Store :=
  match checked with
  | .error e => (b.push (.ofFailure e) false, s)
  | .ok canonical =>
    match b.stagedCids.lookup (inp.fromUserId, canonical) with
    | some j => (b.push (existingResult (b.out.getD j {}).record inp) true, s)
    | none =>
      match findExisting s.db inp.fromUserId canonical with
      | .error e => (b.push (.ofFailure e) false, s)
      | .ok (some m) => (b.push (existingResult m inp) false, s)
      | .ok none =>
        match stageMessage opts env b inp canonical s with
        | (.error e, s') => (b.push (.ofFailure e) false, s')
        | (.ok b', s') => (b', s')

def stageItems (opts : Options) (env : Env) :
    List (PersistInput × Except Failure Bytes) → Batch → Store → Batch × Store
  | [], b, s => (b, s)
  | (inp, checked) :: rest, b, s =>
    let (b', s') := stageItem opts env inp checked b s
    stageItems opts env rest b' s'

def failUncommitted (e : Failure) (out : List PersistResult) (provisional : List Bool) :
    List PersistResult :=
  out.zipWith (fun r p =>
    if p || (r.status = .storageError && r.message = "") then .ofFailure e else r) provisional

/-- The result of an item after the write: a created message reports the group's last counters. -/
def Batch.unreadResult (opts : Options) (b : Batch) (i : ℕ) (r : PersistResult) : PersistResult :=
  if (b.creates.map Create.resultIndex).contains i then
    match b.counters.lookup (.N r.record.toUserId),
        b.counters.lookup (.D r.record.toUserId r.record.fromUserId) with
    | some total, some dialog =>
      { r with committedUnread :=
          createdUnreadReply opts r.messageId r.record.toUserId r.record.fromUserId dialog total }
    | _, _ => r
  else r

def commitBatch (opts : Options) (env : Env) (b : Batch) (s : Store) :
    List PersistResult × Store :=
  if b.creates.isEmpty then (b.out, s)
  else
    match write env (b.creates.flatMap Create.writes) true s with
    | (.ok (), s') =>
      (b.out.mapIdx (b.unreadResult opts), b.creates.foldl (fun s c => EventSlot.commit c.eventId s) s')
    | (.error e, s') =>
      (failUncommitted e b.out b.provisional,
        b.creates.foldl (fun s c => EventSlot.release (EventSlot.unprepare c.eventId s)) s')

def resultBefore : Except Failure Bytes → PersistResult
  | .error e => .ofFailure e
  | .ok _ => {}

def batchActors (checked : List (PersistInput × Except Failure Bytes)) : List ℕ :=
  checked.flatMap fun x =>
    match x.2 with
    | .error _ => []
    | .ok _ => [x.1.fromUserId, x.1.toUserId]

def persistBatch (opts : Options) (env : Env) (inputs : List PersistInput) (s : Store) :
    List PersistResult × Store :=
  match checkOpen s with
  | .error e => (inputs.map fun _ => .ofFailure e, s)
  | .ok () =>
    let checked := inputs.mapIdx fun i inp => (inp, checkInput opts env i inp)
    match lockUsers opts (batchActors checked) s with
    | (.error e, s') =>
      (failUncommitted e (checked.map fun x => resultBefore x.2) (checked.map fun _ => false), s')
    | (.ok (), s') =>
      let (b, s'') := stageItems opts env checked {} s'
      commitBatch opts env b s''

def persistEach (opts : Options) (env : Env) :
    ℕ → List PersistInput → Store → List PersistResult × Store
  | _, [], s => ([], s)
  | i, inp :: rest, s =>
    let (r, s') := persistPrivateMessage opts env i inp s
    let (rs, s'') := persistEach opts env (i + 1) rest s'
    (r :: rs, s'')

def persistPrivateMessages (opts : Options) (env : Env) (inputs : List PersistInput) (s : Store) :
    List PersistResult × Store :=
  if 64 < inputs.length then
    (inputs.map fun _ =>
      { status := .invalidArgument, message := "local private persistence batch exceeds64" }, s)
  else if inputs.isEmpty then ([], s)
  else if !opts.persistBatchEnable || inputs.length = 1 then persistEach opts env 0 inputs s
  else persistBatch opts env inputs s

end TinyImx.Local
