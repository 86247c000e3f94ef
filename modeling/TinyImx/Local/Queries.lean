import TinyImx.Local.Impl

/-!
# Reads of the local store

The lookups by message id and by client message id, the pending messages of a receiver and the two
unread snapshots, with the checks each of them makes on the indices it follows.
-/

namespace TinyImx.Local

def getPrivateMessage (mid : ℕ) : Store → GetResult × Store :=
  call (do
    check (require (0 < mid) .invalidArgument "zero local MID")
    .inspect fun s => record s.db mid) id fun e => { status := e.status, message := e.message }

/-- What `FindPrivateMessageByClientMessageId` reads for a canonical client id. -/
def findRecord (db : Db) (fromUser : ℕ) (canonical : Bytes) : Except Failure GetResult :=
  match db.lookup (.I fromUser canonical) with
  | none => .ok { status := .succeeded }
  | some mid => do
    let found ← record db mid
    require (found.Found && found.record.fromUserId = fromUser &&
        db.lookup (.K found.record.messageId) = some canonical)
      .invalidRecord "orphan/mismatched local CID"
    return found

def findPrivateMessageByClientMessageId (opts : Options) (env : Env) (fromUser : ℕ) (cid : Bytes) :
    Store → GetResult × Store :=
  call (do
    check (actor opts fromUser)
    check (require (cid ≠ [] && cid.length ≤ 64) .invalidArgument "invalid local CID")
    let canonical ← check (identity opts env 0 fromUser 0 cid)
    .inspect fun s => findRecord s.db fromUser canonical) id
    fun e => { status := e.status, message := e.message }

/-! ## Pending messages -/

/-- `MessageRepositoryCountResult`. -/
structure CountResult where
  status : Status := .storageError
  count : ℕ := 0
  message : String := ""

def countPending (opts : Options) (receiver : ℕ) : Store → CountResult × Store :=
  call (do
    check (actor opts receiver)
    let count ← .read fun s => pendingCount s.db receiver
    return { status := .succeeded, count := count }) id
    fun e => { status := e.status, message := e.message }

/-- `MessageRepositoryPendingResult`. -/
structure PendingResult where
  status : Status := .storageError
  records : List MessageView := []
  message : String := ""

/-- The pending messages of a receiver in id order: the iterator over `PendingPrefix(receiver)`. -/
def pendingMessages (db : Db) (receiver : ℕ) : List ℕ :=
  Kv.scan (fun
    | .P r mid => if r = receiver then some mid else none
    | _ => none) db

def pendingRecord (db : Db) (receiver mid : ℕ) : Except Failure MessageView := do
  let found ← record db mid
  require (found.Found && found.record.toUserId = receiver &&
      found.record.deliveryState = .pending)
    .invalidRecord "orphan local pending index"
  return found.record

def listPendingAfter (opts : Options) (receiver after limit : ℕ) :
    Store → PendingResult × Store :=
  call (do
    check (actor opts receiver)
    check (checkLimit limit)
    let records ← .inspect fun s =>
      (((pendingMessages s.db receiver).filter (after < ·)).take limit).mapM
        (pendingRecord s.db receiver)
    return { status := .succeeded, records := records }) id
    fun e => { status := e.status, message := e.message }

/-! ## Unread counters -/

/-- `LocalUnreadResult`. -/
structure UnreadResult where
  status : Status := .storageError
  privateUnread : ℕ := 0
  totalUnread : ℕ := 0
  message : String := ""

def readUnreadSnapshot (opts : Options) (receiver peer : ℕ) : Store → UnreadResult × Store :=
  call (do
    check (dialog opts receiver peer)
    let db ← .read Store.db
    check (require (dialogCount db receiver peer ≤ totalCount db receiver) .invalidRecord
      "local unread snapshot invariant failed")
    return {
      status := .succeeded
      privateUnread := dialogCount db receiver peer
      totalUnread := totalCount db receiver }) id
    fun e => { status := e.status, message := e.message }

/-- `LocalUserUnreadResult`. -/
structure UserUnreadResult where
  status : Status := .storageError
  totalUnread : ℕ := 0
  peerCounts : List (ℕ × ℕ) := []
  message : String := ""

/-- The peers that have written to a user: the iterator over `R/receiver/`. -/
def unreadPeers (db : Db) (receiver : ℕ) : List ℕ :=
  Kv.scan (fun
    | .R r peer => if r = receiver then some peer else none
    | _ => none) db

def unreadLoop (db : Db) (receiver : ℕ) :
    List ℕ → UserUnreadResult → Except Failure UserUnreadResult
  | [], out => .ok out
  | peer :: rest, out => do
    let count := dialogCount db receiver peer
    require (peer ≠ 0 && peer ≠ receiver && out.peerCounts.length < 100000 &&
        count ≤ int64Max - out.totalUnread)
      .invalidRecord "invalid or over-budget local user unread snapshot"
    unreadLoop db receiver rest { out with
      totalUnread := out.totalUnread + count
      peerCounts := out.peerCounts ++ [(peer, count)] }

def readUserUnreadSnapshot (opts : Options) (receiver : ℕ) : Store → UserUnreadResult × Store :=
  call (do
    check (actor opts receiver)
    let db ← .read Store.db
    let out ← check (unreadLoop db receiver (unreadPeers db receiver) { status := .succeeded })
    check (require (out.totalUnread = totalCount db receiver) .invalidRecord
      "local user unread total disagrees")
    return out) id fun e => { status := e.status, message := e.message }

end TinyImx.Local
