import TinyImx.Lib.KeyedTable
import TinyImx.Message.GroupPersist
import Mathlib.Data.Prod.Lex
import Mathlib.Data.List.Dedup

/-!
# Deliveries of group messages

`im_group_message_deliveries` and the statements that claim, complete and confirm deliveries.  A
gateway claims rows for a lease; a completion carries the token of the lease, and a confirmation
comes from the recipient.  Some operations have a form for one row and a form for many.

Times are milliseconds of the database's clock, and `now` is `NOW(3)` of every statement of a call.
Texts are compared as the collation of the column does, of which `collate` says what it keeps.
-/

namespace TinyImx.Message

open TinyImx.Local (Bytes Status MutationResult)

/-- A row of `im_group_message_deliveries`. -/
structure Delivery where
  messageId : ℕ
  recipientUserId : ℕ
  groupId : ℕ
  deliveryStatus : ℕ
  attemptCount : ℕ
  lastGatewayId : Option Bytes
  leaseOwner : Option Bytes
  leaseToken : Option Bytes
  leaseUntil : Option ℕ
  nextRetryAt : ℕ
  lastErrorCode : Option Bytes
  createdAt : ℕ
  updatedAt : ℕ
  deliveredAt : Option ℕ
  deriving DecidableEq

namespace Delivery

def kPending : ℕ := 1
def kDeferredOffline : ℕ := 2
def kDelivered : ℕ := 3

def key (r : Delivery) : ℕ × ℕ := (r.messageId, r.recipientUserId)

abbrev Table := KeyedTable key

def assign (now : ℕ) (set : Delivery → Delivery) (r : Delivery) : Delivery :=
  if set r = r then r else { set r with updatedAt := now }

def statement (now : ℕ) (condition : Delivery → Bool) (set : Delivery → Delivery)
    (keeps : ∀ r, (set r).key = r.key) : Statement key where
  condition := condition
  set := assign now set
  keeps r := by
    rw [assign]
    split
    · rfl
    · exact keeps r

def leaseFree (now : ℕ) (r : Delivery) : Bool := r.leaseUntil.all (· ≤ now)

def nullable (text : Bytes) : Option Bytes := if text = [] then none else some text

/-! ## Completions -/

/-- `GroupDeliveryAttemptCompletion`. -/
structure Completion where
  messageId : ℕ
  recipientUserId : ℕ
  leaseToken : Bytes
  nextStatus : ℕ
  gatewayId : Bytes
  retryAfterMs : ℕ
  errorCode : Bytes

def Completion.key (item : Completion) : ℕ × ℕ := (item.messageId, item.recipientUserId)

def Completion.valid (item : Completion) : Bool :=
  !(item.messageId = 0 || item.recipientUserId = 0 || item.leaseToken = [] ||
    128 < item.leaseToken.length || 128 < item.gatewayId.length || 128 < item.errorCode.length ||
    (item.nextStatus ≠ kPending && item.nextStatus ≠ kDeferredOffline) ||
    600000 < item.retryAfterMs)

def Completion.set (item : Completion) (now : ℕ) (r : Delivery) : Delivery :=
  { r with
    deliveryStatus := item.nextStatus
    lastGatewayId := nullable item.gatewayId
    lastErrorCode := nullable item.errorCode
    leaseOwner := none
    leaseToken := none
    leaseUntil := none
    nextRetryAt := now + item.retryAfterMs }

variable {κ : Type} [DecidableEq κ] (collate : Bytes → κ)

/-- The `WHERE` clause of both forms: the key, the token and `delivery_status=1`. -/
def Completion.owns (item : Completion) (r : Delivery) : Bool :=
  r.key = item.key && r.leaseToken.any (fun token => collate token = collate item.leaseToken) &&
    r.deliveryStatus = kPending

def Completion.statement (now : ℕ) (item : Completion) : Statement Delivery.key :=
  Delivery.statement now (item.owns collate) (item.set now) fun _ => rfl

def completeGroupMessageDeliveryAttempt (now : ℕ) (item : Completion) (t : Table) :
    MutationResult × Table :=
  if !item.valid then
    (⟨.invalidArgument, 0, "invalid group delivery completion arguments"⟩, t)
  else
    (⟨.succeeded, t.affected (item.statement collate now), "group delivery attempt completed"⟩,
      t.execute (item.statement collate now))

def joined (items : List Completion) (r : Delivery) : Option Completion :=
  items.find? fun item => item.owns collate r

def joinStatement (now : ℕ) (items : List Completion) : Statement key :=
  Delivery.statement now (fun r => (joined collate items r).isSome)
    (fun r => ((joined collate items r).map fun item => item.set now r).getD r)
    fun r => by
      cases joined collate items r with
      | none => rfl
      | some item => rfl

def acceptsBatch (items : List Completion) : Bool :=
  items ≠ [] && items.length ≤ 256 && items.all Completion.valid && (items.map Completion.key).Nodup

def completeGroupMessageDeliveryAttempts (now : ℕ) (items : List Completion) (t : Table) :
    MutationResult × Table :=
  if items = [] ∨ 256 < items.length then
    (⟨.invalidArgument, 0, "invalid group delivery completion batch"⟩, t)
  else if !acceptsBatch items then
    (⟨.invalidArgument, 0, "invalid group delivery completion batch entry"⟩, t)
  else
    (⟨.succeeded, t.affected (joinStatement collate now items), "group delivery attempts completed"⟩,
      t.execute (joinStatement collate now items))

def completeEach (now : ℕ) : List Completion → Table → List MutationResult × Table
  | [], t => ([], t)
  | item :: items, t =>
    let (result, t) := completeGroupMessageDeliveryAttempt collate now item t
    let (results, t) := completeEach now items t
    (result :: results, t)

/-! ## Confirmations -/

def confirm (now : ℕ) (r : Delivery) : Delivery :=
  { r with
    deliveryStatus := kDelivered
    deliveredAt := some (r.deliveredAt.getD now)
    leaseOwner := none
    leaseToken := none
    leaseUntil := none
    lastErrorCode := none }

/-- `WHERE (message_id,recipient_user_id) IN (...) AND delivery_status<>3`. -/
def confirmStatement (now : ℕ) (ids : List (ℕ × ℕ)) : Statement key :=
  statement now (fun r => ids.any (· = r.key) && r.deliveryStatus ≠ kDelivered) (confirm now) fun _ => rfl

def confirmGroupMessageDeliveryDirect (now : ℕ) (id : ℕ × ℕ) (t : Table) : MutationResult × Table :=
  if id.1 = 0 ∨ id.2 = 0 then
    (⟨.invalidArgument, 0, "invalid group delivery confirmation arguments"⟩, t)
  else
    (⟨.succeeded, t.affected (confirmStatement now [id]), "group delivery confirmed"⟩,
      t.execute (confirmStatement now [id]))

def assignChanged : List (ℕ × ℕ) → List (ℕ × ℕ) → List MutationResult
  | _, [] => []
  | changed, id :: ids =>
    ⟨.succeeded, if changed.any (· = id) then 1 else 0, "group delivery confirmed"⟩ ::
      assignChanged (changed.erase id) ids

def confirmGroupMessageDeliveryBatch (now : ℕ) (ids : List (ℕ × ℕ)) (t : Table) :
    List MutationResult × Table :=
  if ids = [] ∨ 64 < ids.length ∨ ids.any (fun id => id.1 = 0 || id.2 = 0) then
    (ids.map fun _ => ⟨.invalidArgument, 0, "invalid group confirmation batch arguments"⟩, t)
  else match ids with
    | [id] =>
      let (result, t) := confirmGroupMessageDeliveryDirect now id t
      ([result], t)
    | ids =>
      let unique := ids.dedup
      -- the rows that the locking read returns with another status than delivered
      let changed := (t.rows.filter fun r => unique.any (· = r.key) && r.deliveryStatus ≠ kDelivered).map key
      let st := confirmStatement now unique
      if t.affected st ≠ changed.length then
        (ids.map fun _ => ⟨.storageError, 0, "group confirmation batch affected rows mismatch"⟩, t)
      else (assignChanged changed ids, t.execute st)

def confirmEach (now : ℕ) : List (ℕ × ℕ) → Table → List MutationResult × Table
  | [], t => ([], t)
  | id :: ids, t =>
    let (result, t) := confirmGroupMessageDeliveryDirect now id t
    let (results, t) := confirmEach now ids t
    (result :: results, t)

/-! ## Claims -/

/-- `GroupDeliveryWorkRecord`: a delivery and its message. -/
structure Work where
  message : GroupMessageRecord
  delivery : Delivery

/-- `ListGroupDeliveryWorkResult`. -/
structure WorkResult where
  status : Status
  records : List Work
  message : String

def Work.built (w : Work) : Bool :=
  1 ≤ w.delivery.deliveryStatus && w.delivery.deliveryStatus ≤ 3 && w.delivery.messageId ≠ 0 &&
    w.delivery.groupId ≠ 0 && w.delivery.recipientUserId ≠ 0 &&
    w.message.messageId = w.delivery.messageId && w.message.message.groupId = w.delivery.groupId &&
    w.message.message.fromUserId ≠ 0 && w.message.membershipEpoch ≠ 0 &&
    w.message.memberVersion ≠ 0

/-- The two operations that claim: pending rows, of one message if it is not zero, or the deferred
rows of one recipient. -/
inductive Claim where
  | pending (messageId : ℕ)
  | recipient (userId : ℕ)

namespace Claim

def status : Claim → ℕ
  | pending _ => kPending
  | recipient _ => kDeferredOffline

def name : Claim → String
  | pending _ => "group delivery claim"
  | recipient _ => "recipient group delivery claim"

def done : Claim → String
  | pending _ => "group deliveries claimed"
  | recipient _ => "recipient deferred group deliveries claimed"

def selects (now : ℕ) (c : Claim) (r : Delivery) : Bool :=
  r.deliveryStatus = c.status && r.nextRetryAt ≤ now && leaseFree now r &&
    match c with
    | pending messageId => messageId = 0 || r.messageId = messageId
    | recipient userId => r.recipientUserId = userId

def accepts (c : Claim) (w : Work) : Bool :=
  w.built &&
    match c with
    | pending _ => true
    | recipient userId =>
      w.delivery.recipientUserId = userId && w.delivery.deliveryStatus = kDeferredOffline

def updates (now : ℕ) (c : Claim) (id : ℕ × ℕ) (r : Delivery) : Bool :=
  r.key = id && r.deliveryStatus = c.status &&
    match c with
    | pending _ => true
    | recipient _ => leaseFree now r

end Claim

structure ClaimRequest where
  claim : Claim
  leaseOwner : Bytes
  leaseToken : Bytes
  limit : ℕ
  leaseMs : ℕ

def ClaimRequest.valid (q : ClaimRequest) : Bool :=
  !(q.leaseOwner = [] || q.leaseToken = [] || 128 < q.leaseOwner.length ||
    128 < q.leaseToken.length || q.limit = 0 || 256 < q.limit || q.leaseMs < 100 ||
    60000 < q.leaseMs) &&
    match q.claim with
    | .pending _ => true
    | .recipient userId => userId ≠ 0

def ClaimRequest.lease (q : ClaimRequest) (now : ℕ) (r : Delivery) : Delivery :=
  { r with
    leaseOwner := some q.leaseOwner
    leaseToken := some q.leaseToken
    leaseUntil := some (now + q.leaseMs)
    attemptCount := r.attemptCount + 1 }

def ClaimRequest.record (q : ClaimRequest) (w : Work) : Work :=
  { w with
    delivery := { w.delivery with
      attemptCount := w.delivery.attemptCount + 1
      leaseOwner := some q.leaseOwner
      leaseToken := some q.leaseToken } }

/-- The rows of a `SELECT ... FOR UPDATE SKIP LOCKED`: some of those that meet the condition, in the
order of their keys. -/
structure Selects (q : ClaimRequest) (now : ℕ) (messages : List GroupMessageRecord) (t : Table)
    (work : List Work) : Prop where
  sorted : work.Pairwise fun v w => toLex v.delivery.key < toLex w.delivery.key
  length : work.length ≤ q.limit
  rows : ∀ w ∈ work, w.delivery ∈ t.rows ∧ q.claim.selects now w.delivery = true
  joined : ∀ w ∈ work, w.message ∈ messages ∧ w.message.messageId = w.delivery.messageId

def leaseStatement (q : ClaimRequest) (now : ℕ) (id : ℕ × ℕ) : Statement key :=
  statement now (q.claim.updates now id) (q.lease now) fun _ => rfl

def leaseBatchStatement (q : ClaimRequest) (now : ℕ) (ids : List (ℕ × ℕ)) : Statement key :=
  statement now (fun r => r.deliveryStatus = q.claim.status && ids.any (· = r.key)) (q.lease now) fun _ => rfl

def claimStep (batch : Bool) (q : ClaimRequest) (now : ℕ) (work : List Work × Table) (w : Work) :
    Except WorkResult (List Work × Table) :=
  if !q.claim.accepts w then
    .error ⟨.invalidRecord, [], q.claim.name ++ " returned invalid row"⟩
  else if batch then .ok (work.1 ++ [q.record w], work.2)
  else if work.2.affected (leaseStatement q now w.delivery.key) ≠ 1 then
    .error ⟨.storageError, [], q.claim.name ++ " update failed: "⟩
  else .ok (work.1 ++ [q.record w], work.2.execute (leaseStatement q now w.delivery.key))

/-- `ClaimGroupMessageDeliveries` and `ClaimGroupMessageDeliveriesForRecipient` on the rows that
their `SELECT` returned. -/
def claimGroupMessageDeliveries (batch : Bool) (q : ClaimRequest) (now : ℕ) (selected : List Work)
    (t : Table) : WorkResult × Table :=
  if !q.valid then
    (⟨.invalidArgument, [], "invalid " ++ q.claim.name ++ " arguments"⟩, t)
  else match selected.foldlM (claimStep batch q now) ([], t) with
    | .error result => (result, t)
    | .ok (records, t') =>
      let st := leaseBatchStatement q now (records.map (·.delivery.key))
      if !batch || records = [] then (⟨.succeeded, records, q.claim.done⟩, t')
      else if 256 < records.length ∨ t'.affected st ≠ records.length then
        (⟨.storageError, [], q.claim.name ++ " batch update failed: "⟩, t)
      else (⟨.succeeded, records, q.claim.done⟩, t'.execute st)

end Delivery

end TinyImx.Message
