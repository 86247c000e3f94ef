import TinyImx.Lib.KeyedTable
import TinyImx.Local.Types
import Mathlib.Data.List.Dedup

/-!
# Receiver confirmations

A receiver confirms a private message by `ConfirmReceiver` of the application service, which has
three routes to the table: a guarded `UPDATE` where the owned-update switch is on, then a lookup and
a decision, then an `UPDATE` of a pending row.  `ExecuteReceiverConfirmationBatch` confirms many
requests by one locking read and one `UPDATE`, and a single request by the guarded `UPDATE`.
-/

namespace TinyImx.Message

open TinyImx.Local (Bytes Status MutationResult)

/-- A row of `im_private_messages`. -/
structure PrivateRow where
  messageId : ℕ
  clientMessageId : Option Bytes
  fromUserId : ℕ
  toUserId : ℕ
  messageType : ℕ
  content : Bytes
  deliveryStatus : ℕ
  createdAt : ℕ
  deliveredAt : Option ℕ
  readAt : Option ℕ
  deriving DecidableEq

namespace PrivateRow

def kPending : ℕ := 0
def kReceiverConfirmed : ℕ := 1
def kRead : ℕ := 2
def kFailed : ℕ := 3

abbrev Table := KeyedTable messageId

/-- `BuildMessagesFromResult` accepts the row, and so does the expression of the locking read. -/
def built (r : PrivateRow) : Bool :=
  r.messageId ≠ 0 && r.fromUserId ≠ 0 && r.toUserId ≠ 0 && 1 ≤ r.messageType &&
    r.messageType ≤ 3 && r.deliveryStatus ≤ kFailed

end PrivateRow

namespace Confirm

open PrivateRow (Table kPending kReceiverConfirmed kRead kFailed)

/-- `ReceiverConfirmationInput`. -/
structure Input where
  messageId : ℕ
  receiverUserId : ℕ

/-- `MessageRepositoryGetResult`, where `record` is there when a row was found. -/
structure Lookup where
  status : Status
  record : Option PrivateRow
  message : String

def getPrivateMessage (id : ℕ) (t : Table) : Lookup :=
  match t.rows.find? (·.messageId = id) with
  | none => ⟨.succeeded, none, "private message not found"⟩
  | some r =>
    if r.built then ⟨.succeeded, some r, "private message found"⟩
    else ⟨.invalidRecord, none, "message repository build failed: invalid record data"⟩

/-- `ReceiverConfirmationDecision`; without a result the row is to be changed. -/
def receiverConfirmationDecision (lookup : Lookup) (receiver : ℕ) : Option MutationResult :=
  if lookup.status ≠ .succeeded then some ⟨lookup.status, 0, lookup.message⟩
  else match lookup.record with
    | none => some ⟨.notFound, 0, "private message not found"⟩
    | some r =>
      if r.toUserId ≠ receiver then
        some ⟨.permissionDenied, 0, "receiver does not own private message"⟩
      else if r.deliveryStatus = kPending then none
      else if r.deliveryStatus = kReceiverConfirmed ∨ r.deliveryStatus = kRead then
        some ⟨.succeeded, 0, "receiver confirmation already durable"⟩
      else if r.deliveryStatus = kFailed then
        some ⟨.failedPrecondition, 0, "failed message cannot be receiver-confirmed"⟩
      else some ⟨.invalidRecord, 0, "message repository returned invalid delivery status"⟩

def confirm (now : ℕ) (r : PrivateRow) : PrivateRow :=
  { r with deliveryStatus := kReceiverConfirmed, deliveredAt := some now }

def markStatement (now : ℕ) (ids : List ℕ) : Statement PrivateRow.messageId where
  condition r := ids.any (· = r.messageId) && r.deliveryStatus = kPending
  set := confirm now
  keeps _ := rfl

def ownedStatement (now : ℕ) (input : Input) : Statement PrivateRow.messageId where
  condition r := r.messageId = input.messageId && r.toUserId = input.receiverUserId &&
    r.deliveryStatus = kPending && 0 < r.fromUserId && 1 ≤ r.messageType && r.messageType ≤ 3
  set := confirm now
  keeps _ := rfl

def markReceiverConfirmed (now id : ℕ) (t : Table) : MutationResult × Table :=
  (⟨.succeeded, t.affected (markStatement now [id]), "private messages marked receiver confirmed"⟩,
    t.execute (markStatement now [id]))

/-- `TryConfirmReceiverOwnedPendingDirect`; `fails` says that the statement fails.  Without a result
nothing was changed. -/
def tryConfirmReceiverOwnedPendingDirect (fails : Bool) (now : ℕ) (input : Input) (t : Table) :
    Option MutationResult × Table :=
  if input.messageId = 0 ∨ input.receiverUserId = 0 then
    (some ⟨.invalidArgument, 0, "invalid owned receiver confirmation identity"⟩, t)
  else if fails then (some ⟨.storageError, 0, "owned receiver confirmation failed: "⟩, t)
  else match t.affected (ownedStatement now input) with
    | 0 => (none, t.execute (ownedStatement now input))
    | 1 => (some ⟨.succeeded, 1, "private message receiver confirmation durable"⟩,
        t.execute (ownedStatement now input))
    | _ => (some ⟨.storageError, 0, "owned receiver confirmation unexpected affected rows"⟩,
        t.execute (ownedStatement now input))

def lookupAndConfirm (now : ℕ) (input : Input) (t : Table) : MutationResult × Table :=
  match receiverConfirmationDecision (getPrivateMessage input.messageId t) input.receiverUserId with
  | some decision => (decision, t)
  | none => markReceiverConfirmed now input.messageId t

/-- `MessageApplicationService::ConfirmReceiver` without coalescing; `owned` is the owned-update
switch. -/
def confirmReceiver (owned : Bool) (now : ℕ) (input : Input) (t : Table) : MutationResult × Table :=
  if input.messageId = 0 ∨ input.receiverUserId = 0 then
    (⟨.invalidArgument, 0, "invalid ConfirmReceiver application request"⟩, t)
  else if owned then
    match tryConfirmReceiverOwnedPendingDirect false now input t with
    | (some fast, t) => (fast, t)
    | (none, t) => lookupAndConfirm now input t
  else lookupAndConfirm now input t

def confirmEach (owned : Bool) (now : ℕ) : List Input → Table → List MutationResult × Table
  | [], t => ([], t)
  | input :: inputs, t =>
    let (result, t) := confirmReceiver owned now input t
    let (results, t) := confirmEach owned now inputs t
    (result :: results, t)

/-! ## The batch -/

/-- The lookup that the locking read of the batch gives: rows that are not well formed are found, and
are not accepted. -/
def lockedLookup (id : ℕ) (t : Table) : Lookup :=
  match t.rows.find? (·.messageId = id) with
  | none => ⟨.succeeded, none, ""⟩
  | some r =>
    if r.built then ⟨.succeeded, some r, "private message found"⟩
    else ⟨.invalidRecord, some r, "invalid private message record"⟩

inductive CommitReply where
  | done
  | lost (applied : Bool)

structure Faults where
  updateFails : Bool := false
  commit : CommitReply := .done

def failure : MutationResult :=
  ⟨.storageError, 0, "receiver confirmation batch transaction failed"⟩

/-- The requests that need the row to change, before the `UPDATE`: an id counts for its first
request. -/
inductive Outcome where
  | decided (decision : MutationResult)
  | mutation (affectedRows : ℕ)

/-- The loop over the requests, where `pending` are the ids of earlier mutations. -/
def decideEach (t : Table) : List ℕ → List Input → List Outcome
  | _, [] => []
  | pending, input :: inputs =>
    match receiverConfirmationDecision (lockedLookup input.messageId t) input.receiverUserId with
    | some decision => .decided decision :: decideEach t pending inputs
    | none =>
      .mutation (if pending.any (· = input.messageId) then 0 else 1) ::
        decideEach t (input.messageId :: pending) inputs

def pendingIds (t : Table) (inputs : List Input) : List ℕ :=
  ((inputs.filter fun input => (receiverConfirmationDecision (lockedLookup input.messageId t)
    input.receiverUserId).isNone).map Input.messageId).dedup

def Outcome.result (mutation : ℕ → MutationResult) : Outcome → MutationResult
  | .decided decision => decision
  | .mutation affectedRows => mutation affectedRows

def durable (affectedRows : ℕ) : MutationResult :=
  ⟨.succeeded, affectedRows, "private message receiver confirmation durable"⟩

def executeReceiverConfirmationBatch (f : Faults) (now : ℕ) (inputs : List Input) (t : Table) :
    List MutationResult × Table :=
  match inputs with
  | [] => ([], t)
  | [input] =>
    match tryConfirmReceiverOwnedPendingDirect f.updateFails now input t with
    | (some direct, t) => ([direct], t)
    | (none, t) =>
      let (result, t) := lookupAndConfirm now input t
      ([result], t)
  | inputs =>
    if 64 < inputs.length ∨ inputs.any (fun input => input.messageId = 0 || input.receiverUserId = 0)
    then (inputs.map fun _ => failure, t)
    else
      let outcomes := decideEach t [] inputs
      let pending := pendingIds t inputs
      if pending = [] then (outcomes.map (Outcome.result durable), t)
      else if f.updateFails ∨ t.affected (markStatement now pending) ≠ pending.length then
        (outcomes.map (Outcome.result fun _ => failure), t)
      else match f.commit with
        | .done => (outcomes.map (Outcome.result durable), t.execute (markStatement now pending))
        | .lost applied => (outcomes.map (Outcome.result fun _ => failure),
            if applied then t.execute (markStatement now pending) else t)

end Confirm

end TinyImx.Message
