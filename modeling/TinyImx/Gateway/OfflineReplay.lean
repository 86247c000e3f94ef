import TinyImx.Gateway.ReceiverRetry
import TinyImx.Gateway.RecoveryScheduling
import TinyImx.Lib.Json
import TinyImx.Message.Pages

/-!
# The persistent offline replay

`ExecutePersistentOfflineReplay` reads the pending messages of a user page by page and submits every
one of them to the connection of the user.  With a recovery lease it reads one page, from the cursor
of the lease, and completes the lease with the next cursor.  What the thread meets in between (the
tracker as others leave it, the connection, the session, the clock) is given by `Moment`s and `Turn`s,
one for each row and for each page.
-/

namespace TinyImx.Gateway.OfflineReplay

open TinyImx.Local (Bytes MessageView PendingResult ascii)
open TinyImx.Message (PageResult listPendingAfter pendingValid)
open DeliveryTracker (DeliveryIdentity ReplayRegistration RegisterStatus)
open ReceiverRetry (Options register accepted)

/-! ## The body of a message -/

def getUserIdField (lib : Json.Library) (body : Json) (fieldName : String) : Except Bytes ℕ :=
  match body.find (ascii fieldName) with
  | none => .error (ascii ("missing field: " ++ fieldName))
  | some field =>
    if !field.isNumberUnsigned && !field.isNumberInteger then
      .error (ascii ("invalid user id field: " ++ fieldName))
    else
      match lib.getInt64 field with
      | .error what => .error (ascii what)
      | .ok value =>
        if value ≤ 0 then .error (ascii ("user id must be positive: " ++ fieldName))
        else .ok value.toInt.toNat

def parseCanonicalChatBody (lib : Json.Library) (content : Bytes)
    (expectedFromUserId expectedToUserId : ℕ) : Except Bytes Bytes :=
  match lib.parse content with
  | .error (.parseError what) => .error (ascii "invalid persisted chat json: " ++ what)
  | .error (.outOfRange what) => .error (ascii "invalid persisted chat json: " ++ what)
  | .ok body =>
    if !body.isObject then .error (ascii "persisted chat body must be an object")
    else
      match getUserIdField lib body "from" with
      | .error e => .error e
      | .ok fromUserId =>
        match getUserIdField lib body "to" with
        | .error e => .error e
        | .ok toUserId =>
          if fromUserId ≠ expectedFromUserId ∨ toUserId ≠ expectedToUserId then
            .error (ascii "persisted chat identity mismatch")
          else
            match body.find (ascii "text") with
            | some (.string text) =>
              if text = [] then .error (ascii "persisted chat text must not be empty") else .ok text
            | _ => .error (ascii "missing or invalid persisted chat text")

/-! ## One submission -/

inductive SubmitStatus where
  | submitted
  | connectionUnavailable
  | buildFailed
  | encodeFailed
  | alreadyConfirmed
  | trackerRejected
  | waitingAck
  | windowFull
  deriving DecidableEq

/-- What the thread meets while it handles one row; `wireBytes` is nothing when the packet cannot be
encoded. -/
structure Moment where
  current : Bool
  connected : Bool
  built : Bool
  seq : UInt32
  wireBytes : Option ℕ
  stillConnected : Bool
  tracker : DeliveryTracker.State
  now : ℤ
  reencoded : Bool

structure Turn where
  current : Bool
  rpc : Bool
  currentAfter : Bool

/-- The user, what the repository answers for a cursor and a limit, and what the code depends on. -/
structure Config where
  user : ℕ
  find : ℕ → ℕ → ℕ → PendingResult
  lib : Json.Library
  options : Options

def identity (m : MessageView) : DeliveryIdentity := ⟨.privateMessage, m.messageId, m.toUserId⟩

def Moment.register (t : Moment) (o : Options) (id : DeliveryIdentity) (wireBytes : ℕ) :
    ReplayRegistration × DeliveryTracker.State :=
  ReceiverRetry.register o t.tracker id t.seq wireBytes t.now

/-- `SubmitReceiverChatDelivery`; the result of the scheduling at its end is only logged. -/
def submitReceiverChatDelivery (o : Options) (t : Moment) (id : DeliveryIdentity) : SubmitStatus :=
  if !t.connected then .connectionUnavailable
  else if !t.built then .buildFailed
  else
    match t.wireBytes with
    | none => .encodeFailed
    | some wireBytes =>
      if !t.stillConnected then .connectionUnavailable
      else
        let registration := (t.register o id wireBytes).1
        if registration.status = .waitingAck then .waitingAck
        else if registration.status = .windowFull then .windowFull
        else if registration.reusedAttempt && !t.reencoded then .encodeFailed
        else if registration.status = .alreadyConfirmed then .alreadyConfirmed
        else if !accepted registration.status then .trackerRejected
        else .submitted

/-! ## Pages -/

def kPendingReplayPageSize : ℕ := 100

/-- `MessageRpcClient::ListPendingAfter` on the service; nothing when the call fails. -/
def listPendingAfterRpc (c : Config) (turn : Turn) (after : ℕ) : Option (PageResult MessageView) :=
  let page := listPendingAfter (some c.find) c.user after kPendingReplayPageSize
  if !turn.rpc || page.status ≠ .succeeded || kPendingReplayPageSize < page.messages.length ||
    !pendingValid c.user after page.messages then none
  else some page

inductive Outcome where
  | invalidBody (error : Bytes)
  | submit (status : SubmitStatus)
  deriving DecidableEq

inductive Event where
  | listed (afterMessageId : ℕ)
  | visited (messageId : ℕ) (outcome : Outcome)
  | repaired (messageIds : List ℕ)
  | completed (lastMessageId : ℕ) (hasMore : Bool)

def visit (c : Config) (t : Moment) (m : MessageView) : Outcome :=
  match parseCanonicalChatBody c.lib m.content m.fromUserId m.toUserId with
  | .error e => .invalidBody e
  | .ok _ => .submit (submitReceiverChatDelivery c.options t (identity m))

/-- The loop over the rows of a page, from the row with the number `n` on: the events, and unless it
stopped, the last id and the ids to repair. -/
def visitRows (c : Config) (env : ℕ → Moment) :
    ℕ → List MessageView → ℕ → List ℕ → List Event × Option (ℕ × List ℕ)
  | _, [], last, repair => ([], some (last, repair))
  | n, m :: rest, _, repair =>
    if !(env n).current then ([], none)
    else
      let outcome := visit c (env n) m
      if outcome = .submit .connectionUnavailable then ([.visited m.messageId outcome], none)
      else
        let repair' := if outcome = .submit .alreadyConfirmed then repair ++ [m.messageId] else repair
        let (events, result) := visitRows c env (n + 1) rest m.messageId repair'
        (.visited m.messageId outcome :: events, result)

inductive End where
  | finished
  | stale
  | rpcFailed
  | stuck

/-- What follows the rows of a page: the repair, whose failure is only logged, and with a lease the
completion. -/
def pageEvents (turn : Turn) (recovery : Bool) (last : ℕ) (repair : List ℕ) (hasMore : Bool) :
    List Event :=
  (if repair = [] then [] else [.repaired repair]) ++
    if recovery && turn.currentAfter then [.completed last hasMore] else []

/-- The loop over the pages; `pageIndex` pages and `n` rows were read before.  Nothing when `fuel` runs
out. -/
def replayPages (c : Config) (env : ℕ → Moment) (turns : ℕ → Turn) (recovery : Bool) :
    ℕ → ℕ → ℕ → ℕ → Option (List Event × End)
  | 0, _, _, _ => none
  | fuel + 1, pageIndex, n, after =>
    if recovery && 1 ≤ pageIndex then some ([], .finished)
    else if !(turns pageIndex).current then some ([], .stale)
    else
      match listPendingAfterRpc c (turns pageIndex) after with
      | none => some ([.listed after], .rpcFailed)
      | some page =>
        if page.messages = [] then
          some (.listed after :: if recovery then [.completed 0 false] else [], .finished)
        else
          match visitRows c env n page.messages after [] with
          | (events, none) => some (.listed after :: events, .stale)
          | (events, some (last, repair)) =>
            let events := .listed after :: events ++
              pageEvents (turns pageIndex) recovery last repair page.hasMore
            if !page.hasMore then some (events, .finished)
            else if last ≤ after then some (events, .stuck)
            else
              (replayPages c env turns recovery fuel (pageIndex + 1) (n + page.messages.length)
                last).map fun rest => (events ++ rest.1, rest.2)

/-- `ExecutePersistentOfflineReplay`, with the cursor of the lease if there is one. -/
def executePersistentOfflineReplay (c : Config) (env : ℕ → Moment) (turns : ℕ → Turn)
    (cursor : Option ℕ) (fuel : ℕ) : Option (List Event × End) :=
  if c.user = 0 then some ([], .stale)
  else replayPages c env turns cursor.isSome fuel 0 0 (cursor.getD 0)

/-- What `ConfirmReceiverBatch` checks of its arguments, at the client and at the service. -/
def batchWellFormed (receiverUserId : ℕ) (messageIds : List ℕ) : Bool :=
  receiverUserId ≠ 0 && messageIds ≠ [] && messageIds.length ≤ 100 && messageIds.all (· ≠ 0) &&
    messageIds.Nodup

/-! ## What is said about the events -/

def Event.visitedId : Event → Option ℕ
  | .visited messageId _ => some messageId
  | _ => none

def visitedIds (events : List Event) : List ℕ := events.filterMap Event.visitedId

/-! ## Attempts of the recovery -/

inductive Label where
  | call (l : Recovery.Label)
  /-- a replay of the user visited the rows and completed its lease; `done` says that the lease was
  still the current one -/
  | replayed (epoch cursor : ℕ) (visited : List ℕ) (lastMessageId : ℕ) (hasMore done : Bool)

inductive Step (c : Config) (o : Recovery.Options) : Recovery.State → Label → Recovery.State → Prop
  | call {s s' : Recovery.State} {l : Recovery.Label} : Recovery.Step o s l s' →
      (∀ i last hasMore a, l = .replayComplete i last hasMore → s.replays[i]? = some a →
        a.user ≠ c.user) →
      Step c o s (.call l) s'
  | replayed {s : Recovery.State} {i : ℕ} {a : Recovery.ReplayAttempt} (env : ℕ → Moment)
      (turns : ℕ → Turn) (fuel : ℕ) (events : List Event) (ending : End) (last : ℕ) (hasMore : Bool) :
      s.replays[i]? = some a → a.user = c.user →
      executePersistentOfflineReplay c env turns (some a.cursor) fuel = some (events, ending) →
      .completed last hasMore ∈ events →
      Step c o s
        (.replayed a.epoch a.cursor (visitedIds events) last hasMore
          (a.complete last hasMore s.core).1)
        (s.replayComplete i a last hasMore)

end TinyImx.Gateway.OfflineReplay
