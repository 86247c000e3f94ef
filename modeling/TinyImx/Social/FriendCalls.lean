import TinyImx.Lib.Run
import TinyImx.Social.FriendRequests

/-!
# Calls of the friend request repository

A call goes through the statements of its transaction; other calls take steps between any two of
them.  A statement that ends in `FOR UPDATE` waits until no other call holds the row.  A transaction's
writes are its own until the commit, and its locks last as long.  Any statement may fail, and a commit
may take effect and lose its reply.
-/

namespace TinyImx.Social

open TinyImx.Local (Bytes)

structure Db where
  users : ℕ → Option ℕ
  relations : ℕ → ℕ → Option ℕ
  requests : ℕ → Option RequestRow
  /-- The next value of `AUTO_INCREMENT`. -/
  nextRequest : ℕ

def Db.Direction (db : Db) (source target : ℕ) : Option (ℕ × RequestRow) → Prop
  | none => ∀ id row, db.requests id = some row →
    ¬ (row.fromUserId = source ∧ row.toUserId = target)
  | some (id, row) => db.requests id = some row ∧ row.fromUserId = source ∧ row.toUserId = target

inductive Request where
  | create (source target : ℕ) (message : Bytes)
  | accept (id handler : ℕ)
  | reject (id handler : ℕ)

inductive Result where
  | create (result : CreateResult)
  | accept (result : AcceptResult)
  | reject (result : RejectResult)

inductive Phase where
  | createUsers
  | createRelations
  | createRequests
  /-- The row `id` is to be opened again, or is inserted; the rows of both directions are locked. -/
  | createCommit (id : ℕ) (same reverse : Option (ℕ × RequestRow))
  | acceptPreview
  | acceptUsers (requester receiver : ℕ)
  | acceptRequest (requester receiver requesterStatus receiverStatus : ℕ)
  | acceptRelations (requester receiver requesterStatus receiverStatus requestStatus : ℕ)
  | acceptReverse (requester receiver : ℕ)
  | acceptCommit (requester receiver : ℕ) (reverse : Option (ℕ × RequestRow))
  | rejectRequest
  | rejectCommit (requester receiver : ℕ)
  | returned (result : Result)

structure Call where
  request : Request
  phase : Phase

def Call.HoldsUser (u : ℕ) : Call → Prop
  | ⟨.create source target _, .createRelations⟩ | ⟨.create source target _, .createRequests⟩
  | ⟨.create source target _, .createCommit _ _ _⟩ => u = source ∨ u = target
  | ⟨_, .acceptRequest requester receiver _ _⟩ | ⟨_, .acceptRelations requester receiver _ _ _⟩
  | ⟨_, .acceptReverse requester receiver⟩ | ⟨_, .acceptCommit requester receiver _⟩ =>
    u = requester ∨ u = receiver
  | _ => False

def Call.HoldsRequest (id : ℕ) : Call → Prop
  | ⟨_, .createCommit _ same reverse⟩ =>
    (∃ row, same = some (id, row)) ∨ ∃ row, reverse = some (id, row)
  | ⟨.accept id' _, .acceptRelations _ _ _ _ _⟩ | ⟨.accept id' _, .acceptReverse _ _⟩ => id = id'
  | ⟨.accept id' _, .acceptCommit _ _ reverse⟩ => id = id' ∨ ∃ row, reverse = some (id, row)
  | ⟨.reject id' _, .rejectCommit _ _⟩ => id = id'
  | _ => False

structure State where
  db : Db
  calls : ℕ → Option Call

def State.UserFree (s : State) (c u : ℕ) : Prop :=
  ∀ c' call, c' ≠ c → s.calls c' = some call → ¬ call.HoldsUser u

def State.RequestFree (s : State) (c id : ℕ) : Prop :=
  ∀ c' call, c' ≠ c → s.calls c' = some call → ¬ call.HoldsRequest id

def State.FoundFree (s : State) (c : ℕ) (request : Option (ℕ × RequestRow)) : Prop :=
  ∀ id row, request = some (id, row) → s.RequestFree c id

inductive Label where
  | silent
  | effect (call : ℕ) (result : Result)
  | returned (call : ℕ) (result : Result)

def State.initial (users : ℕ → Option ℕ) : State :=
  ⟨⟨users, fun _ _ => none, fun _ => none, 1⟩, fun _ => none⟩

def State.go (s : State) (c : ℕ) (req : Request) (phase : Phase) : State :=
  { s with calls := Function.update s.calls c (some ⟨req, phase⟩) }

def State.decide {α ρ : Type} (s : State) (c : ℕ) (req : Request) (result : ρ → Result)
    (next : α → Phase) : Except ρ α → Label × State
  | .error r => (.returned c (result r), s.go c req (.returned (result r)))
  | .ok a => (.silent, s.go c req (next a))

/-! ## Commits -/

def Db.commitCreate (db : Db) (id source target : ℕ) (message : Bytes) : Db :=
  { db with
    requests := Function.update db.requests id (some ⟨source, target, message, kPending⟩) }

def Db.setStatus (db : Db) (id status : ℕ) : Db :=
  { db with
    requests := Function.update db.requests id
      ((db.requests id).map fun row => { row with requestStatus := status }) }

def Db.addRelations (db : Db) (a b : ℕ) : Db :=
  { db with
    relations := fun x y =>
      if x = a ∧ y = b ∨ x = b ∧ y = a then some kFriend else db.relations x y }

def createdResult (id : ℕ) (same : Option (ℕ × RequestRow)) : CreateResult :=
  if same.isSome then ⟨.reopened, id, "friend request reopened"⟩
  else ⟨.created, id, "friend request created"⟩

def Request.storageError (message : String) (requester receiver : ℕ) : Request → Result
  | .create _ _ _ => .create ⟨.storageError, 0, message⟩
  | .accept id _ => .accept ⟨.storageError, id, requester, receiver, message⟩
  | .reject id _ => .reject ⟨.storageError, id, requester, receiver, message⟩

def Request.arguments : Request → Except Result Phase
  | .create source target message =>
    match Social.createArguments source target message with
    | .error r => .error (.create r)
    | .ok () => .ok .createUsers
  | .accept id handler =>
    match Social.acceptArguments id handler with
    | .error r => .error (.accept r)
    | .ok () => .ok .acceptPreview
  | .reject id handler =>
    match Social.rejectArguments id handler with
    | .error r => .error (.reject r)
    | .ok () => .ok .rejectRequest

def Phase.ended : Phase → Bool
  | .returned _ => true
  | _ => false

inductive Step : State → Label → State → Prop
  | setUser {s : State} {u : ℕ} {status : Option ℕ} :
      Step s .silent { s with db := { s.db with users := Function.update s.db.users u status } }
  | skipId {s : State} :
      Step s .silent { s with db := { s.db with nextRequest := s.db.nextRequest + 1 } }
  | arrive {s : State} {c : ℕ} {req : Request} {phase : Phase} : s.calls c = none →
      req.arguments = .ok phase → Step s .silent (s.go c req phase)
  | refuse {s : State} {c : ℕ} {req : Request} {r : Result} : s.calls c = none →
      req.arguments = .error r → Step s (.returned c r) (s.go c req (.returned r))
  -- A statement or a commit fails, and the transaction is rolled back.
  | fault {s : State} {c : ℕ} {req : Request} {phase : Phase} {message : String}
      {requester receiver : ℕ} {r : Result} : s.calls c = some ⟨req, phase⟩ →
      phase.ended = false → r = req.storageError message requester receiver →
      Step s (.returned c r) (s.go c req (.returned r))
  -- `CreateFriendRequest`
  | createUsers {s : State} {c source target : ℕ} {message : Bytes} {next : Label × State} :
      s.calls c = some ⟨.create source target message, .createUsers⟩ →
      s.UserFree c source → s.UserFree c target →
      next = s.decide c (.create source target message) .create (fun _ => .createRelations)
        (Social.createUsers (s.db.users source) (s.db.users target)) →
      Step s next.1 next.2
  | createRelations {s : State} {c source target : ℕ} {message : Bytes} {next : Label × State} :
      s.calls c = some ⟨.create source target message, .createRelations⟩ →
      next = s.decide c (.create source target message) .create (fun _ => .createRequests)
        (Social.createRelations (s.db.relations source target) (s.db.relations target source)) →
      Step s next.1 next.2
  | createRequests {s : State} {c source target : ℕ} {message : Bytes} {r : CreateResult}
      {same reverse : Option (ℕ × RequestRow)} :
      s.calls c = some ⟨.create source target message, .createRequests⟩ →
      s.db.Direction source target same → s.db.Direction target source reverse →
      s.FoundFree c same → s.FoundFree c reverse →
      Social.createRequests same reverse = .error r →
      Step s (.returned c (.create r)) (s.go c (.create source target message)
        (.returned (.create r)))
  | reopen {s : State} {c source target id : ℕ} {message : Bytes} {row : RequestRow}
      {same reverse : Option (ℕ × RequestRow)} :
      s.calls c = some ⟨.create source target message, .createRequests⟩ →
      s.db.Direction source target same → s.db.Direction target source reverse →
      s.FoundFree c same → s.FoundFree c reverse →
      Social.createRequests same reverse = .ok (some (id, row)) →
      Step s .silent (s.go c (.create source target message) (.createCommit id same reverse))
  | insert {s : State} {c source target : ℕ} {message : Bytes}
      {same reverse : Option (ℕ × RequestRow)} :
      s.calls c = some ⟨.create source target message, .createRequests⟩ →
      s.db.Direction source target same → s.db.Direction target source reverse →
      s.FoundFree c same → s.FoundFree c reverse →
      Social.createRequests same reverse = .ok none →
      Step s .silent { s.go c (.create source target message)
          (.createCommit s.db.nextRequest same reverse) with
        db := { s.db with nextRequest := s.db.nextRequest + 1 } }
  | createCommit {s : State} {c source target id : ℕ} {message : Bytes}
      {same reverse : Option (ℕ × RequestRow)} {r : Result} :
      s.calls c = some ⟨.create source target message, .createCommit id same reverse⟩ →
      r = .create (createdResult id same) ∨
        (∃ error, r = (Request.create source target message).storageError error 0 0) →
      Step s (.effect c r) { s.go c (.create source target message) (.returned r) with
        db := s.db.commitCreate id source target message }
  -- `AcceptFriendRequest`
  | acceptPreview {s : State} {c id handler : ℕ} {next : Label × State} :
      s.calls c = some ⟨.accept id handler, .acceptPreview⟩ →
      next = s.decide c (.accept id handler) .accept (fun ids => .acceptUsers ids.1 ids.2)
        (Social.acceptPreview id handler (s.db.requests id)) →
      Step s next.1 next.2
  | acceptUsers {s : State} {c id handler requester receiver : ℕ} {next : Label × State} :
      s.calls c = some ⟨.accept id handler, .acceptUsers requester receiver⟩ →
      s.UserFree c requester → s.UserFree c receiver →
      next = s.decide c (.accept id handler) .accept
        (fun statuses => .acceptRequest requester receiver statuses.1 statuses.2)
        (Social.acceptUsers id requester receiver (s.db.users requester) (s.db.users receiver)) →
      Step s next.1 next.2
  | acceptRequest {s : State} {c id handler requester receiver requesterStatus receiverStatus : ℕ}
      {next : Label × State} :
      s.calls c = some ⟨.accept id handler,
        .acceptRequest requester receiver requesterStatus receiverStatus⟩ →
      s.RequestFree c id →
      next = s.decide c (.accept id handler) .accept
        (fun status => .acceptRelations requester receiver requesterStatus receiverStatus status)
        (Social.acceptRequest id handler requester receiver (s.db.requests id)) →
      Step s next.1 next.2
  | acceptRelations {s : State} {c id handler requester receiver requesterStatus receiverStatus
      requestStatus : ℕ} {next : Label × State} :
      s.calls c = some ⟨.accept id handler,
        .acceptRelations requester receiver requesterStatus receiverStatus requestStatus⟩ →
      next = s.decide c (.accept id handler) .accept (fun _ => .acceptReverse requester receiver)
        (Social.acceptRelations id requester receiver requestStatus
          (s.db.relations requester receiver) (s.db.relations receiver requester)
          requesterStatus receiverStatus) →
      Step s next.1 next.2
  | acceptReverse {s : State} {c id handler requester receiver : ℕ}
      {reverse : Option (ℕ × RequestRow)} {next : Label × State} :
      s.calls c = some ⟨.accept id handler, .acceptReverse requester receiver⟩ →
      s.db.Direction receiver requester reverse → s.FoundFree c reverse →
      next = s.decide c (.accept id handler) .accept
        (fun _ => .acceptCommit requester receiver reverse)
        (Social.acceptReverse id requester receiver reverse) →
      Step s next.1 next.2
  -- The inserts and the update affect as many rows as they are checked to.
  | acceptCommit {s : State} {c id handler requester receiver : ℕ} {row : RequestRow}
      {reverse : Option (ℕ × RequestRow)} {r : Result} :
      s.calls c = some ⟨.accept id handler, .acceptCommit requester receiver reverse⟩ →
      s.db.relations requester receiver = none → s.db.relations receiver requester = none →
      s.db.requests id = some row → row.toUserId = handler → row.requestStatus = kPending →
      r = .accept ⟨.accepted, id, requester, receiver, "friend request accepted"⟩ ∨
        (∃ error, r = (Request.accept id handler).storageError error requester receiver) →
      Step s (.effect c r) { s.go c (.accept id handler) (.returned r) with
        db := (s.db.addRelations requester receiver).setStatus id kAccepted }
  -- `RejectFriendRequest`
  | rejectRequest {s : State} {c id handler : ℕ} {next : Label × State} :
      s.calls c = some ⟨.reject id handler, .rejectRequest⟩ → s.RequestFree c id →
      next = s.decide c (.reject id handler) .reject (fun ids => .rejectCommit ids.1 ids.2)
        (Social.rejectRequest id handler (s.db.requests id)) →
      Step s next.1 next.2
  | rejectCommit {s : State} {c id handler requester receiver : ℕ} {row : RequestRow} {r : Result} :
      s.calls c = some ⟨.reject id handler, .rejectCommit requester receiver⟩ →
      s.db.requests id = some row → row.toUserId = handler → row.requestStatus = kPending →
      r = .reject ⟨.rejected, id, requester, receiver, "friend request rejected"⟩ ∨
        (∃ error, r = (Request.reject id handler).storageError error requester receiver) →
      Step s (.effect c r) { s.go c (.reject id handler) (.returned r) with
        db := s.db.setStatus id kRejected }

end TinyImx.Social
