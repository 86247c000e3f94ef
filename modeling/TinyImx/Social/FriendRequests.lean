import TinyImx.Local.Types

/-!
# Friend requests

The rows of `im_friend_requests` and `im_user_relations`, and what `CreateFriendRequest`,
`AcceptFriendRequest` and `RejectFriendRequest` decide from the rows they have read.  A decision is
an error when the call returns with it, and otherwise what the call goes on with.
-/

namespace TinyImx.Social

open TinyImx.Local (Bytes)

/-! ## Rows -/

def kPending : ℕ := 0
def kAccepted : ℕ := 1
def kRejected : ℕ := 2
def kCancelled : ℕ := 3

def kFriend : ℕ := 1
def kBlocked : ℕ := 2

def kActiveUserStatus : ℕ := 1
def kMaxRequestMessageBytes : ℕ := 255

/-- A row of `im_friend_requests`. -/
structure RequestRow where
  fromUserId : ℕ
  toUserId : ℕ
  requestMessage : Bytes
  requestStatus : ℕ

/-! ## Results -/

inductive CreateStatus where
  | created | reopened | alreadyPending | reversePending | alreadyFriend | blockedBySelf
  | blockedByPeer | sourceUserNotFound | targetUserNotFound | sourceUserDisabled
  | targetUserDisabled | relationDataInconsistent | requestDataInconsistent | invalidArgument
  | storageError

structure CreateResult where
  status : CreateStatus
  requestId : ℕ
  message : String

inductive AcceptStatus where
  | accepted | alreadyAccepted | requestNotFound | notRequestReceiver | requestNotPending
  | blockedBySelf | blockedByPeer | requesterNotFound | receiverNotFound | requesterDisabled
  | receiverDisabled | relationDataInconsistent | requestDataInconsistent | invalidArgument
  | storageError

structure AcceptResult where
  status : AcceptStatus
  requestId : ℕ
  requesterUserId : ℕ
  receiverUserId : ℕ
  message : String

inductive RejectStatus where
  | rejected | alreadyRejected | alreadyAccepted | requestCancelled | requestNotFound
  | notRequestReceiver | requestDataInconsistent | invalidArgument | storageError

structure RejectResult where
  status : RejectStatus
  requestId : ℕ
  requesterUserId : ℕ
  receiverUserId : ℕ
  message : String

/-! ## `CreateFriendRequest` -/

def createArguments (source target : ℕ) (message : Bytes) : Except CreateResult Unit :=
  if source = 0 ∨ target = 0 then .error ⟨.invalidArgument, 0, "invalid user id"⟩
  else if source = target then
    .error ⟨.invalidArgument, 0, "cannot send friend request to self"⟩
  else if message.length > kMaxRequestMessageBytes then
    .error ⟨.invalidArgument, 0, "friend request message is too long"⟩
  else .ok ()

def createUsers (source target : Option ℕ) : Except CreateResult Unit :=
  match source, target with
  | none, _ => .error ⟨.sourceUserNotFound, 0, "source user not found"⟩
  | some _, none => .error ⟨.targetUserNotFound, 0, "target user not found"⟩
  | some source, some target =>
    if source ≠ kActiveUserStatus then .error ⟨.sourceUserDisabled, 0, "source user disabled"⟩
    else if target ≠ kActiveUserStatus then
      .error ⟨.targetUserDisabled, 0, "target user disabled"⟩
    else .ok ()

def validRelation (relation : Option ℕ) : Bool :=
  relation = none || relation = some kFriend || relation = some kBlocked

def createRelations (self peer : Option ℕ) : Except CreateResult Unit :=
  if !validRelation self || !validRelation peer then
    .error ⟨.storageError, 0,
      "friend request repository create failed: invalid relation status"⟩
  else if self = some kBlocked then
    .error ⟨.blockedBySelf, 0, "target user is blocked by source user"⟩
  else if peer = some kBlocked then
    .error ⟨.blockedByPeer, 0, "source user is blocked by target user"⟩
  else if self = some kFriend ∧ peer = some kFriend then
    .error ⟨.alreadyFriend, 0, "users are already friends"⟩
  else if (self = some kFriend) ≠ (peer = some kFriend) then
    .error ⟨.relationDataInconsistent, 0, "one-way friend relation detected"⟩
  else .ok ()

def statusOf (request : Option (ℕ × RequestRow)) : Option ℕ := request.map (·.2.requestStatus)

def idOf (request : Option (ℕ × RequestRow)) : ℕ := (request.map Prod.fst).getD 0

/-- From the request rows of the two directions: the row to open again, or none to insert one. -/
def createRequests (same reverse : Option (ℕ × RequestRow)) :
    Except CreateResult (Option (ℕ × RequestRow)) :=
  if statusOf same = some kPending ∧ statusOf reverse = some kPending then
    .error ⟨.requestDataInconsistent, 0, "both request directions are pending"⟩
  else if statusOf reverse = some kPending then
    .error ⟨.reversePending, idOf reverse, "target user has already sent a friend request"⟩
  else if statusOf same = some kPending then
    .error ⟨.alreadyPending, idOf same, "friend request is already pending"⟩
  else if statusOf same = some kAccepted ∨ statusOf reverse = some kAccepted then
    .error ⟨.requestDataInconsistent, 0,
      "accepted request exists without complete friend relation"⟩
  else if statusOf same = some kRejected ∨ statusOf same = some kCancelled then .ok same
  else if same.isNone then .ok none
  else .error ⟨.requestDataInconsistent, idOf same, "unsupported friend request state"⟩

/-! ## `AcceptFriendRequest` -/

def acceptArguments (id handler : ℕ) : Except AcceptResult Unit :=
  if id = 0 ∨ handler = 0 then
    .error ⟨.invalidArgument, id, 0, 0, "invalid request id or handler user id"⟩
  else .ok ()

def acceptPreview (id handler : ℕ) : Option RequestRow → Except AcceptResult (ℕ × ℕ)
  | none => .error ⟨.requestNotFound, id, 0, 0, "friend request not found"⟩
  | some row =>
    if row.toUserId ≠ handler then
      .error ⟨.notRequestReceiver, id, row.fromUserId, row.toUserId,
        "current user is not request receiver"⟩
    else .ok (row.fromUserId, row.toUserId)

def acceptUsers (id requester receiver : ℕ) (requesterStatus receiverStatus : Option ℕ) :
    Except AcceptResult (ℕ × ℕ) :=
  match requesterStatus, receiverStatus with
  | none, _ => .error ⟨.requesterNotFound, id, requester, receiver, "requester user not found"⟩
  | some _, none => .error ⟨.receiverNotFound, id, requester, receiver, "receiver user not found"⟩
  | some requesterStatus, some receiverStatus => .ok (requesterStatus, receiverStatus)

def acceptRequest (id handler requester receiver : ℕ) : Option RequestRow → Except AcceptResult ℕ
  | none => .error ⟨.requestNotFound, id, requester, receiver, "friend request no longer exists"⟩
  | some row =>
    if row.fromUserId ≠ requester ∨ row.toUserId ≠ receiver then
      .error ⟨.requestDataInconsistent, id, requester, receiver,
        "friend request direction changed"⟩
    else if row.toUserId ≠ handler then
      .error ⟨.notRequestReceiver, id, requester, receiver,
        "current user is not request receiver"⟩
    else .ok row.requestStatus

def acceptRelations (id requester receiver requestStatus : ℕ)
    (requesterRelation receiverRelation : Option ℕ) (requesterStatus receiverStatus : ℕ) :
    Except AcceptResult Unit :=
  let fail status message : Except AcceptResult Unit :=
    .error ⟨status, id, requester, receiver, message⟩
  if requestStatus = kAccepted then
    if requesterRelation = some kFriend ∧ receiverRelation = some kFriend then
      fail .alreadyAccepted "friend request already accepted"
    else fail .requestDataInconsistent "accepted request has incomplete friend relation"
  else if requestStatus ≠ kPending then fail .requestNotPending "friend request is not pending"
  else if requesterRelation = some kBlocked ∧ receiverRelation = some kFriend ∨
      receiverRelation = some kBlocked ∧ requesterRelation = some kFriend then
    fail .relationDataInconsistent "conflicting friend and blocked relation"
  else if receiverRelation = some kBlocked then
    fail .blockedBySelf "requester is blocked by receiver"
  else if requesterRelation = some kBlocked then
    fail .blockedByPeer "receiver is blocked by requester"
  else if requesterRelation = some kFriend ∧ receiverRelation = some kFriend then
    fail .requestDataInconsistent "pending request exists for existing friends"
  else if (requesterRelation = some kFriend) ≠ (receiverRelation = some kFriend) then
    fail .relationDataInconsistent "one-way friend relation detected"
  else if requesterStatus ≠ kActiveUserStatus then
    fail .requesterDisabled "requester user disabled"
  else if receiverStatus ≠ kActiveUserStatus then fail .receiverDisabled "receiver user disabled"
  else .ok ()

def acceptReverse (id requester receiver : ℕ) (reverse : Option (ℕ × RequestRow)) :
    Except AcceptResult Unit :=
  if statusOf reverse = some kPending ∨ statusOf reverse = some kAccepted then
    .error ⟨.requestDataInconsistent, id, requester, receiver,
      "conflicting reverse friend request"⟩
  else .ok ()

/-! ## `RejectFriendRequest` -/

def rejectArguments (id handler : ℕ) : Except RejectResult Unit :=
  if id = 0 ∨ handler = 0 then
    .error ⟨.invalidArgument, id, 0, 0, "invalid request id or handler user id"⟩
  else .ok ()

def rejectRequest (id handler : ℕ) : Option RequestRow → Except RejectResult (ℕ × ℕ)
  | none => .error ⟨.requestNotFound, id, 0, 0, "friend request not found"⟩
  | some row =>
    let fail status message : Except RejectResult (ℕ × ℕ) :=
      .error ⟨status, id, row.fromUserId, row.toUserId, message⟩
    if row.toUserId ≠ handler then
      fail .notRequestReceiver "current user is not request receiver"
    else if row.requestStatus = kRejected then
      fail .alreadyRejected "friend request already rejected"
    else if row.requestStatus = kAccepted then
      fail .alreadyAccepted "friend request already accepted"
    else if row.requestStatus = kCancelled then
      fail .requestCancelled "friend request already cancelled"
    else if row.requestStatus ≠ kPending then
      fail .requestDataInconsistent "unsupported friend request status"
    else .ok (row.fromUserId, row.toUserId)

end TinyImx.Social
