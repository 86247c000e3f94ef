import TinyImx.Lib.Kv
import TinyImx.Local.Types

/-!
# The rows of a group

The tables `im_groups`, `im_group_members` and `im_group_membership_history`, kept by group: every
statement of `GroupRepository` names one group, so the rows of a group are one value.  A statement
fails when the environment says so, and returns the number of the rows it changed otherwise.

Parsing a row fails only where its own checks do; the numbers of an enumeration are its values.
-/

namespace TinyImx.Group

open TinyImx.Local (Bytes)

/-- `GroupApplicationStatus`, the failures. -/
inductive Status where
  | invalidArgument | notFound | permissionDenied | failedPrecondition | alreadyExists
  | resourceExhausted | aborted | invalidRecord | storageError
  deriving DecidableEq

structure Failure where
  status : Status
  message : String

inductive GroupStatus where
  | active | disbanded
  deriving DecidableEq

inductive JoinPolicy where
  | inviteOnly | openJoin
  deriving DecidableEq

inductive Role where
  | owner | admin | member
  deriving DecidableEq

inductive MemberStatus where
  | active | left | kicked
  deriving DecidableEq

def GroupStatus.code : GroupStatus → ℕ
  | .active => 1
  | .disbanded => 2

def JoinPolicy.code : JoinPolicy → ℕ
  | .inviteOnly => 1
  | .openJoin => 2

def Role.code : Role → ℕ
  | .owner => 1
  | .admin => 2
  | .member => 3

def MemberStatus.code : MemberStatus → ℕ
  | .active => 1
  | .left => 2
  | .kicked => 3

/-- A row of `im_groups`. -/
structure GroupRow where
  name : Bytes
  description : Bytes
  avatarUrl : Bytes
  ownerUserId : ℕ
  status : GroupStatus
  joinPolicy : JoinPolicy
  maxMembers : ℕ
  version : ℕ
  memberVersion : ℕ
  createdAt : ℕ
  updatedAt : ℕ
  disbandedAt : Option ℕ
  disbandedBy : Option ℕ

/-- A row of `im_group_members`. -/
structure MemberRow where
  role : Role
  status : MemberStatus
  membershipEpoch : ℕ
  mutedUntil : Option Bytes
  joinedAt : ℕ
  leftAt : Option ℕ
  updatedAt : ℕ

/-- A row of `im_group_membership_history`. -/
structure HistoryRow where
  roleAtJoin : Role
  joinedAt : ℕ
  endedAt : Option ℕ
  endReason : Option ℕ
  endedBy : Option ℕ

/-- The rows of one group: its own, its members by user, and its history by user and epoch. -/
structure Rows where
  group : GroupRow
  members : AList fun _ : ℕ => MemberRow
  history : AList fun _ : ℕ × ℕ => HistoryRow

def next (n : ℕ) : ℕ := (n + 1) % 2 ^ 64

/-! ## `GroupPermissionPolicy` -/

def canUpdateMetadata (actor : Role) : Bool := actor = .owner || actor = .admin

def canUpdateJoinPolicy (actor : Role) : Bool := actor = .owner

def canDisband (actor : Role) : Bool := actor = .owner

def canInvite (actor : Role) : Bool := actor = .owner || actor = .admin

def canKick (actor target : Role) : Bool :=
  if target = .owner then false
  else if actor = .owner then true
  else actor = .admin && target = .member

def canSetRole (actor target : Role) : Bool := actor = .owner && target ≠ .owner

def canMute (actor target : Role) : Bool :=
  if target = .owner then false
  else if actor = .owner then true
  else actor = .admin && target = .member

def canTransferOwnership (actor target : Role) : Bool := actor = .owner && target ≠ .owner

def canLeave (actor : Role) : Bool := actor ≠ .owner

/-! ## Statements -/

inductive Statement where
  | userExists | findActor | findTarget | countMembers
  | insertGroup | insertOwner | member | history | inactive | closeHistory
  | role | oldOwner | newOwner | mute | versions | owner | update | disband
  | reloadGroup | reloadMember
  | references (of : Statement)

/-- What a transaction cannot decide: which statements fail, the users there are, and the time. -/
structure Env where
  fault : Statement → Option String
  users : ℕ → Bool
  now : ℕ

def require (value : Bool) (status : Status) (text : String) : Except Failure Unit :=
  if value then .ok () else .error ⟨status, text⟩

variable {α : Type}

def Env.execute (e : Env) (statement : Statement) (text : String) (value : α) : Except Failure α :=
  match e.fault statement with
  | some error => .error ⟨.storageError, text ++ error⟩
  | none => .ok value

/-- `ReferencesExist`, for users; the group of a transaction exists in it. -/
def Env.references (e : Env) (statement : Statement) (users : List ℕ) : Except Failure Unit :=
  require ((e.fault (.references statement)).isNone && users.all e.users) .storageError
    "logical reference missing or storage unavailable"

def GroupRow.valid (group : GroupRow) : Bool :=
  group.ownerUserId ≠ 0 && group.name ≠ [] && 2 ≤ group.maxMembers && group.maxMembers ≤ 5000 &&
    group.version ≠ 0 && group.memberVersion ≠ 0

def parseGroup (group : GroupRow) : Except Failure Unit :=
  require group.valid .invalidRecord "group row violates domain invariants"

def findGroup (e : Env) (statement : Statement) (r : Rows) : Except Failure GroupRow := do
  e.execute statement "FindGroupByIdOnConnection query failed: " ()
  parseGroup r.group
  pure r.group

def findMember (e : Env) (statement : Statement) (user : ℕ) (r : Rows) :
    Except Failure (Option MemberRow) := do
  require (user ≠ 0) .invalidArgument "invalid FindMemberOnConnection arguments"
  e.execute statement "FindMemberOnConnection query failed: " ()
  require (r.members.lookup user |>.all fun m => m.membershipEpoch ≠ 0) .invalidRecord
    "group member row violates domain invariants"
  pure (r.members.lookup user)

def userExists (e : Env) (user : ℕ) : Except Failure Bool := do
  require (user ≠ 0) .invalidArgument "invalid UserExistsOnConnection arguments"
  e.execute .userExists "UserExistsOnConnection query failed: " (e.users user)

def activeWeight (_ : ℕ) (m : MemberRow) : ℕ := if m.status = .active then 1 else 0

def Rows.activeCount (r : Rows) : ℕ := Kv.tally activeWeight r.members

def countActiveMembers (e : Env) (r : Rows) : Except Failure ℕ :=
  e.execute .countMembers "CountActiveMembersOnConnection query failed: " r.activeCount

def insertMember (e : Env) (user : ℕ) (role : Role) (epoch : ℕ) (r : Rows) :
    Except Failure (ℕ × Rows) := do
  require (user ≠ 0 && epoch ≠ 0) .invalidArgument "invalid InsertMemberOnConnection arguments"
  e.references .member [user]
  require (r.members.lookup user).isNone .storageError "insert group member failed: duplicate key"
  e.execute .member "insert group member failed: " (1, { r with
    members := r.members.insert user ⟨role, .active, epoch, none, e.now, none, e.now⟩ })

def reactivateMember (e : Env) (user epoch : ℕ) (role : Role) (r : Rows) :
    Except Failure (ℕ × Rows) := do
  require (user ≠ 0 && epoch ≠ 0) .invalidArgument "invalid ReactivateMemberOnConnection arguments"
  e.references .member [user]
  e.execute .member "reactivate group member failed: " <|
    match r.members.lookup user with
    | some m =>
      if m.status = .active then (0, r)
      else (1, { r with members := r.members.insert user { m with
        role := role
        status := .active
        membershipEpoch := epoch
        mutedUntil := none
        joinedAt := e.now
        leftAt := none
        updatedAt := e.now } })
    | none => (0, r)

def insertMembershipHistory (e : Env) (user epoch : ℕ) (roleAtJoin : Role) (r : Rows) :
    Except Failure (ℕ × Rows) := do
  require (user ≠ 0 && epoch ≠ 0) .invalidArgument
    "invalid InsertMembershipHistoryOnConnection arguments"
  e.references .history [user]
  require (r.history.lookup (user, epoch)).isNone .storageError
    "insert group membership history failed: duplicate key"
  e.execute .history "insert group membership history failed: " (1, { r with
    history := r.history.insert (user, epoch) ⟨roleAtJoin, e.now, none, none, none⟩ })

def closeMembershipHistory (e : Env) (user epoch endReason endedBy : ℕ) (r : Rows) :
    Except Failure (ℕ × Rows) := do
  require (user ≠ 0 && epoch ≠ 0 && endedBy ≠ 0) .invalidArgument
    "invalid CloseMembershipHistoryOnConnection arguments"
  e.references .closeHistory [endedBy]
  e.execute .closeHistory "close group membership history failed: " <|
    match r.history.lookup (user, epoch) with
    | some h =>
      if h.endedAt = none then (1, { r with history := r.history.insert (user, epoch) { h with
        endedAt := some e.now
        endReason := some endReason
        endedBy := some endedBy } })
      else (0, r)
    | none => (0, r)

def updateMember (e : Env) (statement : Statement) (text : String) (user : ℕ)
    (f : MemberRow → MemberRow) (r : Rows) : Except Failure (ℕ × Rows) :=
  e.execute statement text <|
    match r.members.lookup user with
    | some m =>
      if m.status = .active then
        (1, { r with members := r.members.insert user { f m with updatedAt := e.now } })
      else (0, r)
    | none => (0, r)

def markMemberInactive (e : Env) (user : ℕ) (status : MemberStatus) (r : Rows) :
    Except Failure (ℕ × Rows) := do
  require (user ≠ 0) .invalidArgument "invalid MarkMemberInactiveOnConnection arguments"
  updateMember e .inactive "mark group member inactive failed: " user
    (fun m => { m with status := status, mutedUntil := none, leftAt := some e.now }) r

def updateMemberRole (e : Env) (statement : Statement) (user : ℕ) (role : Role) (r : Rows) :
    Except Failure (ℕ × Rows) := do
  require (user ≠ 0) .invalidArgument "invalid UpdateMemberRoleOnConnection arguments"
  updateMember e statement "update group member role failed: " user
    (fun m => { m with
      role := role
      mutedUntil := if role = .owner then none else m.mutedUntil }) r

def updateMemberMute (e : Env) (user : ℕ) (mutedUntil : Bytes) (r : Rows) :
    Except Failure (ℕ × Rows) := do
  require (user ≠ 0) .invalidArgument "invalid UpdateMemberMuteOnConnection arguments"
  updateMember e .mute "update group member mute failed: " user
    (fun m => { m with mutedUntil := if mutedUntil = [] then none else some mutedUntil }) r

def updateRow (e : Env) (statement : Statement) (text : String) (f : GroupRow → GroupRow)
    (r : Rows) : Except Failure (ℕ × Rows) :=
  e.execute statement text <|
    if r.group.status = .active then (1, { r with group := { f r.group with updatedAt := e.now } })
    else (0, r)

def updateGroupVersions (e : Env) (version memberVersion : ℕ) (r : Rows) :
    Except Failure (ℕ × Rows) := do
  require (version ≠ 0 && memberVersion ≠ 0) .invalidArgument
    "invalid UpdateGroupVersionsOnConnection arguments"
  updateRow e .versions "update group membership versions failed: "
    (fun g => { g with version, memberVersion }) r

def updateGroupOwnerAndVersions (e : Env) (owner version memberVersion : ℕ) (r : Rows) :
    Except Failure (ℕ × Rows) := do
  require (owner ≠ 0 && version ≠ 0 && memberVersion ≠ 0) .invalidArgument
    "invalid UpdateGroupOwnerAndVersionsOnConnection arguments"
  e.references .owner [owner]
  updateRow e .owner "transfer group ownership failed: "
    (fun g => { g with ownerUserId := owner, version, memberVersion }) r

def updateGroupRow (e : Env) (name description avatarUrl : Option Bytes)
    (joinPolicy : Option JoinPolicy) (version : ℕ) (r : Rows) : Except Failure (ℕ × Rows) := do
  require (version ≠ 0 &&
      (name.isSome || description.isSome || avatarUrl.isSome || joinPolicy.isSome))
    .invalidArgument "invalid UpdateGroupOnConnection arguments"
  updateRow e .update "update group failed: "
    (fun g => { g with
      name := name.getD g.name
      description := description.getD g.description
      avatarUrl := avatarUrl.getD g.avatarUrl
      joinPolicy := joinPolicy.getD g.joinPolicy
      version }) r

def disbandGroupRow (e : Env) (actor version memberVersion : ℕ) (r : Rows) :
    Except Failure (ℕ × Rows) := do
  require (actor ≠ 0 && version ≠ 0 && memberVersion ≠ 0) .invalidArgument
    "invalid DisbandGroupOnConnection arguments"
  e.references .disband [actor]
  updateRow e .disband "disband group failed: "
    (fun g => { g with
      status := .disbanded
      version
      memberVersion
      disbandedAt := some e.now
      disbandedBy := some actor }) r

end TinyImx.Group
