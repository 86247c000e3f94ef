import TinyImx.Group.Rows

/-!
# The ten commands

What the transaction of a group command does between the lock on the group's row and its commit: its
checks in their order, its statements, and the event it hands to the outbox.  A command that fails
anywhere is rolled back, so only its failure is kept.

The checks of a command's own numbers, made before its transaction, are `Request.valid`.
-/

namespace TinyImx.Group

open TinyImx.Local (Bytes ascii decimal)

/-! ## Events -/

inductive Json where
  | num (n : ℕ)
  | str (text : Bytes)

/-- A `DomainEvent` of the group service, with the payload in the order it is filled in. -/
structure Event where
  eventId : Bytes
  eventType : Bytes
  aggregateId : ℕ
  payload : List (String × Json)

def joinIds (parts : List ℕ) : Bytes := parts.flatMap fun n => ascii ":" ++ decimal n

def baseEvent (groupId : ℕ) (group : GroupRow) (eventType : String) (ids : List ℕ) : Event where
  eventId := ascii eventType ++ joinIds ids
  eventType := ascii eventType
  aggregateId := groupId
  payload := [("group_id", .num groupId), ("owner_user_id", .num group.ownerUserId),
    ("status", .num group.status.code), ("join_policy", .num group.joinPolicy.code),
    ("version", .num group.version), ("member_version", .num group.memberVersion)]

def buildGroupEvent (groupId : ℕ) (group : GroupRow) (eventType : String) : Event :=
  baseEvent groupId group eventType [groupId, group.version]

def memberPayload (actor user : ℕ) (member : MemberRow) : List (String × Json) :=
  [("actor_user_id", .num actor), ("target_user_id", .num user), ("role", .num member.role.code),
    ("member_status", .num member.status.code), ("membership_epoch", .num member.membershipEpoch)]

def buildMemberEpochEvent (groupId : ℕ) (group : GroupRow) (user : ℕ) (member : MemberRow)
    (actor : ℕ) (eventType : String) : Event :=
  let event := baseEvent groupId group eventType [groupId, user, member.membershipEpoch]
  { event with payload := event.payload ++ memberPayload actor user member }

def buildMemberVersionEvent (groupId : ℕ) (group : GroupRow) (user : ℕ) (member : MemberRow)
    (actor : ℕ) (eventType : String) : Event :=
  let event := baseEvent groupId group eventType [groupId, user, group.memberVersion]
  { event with payload := event.payload ++ memberPayload actor user member ++
      [("muted_until", .str (member.mutedUntil.getD []))] }

def ownershipTransferred (groupId : ℕ) (group : GroupRow) (user : ℕ) (member : MemberRow)
    (previous : ℕ) : Event :=
  let event := baseEvent groupId group "group.owner_transferred.v1" [groupId, group.memberVersion]
  { event with payload := event.payload ++ [("previous_owner_user_id", .num previous),
      ("new_owner_user_id", .num user), ("membership_epoch", .num member.membershipEpoch)] }

/-! ## Requests -/

inductive Command where
  | createGroup (name description avatarUrl : Bytes) (joinPolicy : JoinPolicy) (maxMembers : ℕ)
  | updateGroup (groupId expectedVersion : ℕ) (name description avatarUrl : Option Bytes)
      (joinPolicy : Option JoinPolicy)
  | disbandGroup (groupId expectedVersion : ℕ)
  | joinGroup (groupId : ℕ)
  | leaveGroup (groupId : ℕ)
  | inviteMember (groupId target : ℕ)
  | kickMember (groupId target : ℕ)
  | setMemberRole (groupId target : ℕ) (role : Role)
  | setMemberMute (groupId target : ℕ) (mutedUntil : Bytes)
  | transferOwnership (groupId target : ℕ)

def Command.groupId : Command → Option ℕ
  | .createGroup _ _ _ _ _ => none
  | .updateGroup g _ _ _ _ _ | .disbandGroup g _ | .joinGroup g | .leaveGroup g
  | .inviteMember g _ | .kickMember g _ | .setMemberRole g _ _ | .setMemberMute g _ _
  | .transferOwnership g _ => some g

structure Request where
  actor : ℕ
  clientOperationId : Bytes
  command : Command

def validNormalizedMuteTimestamp (value : Bytes) : Bool :=
  value = [] || (value.length = 23 && (List.range 23).all fun i =>
    let c := value.getD i 0
    match i with
    | 4 | 7 => c = 45
    | 10 => c = 32
    | 13 | 16 => c = 58
    | 19 => c = 46
    | _ => 48 ≤ c && c ≤ 57)

/-- The checks the repository makes on the numbers of a request; `CreateGroup`, `UpdateGroup` and
`DisbandGroup` make none. -/
def Request.valid (req : Request) : Except Failure Unit :=
  let invalid (value : Bool) (name : String) :=
    require value .invalidArgument ("invalid " ++ name ++ " repository command")
  let identity (g : ℕ) : Bool := req.actor ≠ 0 && g ≠ 0 && req.clientOperationId ≠ []
  let other (g target : ℕ) : Bool := identity g && target ≠ 0 && req.actor ≠ target
  match req.command with
  | .createGroup _ _ _ _ _ | .updateGroup _ _ _ _ _ _ | .disbandGroup _ _ => .ok ()
  | .joinGroup g => invalid (identity g) "JoinGroup"
  | .leaveGroup g => invalid (identity g) "LeaveGroup"
  | .inviteMember g target => invalid (other g target) "InviteMember"
  | .kickMember g target => invalid (other g target) "KickMember"
  | .setMemberRole g target role =>
    invalid (other g target && (role = .admin || role = .member)) "SetMemberRole"
  | .setMemberMute g target mutedUntil =>
    invalid (other g target && validNormalizedMuteTimestamp mutedUntil) "SetMemberMute"
  | .transferOwnership g target => invalid (other g target) "TransferOwnership"

structure Prepared where
  rows : Rows
  event : Event
  /-- `result_membership_epoch`, where it is set. -/
  epoch : Option ℕ

/-! ## Shared steps -/

def durable (text : String) : Except Failure (ℕ × Rows) → Except Failure Rows
  | .ok (n, r) => if n = 1 then .ok r else .error ⟨.storageError, text⟩
  | .error _ => .error ⟨.storageError, text⟩

def affected (text : String) (result : Except Failure (ℕ × Rows)) : Except Failure Rows := do
  let (n, r) ← result
  require (n = 1) .aborted text
  pure r

def reloadMember (e : Env) (user : ℕ) (r : Rows) : Except Failure MemberRow := do
  match ← findMember e .reloadMember user r with
  | some m => pure m
  | none => .error ⟨.invalidRecord, "post-mutation membership verification failed"⟩

/-- `ReloadGroup` and then `ReloadMember`; both are made, and the last failure is kept. -/
def reload (e : Env) (user : ℕ) (r : Rows) : Except Failure (GroupRow × MemberRow) :=
  match findGroup e .reloadGroup r, reloadMember e user r with
  | .ok g, .ok m => .ok (g, m)
  | _, .error f => .error f
  | .error f, .ok _ => .error f

def ensureCapacity (e : Env) (r : Rows) : Except Failure Unit := do
  let count ← countActiveMembers e r
  require (count < r.group.maxMembers) .resourceExhausted "group member capacity reached"

/-- `LockActorAndTarget`: the rows are read in the order of the users. -/
def lockActorAndTarget (e : Env) (actor target : ℕ) (r : Rows) :
    Except Failure (Option MemberRow × Option MemberRow) :=
  if actor ≤ target then do
    let a ← findMember e .findActor actor r
    let t ← findMember e .findTarget target r
    pure (a, t)
  else do
    let t ← findMember e .findTarget target r
    let a ← findMember e .findActor actor r
    pure (a, t)

def activeMember (status : Status) (text : String) : Option MemberRow → Except Failure MemberRow
  | some m => if m.status = .active then .ok m else .error ⟨status, text⟩
  | none => .error ⟨status, text⟩

def requireActive (r : Rows) : Except Failure Unit :=
  require (r.group.status = .active) .failedPrecondition "group is not active"

/-! ## The commands -/

def createGroup (e : Env) (actor groupId : ℕ) (name description avatarUrl : Bytes)
    (joinPolicy : JoinPolicy) (maxMembers : ℕ) : Except Failure Prepared := do
  let found ← userExists e actor
  require found .notFound "CreateGroup owner user does not exist"
  require (actor ≠ 0 && name ≠ [] && 2 ≤ maxMembers && maxMembers ≤ 5000) .invalidArgument
    "invalid InsertGroupOnConnection arguments"
  e.references .insertGroup [actor]
  e.execute .insertGroup "insert group failed: " ()
  let group : GroupRow := ⟨name, description, avatarUrl, actor, .active, joinPolicy, maxMembers,
    1, 1, e.now, e.now, none, none⟩
  e.references .insertOwner [actor]
  e.execute .insertOwner "insert owner group member failed: " ()
  let rows : Rows := ⟨group, (∅ : AList fun _ : ℕ => MemberRow).insert actor
    ⟨.owner, .active, 1, none, e.now, none, e.now⟩, ∅⟩
  let (_, rows) ← insertMembershipHistory e actor 1 .owner rows
  let created ← findGroup e .reloadGroup rows
  pure ⟨rows, buildGroupEvent groupId created "group.created.v1", some 1⟩

def updateGroup (e : Env) (actor groupId expectedVersion : ℕ)
    (name description avatarUrl : Option Bytes) (joinPolicy : Option JoinPolicy) (r : Rows) :
    Except Failure Prepared := do
  require (r.group.status = .active) .failedPrecondition "disbanded group cannot be updated"
  require (r.group.version = expectedVersion) .aborted
    "group version changed; refresh before retrying mutation"
  let member ← findMember e .findActor actor r
  let m ← activeMember .permissionDenied "actor is not an active group member" member
  let metadataChange := name.isSome || description.isSome || avatarUrl.isSome
  require (!(metadataChange && !canUpdateMetadata m.role ||
      joinPolicy.isSome && !canUpdateJoinPolicy m.role)) .permissionDenied
    "actor has no permission to update requested group fields"
  let r ← affected "group update lost its active-row precondition"
    (updateGroupRow e name description avatarUrl joinPolicy (next r.group.version) r)
  let updated ← findGroup e .reloadGroup r
  pure ⟨r, buildGroupEvent groupId updated "group.updated.v1", none⟩

def disbandGroup (e : Env) (actor groupId expectedVersion : ℕ) (r : Rows) :
    Except Failure Prepared := do
  require (r.group.status = .active) .failedPrecondition "group is already disbanded"
  require (r.group.version = expectedVersion) .aborted
    "group version changed; refresh before retrying disband"
  let member ← findMember e .findActor actor r
  let m ← activeMember .permissionDenied "only the active group owner can disband the group" member
  require (actor = r.group.ownerUserId && canDisband m.role) .permissionDenied
    "only the active group owner can disband the group"
  let r ← affected "group disband lost its active-row precondition"
    (disbandGroupRow e actor (next r.group.version) (next r.group.memberVersion) r)
  let disbanded ← findGroup e .reloadGroup r
  pure ⟨r, buildGroupEvent groupId disbanded "group.disbanded.v1", none⟩

def joinGroup (e : Env) (actor groupId : ℕ) (r : Rows) : Except Failure Prepared := do
  requireActive r
  require (r.group.joinPolicy = .openJoin) .permissionDenied "group does not allow open join"
  let found ← userExists e actor
  require found .notFound "joining user not found"
  let member ← findMember e .findActor actor r
  require (member.all fun m => m.status ≠ .active) .alreadyExists
    "user is already an active group member"
  require (member.all fun m => m.status ≠ .kicked) .failedPrecondition
    "kicked member must be invited by an administrator"
  let epoch := member.elim 1 fun m => next m.membershipEpoch
  ensureCapacity e r
  let r₁ ← affected "JoinGroup lost membership transition precondition"
    (if member.isSome then reactivateMember e actor epoch .member r
      else insertMember e actor .member epoch r)
  let r₂ ← affected "JoinGroup failed to create membership history"
    (insertMembershipHistory e actor epoch .member r₁)
  let r₃ ← affected "JoinGroup lost active-group version precondition"
    (updateGroupVersions e (next r.group.version) (next r.group.memberVersion) r₂)
  let (g, m) ← reload e actor r₃
  pure ⟨r₃, buildMemberEpochEvent groupId g actor m actor "group.member.joined.v1", some epoch⟩

def leaveGroup (e : Env) (actor groupId : ℕ) (r : Rows) : Except Failure Prepared := do
  requireActive r
  let member ← findMember e .findActor actor r
  let m ← activeMember .failedPrecondition "actor is not an active group member" member
  require (canLeave m.role) .failedPrecondition
    "group owner must transfer ownership or disband before leaving"
  let text := "LeaveGroup durable transition failed"
  let r₁ ← durable text (markMemberInactive e actor .left r)
  let r₂ ← durable text (closeMembershipHistory e actor m.membershipEpoch 1 actor r₁)
  let r₃ ← durable text
    (updateGroupVersions e (next r.group.version) (next r.group.memberVersion) r₂)
  let (g, m') ← reload e actor r₃
  pure ⟨r₃, buildMemberEpochEvent groupId g actor m' actor "group.member.left.v1",
    some m.membershipEpoch⟩

def inviteMember (e : Env) (actor groupId target : ℕ) (r : Rows) : Except Failure Prepared := do
  requireActive r
  let found ← userExists e target
  require found .notFound "invited user not found"
  let (a, t) ← lockActorAndTarget e actor target r
  let m ← activeMember .permissionDenied "actor cannot invite group members" a
  require (canInvite m.role) .permissionDenied "actor cannot invite group members"
  require (t.all fun m => m.status ≠ .active) .alreadyExists
    "target is already an active group member"
  ensureCapacity e r
  let epoch := t.elim 1 fun m => next m.membershipEpoch
  let text := "InviteMember durable transition failed"
  let r₁ ← durable text
    (if t.isSome then reactivateMember e target epoch .member r
      else insertMember e target .member epoch r)
  let r₂ ← durable text (insertMembershipHistory e target epoch .member r₁)
  let r₃ ← durable text
    (updateGroupVersions e (next r.group.version) (next r.group.memberVersion) r₂)
  let (g, m') ← reload e target r₃
  pure ⟨r₃, buildMemberEpochEvent groupId g target m' actor "group.member.added.v1", some epoch⟩

def kickMember (e : Env) (actor groupId target : ℕ) (r : Rows) : Except Failure Prepared := do
  requireActive r
  let (a, t) ← lockActorAndTarget e actor target r
  let m ← activeMember .permissionDenied "actor is not an active group member" a
  let m' ← activeMember .failedPrecondition "target is not an active group member" t
  require (canKick m.role m'.role) .permissionDenied "actor cannot kick target member"
  let text := "KickMember durable transition failed"
  let r₁ ← durable text (markMemberInactive e target .kicked r)
  let r₂ ← durable text (closeMembershipHistory e target m'.membershipEpoch 2 actor r₁)
  let r₃ ← durable text
    (updateGroupVersions e (next r.group.version) (next r.group.memberVersion) r₂)
  let (g, m'') ← reload e target r₃
  pure ⟨r₃, buildMemberEpochEvent groupId g target m'' actor "group.member.kicked.v1",
    some m'.membershipEpoch⟩

def setMemberRole (e : Env) (actor groupId target : ℕ) (role : Role) (r : Rows) :
    Except Failure Prepared := do
  requireActive r
  let (a, t) ← lockActorAndTarget e actor target r
  let m ← activeMember .failedPrecondition "role mutation requires active actor and target" a
  let m' ← activeMember .failedPrecondition "role mutation requires active actor and target" t
  require (canSetRole m.role m'.role) .permissionDenied "actor cannot change target role"
  require (m'.role ≠ role) .failedPrecondition "target already has requested role"
  let text := "SetMemberRole durable transition failed"
  let r₁ ← durable text (updateMemberRole e .role target role r)
  let r₂ ← durable text
    (updateGroupVersions e (next r.group.version) (next r.group.memberVersion) r₁)
  let (g, m'') ← reload e target r₂
  pure ⟨r₂, buildMemberVersionEvent groupId g target m'' actor "group.member.role_changed.v1",
    some m'.membershipEpoch⟩

def setMemberMute (e : Env) (actor groupId target : ℕ) (mutedUntil : Bytes) (r : Rows) :
    Except Failure Prepared := do
  requireActive r
  let (a, t) ← lockActorAndTarget e actor target r
  let m ← activeMember .failedPrecondition "mute mutation requires active actor and target" a
  let m' ← activeMember .failedPrecondition "mute mutation requires active actor and target" t
  require (canMute m.role m'.role) .permissionDenied "actor cannot mute target member"
  require (m'.mutedUntil.getD [] ≠ mutedUntil) .failedPrecondition
    "target already has requested mute state"
  let text := "SetMemberMute durable transition failed"
  let r₁ ← durable text (updateMemberMute e target mutedUntil r)
  let r₂ ← durable text
    (updateGroupVersions e (next r.group.version) (next r.group.memberVersion) r₁)
  let (g, m'') ← reload e target r₂
  pure ⟨r₂, buildMemberVersionEvent groupId g target m'' actor "group.member.mute_changed.v1",
    some m'.membershipEpoch⟩

def transferOwnership (e : Env) (actor groupId target : ℕ) (r : Rows) :
    Except Failure Prepared := do
  requireActive r
  let (a, t) ← lockActorAndTarget e actor target r
  let m ← activeMember .failedPrecondition "ownership transfer requires active owner and target" a
  let m' ← activeMember .failedPrecondition "ownership transfer requires active owner and target" t
  require (r.group.ownerUserId = actor && m.role = .owner && canTransferOwnership m.role m'.role)
    .permissionDenied "only active owner can transfer ownership"
  let text := "TransferOwnership durable transition failed"
  let r₁ ← durable text (updateGroupOwnerAndVersions e target (next r.group.version)
    (next r.group.memberVersion) r)
  let r₂ ← durable text (updateMemberRole e .oldOwner actor .admin r₁)
  let r₃ ← durable text (updateMemberRole e .newOwner target .owner r₂)
  let (g, m'') ← reload e target r₃
  pure ⟨r₃, ownershipTransferred groupId g target m'' actor, some m''.membershipEpoch⟩

/-- The transaction of a command: on the rows of the group it locked, or with the id its insert is
given. -/
def Request.transact (e : Env) (req : Request) (fresh : ℕ) (rows : Option Rows) :
    Except Failure Prepared :=
  match req.command, rows with
  | .createGroup name description avatarUrl joinPolicy maxMembers, _ =>
    createGroup e req.actor fresh name description avatarUrl joinPolicy maxMembers
  | _, none => .error ⟨.notFound, "group not found"⟩
  | .updateGroup g version name description avatarUrl joinPolicy, some r =>
    updateGroup e req.actor g version name description avatarUrl joinPolicy r
  | .disbandGroup g version, some r => disbandGroup e req.actor g version r
  | .joinGroup g, some r => joinGroup e req.actor g r
  | .leaveGroup g, some r => leaveGroup e req.actor g r
  | .inviteMember g target, some r => inviteMember e req.actor g target r
  | .kickMember g target, some r => kickMember e req.actor g target r
  | .setMemberRole g target role, some r => setMemberRole e req.actor g target role r
  | .setMemberMute g target mutedUntil, some r => setMemberMute e req.actor g target mutedUntil r
  | .transferOwnership g target, some r => transferOwnership e req.actor g target r

end TinyImx.Group
