import TinyImx.Lib.Run
import TinyImx.Group.Commands

/-!
# Calls of group commands

A call goes through its own steps: the look at the operation record before the transaction, the
transaction (the lock on the group's row, the second look, the work, the outbox row, the operation
row, the commit), and the recovery after a commit or an operation row that failed.  Other calls may
take steps between any two of them.  A transaction's writes are its own until the commit; the lock on
the row of its group lasts as long.

The digest of a request is `sha256` of its canonical text.  Operation ids are equal when the
database's collation gives them the same key.
-/

namespace TinyImx.Group

open TinyImx.Local (Bytes ascii decimal)

/-! ## Fingerprints -/

def Command.operationType : Command → String
  | .createGroup _ _ _ _ _ => "create_group"
  | .updateGroup _ _ _ _ _ _ => "update_group"
  | .disbandGroup _ _ => "disband_group"
  | .joinGroup _ => "join_group"
  | .leaveGroup _ => "leave_group"
  | .inviteMember _ _ => "invite_member"
  | .kickMember _ _ => "kick_member"
  | .setMemberRole _ _ _ => "set_member_role"
  | .setMemberMute _ _ _ => "set_member_mute"
  | .transferOwnership _ _ => "transfer_ownership"

def bar : Bytes := ascii "|"

def appendField (value : Bytes) : Bytes := decimal value.length ++ ascii ":" ++ value ++ bar

def optionalField : Option Bytes → Bytes
  | some value => ascii "1" ++ appendField value
  | none => ascii "0|"

def Request.canonical (req : Request) : Bytes :=
  let head := ascii (req.command.operationType ++ "|") ++ decimal req.actor ++ bar
  match req.command with
  | .createGroup name description avatarUrl joinPolicy maxMembers =>
    head ++ appendField name ++ appendField description ++ appendField avatarUrl ++
      decimal joinPolicy.code ++ bar ++ decimal maxMembers
  | .updateGroup g version name description avatarUrl joinPolicy =>
    head ++ decimal g ++ bar ++ decimal version ++ bar ++ optionalField name ++
      optionalField description ++ optionalField avatarUrl ++
      match joinPolicy with
      | some policy => ascii "1|" ++ decimal policy.code
      | none => ascii "0|"
  | .disbandGroup g version => head ++ decimal g ++ bar ++ decimal version
  | .joinGroup g | .leaveGroup g => head ++ decimal g
  | .inviteMember g target | .kickMember g target | .transferOwnership g target =>
    head ++ decimal g ++ bar ++ decimal target
  | .setMemberRole g target role =>
    head ++ decimal g ++ bar ++ decimal target ++ bar ++ decimal role.code
  | .setMemberMute g target mutedUntil =>
    head ++ decimal g ++ bar ++ decimal target ++ bar ++ decimal mutedUntil.length ++ ascii ":" ++
      mutedUntil

/-! ## Tables -/

/-- A row of `im_group_operation_dedup`. -/
structure Operation (δ : Type) where
  operationType : String
  requestFingerprint : δ
  groupId : ℕ
  resultVersion : ℕ
  resultMemberVersion : ℕ
  resultMembershipEpoch : Option ℕ

structure Db (δ κ : Type) where
  groups : ℕ → Option Rows
  /-- The next value of `AUTO_INCREMENT`. -/
  nextGroup : ℕ
  operations : ℕ → κ → Option (Operation δ)
  outbox : List Event

/-! ## Calls -/

inductive Outcome where
  | applied | reused | idempotencyConflict

/-- `GroupRepositoryMutationResult`. -/
inductive Result where
  | succeeded (outcome : Outcome) (group : Option (ℕ × GroupRow)) (message : String)
  | failed (failure : Failure)

/-- What `ResolveExistingOperation` is called for. -/
inductive Recovery where
  | direct
  | after (failure : Failure) (commit : Bool)

inductive Phase where
  | precheck
  | resolve (recovery : Recovery)
  /-- The record matches, before `FindGroupById`. -/
  | view (recovery : Recovery) (groupId : ℕ)
  | begin
  | lock
  | check (rows : Rows)
  | work (rows : Option Rows)
  | insertOutbox (groupId : ℕ) (prepared : Prepared)
  | insertOperation (groupId : ℕ) (prepared : Prepared)
  | commit (groupId : ℕ) (prepared : Prepared)
  | committed (groupId : ℕ) (group : GroupRow)
  | returned (result : Result)

def Phase.holds : Phase → Bool
  | .check _ | .work _ | .insertOutbox _ _ | .insertOperation _ _ | .commit _ _ => true
  | _ => false

structure Call where
  request : Request
  phase : Phase

def Call.holds (call : Call) (g : ℕ) : Prop :=
  call.phase.holds = true ∧ call.request.command.groupId = some g

structure State (δ κ : Type) where
  db : Db δ κ
  calls : ℕ → Option Call

inductive Label where
  | silent
  | effect (call : ℕ) (lost : Bool)
  | returned (call : ℕ) (result : Result)

section

variable {δ κ : Type} [DecidableEq κ]

def State.initial : State δ κ := ⟨⟨fun _ => none, 1, fun _ _ => none, []⟩, fun _ => none⟩

def State.go (s : State δ κ) (c : ℕ) (req : Request) (phase : Phase) : State δ κ :=
  { s with calls := Function.update s.calls c (some ⟨req, phase⟩) }

omit [DecidableEq κ] in
theorem State.go_calls_self (s : State δ κ) (c : ℕ) (req : Request) (phase : Phase) :
    (s.go c req phase).calls c = some ⟨req, phase⟩ := Function.update_self ..

omit [DecidableEq κ] in
theorem State.go_calls_ne {s : State δ κ} {c c' : ℕ} {req : Request} {phase : Phase} (h : c' ≠ c) :
    (s.go c req phase).calls c' = s.calls c' := Function.update_of_ne h ..

def Command.successMessage : Command → String
  | .createGroup _ _ _ _ _ =>
    "group, owner membership, outbox event, and idempotency record committed"
  | .updateGroup _ _ _ _ _ _ => "group update, outbox event, and idempotency record committed"
  | .disbandGroup _ _ => "group disband, outbox event, and idempotency record committed"
  | .joinGroup _ => "group join, outbox event, and idempotency record committed"
  | .leaveGroup _ => "group leave, outbox event, and idempotency record committed"
  | .inviteMember _ _ => "member invite, outbox event, and idempotency record committed"
  | .kickMember _ _ => "member kick, outbox event, and idempotency record committed"
  | .setMemberRole _ _ _ => "member role change, outbox event, and idempotency record committed"
  | .setMemberMute _ _ _ => "member mute change, outbox event, and idempotency record committed"
  | .transferOwnership _ _ => "ownership transfer, outbox event, and idempotency record committed"

/-- The commands of `GroupRepositoryAdapter.cpp`, whose commit is `CommitOrRecover`. -/
def Command.lifecycle : Command → Bool
  | .createGroup _ _ _ _ _ | .updateGroup _ _ _ _ _ _ | .disbandGroup _ _ => true
  | _ => false

def Command.commitFailed (command : Command) : String :=
  if command.lifecycle then "group transaction commit failed"
  else "group membership transaction commit failed"

def Command.recovered (command : Command) : String :=
  if command.lifecycle then "ambiguous commit recovered from durable group operation record"
  else "ambiguous membership commit recovered from durable operation record"

def Command.missingGroup (command : Command) : String :=
  if command.lifecycle then "group operation points to a missing group"
  else "group operation points to missing group"

/-- The failure `ResolveExistingOperation` ends with, as its caller returns it. -/
def Recovery.failure (failure : Failure) : Recovery → Failure
  | .direct => failure
  | .after failure _ => failure

def Recovery.message (command : Command) : Recovery → String
  | .after _ true => command.recovered
  | _ => "group mutation safely reused from durable operation record"

def Status.storage (status : Status) : Bool :=
  status = .storageError || status = .invalidArgument || status = .invalidRecord

def Phase.faults : Phase → Option Recovery
  | .precheck | .begin | .lock | .check _ | .insertOutbox _ _ => some .direct
  | .resolve recovery | .view recovery _ => some recovery
  | _ => none

variable (sha256 : Bytes → δ) (collate : Bytes → κ)

def Request.operation (req : Request) (groupId : ℕ) (p : Prepared) : Operation δ where
  operationType := req.command.operationType
  requestFingerprint := sha256 req.canonical
  groupId := groupId
  resultVersion := p.rows.group.version
  resultMemberVersion := p.rows.group.memberVersion
  resultMembershipEpoch := p.epoch

def Db.commit (db : Db δ κ) (req : Request) (groupId : ℕ) (p : Prepared) : Db δ κ :=
  { db with
    groups := Function.update db.groups groupId (some p.rows)
    operations := Function.update db.operations req.actor
      (Function.update (db.operations req.actor) (collate req.clientOperationId)
        (some (req.operation sha256 groupId p)))
    outbox := db.outbox ++ [p.event] }

def Db.find (db : Db δ κ) (req : Request) : Option (Operation δ) :=
  db.operations req.actor (collate req.clientOperationId)

def Operation.matches (op : Operation δ) (req : Request) : Prop :=
  op.operationType = req.command.operationType ∧ op.requestFingerprint = sha256 req.canonical

inductive Step : State δ κ → Label → State δ κ → Prop
  | arrive {s : State δ κ} {c : ℕ} {req : Request} : s.calls c = none → req.valid = .ok () →
      Step s .silent (s.go c req .precheck)
  | refuse {s : State δ κ} {c : ℕ} {req : Request} {f : Failure} : s.calls c = none →
      req.valid = .error f →
      Step s (.returned c (.failed f)) (s.go c req (.returned (.failed f)))
  -- A value of `AUTO_INCREMENT` that a rolled back insert used.
  | skipId {s : State δ κ} :
      Step s .silent { s with db := { s.db with nextGroup := s.db.nextGroup + 1 } }
  | fault {s : State δ κ} {c : ℕ} {req : Request} {phase : Phase} {recovery : Recovery}
      {f : Failure} : s.calls c = some ⟨req, phase⟩ → phase.faults = some recovery →
      f.status.storage = true →
      Step s (.returned c (.failed (recovery.failure f)))
        (s.go c req (.returned (.failed (recovery.failure f))))
  -- `PrecheckOperation`
  | precheckFound {s : State δ κ} {c : ℕ} {req : Request} {op : Operation δ} :
      s.calls c = some ⟨req, .precheck⟩ → s.db.find collate req = some op →
      Step s .silent (s.go c req (.resolve .direct))
  | precheckNone {s : State δ κ} {c : ℕ} {req : Request} : s.calls c = some ⟨req, .precheck⟩ →
      req.actor ≠ 0 → req.clientOperationId ≠ [] → s.db.find collate req = none →
      Step s .silent (s.go c req .begin)
  -- `ResolveExistingOperation`
  | resolveMissing {s : State δ κ} {c : ℕ} {req : Request} {recovery : Recovery} :
      s.calls c = some ⟨req, .resolve recovery⟩ → s.db.find collate req = none →
      Step s (.returned c (.failed (recovery.failure ⟨.notFound, "group operation not found"⟩)))
        (s.go c req
          (.returned (.failed (recovery.failure ⟨.notFound, "group operation not found"⟩))))
  | resolveConflict {s : State δ κ} {c : ℕ} {req : Request} {recovery : Recovery}
      {op : Operation δ} {result : Result} : s.calls c = some ⟨req, .resolve recovery⟩ →
      s.db.find collate req = some op → ¬ op.matches sha256 req →
      result = .succeeded .idempotencyConflict none
        "client_operation_id was already used for a different group mutation" →
      Step s (.returned c result) (s.go c req (.returned result))
  | resolveMatch {s : State δ κ} {c : ℕ} {req : Request} {recovery : Recovery}
      {op : Operation δ} : s.calls c = some ⟨req, .resolve recovery⟩ →
      s.db.find collate req = some op → op.matches sha256 req →
      Step s .silent (s.go c req (.view recovery op.groupId))
  | viewMissing {s : State δ κ} {c : ℕ} {req : Request} {recovery : Recovery} {g : ℕ}
      {f : Failure} : s.calls c = some ⟨req, .view recovery g⟩ → s.db.groups g = none →
      f = recovery.failure ⟨.invalidRecord, req.command.missingGroup⟩ →
      Step s (.returned c (.failed f)) (s.go c req (.returned (.failed f)))
  | view {s : State δ κ} {c : ℕ} {req : Request} {recovery : Recovery} {g : ℕ} {r : Rows}
      {result : Result} : s.calls c = some ⟨req, .view recovery g⟩ → s.db.groups g = some r →
      r.group.valid = true →
      result = .succeeded .reused (some (g, r.group)) (recovery.message req.command) →
      Step s (.returned c result) (s.go c req (.returned result))
  -- The transaction
  | begin {s : State δ κ} {c : ℕ} {req : Request} : s.calls c = some ⟨req, .begin⟩ →
      Step s .silent
        (s.go c req (if req.command.groupId.isSome then .lock else .work none))
  | lockMissing {s : State δ κ} {c : ℕ} {req : Request} {g : ℕ} :
      s.calls c = some ⟨req, .lock⟩ → req.command.groupId = some g → s.db.groups g = none →
      Step s (.returned c (.failed ⟨.notFound, "group not found"⟩))
        (s.go c req (.returned (.failed ⟨.notFound, "group not found"⟩)))
  | lock {s : State δ κ} {c : ℕ} {req : Request} {g : ℕ} {r : Rows} :
      s.calls c = some ⟨req, .lock⟩ → req.command.groupId = some g → s.db.groups g = some r →
      r.group.valid = true → (∀ c' call, s.calls c' = some call → ¬ call.holds g) →
      Step s .silent (s.go c req (.check r))
  | checkFound {s : State δ κ} {c : ℕ} {req : Request} {r : Rows} {op : Operation δ} :
      s.calls c = some ⟨req, .check r⟩ → s.db.find collate req = some op →
      Step s .silent (s.go c req (.resolve .direct))
  | checkNone {s : State δ κ} {c : ℕ} {req : Request} {r : Rows} :
      s.calls c = some ⟨req, .check r⟩ → s.db.find collate req = none →
      Step s .silent (s.go c req (.work (some r)))
  | reject {s : State δ κ} {c : ℕ} {req : Request} {rows : Option Rows} {e : Env} {f : Failure} :
      s.calls c = some ⟨req, .work rows⟩ → req.transact e s.db.nextGroup rows = .error f →
      Step s (.returned c (.failed f)) (s.go c req (.returned (.failed f)))
  | create {s : State δ κ} {c : ℕ} {req : Request} {e : Env} {p : Prepared} :
      s.calls c = some ⟨req, .work none⟩ → req.transact e s.db.nextGroup none = .ok p →
      Step s .silent { s.go c req (.insertOutbox s.db.nextGroup p) with
        db := { s.db with nextGroup := s.db.nextGroup + 1 } }
  | change {s : State δ κ} {c : ℕ} {req : Request} {g : ℕ} {r : Rows} {e : Env} {p : Prepared} :
      s.calls c = some ⟨req, .work (some r)⟩ → req.command.groupId = some g →
      req.transact e s.db.nextGroup (some r) = .ok p →
      Step s .silent (s.go c req (.insertOutbox g p))
  | insertOutbox {s : State δ κ} {c : ℕ} {req : Request} {g : ℕ} {p : Prepared} :
      s.calls c = some ⟨req, .insertOutbox g p⟩ →
      (∀ event ∈ s.db.outbox, event.eventId ≠ p.event.eventId) →
      Step s .silent (s.go c req (.insertOperation g p))
  | insertOperation {s : State δ κ} {c : ℕ} {req : Request} {g : ℕ} {p : Prepared} :
      s.calls c = some ⟨req, .insertOperation g p⟩ → s.db.find collate req = none →
      (∀ c' req' g' p', s.calls c' = some ⟨req', .commit g' p'⟩ →
        ¬ (req'.actor = req.actor ∧
          collate req'.clientOperationId = collate req.clientOperationId)) →
      Step s .silent (s.go c req (.commit g p))
  | insertOperationFailed {s : State δ κ} {c : ℕ} {req : Request} {g : ℕ} {p : Prepared}
      {f : Failure} : s.calls c = some ⟨req, .insertOperation g p⟩ → f.status.storage = true →
      Step s .silent (s.go c req (.resolve (.after f false)))
  | commit {s : State δ κ} {c : ℕ} {req : Request} {g : ℕ} {p : Prepared} :
      s.calls c = some ⟨req, .commit g p⟩ →
      Step s (.effect c false) { s.go c req (.committed g p.rows.group) with
        db := s.db.commit sha256 collate req g p }
  | commitLost {s : State δ κ} {c : ℕ} {req : Request} {g : ℕ} {p : Prepared} {error : String} :
      s.calls c = some ⟨req, .commit g p⟩ →
      Step s (.effect c true) {
        s.go c req (.resolve (.after ⟨.storageError, req.command.commitFailed ++ error⟩ true)) with
        db := s.db.commit sha256 collate req g p }
  | commitFailed {s : State δ κ} {c : ℕ} {req : Request} {g : ℕ} {p : Prepared} {error : String} :
      s.calls c = some ⟨req, .commit g p⟩ →
      Step s .silent
        (s.go c req (.resolve (.after ⟨.storageError, req.command.commitFailed ++ error⟩ true)))
  | applied {s : State δ κ} {c : ℕ} {req : Request} {g : ℕ} {group : GroupRow} {result : Result} :
      s.calls c = some ⟨req, .committed g group⟩ →
      result = .succeeded .applied (some (g, group)) req.command.successMessage →
      Step s (.returned c result) (s.go c req (.returned result))

end

end TinyImx.Group
