import Mathlib.Logic.Function.Basic
import Mathlib.Data.Finset.Basic
import Mathlib.Data.List.Nodup

/-!
# The event outbox table

`im_event_outbox` as a map of rows that statements change one at a time.  A relay claims rows for a
lease and may change a row only while the row still carries its token: every statement of a relay
but the claim itself goes through `executeOwnedMutation`.

Times are milliseconds of the database's clock.  The columns that no statement reads (the texts of
errors, the times of creation and of the last update) are left out.
-/

namespace TinyImx.Outbox

inductive Status where
  | pending
  | published
  | retry
  | quarantined
  deriving DecidableEq

def Status.active : Status → Bool
  | .pending | .retry => true
  | .published | .quarantined => false

structure Event where
  eventId : String
  eventType : String
  schemaVersion : ℕ
  aggregateType : String
  aggregateId : String
  producerService : String
  topic : String
  tag : String
  messageKey : String
  payload : String

/-- A claim token: the process, which is its instance id and pid, and the generation of the claim. -/
structure Token (ρ : Type) where
  relay : ρ
  generation : ℕ
  deriving DecidableEq

structure Row (ρ : Type) where
  event : Event
  status : Status
  attemptCount : ℕ
  nextAttemptAt : ℕ
  lockedBy : Option (Token ρ)
  lockedUntil : Option ℕ
  publishedAt : Option ℕ

structure Record (ρ : Type) where
  outboxId : ℕ
  event : Event
  attemptCount : ℕ
  lockedBy : Token ρ

abbrev Table (ρ : Type) := ℕ → Option (Row ρ)

variable {ρ : Type}

def Row.fresh (event : Event) (now : ℕ) : Row ρ := ⟨event, .pending, 0, now, none, none, none⟩

def Row.claimable (now : ℕ) (row : Row ρ) : Bool :=
  row.status.active && row.nextAttemptAt ≤ now && row.lockedUntil.all (· < now)

def Row.claim (token : Token ρ) (leaseMs now : ℕ) (row : Row ρ) : Row ρ :=
  { row with lockedBy := some token, lockedUntil := some (now + leaseMs) }

def claimRows (token : Token ρ) (leaseMs now : ℕ) (ids : List ℕ) (table : Table ρ) : Table ρ :=
  fun id => if id ∈ ids then (table id).map (·.claim token leaseMs now) else table id

def claimRecords (token : Token ρ) (ids : List ℕ) (table : Table ρ) : List (Record ρ) :=
  ids.filterMap fun id => (table id).map fun row => ⟨id, row.event, row.attemptCount, token⟩

/-- Rows the claiming `SELECT` may return: oldest first and no more than asked for, where rows that
another transaction has locked are skipped. -/
structure Selects (limit now : ℕ) (table : Table ρ) (ids : List ℕ) : Prop where
  sorted : ids.Pairwise (· < ·)
  length : ids.length ≤ limit
  claimable : ∀ id ∈ ids, ∃ row, table id = some row ∧ row.claimable now = true

variable [DecidableEq ρ]

/-- `locked_by` is the token that the statement carries for the row, and `status IN (0, 2)`. -/
def Row.ownedBy (targets : List (ℕ × Token ρ)) (id : ℕ) (row : Row ρ) : Bool :=
  row.lockedBy.any (fun token => (id, token) ∈ targets) && row.status.active

/-- `UPDATE im_event_outbox SET ... WHERE outbox_id = ... AND locked_by = ... AND status IN (0, 2)`. -/
def executeOwnedMutation (targets : List (ℕ × Token ρ)) (set : Row ρ → Row ρ) (table : Table ρ) :
    Table ρ := fun id => (table id).map fun row => if row.ownedBy targets id then set row else row

def renewClaim (id : ℕ) (token : Token ρ) (leaseMs now : ℕ) : Table ρ → Table ρ :=
  executeOwnedMutation [(id, token)] fun row => { row with lockedUntil := some (now + leaseMs) }

def Row.publish (now : ℕ) (row : Row ρ) : Row ρ :=
  { row with
    status := .published
    attemptCount := row.attemptCount + 1
    publishedAt := some now
    nextAttemptAt := now
    lockedBy := none
    lockedUntil := none }

def markPublished (id : ℕ) (token : Token ρ) (now : ℕ) : Table ρ → Table ρ :=
  executeOwnedMutation [(id, token)] (·.publish now)

def validBatch (targets : List (ℕ × Token ρ)) : Bool :=
  targets ≠ [] && targets.length ≤ 64 && targets.all (fun target => target.1 ≠ 0) &&
    (targets.map Prod.fst).Nodup

def markPublishedBatch (targets : List (ℕ × Token ρ)) (now : ℕ) (table : Table ρ) : Table ρ :=
  if validBatch targets then
    match targets with
    | [target] => markPublished target.1 target.2 now table
    | _ => executeOwnedMutation targets (·.publish now) table
  else table

def markRetry (id : ℕ) (token : Token ρ) (retryAfterMs now : ℕ) : Table ρ → Table ρ :=
  executeOwnedMutation [(id, token)] fun row =>
    { row with
      status := .retry
      attemptCount := row.attemptCount + 1
      nextAttemptAt := now + retryAfterMs
      lockedBy := none
      lockedUntil := none }

def markQuarantined (id : ℕ) (token : Token ρ) (publishAttempted : Bool) : Table ρ → Table ρ :=
  executeOwnedMutation [(id, token)] fun row =>
    { row with
      status := .quarantined
      attemptCount := row.attemptCount + if publishAttempted then 1 else 0
      lockedBy := none
      lockedUntil := none }

def releaseClaim (id : ℕ) (token : Token ρ) : Table ρ → Table ρ :=
  executeOwnedMutation [(id, token)] fun row => { row with lockedBy := none, lockedUntil := none }

def Row.cleanable (retentionHours now : ℕ) (row : Row ρ) : Bool :=
  row.status == .published && row.publishedAt.any (· + retentionHours * 3600000 < now)

def cleanupPublished (ids : List ℕ) (retentionHours now : ℕ) (table : Table ρ) : Table ρ :=
  fun id => if id ∈ ids ∧ (table id).any (·.cleanable retentionHours now) then none else table id

inductive Mutation (ρ : Type) where
  | renew (id : ℕ) (token : Token ρ) (leaseMs : ℕ)
  | publish (targets : List (ℕ × Token ρ))
  | retry (id : ℕ) (token : Token ρ) (retryAfterMs : ℕ)
  | quarantine (id : ℕ) (token : Token ρ) (publishAttempted : Bool)
  | release (id : ℕ) (token : Token ρ)

def Mutation.targets : Mutation ρ → List (ℕ × Token ρ)
  | .renew id token _ => [(id, token)]
  | .publish targets => targets
  | .retry id token _ => [(id, token)]
  | .quarantine id token _ => [(id, token)]
  | .release id token => [(id, token)]

def Mutation.apply (now : ℕ) : Mutation ρ → Table ρ → Table ρ
  | .renew id token leaseMs => renewClaim id token leaseMs now
  | .publish targets => markPublishedBatch targets now
  | .retry id token retryAfterMs => markRetry id token retryAfterMs now
  | .quarantine id token publishAttempted => markQuarantined id token publishAttempted
  | .release id token => releaseClaim id token

end TinyImx.Outbox
