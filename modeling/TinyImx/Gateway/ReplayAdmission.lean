import Mathlib.Data.Finmap
import Mathlib.Data.Finset.Sort

/-!
# Admission of private replays

`PrivateReplayAdmission` keeps, for each user, the obligation to start a replay for the latest session
epoch.  A claim issues a lease; the lease settles once, by `MarkStarted` or by its destructor, and
both first set its own `settled_` flag and only then take the admission's mutex.  So a settlement is
two steps, and other calls can come between them.
-/

namespace TinyImx.Gateway.ReplayAdmission

structure Token where
  userId : ℕ
  epoch : ℕ
  generation : ℕ
  attempt : ℕ

structure ReplayEntry where
  epoch : ℕ
  generation : ℕ
  attempt : ℕ
  deferrals : ℕ
  due : ℕ
  inFlight : Bool
  deriving DecidableEq

/-- How far a lease is: `settled_` is not set, it is set by a `MarkStarted` or by the destructor that
has not taken the mutex yet, or the lease has settled. -/
inductive Status where
  | armed
  | starting
  | dropping
  | settled
  deriving DecidableEq

structure Lease where
  token : Token
  status : Status

structure State where
  entries : Finmap fun _ : ℕ => ReplayEntry
  nextGeneration : ℕ
  scanCursor : ℕ
  stopped : Bool
  issued : ℕ
  leases : ℕ → Lease

def start : State := ⟨∅, 1, 0, false, 0, fun _ => ⟨⟨0, 0, 0, 0⟩, .settled⟩⟩

/-! ## Functions of the admission -/

def State.ensure (s : State) (u epoch now : ℕ) : Bool × State :=
  if u = 0 ∨ epoch = 0 ∨ s.stopped then (false, s)
  else if (s.entries.lookup u).any (epoch ≤ ·.epoch) then (false, s)
  else (true,
    { s with
      entries := s.entries.insert u ⟨epoch, s.nextGeneration, 0, 0, now, false⟩
      nextGeneration := s.nextGeneration + 1 })

def State.claimLocked (s : State) (u now : ℕ) : Option State :=
  match s.entries.lookup u with
  | none => none
  | some e =>
    if e.inFlight ∨ now < e.due then none
    else some
      { s with
        entries := s.entries.insert u { e with attempt := e.attempt + 1, inFlight := true }
        issued := s.issued + 1
        leases := Function.update s.leases s.issued
          ⟨⟨u, e.epoch, e.generation, e.attempt + 1⟩, .armed⟩ }

def State.claim (s : State) (u epoch now : ℕ) : State :=
  if s.stopped then s
  else if (s.entries.lookup u).all (·.epoch ≠ epoch) then s
  else (s.claimLocked u now).getD s

/-- The loop of `TakeDue` over the users it scans, with the number of leases issued so far. -/
def State.takeLoop (now submitBudget : ℕ) : List ℕ → ℕ → State → State
  | [], _, s => s
  | u :: users, taken, s =>
    if submitBudget ≤ taken then s
    else
      let s' := { s with scanCursor := u }
      match s'.claimLocked u now with
      | none => s'.takeLoop now submitBudget users taken
      | some s'' => s''.takeLoop now submitBudget users (taken + 1)

def State.scanOrder (s : State) : List ℕ :=
  ((s.entries.keys.filter (s.scanCursor < ·)).sort (· ≤ ·)) ++
    (s.entries.keys.filter (· ≤ s.scanCursor)).sort (· ≤ ·)

def State.takeDue (s : State) (scanBudget submitBudget now : ℕ) : State :=
  if s.stopped ∨ s.entries.keys = ∅ ∨ submitBudget = 0 then s
  else s.takeLoop now submitBudget (s.scanOrder.take (min scanBudget s.entries.keys.card)) 0

def Matches (t : Token) (e : ReplayEntry) : Prop :=
  t.epoch = e.epoch ∧ t.generation = e.generation ∧ t.attempt = e.attempt ∧ e.inFlight = true

instance (t : Token) (e : ReplayEntry) : Decidable (Matches t e) := by
  unfold Matches
  infer_instance

def State.settle (s : State) (i : ℕ) (status : Status) : State :=
  { s with leases := Function.update s.leases i ⟨(s.leases i).token, status⟩ }

def State.markSettled (s : State) (i : ℕ) (status : Status) : State :=
  if (s.leases i).status = .armed then s.settle i status else s

def State.started (s : State) (i : ℕ) : State :=
  let t := (s.leases i).token
  if s.stopped = false ∧ (s.entries.lookup t.userId).any (Matches t ·) then
    { s.settle i .settled with entries := s.entries.erase t.userId }
  else s.settle i .settled

def retryDelay (t : Token) (deferrals : ℕ) : ℕ :=
  let shift := min deferrals 3
  let mix := Nat.xor (Nat.xor (t.userId * 11400714819323198485 % 2 ^ 64)
    (t.generation * 6364136223846793005 % 2 ^ 64)) t.attempt
  250 * 2 ^ shift + mix % 126

def ReplayEntry.rearm (e : ReplayEntry) (t : Token) (now : ℕ) : ReplayEntry :=
  { e with
    due := now + retryDelay t e.deferrals
    inFlight := false
    deferrals := if e.deferrals < 3 then e.deferrals + 1 else e.deferrals }

def State.abandoned (s : State) (i now : ℕ) : State :=
  let t := (s.leases i).token
  match s.entries.lookup t.userId with
  | none => s.settle i .settled
  | some e =>
    if s.stopped = false ∧ Matches t e then
      { s.settle i .settled with entries := s.entries.insert t.userId (e.rearm t now) }
    else s.settle i .settled

def State.retire (s : State) (u epoch : ℕ) : State :=
  if (s.entries.lookup u).any (·.epoch = epoch) then { s with entries := s.entries.erase u } else s

def State.stop (s : State) : State := { s with stopped := true, entries := ∅ }

def State.resume (s : State) : State := { s with stopped := false }

/-! ## Steps -/

inductive Label where
  | ensure (u epoch now : ℕ)
  | claim (u epoch now : ℕ)
  | takeDue (scanBudget submitBudget now : ℕ)
  | markStarted (i : ℕ)
  | started (i : ℕ)
  | destroy (i : ℕ)
  | abandoned (i now : ℕ)
  | retire (u epoch : ℕ)
  | stop
  | resume

/-- The steps; `started` and `abandoned` are the second halves of `markStarted` and `destroy`. -/
inductive Step : State → Label → State → Prop
  | ensure {s} (u epoch now : ℕ) : Step s (.ensure u epoch now) (s.ensure u epoch now).2
  | claim {s} (u epoch now : ℕ) : Step s (.claim u epoch now) (s.claim u epoch now)
  | takeDue {s} (scan submit now : ℕ) : Step s (.takeDue scan submit now) (s.takeDue scan submit now)
  | markStarted {s} (i : ℕ) : i < s.issued → Step s (.markStarted i) (s.markSettled i .starting)
  | started {s} (i : ℕ) : (s.leases i).status = .starting → Step s (.started i) (s.started i)
  | destroy {s} (i : ℕ) : i < s.issued → Step s (.destroy i) (s.markSettled i .dropping)
  | abandoned {s} (i now : ℕ) : (s.leases i).status = .dropping →
      Step s (.abandoned i now) (s.abandoned i now)
  | retire {s} (u epoch : ℕ) : Step s (.retire u epoch) (s.retire u epoch)
  | stop {s} : Step s .stop s.stop
  | resume {s} : Step s .resume s.resume

end TinyImx.Gateway.ReplayAdmission
