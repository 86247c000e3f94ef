import Mathlib.Data.Finset.Sort
import Mathlib.Data.Multiset.Basic
import Mathlib.Data.Prod.Lex
import Mathlib.Algebra.Ring.Nat
import TinyImx.Lib.Run

/-!
# The timer queue

Timers are kept twice: by sequence, and in a schedule ordered by expiration.  The loop thread alone
touches both; `AddTimer` and `Cancel` of other threads go through two sets under a mutex and through
the functors of the loop.  While the loop runs the callbacks of the timers that expired, these are in
neither table, and a cancel of one of them is kept in a set of its own.

One step is an access to the mutex or to the queue of functors, or a piece of the loop thread's work
during which no other thread's step can be told apart.
-/

namespace TinyImx.Net.TimerQueue

abbrev Entry := ℤ ×ₗ ℕ

structure Timer where
  expiration : ℤ
  interval : ℤ
  sequence : ℕ

def Timer.isRepeat (t : Timer) : Bool := 0 < t.interval

def Timer.entry (t : Timer) : Entry := toLex (t.expiration, t.sequence)

def Timer.restart (t : Timer) (restartTime : ℤ) : Timer :=
  if t.isRepeat then { t with expiration := restartTime + t.interval } else t

/-- `schedule_` and `timers_`. -/
structure Table where
  schedule : Finset Entry
  timers : ℕ → Option Timer

namespace Table

def empty : Table := ⟨∅, fun _ => none⟩

def emplace (q : Table) (t : Timer) : Table :=
  if (q.timers t.sequence).isSome then q
  else if t.entry ∈ q.schedule then q
  else ⟨insert t.entry q.schedule, Function.update q.timers t.sequence (some t)⟩

def erase (q : Table) (t : Timer) : Table :=
  ⟨q.schedule.erase t.entry, Function.update q.timers t.sequence none⟩

def upperBound (now : ℤ) : Entry := toLex (now, 2 ^ 64 - 1)

def expired (q : Table) (now : ℤ) : List Timer :=
  ((q.schedule.filter (· ≤ upperBound now)).sort (· ≤ ·)).filterMap fun e => q.timers (ofLex e).2

def extract (q : Table) (now : ℤ) : Table :=
  ⟨q.schedule.filter fun e => ¬ e ≤ upperBound now,
    fun i => if i ∈ (q.expired now).map Timer.sequence then none else q.timers i⟩

def rearm (restartTime : ℤ) (canceling : Finset ℕ) : List Timer → Table → Table
  | [], q => q
  | t :: batch, q =>
    rearm restartTime canceling batch
      (if t.isRepeat ∧ t.sequence ∉ canceling then q.emplace (t.restart restartTime) else q)

end Table

/-- Where the loop thread is; `running` is the part of `HandleRead` that runs callbacks. -/
inductive Mode
  | idle
  | running (batch rest : List Timer) (current : Option Timer)

inductive Functor
  | add (t : Timer)
  | cancel (sequence : ℕ)

/-- A call of another thread that has not returned: `AddTimer` with its sequence, and with that
sequence among the pending ones, and `Cancel` after its look at the pending sets. -/
inductive Call
  | fetched (t : Timer)
  | marked (t : Timer)
  | cancelling (sequence : ℕ)

structure State where
  table : Table
  mode : Mode
  canceling : Finset ℕ
  nextSequence : ℕ
  pendingAdd : Finset ℕ
  pendingCancel : Finset ℕ
  functors : List Functor
  calls : Multiset Call
  /-- The sequences of the timer ids that `AddTimer` has returned. -/
  known : Finset ℕ

def State.initial : State := ⟨.empty, .idle, ∅, 1, ∅, ∅, [], 0, ∅⟩

inductive Label
  | silent
  /-- `Cancel` of another thread has looked at the pending sets. -/
  | requested (sequence : ℕ)
  | cancelled (sequence : ℕ)
  | added (t : Timer)
  /-- The loop thread begins the callbacks of a `HandleRead`. -/
  | read
  | start (t : Timer)

namespace State

variable (s : State)

def calling : Bool :=
  match s.mode with
  | .idle => false
  | .running _ _ _ => true

def InLoop : Prop :=
  match s.mode with
  | .idle => True
  | .running _ _ current => current.isSome

def markCancel (sequence : ℕ) : State :=
  if sequence ∈ s.pendingAdd then { s with pendingCancel := insert sequence s.pendingCancel } else s

def addTimerInLoop (t : Timer) : State × Label :=
  let s₁ := { s with pendingAdd := s.pendingAdd.erase t.sequence }
  if t.sequence ∈ s.pendingCancel then
    ({ s₁ with pendingCancel := s.pendingCancel.erase t.sequence }, .cancelled t.sequence)
  else ({ s₁ with table := s.table.emplace t }, .added t)

def cancelInLoop (sequence : ℕ) : State :=
  match s.table.timers sequence with
  | some t => { s with table := s.table.erase t }
  | none => if s.calling then { s with canceling := insert sequence s.canceling } else s

def reserve (sequence : ℕ) : State :=
  { s with nextSequence := s.nextSequence + 1, pendingAdd := insert sequence s.pendingAdd }

def beginRead (now : ℤ) : State :=
  { s with
    table := s.table.extract now
    mode := .running (s.table.expired now) (s.table.expired now) none
    canceling := ∅ }

def endRead (restartTime : ℤ) (batch : List Timer) : State :=
  { s with
    table := s.table.rearm restartTime s.canceling batch
    mode := .idle
    canceling := ∅ }

end State

inductive Step : State → Label → State → Prop
  -- `AddTimer` in the loop thread
  | addInLoop {s s' : State} {t : Timer} {l : Label} : s.InLoop → t.sequence = s.nextSequence →
      (s.reserve t.sequence).addTimerInLoop t = (s', l) →
      Step s l { s' with known := insert t.sequence s'.known }
  -- `AddTimer` elsewhere
  | fetch {s : State} {t : Timer} : t.sequence = s.nextSequence →
      Step s .silent { s with
        nextSequence := s.nextSequence + 1
        calls := .fetched t ::ₘ s.calls }
  | mark {s : State} {t : Timer} {calls : Multiset Call} : s.calls = .fetched t ::ₘ calls →
      Step s .silent { s with
        pendingAdd := insert t.sequence s.pendingAdd
        calls := .marked t ::ₘ calls }
  | queueAdd {s : State} {t : Timer} {calls : Multiset Call} : s.calls = .marked t ::ₘ calls →
      Step s .silent { s with
        functors := s.functors ++ [.add t]
        known := insert t.sequence s.known
        calls }
  -- `Cancel` in the loop thread
  | cancelInLoop {s : State} {sequence : ℕ} : s.InLoop → sequence ∈ s.known →
      Step s (.cancelled sequence) ((s.markCancel sequence).cancelInLoop sequence)
  -- `Cancel` elsewhere
  | request {s : State} {sequence : ℕ} : sequence ∈ s.known →
      Step s (.requested sequence) { s.markCancel sequence with
        calls := .cancelling sequence ::ₘ s.calls }
  | queueCancel {s : State} {sequence : ℕ} {calls : Multiset Call} :
      s.calls = .cancelling sequence ::ₘ calls →
      Step s .silent { s with functors := s.functors ++ [.cancel sequence], calls }
  -- the functors of the loop
  | runAdd {s s' : State} {t : Timer} {functors : List Functor} {l : Label} : s.mode = .idle →
      s.functors = .add t :: functors → { s with functors }.addTimerInLoop t = (s', l) → Step s l s'
  | runCancel {s : State} {sequence : ℕ} {functors : List Functor} : s.mode = .idle →
      s.functors = .cancel sequence :: functors →
      Step s (.cancelled sequence) ({ s with functors }.cancelInLoop sequence)
  -- `HandleRead`
  | beginRead {s : State} (now : ℤ) : s.mode = .idle → Step s .read (s.beginRead now)
  | skip {s : State} {t : Timer} {batch rest : List Timer} : s.mode = .running batch (t :: rest) none →
      t.sequence ∈ s.canceling → Step s .silent { s with mode := .running batch rest none }
  | start {s : State} {t : Timer} {batch rest : List Timer} :
      s.mode = .running batch (t :: rest) none → t.sequence ∉ s.canceling →
      Step s (.start t) { s with mode := .running batch rest (some t) }
  | finish {s : State} {t : Timer} {batch rest : List Timer} :
      s.mode = .running batch rest (some t) →
      Step s .silent { s with mode := .running batch rest none }
  | endRead {s : State} {batch : List Timer} (restartTime : ℤ) : s.mode = .running batch [] none →
      Step s .silent (s.endRead restartTime batch)

/-! ## What a run did -/

/-- The timers started so far in the `HandleRead` that began last, in order. -/
def startsOfRead : List Label → List Timer → List Timer
  | [], acc => acc
  | .read :: ls, _ => startsOfRead ls []
  | .start t :: ls, acc => startsOfRead ls (acc ++ [t])
  | _ :: ls, acc => startsOfRead ls acc

def startCount (sequence : ℕ) (ls : List Label) : ℕ :=
  ls.countP fun
    | .start t => t.sequence == sequence
    | _ => false

end TinyImx.Net.TimerQueue
