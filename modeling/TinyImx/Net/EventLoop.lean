import Mathlib.Logic.Function.Basic
import Mathlib.Algebra.Ring.Nat
import TinyImx.Lib.Run

/-!
# The event loop

`Loop` waits for events, handles them, and runs the functors that were queued.  Any thread queues
functors under a mutex and stops the loop by a flag; it then writes the eventfd that the loop waits
for, unless it is the loop thread and will not need it.

One step is one access to what the threads share, so a queued functor and its wake-up are two steps,
and so are a requested quit and its wake-up.  Handlers of events, functors, and the destructors of
functors are code of the user on the loop thread: while one of them runs, that thread may call the
event loop.  The number of events that one wait can report is left out, since the loop handles any
number of them.
-/

namespace TinyImx.Net.EventLoop

inductive Caller (τ : Type)
  | loop
  | other (t : τ)
  deriving DecidableEq

structure Functor (τ : Type) where
  caller : Caller τ
  serial : ℕ
  deriving DecidableEq

/-- An event of `epoll_wait`: the eventfd is readable, or something of the user's is. -/
inductive Event
  | wakeup
  | channel
  deriving DecidableEq

inductive Phase (τ : Type)
  /-- Not in `Loop`. -/
  | outside
  /-- `looping_` is set, and `quit_` is not yet cleared. -/
  | entered
  | check
  /-- In `epoll_wait`. -/
  | waiting
  | handling (events : List Event)
  /-- In `DoPendingFunctors`, before the swap. -/
  | draining
  | running (functors : List (Functor τ))
  /-- Leaving `DoPendingFunctors`, where the functors are destroyed. -/
  | dropping
  /-- `quit_` was found set, and `looping_` is not yet cleared. -/
  | leaving
  deriving DecidableEq

namespace Phase

variable {τ : Type}

def batch : Phase τ → List (Functor τ)
  | .running functors => functors
  | _ => []

def userCode : Phase τ → Bool
  | .outside => true
  | .handling (.channel :: _) => true
  | .running (_ :: _) => true
  | .dropping => true
  | _ => false

def swaps : Phase τ → Bool
  | .handling _ => true
  | .draining => true
  | _ => false

end Phase

structure State (τ : Type) where
  quit : Bool
  looping : Bool
  callingPendingFunctors : Bool
  pendingFunctors : List (Functor τ)
  unread : ℕ
  phase : Phase τ
  writing : Caller τ → Bool
  queued : List (Functor τ)
  ran : List (Functor τ)
  /-- The functors that `RunInLoop` called at once. -/
  direct : ℕ
  /-- The functors that a thread queued before it called `Quit`. -/
  owed : List (Functor τ)
  /-- `Quit` was called, and no `Loop` has returned since. -/
  requested : Bool

inductive Act (τ : Type)
  /-- `QueueInLoop` up to the wake-up. -/
  | queueInLoop (c : Caller τ)
  | runInLoop (c : Caller τ)
  /-- `Quit` up to the wake-up. -/
  | quit (c : Caller τ)
  /-- `Wakeup`. -/
  | wakeup (c : Caller τ)
  /-- The loop thread calls `Loop`. -/
  | loop
  | clearQuit
  | checkQuit
  /-- `epoll_wait` fails with `EINTR`. -/
  | interrupted
  | ready (events : List Event)
  | handleEvent
  | callPending
  | swap
  | functorReturns
  | callPendingDone
  | dropped
  | leave
  deriving DecidableEq

namespace Act

def isLoop {τ : Type} : Act τ → Bool
  | .queueInLoop _ | .runInLoop _ | .quit _ | .wakeup _ | .loop => false
  | _ => true

end Act

namespace State

variable {τ : Type}

def init : State τ where
  quit := false
  looping := false
  callingPendingFunctors := false
  pendingFunctors := []
  unread := 0
  phase := .outside
  writing := fun _ => false
  queued := []
  ran := []
  direct := 0
  owed := []
  requested := false

def free (s : State τ) : Caller τ → Bool
  | .loop => !s.writing .loop && s.phase.userCode
  | .other t => !s.writing (.other t)

variable [DecidableEq τ]

def kMaxUnread : ℕ := 2 ^ 64 - 2

def push (s : State τ) (c : Caller τ) : State τ :=
  let f : Functor τ := ⟨c, s.queued.length⟩
  { s with
    pendingFunctors := s.pendingFunctors ++ [f]
    queued := s.queued ++ [f]
    writing := Function.update s.writing c (c ≠ .loop || s.callingPendingFunctors) }

def storeQuit (s : State τ) (c : Caller τ) : State τ :=
  { s with
    quit := true
    requested := true
    owed := s.owed ++ s.queued.filter (·.caller = c)
    writing := Function.update s.writing c (c ≠ .loop) }

def write (s : State τ) (c : Caller τ) : State τ :=
  { s with
    unread := if s.unread < kMaxUnread then s.unread + 1 else s.unread
    writing := Function.update s.writing c false }

end State

namespace State

variable {τ : Type} [DecidableEq τ]

/-- The thread can take the step.  `epoll_wait` reports the eventfd only if it is readable, and does
not come back empty-handed or interrupted if it is. -/
def enabled (s : State τ) : Act τ → Bool
  | .queueInLoop c | .runInLoop c | .quit c => s.free c
  | .wakeup c => s.writing c
  | .loop => s.free .loop
  | .clearQuit => !s.writing .loop && s.phase = .entered
  | .checkQuit => !s.writing .loop && s.phase = .check
  | .interrupted => !s.writing .loop && s.phase = .waiting && s.unread = 0
  | .ready events => !s.writing .loop && s.phase = .waiting &&
      (if s.unread = 0 then events.all (· = .channel) else events ≠ [])
  | .handleEvent => !s.writing .loop && match s.phase with
      | .handling (_ :: _) => true
      | _ => false
  | .callPending => !s.writing .loop && s.phase = .handling []
  | .swap => !s.writing .loop && s.phase = .draining
  | .functorReturns => !s.writing .loop && match s.phase with
      | .running (_ :: _) => true
      | _ => false
  | .callPendingDone => !s.writing .loop && s.phase = .running []
  | .dropped => !s.writing .loop && s.phase = .dropping
  | .leave => !s.writing .loop && s.phase = .leaving

def apply (s : State τ) : Act τ → State τ
  | .queueInLoop c => s.push c
  | .runInLoop .loop => { s with direct := s.direct + 1 }
  | .runInLoop c => s.push c
  | .quit c => s.storeQuit c
  | .wakeup c => s.write c
  -- a call while the loop is running comes back at once
  | .loop => if s.looping then s else { s with looping := true, phase := .entered }
  | .clearQuit => { s with quit := false, phase := .check }
  | .checkQuit => { s with phase := if s.quit then .leaving else .waiting }
  | .interrupted => { s with phase := .check }
  | .ready events => { s with phase := .handling events }
  | .handleEvent => match s.phase with
      | .handling (.wakeup :: events) => { s with unread := 0, phase := .handling events }
      | .handling (.channel :: events) => { s with phase := .handling events }
      | _ => s
  | .callPending => { s with callingPendingFunctors := true, phase := .draining }
  | .swap => { s with pendingFunctors := [], phase := .running s.pendingFunctors }
  | .functorReturns => match s.phase with
      | .running (f :: functors) => { s with ran := s.ran ++ [f], phase := .running functors }
      | _ => s
  | .callPendingDone => { s with callingPendingFunctors := false, phase := .dropping }
  | .dropped => { s with phase := .check }
  | .leave => { s with looping := false, phase := .outside, requested := false }

end State

def Step {τ : Type} [DecidableEq τ] (s : State τ) (a : Act τ) (s' : State τ) : Prop :=
  s.enabled a = true ∧ s' = s.apply a

/-- The step is not one of those that lose a functor or a request:

* `Loop` is not begun, and has not just begun, when `Quit` is called: it would forget the request;
* `Quit` is not called with a functor of the caller in a queue that the loop has already swapped
  for the last time;
* the loop thread does not queue a functor where it is neither handling an event nor running a
  functor, since it would not be woken for it. -/
def Good {τ : Type} (s : State τ) : Act τ → Prop
  | .loop => s.looping = false → s.requested = false
  | .quit c => s.phase ≠ .entered ∧
      ((∃ f ∈ s.pendingFunctors, f.caller = c) → s.phase = .waiting ∨ s.phase.swaps = true)
  | .queueInLoop .loop => s.phase ≠ .outside ∧ s.phase ≠ .dropping
  | _ => True

instance {τ : Type} [DecidableEq τ] (s : State τ) : DecidablePred (Good s)
  | .loop => inferInstanceAs (Decidable (_ → _))
  | .quit _ => inferInstanceAs (Decidable (_ ∧ _))
  | .queueInLoop .loop => inferInstanceAs (Decidable (_ ∧ _))
  | .queueInLoop (.other _) | .runInLoop _ | .wakeup _ | .clearQuit | .checkQuit | .interrupted
  | .ready _ | .handleEvent | .callPending | .swap | .functorReturns | .callPendingDone | .dropped
  | .leave => inferInstanceAs (Decidable True)

def GoodStep {τ : Type} [DecidableEq τ] (s : State τ) (a : Act τ) (s' : State τ) : Prop :=
  Step s a s' ∧ Good s a

end TinyImx.Net.EventLoop
