import Mathlib.Data.Multiset.Basic
import Mathlib.Algebra.Ring.Nat
import TinyImx.Lib.Run

/-!
# The thread pool

`ThreadPool` runs tasks from one bounded queue.  Its workers are fixed in number, or a manager
thread adds workers and asks workers to leave.  Every access to the queue's mutex and every load or
store of an atomic variable is a step of its own; waits may end at any time their condition allows,
and a `PopFor` may time out whenever the queue has nothing for it.

Tasks are named by the order of their submissions.  `should_exit` of a worker slot is never set and
is left out, and so are the counters and times that only `GetStats` reads.
-/

namespace TinyImx.Concurrency.ThreadPool

inductive PoolState where
  | created
  | running
  | paused
  | shuttingDown
  | forceStopping
  | stopped
  deriving DecidableEq

inductive QueueFullPolicy where
  | block
  | discard
  | overwrite
  deriving DecidableEq

structure Options where
  workerThreads : ℕ
  queueCapacity : ℕ
  queueFullPolicy : QueueFullPolicy
  enableDynamicResize : Bool
  minThreads : ℕ
  maxThreads : ℕ
  /-- The usage of the queue reaches `scale_up_threshold`, by its size. -/
  scaleUp : ℕ → Bool
  /-- The usage of the queue is at most `scale_down_threshold`, by its size. -/
  scaleDown : ℕ → Bool
  workerThreads_pos : 0 < workerThreads
  queueCapacity_pos : 0 < queueCapacity

/-! ## The queue -/

/-- `MpmcBlockingQueue`. -/
structure Queue where
  items : List ℕ
  stopped : Bool
  forceStopped : Bool
  overrunCounter : ℕ
  discardCounter : ℕ
  shutdownDiscardCounter : ℕ

inductive PushResult where
  | ok
  | discarded
  | stopped

namespace Queue

def empty : Queue := ⟨[], false, false, 0, 0, 0⟩

def full (capacity : ℕ) (q : Queue) : Bool := q.items.length = capacity

/-- `Push`, when it does not wait: the result and the task that was dropped for it. -/
def push (capacity : ℕ) (policy : QueueFullPolicy) (task : ℕ) (q : Queue) :
    PushResult × Option ℕ × Queue :=
  if q.stopped then (.stopped, none, q)
  else if q.full capacity then
    match policy with
    | .block => (.discarded, none, q)
    | .discard => (.discarded, none, { q with discardCounter := q.discardCounter + 1 })
    | .overwrite =>
      match q.items with
      | [] => (.discarded, none, { q with discardCounter := q.discardCounter + 1 })
      | front :: items => (.ok, some front, { q with
          items := items ++ [task]
          overrunCounter := q.overrunCounter + 1 })
  else (.ok, none, { q with items := q.items ++ [task] })

def pushReady (capacity : ℕ) (policy : QueueFullPolicy) (q : Queue) : Bool :=
  policy ≠ .block || q.stopped || !q.full capacity

def stop (discardPendingTasks : Bool) (q : Queue) : List ℕ × Queue :=
  if discardPendingTasks then
    (q.items, { q with
      stopped := true
      forceStopped := true
      shutdownDiscardCounter := q.shutdownDiscardCounter + q.items.length
      items := [] })
  else ([], { q with stopped := true })

end Queue

/-! ## The threads -/

/-- The loads of `ShouldWorkerExitForScaleDown`, in order. -/
inductive Stage where
  | state
  | size
  | pending
  | count (pending : ℕ)
  | exchange (pending : ℕ)

inductive Worker where
  /-- In `ShouldWorkerExitForScaleDown`, at the head of the loop or after a pop without a task. -/
  | scaling (stage : Stage) (idle : Bool)
  | popping
  | failed
  | popped (task : ℕ)
  /-- In `WaitIfPaused`, not paused. -/
  | waited (task : ℕ)
  | cleared (task : ℕ)
  | running (task : ℕ)
  | leaving
  | left
  | exited

def Worker.top (o : Options) : Worker :=
  if o.enableDynamicResize then .scaling .state false else .popping

def Worker.stay (o : Options) (idle : Bool) : Worker := if idle then .top o else .popping

inductive Manager where
  | off
  | sleeping
  | looking
  | sized (size : ℕ)
  | counted (size current : ℕ)
  | ready (size current active : ℕ)
  | adding
  | exited

inductive ShutdownMode where
  | graceful
  | force
  | timeout
  deriving DecidableEq

/-- The holder of `lifecycle_mutex_`: `Start`, with the workers it has to add, or `Shutdown`. -/
inductive Lifecycle where
  | idle
  | starting (count : ℕ)
  | stopManager (mode : ShutdownMode)
  | joinManager (mode : ShutdownMode)
  | mark (mode : ShutdownMode)
  | stopQueue (mode : ShutdownMode)
  | waiting
  | forcing
  | joining (forced : Bool)
  | marking (forced : Bool)
  | returned (forced : Bool)

structure State where
  state : PoolState
  queue : Queue
  workers : Multiset Worker
  /-- Submissions that have passed `IsAcceptingTasks`. -/
  producers : Multiset (ℕ × QueueFullPolicy)
  nextTask : ℕ
  currentWorkers : ℕ
  activeThreads : ℕ
  exitedWorkers : ℕ
  pendingExits : ℕ
  managerRunning : Bool
  manager : Manager
  lifecycle : Lifecycle

def State.initial : State :=
  ⟨.created, .empty, 0, 0, 0, 0, 0, 0, 0, false, .off, .idle⟩

def PoolState.accepting (state : PoolState) : Bool := state = .running || state = .paused

def PoolState.stopping (state : PoolState) : Bool :=
  state = .shuttingDown || state = .forceStopping || state = .stopped

def PoolState.forced (state : PoolState) : Bool := state = .forceStopping || state = .stopped

inductive Label where
  | silent
  | accepted (task : ℕ) (overwritten : Option ℕ)
  | rejected (task : ℕ)
  | ran (task : ℕ)
  /-- `Stop` discarded the tasks of the queue. -/
  | discarded (tasks : List ℕ)
  | leaves
  | dropped (task : ℕ)

inductive Worker.Step (o : Options) : State → Worker → Label → State → Worker → Prop
  | stateOk {s : State} {idle : Bool} : s.state.accepting = true →
      Step o s (.scaling .state idle) .silent s (.scaling .size idle)
  | stateNo {s : State} {idle : Bool} : s.state.accepting = false →
      Step o s (.scaling .state idle) .silent s (.stay o idle)
  | sizeOk {s : State} {idle : Bool} : s.queue.items = [] →
      Step o s (.scaling .size idle) .silent s (.scaling .pending idle)
  | sizeNo {s : State} {idle : Bool} : s.queue.items ≠ [] →
      Step o s (.scaling .size idle) .silent s (.stay o idle)
  | pendingOk {s : State} {idle : Bool} : 0 < s.pendingExits →
      Step o s (.scaling .pending idle) .silent s (.scaling (.count s.pendingExits) idle)
  | pendingNo {s : State} {idle : Bool} : s.pendingExits = 0 →
      Step o s (.scaling .pending idle) .silent s (.stay o idle)
  | countOk {s : State} {idle : Bool} {pending : ℕ} : o.minThreads < s.currentWorkers →
      Step o s (.scaling (.count pending) idle) .silent s (.scaling (.exchange pending) idle)
  | countNo {s : State} {idle : Bool} {pending : ℕ} : s.currentWorkers ≤ o.minThreads →
      Step o s (.scaling (.count pending) idle) .silent s (.stay o idle)
  | exchangeOk {s : State} {idle : Bool} {pending : ℕ} : s.pendingExits = pending →
      Step o s (.scaling (.exchange pending) idle) .leaves
        { s with pendingExits := pending - 1 } .leaving
  | exchangeNo {s : State} {idle : Bool} {pending : ℕ} :
      Step o s (.scaling (.exchange pending) idle) .silent s
        (if 0 < s.pendingExits then .scaling (.count s.pendingExits) idle else .stay o idle)
  | pop {s : State} {task : ℕ} {items : List ℕ} : s.queue.forceStopped = false →
      s.queue.items = task :: items →
      Step o s .popping .silent { s with queue := { s.queue with items } } (.popped task)
  | popStopped {s : State} : s.queue.forceStopped = true ∨ s.queue.stopped = true ∧
      s.queue.items = [] →
      Step o s .popping .silent s .failed
  | popTimedOut {s : State} : o.enableDynamicResize = true → s.queue.forceStopped = false →
      s.queue.items = [] → s.queue.stopped = false → Step o s .popping .silent s .failed
  | failedLeave {s : State} : s.state.stopping = true → Step o s .failed .leaves s .leaving
  | failedStay {s : State} : s.state.stopping = false →
      Step o s .failed .silent s
        (if o.enableDynamicResize then .scaling .state true else .top o)
  | resume {s : State} {task : ℕ} : s.state ≠ .paused →
      Step o s (.popped task) .silent s (.waited task)
  | waitedDrop {s : State} {task : ℕ} : s.state.forced = true →
      Step o s (.waited task) (.dropped task) s .leaving
  | waitedOk {s : State} {task : ℕ} : s.state.forced = false →
      Step o s (.waited task) .silent s (.cleared task)
  | clearedDrop {s : State} {task : ℕ} : s.state.forced = true →
      Step o s (.cleared task) (.dropped task) s .leaving
  | clearedOk {s : State} {task : ℕ} : s.state.forced = false →
      Step o s (.cleared task) .silent { s with activeThreads := s.activeThreads + 1 }
          (.running task)
  | run {s : State} {task : ℕ} :
      Step o s (.running task) (.ran task) { s with activeThreads := s.activeThreads - 1 } (.top o)
  | leave {s : State} :
      Step o s .leaving .silent { s with currentWorkers := s.currentWorkers - 1 } .left
  | exit {s : State} :
      Step o s .left .silent { s with exitedWorkers := s.exitedWorkers + 1 } .exited

inductive Step (o : Options) : State → Label → State → Prop
  | worker {s s' : State} {w w' : Worker} {workers : Multiset Worker} {l : Label} :
      s.workers = w ::ₘ workers → Worker.Step o s w l s' w' →
      Step o s l { s' with workers := w' ::ₘ workers }
  -- `TrySubmit` and `Submit`
  | submit {s : State} {policy : QueueFullPolicy} : policy = .discard ∨ policy = o.queueFullPolicy →
      s.state.accepting = true →
      Step o s .silent { s with
        nextTask := s.nextTask + 1
        producers := (s.nextTask, policy) ::ₘ s.producers }
  | refuse {s : State} : s.state.accepting = false →
      Step o s (.rejected s.nextTask) { s with nextTask := s.nextTask + 1 }
  | push {s : State} {task : ℕ} {policy : QueueFullPolicy}
      {producers : Multiset (ℕ × QueueFullPolicy)}
      {overwritten : Option ℕ} {queue : Queue} : s.producers = (task, policy) ::ₘ producers →
      s.queue.pushReady o.queueCapacity policy = true →
      s.queue.push o.queueCapacity policy task = (.ok, overwritten, queue) →
      Step o s (.accepted task overwritten) { s with queue, producers }
  | pushNo {s : State} {task : ℕ} {policy : QueueFullPolicy}
      {producers : Multiset (ℕ × QueueFullPolicy)} {overwritten : Option ℕ} {queue : Queue}
      {result : PushResult} : s.producers = (task, policy) ::ₘ producers →
      s.queue.pushReady o.queueCapacity policy = true →
      s.queue.push o.queueCapacity policy task = (result, overwritten, queue) → result ≠ .ok →
      Step o s (.rejected task) { s with queue, producers }
  -- `Pause` and `Resume`
  | pause {s : State} : s.state = .running → Step o s .silent { s with state := .paused }
  | resume {s : State} : s.state = .paused → Step o s .silent { s with state := .running }
  -- `Start`
  | start {s : State} : s.lifecycle = .idle → s.state = .created →
      Step o s .silent { s with state := .running, lifecycle := .starting o.workerThreads }
  | addWorker {s : State} {count : ℕ} : s.lifecycle = .starting (count + 1) →
      s.currentWorkers < (if o.enableDynamicResize then o.maxThreads else o.workerThreads) →
      Step o s .silent { s with
        workers := .top o ::ₘ s.workers
        currentWorkers := s.currentWorkers + 1
        lifecycle := .starting count }
  | started {s : State} : s.lifecycle = .starting 0 →
      Step o s .silent { s with
        managerRunning := o.enableDynamicResize
        manager := if o.enableDynamicResize then .sleeping else .off
        lifecycle := .idle }
  -- `ManagerLoop`
  | wake {s : State} : s.manager = .sleeping → s.managerRunning = true → s.state.accepting = true →
      Step o s .silent { s with manager := .looking }
  | managerExit {s : State} : s.manager = .sleeping →
      s.managerRunning = false ∨ s.state.accepting = false →
      Step o s .silent { s with manager := .exited }
  | cooldown {s : State} : s.manager = .looking → Step o s .silent { s with manager := .sleeping }
  | readSize {s : State} : s.manager = .looking →
      Step o s .silent { s with manager := .sized s.queue.items.length }
  | readCurrent {s : State} {size : ℕ} : s.manager = .sized size →
      Step o s .silent { s with manager := .counted size s.currentWorkers }
  | readActive {s : State} {size current : ℕ} : s.manager = .counted size current →
      Step o s .silent { s with manager := .ready size current s.activeThreads }
  | scaleUp {s : State} {size current active : ℕ} : s.manager = .ready size current active →
      o.scaleUp size = true → current < o.maxThreads → s.currentWorkers < o.maxThreads →
      Step o s .silent { s with workers := .top o ::ₘ s.workers, manager := .adding }
  | scaleUpNo {s : State} {size current active : ℕ} : s.manager = .ready size current active →
      o.scaleUp size = true → current < o.maxThreads → o.maxThreads ≤ s.currentWorkers →
      Step o s .silent { s with manager := .sleeping }
  | added {s : State} : s.manager = .adding →
      Step o s .silent { s with currentWorkers := s.currentWorkers + 1, manager := .sleeping }
  | scaleDown {s : State} {size current active : ℕ} : s.manager = .ready size current active →
      ¬ (o.scaleUp size = true ∧ current < o.maxThreads) → o.scaleDown size = true → size = 0 →
      active = 0 → o.minThreads < current → o.minThreads < s.currentWorkers →
      Step o s .silent { s with pendingExits := s.pendingExits + 1, manager := .sleeping }
  | keepSize {s : State} {size current active : ℕ} : s.manager = .ready size current active →
      ¬ (o.scaleUp size = true ∧ current < o.maxThreads) →
      ¬ (o.scaleDown size = true ∧ size = 0 ∧ active = 0 ∧ o.minThreads < current ∧
        o.minThreads < s.currentWorkers) →
      Step o s .silent { s with manager := .sleeping }
  -- `Shutdown`
  | shutdownCreated {s : State} : s.lifecycle = .idle → s.state = .created →
      Step o s .silent { s with state := .stopped, lifecycle := .returned false }
  | shutdown {s : State} (mode : ShutdownMode) : s.lifecycle = .idle → s.state ≠ .created →
      s.state ≠ .stopped → Step o s .silent { s with lifecycle := .stopManager mode }
  | stopManager {s : State} {mode : ShutdownMode} : s.lifecycle = .stopManager mode →
      Step o s .silent { s with
        managerRunning := false
        lifecycle := if s.managerRunning then .joinManager mode else .mark mode }
  | joinManager {s : State} {mode : ShutdownMode} : s.lifecycle = .joinManager mode →
      s.manager = .exited → Step o s .silent { s with lifecycle := .mark mode }
  | mark {s : State} {mode : ShutdownMode} : s.lifecycle = .mark mode →
      Step o s .silent { s with
        state := if mode = .force then .forceStopping else .shuttingDown
        lifecycle := .stopQueue mode }
  | stopQueue {s : State} {mode : ShutdownMode} {tasks : List ℕ} {queue : Queue} :
      s.lifecycle = .stopQueue mode → s.queue.stop (mode = .force) = (tasks, queue) →
      Step o s (.discarded tasks) { s with
        queue
        lifecycle := if mode = .timeout then .waiting else .joining (mode = .force) }
  | waited {s : State} : s.lifecycle = .waiting → o.workerThreads ≤ s.exitedWorkers →
      Step o s .silent { s with lifecycle := .joining false }
  | timedOut {s : State} : s.lifecycle = .waiting →
      Step o s .silent { s with state := .forceStopping, lifecycle := .forcing }
  | force {s : State} {tasks : List ℕ} {queue : Queue} : s.lifecycle = .forcing →
      s.queue.stop true = (tasks, queue) →
      Step o s (.discarded tasks) { s with queue, lifecycle := .joining true }
  | join {s : State} {forced : Bool} : s.lifecycle = .joining forced →
      (∀ w ∈ s.workers, w = .exited) → Step o s .silent { s with lifecycle := .marking forced }
  | finish {s : State} {forced : Bool} : s.lifecycle = .marking forced →
      Step o s .silent { s with state := .stopped, lifecycle := .returned forced }

end TinyImx.Concurrency.ThreadPool
