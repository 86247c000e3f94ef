import Mathlib.Data.Finset.Card
import Mathlib.Data.Multiset.Count
import Mathlib.Logic.Function.Basic
import TinyImx.Lib.Pool

/-!
# The business executor

`BusinessExecutor` runs tasks on a thread pool and keeps the tasks of one ordering key in order: a
stripe, or with `isolate_ordering_keys` a lane of its own for each key, is drained by one job at a
time.  Each critical section and each atomic update is a step, and so is each call of the pool, of a
callback or of a dispatcher; what the callbacks answer, and when `done` is called, is open.

A `Lane` is a stripe or a key's lane.  The last fields of `State` are not in the source: they record the
accepted tasks, the lanes that lost their drainer, and the order in which tasks of a lane move on.
-/

namespace TinyImx.Gateway.Executor

/-- The options that `Start` accepts. -/
structure Options where
  workers : ℕ
  maxPending : ℕ
  stripeCount : ℕ
  perStripeCapacity : ℕ
  /-- `isolate_ordering_keys` -/
  isolate : Bool
  workers_pos : 0 < workers
  maxPending_pos : 0 < maxPending
  stripeCount_pos : 0 < stripeCount
  perStripeCapacity_pos : 0 < perStripeCapacity
  perStripeCapacity_le : perStripeCapacity ≤ maxPending

def Options.poolCapacity (o : Options) : ℕ := o.maxPending * 2 + o.stripeCount + o.workers

/-- A task; `id` numbers the `Submit`s in the order of their admission sections. -/
structure Task where
  id : ℕ
  /-- `ordering_key` -/
  key : Option ℕ
  /-- whether it has `async_work` in place of `work` -/
  isAsync : Bool
  /-- the policy is `kCancelable` -/
  cancelable : Bool
  hasDispatcher : Bool
  /-- whether it has a `deadline_expired_before_start_completion` -/
  hasTerminal : Bool
  deriving DecidableEq

/-- A stripe, or the lane of a key in a stripe. -/
inductive Lane where
  | stripe (index : ℕ)
  | key (index key : ℕ)
  deriving DecidableEq

def Lane.index : Lane → ℕ
  | stripe i | key i _ => i

def Options.keyLane (o : Options) (k : ℕ) : Lane :=
  if o.isolate then .key (k % o.stripeCount) k else .stripe (k % o.stripeCount)

def Options.lane (o : Options) (t : Task) : Option Lane := t.key.map o.keyLane

/-- A job in the pool's queue: `ExecuteTask`, a drainer, or a continuation of an async task. -/
inductive Job where
  | task (t : Task)
  | drain (l : Lane)
  | resume (t : Task)
  deriving DecidableEq

/-- The six totals in which an accepted task can end. -/
inductive Reason where
  | completed
  | workerException
  | completionException
  | completionDropped
  | deadlineExpired
  | cancelled
  deriving DecidableEq

/-- Where a `Submit` is inside its admission section. -/
inductive Phase where
  /-- the pending slot is reserved -/
  | reserved
  /-- the task is queued, and its lane needs a drainer -/
  | schedule
  /-- the pool refused the drainer -/
  | unwind
  | reject
  | accept
  deriving DecidableEq

/-- What is recorded of the tasks of a lane: that they start, and that a dispatcher has them. -/
inductive Mark where
  | started
  | handed
  deriving DecidableEq

structure State where
  /-- `submitted_total_`, as of the admission sections -/
  submitted : ℕ
  accepting : Bool
  /-- the `Submit` that holds `admission_mutex_` -/
  admission : Option (Task × Phase)
  /-- `current_pending_tasks_` -/
  pending : ℕ
  queue : Lane → List Task
  /-- the stripes with `running` set, the keys that have a lane -/
  running : Finset Lane
  isolatedPending : ℕ → ℕ
  /-- the pool's queue -/
  jobs : List Job
  /-- the async tasks whose `async_work` was called and whose `async_finished` is not set -/
  suspended : Multiset Task
  acceptedTotal : ℕ
  totals : Reason → ℕ
  accepted : List Task
  /-- the lanes whose drainer was lost -/
  lost : Multiset Lane
  /-- the tasks of a lane in the order they were taken, started and handed to a dispatcher -/
  taken : Lane → List Task
  marks : Mark × Lane → List Task

/-- Where a thread goes on from when it is done with a task. -/
inductive Place where
  /-- a pool worker waits for its next job, another thread ends -/
  | rest (worker : Bool)
  /-- the top of the loop of `DrainStripe` or `DrainKey` -/
  | drain (l : Lane)
  /-- `DrainKey` before `CompleteKeyTask` -/
  | complete (t : Task) (l : Lane)
  /-- `FinishAsync` after the completion; `worker` says whether it runs on a pool worker -/
  | handover (t : Task) (worker : Bool)
  /-- `FinishAsync` before it posts the drainer of a key -/
  | post (l : Lane) (worker : Bool)

/-- How an async task ends. -/
inductive Outcome where
  | error
  | empty
  | completion
  deriving DecidableEq

inductive Thread where
  /-- the callers of the executor: `Submit`, `BeginDrain`, and the closures of the async tasks -/
  | outside
  | at (place : Place)
  /-- `ExecuteTask` at its start, called by the drainer of a lane or by the pool -/
  | exec (t : Task) (back : Option Lane)
  | working (t : Task) (back : Option Lane)
  /-- inside `async_work` -/
  | starting (t : Task)
  | resuming (t : Task)
  /-- before `PostInternal` of a continuation -/
  | posting (t : Task)
  /-- `FinishAsync` at its start -/
  | finishing (t : Task) (outcome : Outcome) (worker : Bool)
  /-- `DispatchCompletion` -/
  | dispatch (t : Task) (next : Place)
  /-- `DispatchDeadlineTerminal` -/
  | terminal (t : Task) (next : Place)
  /-- before the update of a total -/
  | count (t : Task) (reason : Reason) (next : Place)
  /-- before `ReleasePending` -/
  | release (t : Task) (next : Place)
  /-- the completion that a dispatcher has been given and will run -/
  | completing (t : Task) (isTerminal : Bool)

/-- Where a drainer or a pool worker goes on from after a task that is not async. -/
def after (t : Task) : Option Lane → Place
  | none => .rest true
  | some (.stripe i) => .drain (.stripe i)
  | some (.key i k) => .complete t (.key i k)

/-! ## Functions of the executor -/

def State.push (s : State) (j : Job) : State := { s with jobs := s.jobs ++ [j] }

def State.enqueue (s : State) (l : Lane) (t : Task) : State :=
  { s with queue := Function.update s.queue l (s.queue l ++ [t]) }

def State.takeSlot (s : State) (l : Lane) : State :=
  { s with
    isolatedPending := Function.update s.isolatedPending l.index (s.isolatedPending l.index + 1) }

/-- The slot that `CompleteKeyTask`, or a submit that the pool refused, gives back. -/
def State.giveSlot (s : State) (l : Lane) : State :=
  { s with
    isolatedPending := Function.update s.isolatedPending l.index (s.isolatedPending l.index - 1) }

def State.retire (s : State) (l : Lane) : State := { s with running := s.running.erase l }

def State.dequeue (s : State) (l : Lane) (t : Task) (rest : List Task) : State :=
  { s with
    queue := Function.update s.queue l rest
    taken := Function.update s.taken l (s.taken l ++ [t]) }

def State.mark (s : State) (m : Mark) : Option Lane → Task → State
  | none, _ => s
  | some l, t => { s with marks := Function.update s.marks (m, l) (s.marks (m, l) ++ [t]) }

def State.suspend (s : State) (t : Task) : State := { s with suspended := t ::ₘ s.suspended }

def State.countTask (s : State) (reason : Reason) : State :=
  { s with totals := Function.update s.totals reason (s.totals reason + 1) }

def State.releasePending (s : State) : State := { s with pending := s.pending - 1 }

/-! ## Steps -/

/-- The steps of a `Submit` inside its admission section. -/
inductive Admit (o : Options) : State → State → Prop
  | unordered {s t} : s.admission = some (t, .reserved) → o.lane t = none →
      s.jobs.length < o.poolCapacity →
      Admit o s { s.push (.task t) with admission := some (t, .accept) }
  | unorderedFull {s t} : s.admission = some (t, .reserved) → o.lane t = none →
      o.poolCapacity ≤ s.jobs.length → Admit o s { s with admission := some (t, .reject) }
  | hotStripe {s t i} : s.admission = some (t, .reserved) → o.lane t = some (.stripe i) →
      o.perStripeCapacity ≤
        (s.queue (.stripe i)).length + (if Lane.stripe i ∈ s.running then 1 else 0) →
      Admit o s { s with admission := some (t, .reject) }
  | joinStripe {s t i} : s.admission = some (t, .reserved) → o.lane t = some (.stripe i) →
      (s.queue (.stripe i)).length + 1 < o.perStripeCapacity → .stripe i ∈ s.running →
      Admit o s { s.enqueue (.stripe i) t with admission := some (t, .accept) }
  | openStripe {s t i} : s.admission = some (t, .reserved) → o.lane t = some (.stripe i) →
      (s.queue (.stripe i)).length < o.perStripeCapacity → .stripe i ∉ s.running →
      Admit o s { s.enqueue (.stripe i) t with
        running := insert (.stripe i) s.running, admission := some (t, .schedule) }
  /-- the stripe of the key is full, or an allocation failed -/
  | hotKey {s t i k} : s.admission = some (t, .reserved) → o.lane t = some (.key i k) →
      Admit o s { s with admission := some (t, .reject) }
  | joinKey {s t i k} : s.admission = some (t, .reserved) → o.lane t = some (.key i k) →
      s.isolatedPending i < o.perStripeCapacity → .key i k ∈ s.running →
      Admit o s { (s.enqueue (.key i k) t).takeSlot (.key i k) with
        admission := some (t, .accept) }
  | openKey {s t i k} : s.admission = some (t, .reserved) → o.lane t = some (.key i k) →
      s.isolatedPending i < o.perStripeCapacity → .key i k ∉ s.running →
      Admit o s { (s.enqueue (.key i k) t).takeSlot (.key i k) with
        running := insert (.key i k) s.running, admission := some (t, .schedule) }
  | schedule {s t l} : s.admission = some (t, .schedule) → o.lane t = some l →
      s.jobs.length < o.poolCapacity →
      Admit o s { s.push (.drain l) with admission := some (t, .accept) }
  | scheduleFull {s t} : s.admission = some (t, .schedule) → o.poolCapacity ≤ s.jobs.length →
      Admit o s { s with admission := some (t, .unwind) }
  | unwindStripe {s t i} : s.admission = some (t, .unwind) → o.lane t = some (.stripe i) →
      Admit o s { s.retire (.stripe i) with
        queue := Function.update s.queue (.stripe i) [], admission := some (t, .reject) }
  | unwindKey {s t i k} : s.admission = some (t, .unwind) → o.lane t = some (.key i k) →
      Admit o s { (s.retire (.key i k)).giveSlot (.key i k) with
        queue := Function.update s.queue (.key i k) [], admission := some (t, .reject) }
  | reject {s t} : s.admission = some (t, .reject) →
      Admit o s { s with pending := s.pending - 1, admission := none }
  | accept {s t} : s.admission = some (t, .accept) →
      Admit o s { s with
        acceptedTotal := s.acceptedTotal + 1, accepted := t :: s.accepted, admission := none }

/-- What the callers of the executor do. -/
inductive Call (o : Options) : State → State → Multiset Thread → Prop
  | submit {s t} : t.id = s.submitted → s.admission = none → s.accepting →
      s.pending < o.maxPending → Call o s { s with
        submitted := s.submitted + 1, admission := some (t, .reserved)
        pending := s.pending + 1 } 0
  /-- an invalid task, an expired one, one after `BeginDrain`, or one above the budget -/
  | refuse {s} : Call o s { s with submitted := s.submitted + 1 } 0
  | enter {s s'} : Admit o s s' → Call o s s' 0
  | beginDrain {s} : s.admission = none → Call o s { s with accepting := false } 0
  /-- an async task hands over a continuation -/
  | post {s t} : t ∈ s.suspended → Call o s s {.posting t}
  /-- an async task calls `done` -/
  | done {s t} (outcome : Outcome) : Call o s s {.finishing t outcome false}

/-- What a thread of the executor may do next. -/
inductive Act (o : Options) : State → Thread → State → Multiset Thread → Prop
  | call {s s' new} : Call o s s' new → Act o s .outside s' (.outside ::ₘ new)
  | gone {s} : Act o s (.at (.rest false)) s 0
  | posted {s t} : s.jobs.length < o.poolCapacity → Act o s (.posting t) (s.push (.resume t)) 0
  /-- the pool is full, and `PostInternal` throws to its caller -/
  | notPosted {s t} : o.poolCapacity ≤ s.jobs.length → Act o s (.posting t) s 0
  | popTask {s t jobs} : s.jobs = .task t :: jobs →
      Act o s (.at (.rest true)) { s with jobs := jobs } {.exec t none}
  | popDrain {s l jobs} : s.jobs = .drain l :: jobs →
      Act o s (.at (.rest true)) { s with jobs := jobs } {.at (.drain l)}
  | popResume {s t jobs} : s.jobs = .resume t :: jobs → t ∈ s.suspended →
      Act o s (.at (.rest true)) { s with jobs := jobs } {.resuming t}
  | popStale {s t jobs} : s.jobs = .resume t :: jobs → t ∉ s.suspended →
      Act o s (.at (.rest true)) { s with jobs := jobs } {.at (.rest true)}
  | resumed {s t} : Act o s (.resuming t) s {.at (.rest true)}
  /-- the continuation threw -/
  | resumeThrow {s t} : Act o s (.resuming t) (s.countTask .workerException) {.at (.rest true)}
  | drainEmpty {s l} : s.queue l = [] → Act o s (.at (.drain l)) (s.retire l) {.at (.rest true)}
  | drainTake {s l t rest} : s.queue l = t :: rest →
      Act o s (.at (.drain l)) (s.dequeue l t rest) {.exec t (some l)}
  | expired {s t back} : t.cancelable →
      Act o s (.exec t back) s {.count t .deadlineExpired (after t back)}
  | cancelled {s t back} : t.cancelable →
      Act o s (.exec t back) s {.count t .cancelled (after t back)}
  /-- `still_valid` threw; `counted` says whether the job was posted by `PostInternal` -/
  | probeThrow {s t back} (counted : Bool) : t.cancelable → Act o s (.exec t back) { s with
      lost := back.elim s.lost (· ::ₘ s.lost)
      totals := if counted then (s.countTask .workerException).totals else s.totals } {.at (.rest true)}
  | work {s t back} : t.isAsync = false →
      Act o s (.exec t back) (s.mark .started back t) {.working t back}
  | asyncWork {s t back} : t.isAsync = true → Act o s (.exec t back)
      ((s.suspend t).mark .started back t) {.starting t}
  | workThrow {s t back} : Act o s (.working t back) s {.count t .workerException (after t back)}
  | workEmpty {s t back} : Act o s (.working t back) s {.count t .completed (after t back)}
  | workDone {s t back} : Act o s (.working t back) s {.dispatch t (after t back)}
  | asyncReturn {s t} : Act o s (.starting t) s {.at (.rest true)}
  | asyncThrow {s t} : Act o s (.starting t) s {.finishing t .error true}
  | finishAgain {s t outcome worker} : t ∉ s.suspended →
      Act o s (.finishing t outcome worker) s {.at (.rest worker)}
  | finishError {s t worker} : t ∈ s.suspended → Act o s (.finishing t .error worker)
      { s with suspended := s.suspended.erase t } {.count t .workerException (.handover t worker)}
  | finishEmpty {s t worker} : t ∈ s.suspended → Act o s (.finishing t .empty worker)
      { s with suspended := s.suspended.erase t } {.count t .completed (.handover t worker)}
  | finishDone {s t worker} : t ∈ s.suspended → Act o s (.finishing t .completion worker)
      { s with suspended := s.suspended.erase t } {.dispatch t (.handover t worker)}
  /-- no dispatcher, or the completion is not valid any more -/
  | drop {s t next} : Act o s (.dispatch t next) s {.count t .completionDropped next}
  | hand {s t next} : t.hasDispatcher → Act o s (.dispatch t next) (s.mark .handed (o.lane t) t)
      {.at next, .completing t false}
  | handThrow {s t next} : t.hasDispatcher → Act o s (.dispatch t next) (s.mark .handed (o.lane t) t)
      {.count t .completionDropped next}
  /-- no terminal response, no dispatcher, or the completion is not valid any more -/
  | quiet {s t next} : Act o s (.terminal t next) s {.release t next}
  | handTerminal {s t next} : t.hasTerminal → t.hasDispatcher →
      Act o s (.terminal t next) (s.mark .handed (o.lane t) t) {.at next, .completing t true}
  | handTerminalThrow {s t next} : t.hasTerminal → t.hasDispatcher →
      Act o s (.terminal t next) (s.mark .handed (o.lane t) t) {.release t next}
  /-- the dispatcher runs the completion: it is dropped at the second fence, it returns or throws -/
  | complete {s t} {reason : Reason} : reason = .completionDropped ∨ reason = .completed ∨
      reason = .completionException →
      Act o s (.completing t false) s {.count t reason (.rest false)}
  | completeTerminal {s t} : Act o s (.completing t true) s {.release t (.rest false)}
  | countDeadline {s t next} : Act o s (.count t .deadlineExpired next)
      (s.countTask .deadlineExpired) {.terminal t next}
  | count {s t next} {reason : Reason} : reason ≠ .deadlineExpired → Act o s (.count t reason next)
      (s.countTask reason) {.release t next}
  | release {s t next} : Act o s (.release t next) s.releasePending {.at next}
  | completeThrow {s t l} : l ∉ s.running ∨ s.isolatedPending l.index = 0 →
      Act o s (.at (.complete t l)) { s with lost := l ::ₘ s.lost } {.at (.rest true)}
  | completeEmpty {s t l} : l ∈ s.running → s.isolatedPending l.index ≠ 0 → s.queue l = [] →
      Act o s (.at (.complete t l)) ((s.retire l).giveSlot l) {.at (.rest true)}
  | completeMore {s t l} : l ∈ s.running → s.isolatedPending l.index ≠ 0 → s.queue l ≠ [] →
      Act o s (.at (.complete t l)) (s.giveSlot l) {.at (.drain l)}
  | handoverNone {s t worker} : o.lane t = none →
      Act o s (.at (.handover t worker)) s {.at (.rest worker)}
  | handoverStripe {s t i worker} : o.lane t = some (.stripe i) → s.jobs.length < o.poolCapacity →
      Act o s (.at (.handover t worker)) (s.push (.drain (.stripe i))) {.at (.rest worker)}
  | handoverFull {s t i worker} : o.lane t = some (.stripe i) → o.poolCapacity ≤ s.jobs.length →
      Act o s (.at (.handover t worker)) { s with lost := .stripe i ::ₘ s.lost }
        {.at (.rest worker)}
  | handoverThrow {s t i k worker} : o.lane t = some (.key i k) →
      .key i k ∉ s.running ∨ s.isolatedPending i = 0 → Act o s (.at (.handover t worker))
        { s with lost := .key i k ::ₘ s.lost } {.at (.rest worker)}
  | handoverEmpty {s t i k worker} : o.lane t = some (.key i k) → .key i k ∈ s.running →
      s.isolatedPending i ≠ 0 → s.queue (.key i k) = [] → Act o s (.at (.handover t worker))
        ((s.retire (.key i k)).giveSlot (.key i k)) {.at (.rest worker)}
  | handoverMore {s t i k worker} : o.lane t = some (.key i k) → .key i k ∈ s.running →
      s.isolatedPending i ≠ 0 → s.queue (.key i k) ≠ [] → Act o s (.at (.handover t worker))
        (s.giveSlot (.key i k)) {.at (.post (.key i k) worker)}
  | post {s l worker} : s.jobs.length < o.poolCapacity →
      Act o s (.at (.post l worker)) (s.push (.drain l)) {.at (.rest worker)}
  | postFull {s l worker} : o.poolCapacity ≤ s.jobs.length →
      Act o s (.at (.post l worker)) { s with lost := l ::ₘ s.lost } {.at (.rest worker)}

def Step (o : Options) : Pool State Thread → Pool State Thread → Prop :=
  Pool.Step (fun s _ t s' new => Act o s t s' new) fun _ _ _ => False

def init (o : Options) : Pool State Thread where
  shared :=
    { submitted := 0, accepting := true, admission := none, pending := 0, queue := fun _ => []
      running := ∅, isolatedPending := fun _ => 0, jobs := [], suspended := 0, acceptedTotal := 0
      totals := fun _ => 0, accepted := [], lost := 0, taken := fun _ => []
      marks := fun _ => [] }
  threads := .outside ::ₘ Multiset.replicate o.workers (.at (.rest true))

end TinyImx.Gateway.Executor
