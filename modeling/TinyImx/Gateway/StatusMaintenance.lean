import Mathlib.Algebra.BigOperators.Group.Multiset.Basic
import Mathlib.Algebra.Order.Group.Multiset
import Mathlib.Logic.Function.Basic
import TinyImx.Cache.OnlineStatus
import TinyImx.Lib.Run

/-!
# Online status maintenance

Jobs are submitted to an input queue; a collector moves them in batches to a second queue, and
workers take batches, drop the jobs that are late or no longer valid, refresh the rest in one call
and hand each job its result.  Every accepted job ends with one of six terminals.

A step is a piece of code under the mutex, or the answer of a callback.  When a wait with a time ends
is left open.
-/

namespace TinyImx.Gateway.StatusMaintenance

open TinyImx.Cache OnlineStatusCache

structure Options where
  workers : ℕ
  maxPending : ℕ
  maxBatch : ℕ
  flushDelay : ℤ
  defaultDeadline : ℤ

def Options.valid (o : Options) : Bool :=
  o.workers ≠ 0 && o.workers ≤ 8 && o.maxPending ≠ 0 && o.maxBatch ≠ 0 &&
    o.maxBatch ≤ kMaxRefreshBatchSize && 0 < o.flushDelay && 0 < o.defaultDeadline

/-- An accepted job; the accepted jobs are numbered.  `finished` says whether there is such a
callback. -/
structure Job where
  id : ℕ
  request : OnlineStatusRefreshRequest
  deadline : ℤ
  finished : Bool

/-- The argument of `TrySubmit`; the deadline zero stands for the default. -/
structure Submission where
  request : OnlineStatusRefreshRequest
  deadline : ℤ
  stillValid : Bool
  finished : Bool

inductive SubmitStatus
  | accepted
  | overloaded
  | shuttingDown
  | invalidArgument

inductive Terminal
  | completed
  | deadline
  | cancelledIo
  | cancelledCallback
  | workerException
  | completionException
  deriving DecidableEq

structure Stats where
  submitted : ℕ
  accepted : ℕ
  rejectedOverload : ℕ
  rejectedShutdown : ℕ
  rejectedInvalid : ℕ
  terminal : Terminal → ℕ
  batchCalls : ℕ
  batchItems : ℕ
  result : RefreshOnlineIfMatchStatus → ℕ
  pending : ℕ
  peakPending : ℕ
  maxObservedBatch : ℕ

def Stats.terminals (stats : Stats) : ℕ :=
  stats.terminal .completed + stats.terminal .deadline + stats.terminal .cancelledIo +
    stats.terminal .cancelledCallback + stats.terminal .workerException +
    stats.terminal .completionException

/-- What `refresh_` does. -/
inductive Answer
  | returned (results : List RefreshOnlineIfMatchResult)
  | threw

/-- What `still_valid` does. -/
inductive Validity
  | holds
  | fails
  | throws

inductive CallbackEvent
  /-- `refresh_` has been called for the jobs that survive of a batch. -/
  | refreshed (batch jobs : List Job) (requests : List OnlineStatusRefreshRequest) (answer : Answer)
  /-- `finished` has been called with the result at a position. -/
  | delivered (jobs : List Job) (results : List RefreshOnlineIfMatchResult) (i : ℕ) (job : Job)
      (result : RefreshOnlineIfMatchResult)

inductive Collector
  | waiting
  | flushing
  | done
  deriving DecidableEq

structure Shared where
  /-- `Start` has not yet returned. -/
  starting : Bool
  accepting : Bool
  stopping : Bool
  /-- A `Stop` waits for the threads. -/
  joining : Bool
  /-- A `Stop` has returned. -/
  stopped : Bool
  collector : Collector
  input : List Job
  ready : List (List Job)
  stats : Stats
  callbacks : List CallbackEvent
  ended : List (Job × Terminal)

/-- Where a worker is in `Work` and `Process`, with the batch it has taken. -/
inductive Phase
  | waiting
  | exited
  | filter (batch rest valid : List Job) (requests : List OnlineStatusRefreshRequest)
  /-- The first `still_valid` of a job runs. -/
  | validating (batch : List Job) (job : Job) (rest valid : List Job)
      (requests : List OnlineStatusRefreshRequest)
  /-- `refresh_` runs. -/
  | refreshing (batch valid : List Job) (requests : List OnlineStatusRefreshRequest)
  | deliver (valid : List Job) (results : List RefreshOnlineIfMatchResult) (i : ℕ)
  /-- The second `still_valid` of a job runs. -/
  | rechecking (valid : List Job) (results : List RefreshOnlineIfMatchResult) (i : ℕ) (job : Job)
  /-- `finished` runs. -/
  | calling (valid : List Job) (results : List RefreshOnlineIfMatchResult) (i : ℕ) (job : Job)

/-- A worker, with the calls of `Finish` it makes before it goes on. -/
structure Worker where
  phase : Phase
  finishing : List (Job × Terminal)

structure State where
  shared : Shared
  workers : Multiset Worker

/-! ## The pieces -/

namespace Shared

variable (o : Options) (s : Shared)

def trySubmit (now : ℤ) (submission : Submission) : SubmitStatus × Shared :=
  let stats := { s.stats with submitted := s.stats.submitted + 1 }
  if submission.request.userId = 0 ∨ submission.request.gatewayId = "" ∨
      submission.request.connectionName = "" ∨ submission.request.ttlSeconds ≤ 0 ∨
      submission.stillValid = false then
    (.invalidArgument,
      { s with stats := { stats with rejectedInvalid := stats.rejectedInvalid + 1 } })
  else if s.accepting = false then
    (.shuttingDown,
      { s with stats := { stats with rejectedShutdown := stats.rejectedShutdown + 1 } })
  else if o.maxPending ≤ s.stats.pending then
    (.overloaded, { s with stats := { stats with rejectedOverload := stats.rejectedOverload + 1 } })
  else
    let deadline := if submission.deadline = 0 then now + o.defaultDeadline else submission.deadline
    let job := Job.mk s.stats.accepted submission.request deadline submission.finished
    (.accepted, { s with
      input := s.input ++ [job]
      stats := { stats with
        accepted := stats.accepted + 1
        pending := stats.pending + 1
        peakPending := max stats.peakPending (stats.pending + 1) } })

def finish (job : Job) (terminal : Terminal) : Shared :=
  { s with
    ended := s.ended ++ [(job, terminal)]
    stats := { s.stats with
      terminal := Function.update s.stats.terminal terminal (s.stats.terminal terminal + 1)
      pending := s.stats.pending - 1 } }

def collect : Shared :=
  let count := min o.maxBatch s.input.length
  { s with
    input := s.input.drop count
    ready := s.ready ++ [s.input.take count]
    collector := .waiting }

def countBatch (size : ℕ) : Shared :=
  { s with stats := { s.stats with
      batchCalls := s.stats.batchCalls + 1
      batchItems := s.stats.batchItems + size
      maxObservedBatch := max s.stats.maxObservedBatch size } }

def recordResult (result : RefreshOnlineIfMatchResult) : Shared :=
  { s with stats := { s.stats with
      result := Function.update s.stats.result result.status (s.stats.result result.status + 1) } }

def note (event : CallbackEvent) : Shared := { s with callbacks := s.callbacks ++ [event] }

end Shared

/-! ## Steps -/

inductive Label
  /-- `Start` has created the threads and accepts. -/
  | accept
  | submit (now : ℤ) (submission : Submission)
  /-- `Stop` sets its flags. -/
  | stop
  /-- `Stop` has joined the threads. -/
  | stopReturn
  | collector
  | worker

inductive WorkerStep : Shared → Worker → Shared → Worker → Prop
  | finish {s : Shared} {phase : Phase} {job : Job} {terminal : Terminal}
      {finishing : List (Job × Terminal)} :
      WorkerStep s ⟨phase, (job, terminal) :: finishing⟩ (s.finish job terminal) ⟨phase, finishing⟩
  | take {s : Shared} {batch : List Job} {ready : List (List Job)} (h : s.ready = batch :: ready) :
      WorkerStep s ⟨.waiting, []⟩ { s with ready := ready } ⟨.filter batch batch [] [], []⟩
  | exit {s : Shared} (hready : s.ready = []) (hdone : s.collector = .done) :
      WorkerStep s ⟨.waiting, []⟩ s ⟨.exited, []⟩
  | late {s : Shared} {batch rest valid : List Job} {job : Job}
      {requests : List OnlineStatusRefreshRequest} (now : ℤ) (h : job.deadline ≤ now) :
      WorkerStep s ⟨.filter batch (job :: rest) valid requests, []⟩ s
        ⟨.filter batch rest valid requests, [(job, .deadline)]⟩
  | timely {s : Shared} {batch rest valid : List Job} {job : Job}
      {requests : List OnlineStatusRefreshRequest} (now : ℤ) (h : now < job.deadline) :
      WorkerStep s ⟨.filter batch (job :: rest) valid requests, []⟩ s
        ⟨.validating batch job rest valid requests, []⟩
  | validated {s : Shared} {batch rest valid : List Job} {job : Job}
      {requests : List OnlineStatusRefreshRequest} (validity : Validity) :
      WorkerStep s ⟨.validating batch job rest valid requests, []⟩ s
        (match validity with
        | .holds => ⟨.filter batch rest (valid ++ [job]) (requests ++ [job.request]), []⟩
        | .fails => ⟨.filter batch rest valid requests, [(job, .cancelledIo)]⟩
        | .throws => ⟨.filter batch rest valid requests, [(job, .workerException)]⟩)
  | empty {s : Shared} {batch : List Job} {requests : List OnlineStatusRefreshRequest} :
      WorkerStep s ⟨.filter batch [] [] requests, []⟩ s ⟨.waiting, []⟩
  | request {s : Shared} {batch valid : List Job} {requests : List OnlineStatusRefreshRequest}
      (h : valid ≠ []) :
      WorkerStep s ⟨.filter batch [] valid requests, []⟩ (s.countBatch valid.length)
        ⟨.refreshing batch valid requests, []⟩
  | answered {s : Shared} {batch valid : List Job} {requests : List OnlineStatusRefreshRequest}
      {results : List RefreshOnlineIfMatchResult} (h : results.length = valid.length) :
      WorkerStep s ⟨.refreshing batch valid requests, []⟩
        (s.note (.refreshed batch valid requests (.returned results)))
        ⟨.deliver valid results 0, []⟩
  | mismatched {s : Shared} {batch valid : List Job} {requests : List OnlineStatusRefreshRequest}
      {results : List RefreshOnlineIfMatchResult} (h : results.length ≠ valid.length) :
      WorkerStep s ⟨.refreshing batch valid requests, []⟩
        (s.note (.refreshed batch valid requests (.returned results)))
        ⟨.waiting, valid.map fun job => (job, .workerException)⟩
  | threw {s : Shared} {batch valid : List Job} {requests : List OnlineStatusRefreshRequest} :
      WorkerStep s ⟨.refreshing batch valid requests, []⟩
        (s.note (.refreshed batch valid requests .threw))
        ⟨.waiting, valid.map fun job => (job, .workerException)⟩
  | record {s : Shared} {valid : List Job} {results : List RefreshOnlineIfMatchResult} {i : ℕ}
      {job : Job} {result : RefreshOnlineIfMatchResult} (hjob : valid[i]? = some job)
      (hresult : results[i]? = some result) :
      WorkerStep s ⟨.deliver valid results i, []⟩ (s.recordResult result)
        ⟨.rechecking valid results i job, []⟩
  | cancelled {s : Shared} {valid : List Job} {results : List RefreshOnlineIfMatchResult} {i : ℕ}
      {job : Job} : WorkerStep s ⟨.rechecking valid results i job, []⟩ s
        ⟨.deliver valid results (i + 1), [(job, .cancelledCallback)]⟩
  | recheckThrew {s : Shared} {valid : List Job} {results : List RefreshOnlineIfMatchResult} {i : ℕ}
      {job : Job} : WorkerStep s ⟨.rechecking valid results i job, []⟩ s
        ⟨.deliver valid results (i + 1), [(job, .completionException)]⟩
  | silent {s : Shared} {valid : List Job} {results : List RefreshOnlineIfMatchResult} {i : ℕ}
      {job : Job} (h : job.finished = false) : WorkerStep s ⟨.rechecking valid results i job, []⟩ s
        ⟨.deliver valid results (i + 1), [(job, .completed)]⟩
  | call {s : Shared} {valid : List Job} {results : List RefreshOnlineIfMatchResult} {i : ℕ}
      {job : Job} {result : RefreshOnlineIfMatchResult} (h : job.finished = true)
      (hresult : results[i]? = some result) :
      WorkerStep s ⟨.rechecking valid results i job, []⟩
        (s.note (.delivered valid results i job result)) ⟨.calling valid results i job, []⟩
  | called {s : Shared} {valid : List Job} {results : List RefreshOnlineIfMatchResult} {i : ℕ}
      {job : Job} (throws : Bool) : WorkerStep s ⟨.calling valid results i job, []⟩ s
        ⟨.deliver valid results (i + 1),
          [(job, if throws then .completionException else .completed)]⟩
  | finished {s : Shared} {valid : List Job} {results : List RefreshOnlineIfMatchResult} {i : ℕ}
      (h : valid.length ≤ i) : WorkerStep s ⟨.deliver valid results i, []⟩ s ⟨.waiting, []⟩

inductive CollectorStep (o : Options) : Shared → Shared → Prop
  | see {s : Shared} (h : s.collector = .waiting) (hinput : s.input ≠ []) :
      CollectorStep o s { s with collector := .flushing }
  | take {s : Shared} (h : s.collector = .flushing) : CollectorStep o s (s.collect o)
  | done {s : Shared} (h : s.collector = .waiting) (hinput : s.input = [])
      (hstop : s.stopping = true) : CollectorStep o s { s with collector := .done }

inductive Step (o : Options) : State → Label → State → Prop
  | accept {s : Shared} {workers : Multiset Worker} (h : s.starting = true) :
      Step o ⟨s, workers⟩ .accept ⟨{ s with starting := false, accepting := true }, workers⟩
  | submit {s : Shared} {workers : Multiset Worker} (now : ℤ) (submission : Submission) :
      Step o ⟨s, workers⟩ (.submit now submission) ⟨(s.trySubmit o now submission).2, workers⟩
  | stop {s : Shared} {workers : Multiset Worker} (hstart : s.starting = false)
      (hjoin : s.joining = false) :
      Step o ⟨s, workers⟩ .stop
        ⟨{ s with accepting := false, stopping := true, joining := true }, workers⟩
  | stopReturn {s : Shared} {workers : Multiset Worker} (hjoin : s.joining = true)
      (hcollector : s.collector = .done) (hworkers : ∀ worker ∈ workers, worker = ⟨.exited, []⟩) :
      Step o ⟨s, workers⟩ .stopReturn ⟨{ s with joining := false, stopped := true }, workers⟩
  | collector {s s' : Shared} {workers : Multiset Worker} (h : CollectorStep o s s') :
      Step o ⟨s, workers⟩ .collector ⟨s', workers⟩
  | worker {s s' : Shared} {worker worker' : Worker} {workers : Multiset Worker}
      (h : WorkerStep s worker s' worker') :
      Step o ⟨s, worker ::ₘ workers⟩ .worker ⟨s', worker' ::ₘ workers⟩

def start (o : Options) : State where
  shared := {
    starting := true
    accepting := false
    stopping := false
    joining := false
    stopped := false
    collector := .waiting
    input := []
    ready := []
    stats := ⟨0, 0, 0, 0, 0, fun _ => 0, 0, 0, fun _ => 0, 0, 0, 0⟩
    callbacks := []
    ended := [] }
  workers := Multiset.replicate o.workers ⟨.waiting, []⟩

end TinyImx.Gateway.StatusMaintenance
