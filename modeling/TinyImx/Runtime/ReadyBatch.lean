import Mathlib.Algebra.Order.BigOperators.Group.Finset
import Mathlib.Logic.Function.Basic
import TinyImx.Lib.Run

/-!
# Bounded ready batches

`BoundedReadyBatch` has one queue and one worker per shard.  `Submit` holds the admission lock from its
checks to its end, and the lock of a shard while it changes the queue and the counters; `Drain` stops
the shards one by one under the admission lock and then joins the workers.  A worker takes what its
queue has under the lock of its shard, and executes and completes it under no lock at all.

Each access to an atomic counter is a step of its own.
-/

namespace TinyImx.Runtime.ReadyBatch

structure Options where
  shards : ℕ
  capacity : ℕ
  batch : ℕ
  shards_bounds : 1 ≤ shards ∧ shards ≤ 16
  capacity_bounds : 1 ≤ capacity ∧ capacity ≤ 512
  batch_bounds : 1 ≤ batch ∧ batch ≤ 64

inductive Admission
  | accepted
  | overloaded
  | stopped

/-- One submitted input; `id` is the call of `Submit` that made it, and so names its completion. -/
structure Node (Input : Type) where
  id : ℕ
  key : ℕ
  input : Input

def Options.shardOf {Input : Type} (o : Options) (node : Node Input) : ℕ := node.key % o.shards

/-- Where a worker is.  `failed` says that it could not reserve its buffers and is in `RunFailed`. -/
inductive Worker (Input Result : Type)
  | starting
  | running (rest : List (Node Input × Result)) (failed : Bool)
  | taken (nodes : List (Node Input))
  | executing (nodes : List (Node Input))
  /-- A completion was called and has returned or thrown; `completed` is to be counted. -/
  | called (rest : List (Node Input × Result)) (failed : Bool)
  /-- `completed` is counted, `pending` not yet. -/
  | counted (rest : List (Node Input × Result)) (failed : Bool)
  | exited

structure Shard (Input Result : Type) where
  queue : List (Node Input)
  stopping : Bool
  worker : Worker Input Result

def Shard.push {Input Result : Type} (sh : Shard Input Result) (node : Node Input) :
    Shard Input Result :=
  { sh with queue := sh.queue ++ [node] }

inductive Admitter (Input : Type)
  | idle
  /-- `Submit`, before it locks the shard. -/
  | checked (node : Node Input)
  /-- `Submit` has the lock of the shard, and has put its node in the queue. -/
  | pushed (node : Node Input)
  /-- `pending` is counted, `accepted` not yet. -/
  | reserved (node : Node Input)
  /-- `Drain` has stopped the shards before this one. -/
  | draining (next : ℕ)

structure Counters where
  pending : ℕ
  peak : ℕ
  accepted : ℕ
  completed : ℕ
  overloaded : ℕ
  stopped : ℕ

/-- `calls` numbers the calls of `Submit`. -/
structure State (Input Result : Type) where
  counters : Counters
  shards : ℕ → Shard Input Result
  admitter : Admitter Input
  accepting : Bool
  calls : ℕ

variable {Input Result : Type}

/-- After the constructor: no input yet, and the workers about to reserve their buffers. -/
def State.initial : State Input Result where
  counters := ⟨0, 0, 0, 0, 0, 0⟩
  shards := fun _ => ⟨[], false, .starting⟩
  admitter := .idle
  accepting := true
  calls := 0

def decrement (x : ℕ) : ℕ := if x = 0 then 18446744073709551615 else x - 1

/-- What each node of a batch is completed with: its own result if there is one for each node. -/
def settle (failure : Result) (nodes : List (Node Input)) :
    Option (List Result) → List (Node Input × Result)
  | some results =>
    if results.length = nodes.length then nodes.zip results else nodes.map fun node => (node, failure)
  | none => nodes.map fun node => (node, failure)

inductive Event (Input Result : Type)
  | start (failed : Bool)
  | take
  /-- A worker in `RunFailed` takes a node, which it does not execute. -/
  | takeFailed (node : Node Input)
  /-- Copying the inputs of a batch throws, so that `execute` is not called. -/
  | skip (nodes : List (Node Input))
  | execute (nodes : List (Node Input))
  /-- `execute` returns, or throws. -/
  | returned (nodes : List (Node Input)) (results : Option (List Result))
  | call (node : Node Input) (result : Result)
  | count
  | release
  | exit

def Event.locks : Event Input Result → Bool
  | take | takeFailed _ | exit => true
  | _ => false

def Event.counters (c : Counters) : Event Input Result → Counters
  | count => { c with completed := c.completed + 1 }
  | release => { c with pending := decrement c.pending }
  | _ => c

inductive Act (o : Options) (failure : Result) :
    Shard Input Result → Event Input Result → Shard Input Result → Prop
  | start {q : List (Node Input)} {stopping : Bool} (failed : Bool) :
      Act o failure ⟨q, stopping, .starting⟩ (.start failed) ⟨q, stopping, .running [] failed⟩
  | take {q : List (Node Input)} {stopping : Bool} : q ≠ [] →
      Act o failure ⟨q, stopping, .running [] false⟩ .take
        ⟨q.drop o.batch, stopping, .taken (q.take o.batch)⟩
  | takeFailed {node : Node Input} {q : List (Node Input)} {stopping : Bool} :
      Act o failure ⟨node :: q, stopping, .running [] true⟩ (.takeFailed node)
        ⟨q, stopping, .running [(node, failure)] true⟩
  | exit {failed : Bool} :
      Act o failure ⟨[], true, .running [] failed⟩ .exit ⟨[], true, .exited⟩
  | skip {q nodes : List (Node Input)} {stopping : Bool} :
      Act o failure ⟨q, stopping, .taken nodes⟩ (.skip nodes)
        ⟨q, stopping, .running (settle failure nodes none) false⟩
  | execute {q nodes : List (Node Input)} {stopping : Bool} :
      Act o failure ⟨q, stopping, .taken nodes⟩ (.execute nodes) ⟨q, stopping, .executing nodes⟩
  | returned {q nodes : List (Node Input)} {stopping : Bool} (results : Option (List Result)) :
      Act o failure ⟨q, stopping, .executing nodes⟩ (.returned nodes results)
        ⟨q, stopping, .running (settle failure nodes results) false⟩
  | call {q : List (Node Input)} {stopping : Bool} {node : Node Input} {result : Result}
      {rest : List (Node Input × Result)} {failed : Bool} :
      Act o failure ⟨q, stopping, .running ((node, result) :: rest) failed⟩ (.call node result)
        ⟨q, stopping, .called rest failed⟩
  | count {q : List (Node Input)} {stopping : Bool} {rest : List (Node Input × Result)}
      {failed : Bool} :
      Act o failure ⟨q, stopping, .called rest failed⟩ .count ⟨q, stopping, .counted rest failed⟩
  | release {q : List (Node Input)} {stopping : Bool} {rest : List (Node Input × Result)}
      {failed : Bool} :
      Act o failure ⟨q, stopping, .counted rest failed⟩ .release ⟨q, stopping, .running rest failed⟩

inductive Label (Input Result : Type)
  | submit (node : Node Input) (admission : Admission)
  /-- A call of `Submit` passes its checks, or `Drain` begins. -/
  | entered
  /-- Any other step of `Submit` or `Drain`. -/
  | caller
  | worker (i : ℕ) (event : Event Input Result)

def State.locked (o : Options) (s : State Input Result) (i : ℕ) : Prop :=
  match s.admitter with
  | .pushed node | .reserved node => o.shardOf node = i
  | _ => False

def State.setShard (s : State Input Result) (i : ℕ) (shard : Shard Input Result) : State Input Result :=
  { s with shards := Function.update s.shards i shard }

/-- One step: of a call of `Submit`, of `Drain`, or of a worker. -/
inductive Step (o : Options) (failure : Result) :
    State Input Result → Label Input Result → State Input Result → Prop
  -- `Submit`
  | stopped {s : State Input Result} (key : ℕ) (input : Input) : s.admitter = .idle →
      s.accepting = false →
      Step o failure s (.submit ⟨s.calls, key, input⟩ .stopped)
        { s with
          counters := { s.counters with stopped := s.counters.stopped + 1 }
          calls := s.calls + 1 }
  | overloaded {s : State Input Result} (key : ℕ) (input : Input) : s.admitter = .idle →
      s.accepting = true → o.capacity ≤ s.counters.pending →
      Step o failure s (.submit ⟨s.calls, key, input⟩ .overloaded)
        { s with
          counters := { s.counters with overloaded := s.counters.overloaded + 1 }
          calls := s.calls + 1 }
  | check {s : State Input Result} (key : ℕ) (input : Input) : s.admitter = .idle →
      s.accepting = true → s.counters.pending < o.capacity →
      Step o failure s .entered
        { s with admitter := .checked ⟨s.calls, key, input⟩, calls := s.calls + 1 }
  /-- The queue cannot grow, and `Submit` throws. -/
  | pushFails {s : State Input Result} {node : Node Input} : s.admitter = .checked node →
      Step o failure s .caller { s with admitter := .idle }
  | push {s : State Input Result} {node : Node Input} : s.admitter = .checked node →
      Step o failure s (.submit node .accepted)
        ({ s with admitter := .pushed node }.setShard (o.shardOf node)
          ((s.shards (o.shardOf node)).push node))
  | reserve {s : State Input Result} {node : Node Input} : s.admitter = .pushed node →
      Step o failure s .caller
        { s with
          counters := { s.counters with
            pending := s.counters.pending + 1
            peak := max s.counters.peak (s.counters.pending + 1) }
          admitter := .reserved node }
  | accept {s : State Input Result} {node : Node Input} : s.admitter = .reserved node →
      Step o failure s .caller
        { s with
          counters := { s.counters with accepted := s.counters.accepted + 1 }
          admitter := .idle }
  -- `Drain`, which `call_once` runs once
  | drain {s : State Input Result} : s.admitter = .idle → s.accepting = true →
      Step o failure s .entered { s with accepting := false, admitter := .draining 0 }
  | stop {s : State Input Result} {i : ℕ} : s.admitter = .draining i → i < o.shards →
      Step o failure s .caller
        ({ s with admitter := .draining (i + 1) }.setShard i { s.shards i with stopping := true })
  | unlock {s : State Input Result} : s.admitter = .draining o.shards →
      Step o failure s .caller { s with admitter := .idle }
  | worker {s : State Input Result} {i : ℕ} {event : Event Input Result}
      {shard : Shard Input Result} : i < o.shards → (event.locks = true → ¬ s.locked o i) →
      Act o failure (s.shards i) event shard →
      Step o failure s (.worker i event)
        ({ s with counters := event.counters s.counters }.setShard i shard)

def State.Drained (o : Options) (s : State Input Result) : Prop :=
  s.accepting = false ∧ s.admitter = .idle ∧ ∀ i < o.shards, (s.shards i).worker = .exited

/-! ## What a run did -/

/-- The inputs that `Submit` accepted, in the order of submission. -/
def Label.accepted : Label Input Result → List (Node Input)
  | submit node .accepted => [node]
  | _ => []

def Label.rejected : Label Input Result → List (Node Input)
  | submit node .overloaded => [node]
  | submit node .stopped => [node]
  | _ => []

namespace Event

def executed : Event Input Result → List (Node Input)
  | execute nodes => nodes
  | _ => []

def begun : Event Input Result → List (Node Input)
  | execute nodes => nodes
  | skip nodes => nodes
  | takeFailed node => [node]
  | _ => []

def settled (failure : Result) : Event Input Result → List (Node Input × Result)
  | returned nodes results => settle failure nodes results
  | skip nodes => settle failure nodes none
  | takeFailed node => [(node, failure)]
  | _ => []

def completed : Event Input Result → List (Node Input × Result)
  | call node result => [(node, result)]
  | _ => []

end Event

def Label.event {β : Type} (f : Event Input Result → List β) : Label Input Result → List β
  | worker _ event => f event
  | _ => []

def along {β : Type} (f : Label Input Result → List β) (ls : List (Label Input Result)) : List β :=
  ls.flatMap f

def ofKey (key : ℕ) (nodes : List (Node Input)) : List (Node Input) :=
  nodes.filter fun node => node.key = key

def executed (ls : List (Label Input Result)) : List (Node Input) :=
  along (Label.event Event.executed) ls

def completed (ls : List (Label Input Result)) : List (Node Input × Result) :=
  along (Label.event Event.completed) ls

/-- A call of `execute` that contained the node returned one result for each of its inputs, and this
one for the node. -/
def Answered (ls : List (Label Input Result)) (node : Node Input) (result : Result) : Prop :=
  ∃ i nodes results, Label.worker i (.returned nodes (some results)) ∈ ls ∧
    results.length = nodes.length ∧ (node, result) ∈ nodes.zip results

end TinyImx.Runtime.ReadyBatch
