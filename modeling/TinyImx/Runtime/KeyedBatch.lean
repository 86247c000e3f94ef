import Mathlib.Data.List.AList
import Mathlib.Data.Multiset.Bind
import TinyImx.Lib.BoundedRing
import TinyImx.Lib.Run

/-!
# Keyed ready batches

Inputs wait in one lane per key.  A lane whose input no worker has is in the ready ring; a worker
takes several ready lanes' first inputs at once, executes them as a batch, and completes them one by
one.  A lane is active from the moment its input is taken to the end of that input's completion.

What runs under the mutex is one function of the shared state; `none` is a call of the source that
ends in `std::terminate`.  A worker goes through its loop in steps, between which every other worker
and every caller may move.
-/

namespace TinyImx.Runtime.KeyedBatch

structure Options where
  shards : ℕ
  capacity : ℕ
  batch : ℕ
  shards_bounds : 1 ≤ shards ∧ shards ≤ 16
  capacity_bounds : 1 ≤ capacity ∧ capacity ≤ 512
  batch_bounds : 1 ≤ batch ∧ batch ≤ 64

inductive Admission
  | accepted
  | overloaded
  | stopped

/-- One submitted input; `id` is the call of `Submit` that made it, and so names its completion. -/
structure Node (Input : Type) where
  id : ℕ
  key : UInt64
  input : Input

structure Lane (Input : Type) where
  queue : List (Node Input)
  active : Bool

variable {Input Result : Type} {o : Options}

structure Core (Input : Type) (o : Options) where
  accepting : Bool
  stopping : Bool
  lanes : AList fun _ : UInt64 => Lane Input
  ready : BoundedRing UInt64 o.capacity
  pending : ℕ
  peak : ℕ
  accepted : ℕ
  completed : ℕ
  overloaded : ℕ
  stopped : ℕ

namespace Core

def empty : Core Input o where
  accepting := true
  stopping := false
  lanes := ∅
  ready := ⟨fun _ => 0, 0, 0, o.capacity_bounds.1, Nat.zero_le _⟩
  pending := 0
  peak := 0
  accepted := 0
  completed := 0
  overloaded := 0
  stopped := 0

def pushReady (c : Core Input o) (key : UInt64) : Option (Core Input o) :=
  (c.ready.push key).map fun ready => { c with ready }

def popReady (c : Core Input o) : Option (Node Input × Core Input o) :=
  match c.ready.pop with
  | none => none
  | some (key, ready) =>
    match c.lanes.lookup key with
    | some ⟨node :: queue, false⟩ =>
      some (node, { c with ready, lanes := c.lanes.insert key ⟨queue, true⟩ })
    | _ => none

def popMany : ℕ → Core Input o → Option (List (Node Input) × Core Input o)
  | 0, c => some ([], c)
  | count + 1, c =>
    match c.popReady with
    | none => none
    | some (node, c) => (popMany count c).map fun (nodes, c) => (node :: nodes, c)

/-- The guarded part of `Take`, once its wait is over with something in the ring. -/
def take (c : Core Input o) : Option (List (Node Input) × Core Input o) :=
  c.popMany (min o.batch c.ready.count)

def tryEmplace (c : Core Input o) (key : UInt64) : Lane Input × Bool :=
  match c.lanes.lookup key with
  | some lane => (lane, false)
  | none => (⟨[], false⟩, true)

def submit (c : Core Input o) (node : Node Input) : Option (Admission × Core Input o) :=
  if !c.accepting then some (.stopped, { c with stopped := c.stopped + 1 })
  else if o.capacity ≤ c.pending then some (.overloaded, { c with overloaded := c.overloaded + 1 })
  else
    let (lane, inserted) := c.tryEmplace node.key
    let c := { c with
      lanes := c.lanes.insert node.key { lane with queue := lane.queue ++ [node] } }
    (if inserted then c.pushReady node.key else some c).map fun c =>
      (.accepted, { c with
        pending := c.pending + 1
        peak := max c.peak (c.pending + 1)
        accepted := c.accepted + 1 })

def complete (c : Core Input o) (key : UInt64) : Option (Core Input o) :=
  match c.lanes.lookup key with
  | some ⟨queue, true⟩ =>
    (if queue.isEmpty then some { c with lanes := c.lanes.erase key }
      else { c with lanes := c.lanes.insert key ⟨queue, false⟩ }.pushReady key).map fun c =>
        { c with completed := c.completed + 1, pending := c.pending - 1 }
  | _ => none

def drain (c : Core Input o) : Core Input o := { c with accepting := false, stopping := true }

/-- The condition under which `Take` and `RunFailed` stop waiting with an empty ring. -/
def Quiet (c : Core Input o) : Prop := c.ready.count = 0 ∧ c.stopping = true ∧ c.pending = 0

instance (c : Core Input o) : Decidable c.Quiet := inferInstanceAs (Decidable (_ ∧ _ ∧ _))

end Core

/-- Where a worker is.  `failed` says that it could not reserve its buffers and is in `RunFailed`. -/
inductive Worker (Input Result : Type)
  | starting
  | running (rest : List (Node Input × Result)) (failed : Bool)
  | taken (nodes : List (Node Input))
  | executing (nodes : List (Node Input))
  /-- The completion of `node` was called, the guarded part of `Complete` is to come. -/
  | called (node : Node Input) (rest : List (Node Input × Result)) (failed : Bool)
  | exited

/-- What each node of a batch is completed with: its own result if there is one for each node. -/
def settle (failure : Result) (nodes : List (Node Input)) :
    Option (List Result) → List (Node Input × Result)
  | some results =>
    if results.length = nodes.length then nodes.zip results else nodes.map fun node => (node, failure)
  | none => nodes.map fun node => (node, failure)

inductive Label (Input Result : Type)
  | submit (node : Node Input) (admission : Admission)
  | drain
  | start (failed : Bool)
  | take (nodes : List (Node Input))
  /-- A worker in `RunFailed` takes a node, which it does not execute. -/
  | takeFailed (node : Node Input)
  /-- Copying the inputs of a batch throws, so that `execute` is not called. -/
  | skip (nodes : List (Node Input))
  | execute (nodes : List (Node Input))
  /-- `execute` returns, or throws. -/
  | returned (results : Option (List Result))
  | call (node : Node Input) (result : Result)
  | complete (node : Node Input)
  | exit
  | terminate

inductive Act (failure : Result) :
    Core Input o → Worker Input Result → Label Input Result → Core Input o → Worker Input Result → Prop
  | start {c : Core Input o} (failed : Bool) :
      Act failure c .starting (.start failed) c (.running [] failed)
  | take {c c' : Core Input o} {nodes : List (Node Input)} : 0 < c.ready.count →
      c.take = some (nodes, c') → Act failure c (.running [] false) (.take nodes) c' (.taken nodes)
  | takeFailed {c c' : Core Input o} {node : Node Input} : 0 < c.ready.count →
      c.popReady = some (node, c') →
      Act failure c (.running [] true) (.takeFailed node) c' (.running [(node, failure)] true)
  | exit {c : Core Input o} {failed : Bool} : c.Quiet →
      Act failure c (.running [] failed) .exit c .exited
  | skip {c : Core Input o} {nodes : List (Node Input)} :
      Act failure c (.taken nodes) (.skip nodes) c (.running (settle failure nodes none) false)
  | execute {c : Core Input o} {nodes : List (Node Input)} :
      Act failure c (.taken nodes) (.execute nodes) c (.executing nodes)
  | returned {c : Core Input o} {nodes : List (Node Input)} (results : Option (List Result)) :
      Act failure c (.executing nodes) (.returned results) c
        (.running (settle failure nodes results) false)
  | call {c : Core Input o} {node : Node Input} {result : Result}
      {rest : List (Node Input × Result)} {failed : Bool} :
      Act failure c (.running ((node, result) :: rest) failed) (.call node result) c
        (.called node rest failed)
  | complete {c c' : Core Input o} {node : Node Input} {rest : List (Node Input × Result)}
      {failed : Bool} : c.complete node.key = some c' →
      Act failure c (.called node rest failed) (.complete node) c' (.running rest failed)

/-- A step of a worker that ends in `std::terminate`. -/
inductive Stuck : Core Input o → Worker Input Result → Prop
  | take {c : Core Input o} : 0 < c.ready.count → c.take = none → Stuck c (.running [] false)
  | takeFailed {c : Core Input o} : 0 < c.ready.count → c.popReady = none →
      Stuck c (.running [] true)
  | complete {c : Core Input o} {node : Node Input} {rest : List (Node Input × Result)}
      {failed : Bool} : c.complete node.key = none → Stuck c (.called node rest failed)

/-- The shared state, the workers, and the number of calls of `Submit` so far. -/
structure State (Input Result : Type) (o : Options) where
  core : Core Input o
  workers : Multiset (Worker Input Result)
  calls : ℕ
  terminated : Bool

/-- After the constructor: no input yet, and the workers about to reserve their buffers. -/
def State.initial : State Input Result o where
  core := .empty
  workers := Multiset.replicate o.shards .starting
  calls := 0
  terminated := false

/-- One step: a call of `Submit` or `Drain` from anywhere, or a step of a worker. -/
inductive Step (failure : Result) :
    State Input Result o → Label Input Result → State Input Result o → Prop
  | submit {s : State Input Result o} {a : Admission} {c : Core Input o} (key : UInt64)
      (input : Input) : s.terminated = false → s.core.submit ⟨s.calls, key, input⟩ = some (a, c) →
      Step failure s (.submit ⟨s.calls, key, input⟩ a) { s with core := c, calls := s.calls + 1 }
  | drain {s : State Input Result o} : s.terminated = false →
      Step failure s .drain { s with core := s.core.drain }
  | worker {s : State Input Result o} {w w' : Worker Input Result}
      {ws : Multiset (Worker Input Result)} {l : Label Input Result} {c : Core Input o} :
      s.terminated = false → s.workers = w ::ₘ ws → Act failure s.core w l c w' →
      Step failure s l { s with core := c, workers := w' ::ₘ ws }
  | submitTerminates {s : State Input Result o} (key : UInt64) (input : Input) :
      s.terminated = false → s.core.submit ⟨s.calls, key, input⟩ = none →
      Step failure s .terminate { s with terminated := true }
  | workerTerminates {s : State Input Result o} {w : Worker Input Result} :
      s.terminated = false → w ∈ s.workers → Stuck s.core w →
      Step failure s .terminate { s with terminated := true }

def State.Drained (s : State Input Result o) : Prop :=
  s.core.stopping = true ∧ ∀ w ∈ s.workers, w = .exited

/-! ## What a run did -/

namespace Label

def accepted : Label Input Result → List (Node Input)
  | submit node .accepted => [node]
  | _ => []

def taken : Label Input Result → List (Node Input)
  | take nodes => nodes
  | takeFailed node => [node]
  | _ => []

def executed : Label Input Result → List (Node Input)
  | execute nodes => nodes
  | _ => []

/-- The inputs that are completed without having been passed to `execute`. -/
def skipped : Label Input Result → List (Node Input)
  | skip nodes => nodes
  | takeFailed node => [node]
  | _ => []

def called : Label Input Result → List (Node Input)
  | call node _ => [node]
  | _ => []

def completed : Label Input Result → List (Node Input)
  | complete node => [node]
  | _ => []

end Label

def ofKey (key : UInt64) (nodes : List (Node Input)) : List (Node Input) :=
  nodes.filter fun node => node.key = key

/-! ## What the workers have -/

namespace Worker

def held : Worker Input Result → List (Node Input)
  | running rest _ => rest.map Prod.fst
  | taken nodes => nodes
  | executing nodes => nodes
  | called node rest _ => node :: rest.map Prod.fst
  | _ => []

def uncalled : Worker Input Result → List (Node Input)
  | called _ rest _ => rest.map Prod.fst
  | w => w.held

def unexecuted : Worker Input Result → List (Node Input)
  | taken nodes => nodes
  | _ => []

end Worker

def State.across (s : State Input Result o) (f : Worker Input Result → List (Node Input)) :
    Multiset (Node Input) := s.workers.bind fun w => ↑(f w)

def State.held (s : State Input Result o) : Multiset (Node Input) := s.across Worker.held

end TinyImx.Runtime.KeyedBatch
