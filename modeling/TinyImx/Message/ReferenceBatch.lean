import Mathlib.Data.Finset.Card
import Mathlib.Data.Finset.Lattice.Basic
import Mathlib.Logic.Function.Basic
import TinyImx.Lib.Run

/-!
# Combined pins of actor references

Callers of `NativeReferenceReadyBatch::Run` join a queue.  A caller whose input nobody has taken leads
when fewer than `parallel` callers lead: it takes the queue, pins the actors of all it took in one
call, and if a parent is missing pins those of each caller by themselves.  A caller that cannot lead
sleeps until it is notified.

Callers are numbered, and a number also stands for the input of its call.  What runs under the mutex is
one step.
-/

namespace TinyImx.Message.ReferenceBatch

inductive Kind
  | stored
  | missingParent
  | unavailable
  deriving DecidableEq

structure Node where
  taken : Bool
  done : Bool
  result : Bool

inductive Stage
  | assembled (batch : List ℕ)
  /-- In the call of `pin` for all of them. -/
  | combining (batch : List ℕ)
  | resolved (batch : List ℕ) (kind : Kind)
  | fallback (batch : List ℕ) (results : List Bool)
  /-- In the call of `pin` for the next of them. -/
  | pinning (batch : List ℕ) (results : List Bool)
  /-- `Execute` has returned, or thrown. -/
  | executed (batch : List ℕ) (results : Option (List Bool))
  deriving DecidableEq

/-- Where a caller is.  A caller that is `ready` has yet to look at its node. -/
inductive Phase
  | idle
  | ready
  | asleep
  | leading (stage : Stage)
  | finished (out : Bool)
  deriving DecidableEq

structure State where
  queue : List ℕ
  pending : ℕ
  running : ℕ
  nodes : ℕ → Node
  phase : ℕ → Phase

def State.initial : State := ⟨[], 0, 0, fun _ => ⟨false, false, false⟩, fun _ => .idle⟩

def State.setPhase (s : State) (i : ℕ) (p : Phase) : State :=
  { s with phase := Function.update s.phase i p }

def Phase.notified : Phase → Phase
  | .asleep => .ready
  | p => p

def State.notifyAll (s : State) : State := { s with phase := fun i => (s.phase i).notified }

def capacity : ℕ := 64

def batchLimit : ℕ := 64

def decrement (x : ℕ) : ℕ := if x = 0 then 18446744073709551615 else x - 1

def take (nodes : ℕ → Node) (batch : List ℕ) (i : ℕ) : Node :=
  if i ∈ batch then { nodes i with taken := true } else nodes i

/-- Nodes that are given their results, one for each caller of the batch if there are any. -/
def assign (nodes : ℕ → Node) : List ℕ → List Bool → ℕ → Node
  | i :: batch, result :: results =>
    assign (Function.update nodes i { nodes i with result, done := true }) batch results
  | i :: batch, [] => assign (Function.update nodes i { nodes i with result := false, done := true })
      batch []
  | [], _ => nodes

def writeBack (nodes : ℕ → Node) (batch : List ℕ) : Option (List Bool) → ℕ → Node
  | some results => if results.length = batch.length then assign nodes batch results
      else assign nodes batch []
  | none => assign nodes batch []

def combinedActors (actors : ℕ → Finset ℕ) (batch : List ℕ) : Finset ℕ :=
  batch.foldl (fun combined i => combined ∪ actors i) ∅

def afterCombined (batch : List ℕ) : Kind → Stage
  | .stored => .executed batch (some (List.replicate batch.length true))
  | .missingParent =>
    if batch.length = 1 then .executed batch (some (List.replicate batch.length false))
    else .fallback batch []
  | .unavailable => .executed batch (some (List.replicate batch.length false))

def afterSingle (batch : List ℕ) (results : List Bool) : Option Kind → Stage
  | none => .executed batch none
  | some .unavailable =>
    .executed batch (some (results ++ List.replicate (batch.length - results.length) false))
  | some kind =>
    if results.length + 1 = batch.length then .executed batch (some (results ++ [decide (kind = .stored)]))
    else .fallback batch (results ++ [decide (kind = .stored)])

inductive Label
  | silent
  | admitted (i : ℕ)
  | took (batch : List ℕ)
  | failed (callers : List ℕ)
  /-- A call of `pin` begins, for these callers together. -/
  | combine (batch : List ℕ) (pinned : Finset ℕ)
  | combined (batch : List ℕ) (outcome : Option Kind)
  /-- A call of `pin` begins, for this caller alone. -/
  | single (i : ℕ) (pinned : Finset ℕ)
  | singled (i : ℕ) (outcome : Option Kind)
  | returned (i : ℕ) (out : Bool)

def Admissible (actors : Finset ℕ) : Prop := actors ≠ ∅ ∧ actors.card ≤ 2 ∧ 0 ∉ actors

/-- One step of the caller `i`, whose arguments are `actors i`. -/
inductive Act (parallel : ℕ) (actors : ℕ → Finset ℕ) (i : ℕ) : State → Label → State → Prop
  | empty {s : State} : s.phase i = .idle → actors i = ∅ →
      Act parallel actors i s (.returned i true) (s.setPhase i (.finished true))
  | invalid {s : State} : s.phase i = .idle → actors i ≠ ∅ → (2 < (actors i).card ∨ 0 ∈ actors i) →
      Act parallel actors i s (.returned i false) (s.setPhase i (.finished false))
  | reject {s : State} : s.phase i = .idle → Admissible (actors i) → capacity ≤ s.pending →
      Act parallel actors i s (.returned i false) (s.setPhase i (.finished false))
  | admitted {s : State} : s.phase i = .idle → Admissible (actors i) → s.pending < capacity →
      Act parallel actors i s (.admitted i)
        ({ s with
          queue := s.queue ++ [i]
          pending := s.pending + 1
          nodes := Function.update s.nodes i ⟨false, false, false⟩ }.setPhase i .ready)
  | finish {s : State} : s.phase i = .ready → (s.nodes i).done = true →
      Act parallel actors i s (.returned i (s.nodes i).result)
        (s.setPhase i (.finished (s.nodes i).result))
  | sleep {s : State} : s.phase i = .ready → (s.nodes i).done = false →
      ((s.nodes i).taken = true ∨ parallel ≤ s.running) →
      Act parallel actors i s .silent (s.setPhase i .asleep)
  | wake {s : State} : s.phase i = .asleep → Act parallel actors i s .silent (s.setPhase i .ready)
  /-- The vectors of the batch cannot be allocated; the caller returns `false`, as its node then says. -/
  | reserveFails {s : State} : s.phase i = .ready → (s.nodes i).done = false →
      (s.nodes i).taken = false → s.running < parallel →
      Act parallel actors i s (.failed [i])
        ({ s with
          queue := s.queue.erase i
          pending := decrement s.pending
          nodes := Function.update s.nodes i ⟨false, true, false⟩ }.notifyAll.setPhase i .ready)
  | lead {s : State} : s.phase i = .ready → (s.nodes i).done = false → (s.nodes i).taken = false →
      s.running < parallel →
      Act parallel actors i s (.took (s.queue.take batchLimit))
        ({ s with
          queue := s.queue.drop batchLimit
          running := s.running + 1
          nodes := take s.nodes (s.queue.take batchLimit) }.setPhase i
            (.leading (.assembled (s.queue.take batchLimit))))
  | combineFails {s : State} {batch : List ℕ} : s.phase i = .leading (.assembled batch) →
      Act parallel actors i s (.failed batch) (s.setPhase i (.leading (.executed batch none)))
  | combine {s : State} {batch : List ℕ} : s.phase i = .leading (.assembled batch) →
      Act parallel actors i s (.combine batch (combinedActors actors batch))
        (s.setPhase i (.leading (.combining batch)))
  | combined {s : State} {batch : List ℕ} (kind : Kind) : s.phase i = .leading (.combining batch) →
      Act parallel actors i s (.combined batch (some kind))
        (s.setPhase i (.leading (.resolved batch kind)))
  | combinedThrows {s : State} {batch : List ℕ} : s.phase i = .leading (.combining batch) →
      Act parallel actors i s (.combined batch none)
        (s.setPhase i (.leading (.executed batch none)))
  | resolve {s : State} {batch : List ℕ} {kind : Kind} : s.phase i = .leading (.resolved batch kind) →
      Act parallel actors i s .silent (s.setPhase i (.leading (afterCombined batch kind)))
  | resolveFails {s : State} {batch : List ℕ} {kind : Kind} :
      s.phase i = .leading (.resolved batch kind) →
      Act parallel actors i s (.failed batch) (s.setPhase i (.leading (.executed batch none)))
  | single {s : State} {batch : List ℕ} {results : List Bool} {j : ℕ} :
      s.phase i = .leading (.fallback batch results) → batch[results.length]? = some j →
      Act parallel actors i s (.single j (actors j)) (s.setPhase i (.leading (.pinning batch results)))
  | singled {s : State} {batch : List ℕ} {results : List Bool} {j : ℕ} (outcome : Option Kind) :
      s.phase i = .leading (.pinning batch results) → batch[results.length]? = some j →
      Act parallel actors i s (.singled j outcome)
        (s.setPhase i (.leading (afterSingle batch results outcome)))
  | writeBack {s : State} {batch : List ℕ} {results : Option (List Bool)} :
      s.phase i = .leading (.executed batch results) →
      Act parallel actors i s .silent
        ({ s with
          running := decrement s.running
          pending := decrement^[batch.length] s.pending
          nodes := writeBack s.nodes batch results }.notifyAll.setPhase i .ready)

def Step (parallel : ℕ) (actors : ℕ → Finset ℕ) (s : State) (l : Label) (s' : State) : Prop :=
  ∃ i, Act parallel actors i s l s'

/-! ## What happened to a caller -/

inductive Event
  | admitted
  | failed
  /-- Its actors are in a combined call of `pin`. -/
  | combine
  | combined (outcome : Option Kind)
  | single
  | singled (outcome : Option Kind)
  | returned (out : Bool)
  deriving DecidableEq

def Label.events (i : ℕ) : Label → List Event
  | admitted j => if i = j then [.admitted] else []
  | failed callers => if i ∈ callers then [.failed] else []
  | combine batch _ => if i ∈ batch then [.combine] else []
  | combined batch outcome => if i ∈ batch then [.combined outcome] else []
  | single j _ => if i = j then [.single] else []
  | singled j outcome => if i = j then [.singled outcome] else []
  | returned j out => if i = j then [.returned out] else []
  | _ => []

def history (ls : List Label) (i : ℕ) : List Event := ls.flatMap (Label.events i)

def Before (ls : List Label) (i j : ℕ) : Prop :=
  ∃ (batch : List ℕ) (k m : ℕ), .took batch ∈ ls ∧ k < m ∧ batch[k]? = some i ∧ batch[m]? = some j

/-- The call of `pin` for a caller alone was unavailable, or threw. -/
def Stopped (ls : List Label) (i : ℕ) : Prop :=
  .singled (some .unavailable) ∈ history ls i ∨ .singled none ∈ history ls i

inductive Answered (ls : List Label) (i : ℕ) : List Event → Bool → Prop
  | failed : Answered ls i [.admitted, .failed] false
  | threw : Answered ls i [.admitted, .combine, .combined none] false
  | unrecorded (kind : Kind) :
      Answered ls i [.admitted, .combine, .combined (some kind), .failed] false
  | stored : Answered ls i [.admitted, .combine, .combined (some .stored)] true
  | unavailable : Answered ls i [.admitted, .combine, .combined (some .unavailable)] false
  | alone : .took [i] ∈ ls →
      Answered ls i [.admitted, .combine, .combined (some .missingParent)] false
  | barred {j : ℕ} : Before ls j i → Stopped ls j →
      Answered ls i [.admitted, .combine, .combined (some .missingParent)] false
  | single (outcome : Option Kind) :
      Answered ls i [.admitted, .combine, .combined (some .missingParent), .single, .singled outcome]
        (decide (outcome = some .stored))
  /-- The call of `pin` for a caller after it threw. -/
  | spoiled {j : ℕ} (kind : Kind) : Before ls i j → .singled none ∈ history ls j →
      Answered ls i
        [.admitted, .combine, .combined (some .missingParent), .single, .singled (some kind)] false

/-- What has happened to a caller that has returned `out`: it was not admitted, and it returned `true`
exactly if it had no actors, or it was. -/
def Returned (actors : ℕ → Finset ℕ) (ls : List Label) (i : ℕ) (out : Bool) : Prop :=
  (history ls i = [.returned out] ∧ (out = true ↔ actors i = ∅)) ∨
    ∃ es, history ls i = es ++ [.returned out] ∧ Answered ls i es out

/-- At most one combined call of `pin`, and at most one for the caller alone, after the combined one has
reported a missing parent. -/
structure Pinned (es : List Event) : Prop where
  combine : es.count .combine ≤ 1
  single : es.count .single ≤ 1
  missing : .single ∈ es → [.admitted, .combine, .combined (some .missingParent)] <+: es

def Label.Carries (actors : ℕ → Finset ℕ) : Label → Prop
  | combine batch pinned => ∀ i ∈ batch, actors i ⊆ pinned
  | single i pinned => pinned = actors i
  | _ => True

end TinyImx.Message.ReferenceBatch
