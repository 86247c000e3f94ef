import Mathlib.Algebra.Ring.Nat
import Mathlib.Data.List.Basic
import Mathlib.Logic.Function.Basic
import TinyImx.Lib.Run

/-!
# Grouped physical writes

A caller of `ReadyPhysicalWriteGroup::Run` reserves the bytes of its input and joins the queue of a
`BoundedCallerBatch`.  The first caller that finds nobody running leads: it takes a batch from the
head of the queue, executes it outside the lock, and gives each caller of the batch its result.  A
caller whose input was not attempted executes it alone.

Callers are numbered, and a number also stands for the input of its call.  What runs under the mutex
is one step, and so is each access to the atomic byte counter.
-/

namespace TinyImx.Runtime.WriteGroup

structure Limits where
  batch : ℕ
  queued : ℕ
  serializedInputBytes : ℕ
  batch_bounds : 1 ≤ batch ∧ batch ≤ 64
  queued_bounds : 1 ≤ queued ∧ queued ≤ 256
  bytes_bounds : 1 ≤ serializedInputBytes ∧ serializedInputBytes ≤ 64 * 1024 * 1024

def sizeSub (a b : ℕ) : ℕ := (a + 2 ^ 64 - b) % 2 ^ 64

structure Completion (Error : Type) where
  attempted : Bool
  error : Option Error

def Completion.notAttempted {Error : Type} : Completion Error := ⟨false, none⟩

structure Node (Error : Type) where
  result : Completion Error
  done : Bool

def Node.joined {Error : Type} : Node Error := ⟨.notAttempted, false⟩

inductive Stage (Error : Type)
  | collecting
  | assembled (batch : List ℕ)
  | writing (batch : List ℕ)
  /-- The call of the batcher's `execute` is over, with its results unless it threw. -/
  | executed (batch : List ℕ) (results : Option (List (Completion Error)))

/-- Where a caller is; `finished` with an error is a call that threw it. -/
inductive Phase (Error : Type)
  | idle
  /-- In the loop of `Reserve`, with the value of the counter it last read. -/
  | reserving (held : ℕ)
  | direct
  /-- In the call of `execute` for one input, with or without bytes reserved. -/
  | invoking (reserved : Bool)
  | admitted
  | waiting
  | leading (stage : Stage Error)
  | fallback
  /-- `Run` is over up to the release of the bytes. -/
  | finishing (out : Option Error)
  | finished (out : Option Error)

structure State (Error : Type) where
  heldBytes : ℕ
  queue : List ℕ
  running : Bool
  nodes : ℕ → Node Error
  phase : ℕ → Phase Error

variable {Error : Type}

def State.initial : State Error := ⟨0, [], false, fun _ => .joined, fun _ => .idle⟩

def State.setPhase (s : State Error) (i : ℕ) (p : Phase Error) : State Error :=
  { s with phase := Function.update s.phase i p }

def Completion.next (r : Completion Error) : Phase Error :=
  if r.attempted then .finishing r.error else .fallback

def assign (nodes : ℕ → Node Error) : List (ℕ × Completion Error) → ℕ → Node Error
  | [] => nodes
  | (i, r) :: pairs => assign (Function.update nodes i ⟨r, true⟩) pairs

/-- The end of a leader's round: results only if there is one for each caller of the batch. -/
def writeBack (nodes : ℕ → Node Error) (batch : List ℕ) :
    Option (List (Completion Error)) → ℕ → Node Error
  | some results =>
    if results.length = batch.length then assign nodes (batch.zip results)
    else assign nodes (batch.map fun i => (i, (nodes i).result))
  | none => assign nodes (batch.map fun i => (i, (nodes i).result))

inductive Label (Error : Type)
  | silent
  | join (i : ℕ)
  /-- A call of the physical `execute` with the inputs of these callers begins. -/
  | execute (batch : List ℕ)
  | returned (batch : List ℕ) (error : Option Error)

/-- One step of the caller `i`, whose input has `bytes i` bytes. -/
inductive Act (o : Limits) (bytes : ℕ → ℕ) (i : ℕ) : State Error → Label Error → State Error → Prop
  -- `Reserve`
  | refuse {s : State Error} : s.phase i = .idle →
      (bytes i = 0 ∨ o.serializedInputBytes < bytes i) → Act o bytes i s .silent (s.setPhase i .direct)
  | load {s : State Error} : s.phase i = .idle → 0 < bytes i → bytes i ≤ o.serializedInputBytes →
      Act o bytes i s .silent (s.setPhase i (.reserving s.heldBytes))
  | deny {s : State Error} {held : ℕ} : s.phase i = .reserving held →
      sizeSub o.serializedInputBytes held < bytes i → Act o bytes i s .silent (s.setPhase i .direct)
  | reserve {s : State Error} {held : ℕ} : s.phase i = .reserving held →
      bytes i ≤ sizeSub o.serializedInputBytes held → s.heldBytes = held →
      Act o bytes i s .silent ({ s with heldBytes := held + bytes i }.setPhase i .admitted)
  | retry {s : State Error} {held : ℕ} : s.phase i = .reserving held →
      bytes i ≤ sizeSub o.serializedInputBytes held →
      Act o bytes i s .silent (s.setPhase i (.reserving s.heldBytes))
  -- `Invoke` for one input
  | invokeDirect {s : State Error} : s.phase i = .direct →
      Act o bytes i s (.execute [i]) (s.setPhase i (.invoking false))
  | invokeFallback {s : State Error} : s.phase i = .fallback →
      Act o bytes i s (.execute [i]) (s.setPhase i (.invoking true))
  | invoked {s : State Error} {reserved : Bool} (error : Option Error) :
      s.phase i = .invoking reserved →
      Act o bytes i s (.returned [i] error)
        (s.setPhase i (if reserved then .finishing error else .finished error))
  -- `BoundedCallerBatch::Run`
  | throws {s : State Error} (error : Error) : s.phase i = .admitted →
      Act o bytes i s .silent (s.setPhase i (.finishing (some error)))
  | full {s : State Error} : s.phase i = .admitted → o.queued ≤ s.queue.length →
      Act o bytes i s .silent (s.setPhase i (Completion.next .notAttempted))
  | join {s : State Error} : s.phase i = .admitted → s.queue.length < o.queued →
      Act o bytes i s (.join i)
        ({ s with
          queue := s.queue ++ [i]
          nodes := Function.update s.nodes i .joined }.setPhase i .waiting)
  | collect {s : State Error} : s.phase i = .waiting → (s.nodes i).done = true →
      Act o bytes i s .silent (s.setPhase i (s.nodes i).result.next)
  | lead {s : State Error} : s.phase i = .waiting → (s.nodes i).done = false → s.running = false →
      Act o bytes i s .silent ({ s with running := true }.setPhase i (.leading .collecting))
  | assemble {s : State Error} : s.phase i = .leading .collecting →
      Act o bytes i s .silent
        ({ s with queue := s.queue.drop o.batch }.setPhase i
          (.leading (.assembled (s.queue.take o.batch))))
  | assembleFails {s : State Error} : s.phase i = .leading .collecting →
      Act o bytes i s .silent
        ({ s with
          running := false
          nodes := assign s.nodes (s.queue.map fun j => (j, (s.nodes j).result))
          queue := [] }.setPhase i (s.nodes i).result.next)
  | allocateFails {s : State Error} {batch : List ℕ} : s.phase i = .leading (.assembled batch) →
      Act o bytes i s .silent (s.setPhase i (.leading (.executed batch none)))
  | write {s : State Error} {batch : List ℕ} : s.phase i = .leading (.assembled batch) →
      Act o bytes i s (.execute batch) (s.setPhase i (.leading (.writing batch)))
  | wrote {s : State Error} {batch : List ℕ} (error : Option Error) :
      s.phase i = .leading (.writing batch) →
      Act o bytes i s (.returned batch error)
        (s.setPhase i (.leading (.executed batch
          (some (List.replicate batch.length ⟨true, error⟩)))))
  | writeBack {s : State Error} {batch : List ℕ} {results : Option (List (Completion Error))} :
      s.phase i = .leading (.executed batch results) →
      Act o bytes i s .silent
        ({ s with
          running := false
          nodes := writeBack s.nodes batch results }.setPhase i .waiting)
  | release {s : State Error} {out : Option Error} : s.phase i = .finishing out →
      Act o bytes i s .silent
        ({ s with heldBytes := sizeSub s.heldBytes (bytes i) }.setPhase i (.finished out))

def Step (o : Limits) (bytes : ℕ → ℕ) (s : State Error) (l : Label Error) (s' : State Error) : Prop :=
  ∃ i, Act o bytes i s l s'

/-! ## What a run did -/

namespace Label

def joined : Label Error → List ℕ
  | join i => [i]
  | _ => []

/-- The callers whose inputs a call of `execute` that begins is given. -/
def started : Label Error → List ℕ
  | execute batch => batch
  | _ => []

/-- How the call of `execute` that ends, if it has the input of `i`, ended. -/
def ended (i : ℕ) : Label Error → List (Option Error)
  | returned batch error => if i ∈ batch then [error] else []
  | _ => []

end Label

def joined (ls : List (Label Error)) : List ℕ := ls.flatMap Label.joined

def starts (ls : List (Label Error)) (i : ℕ) : ℕ := (ls.flatMap Label.started).count i

def ends (ls : List (Label Error)) (i : ℕ) : List (Option Error) := ls.flatMap (Label.ended i)

def Phase.holds : Phase Error → Bool
  | .invoking reserved => reserved
  | .admitted | .waiting | .leading _ | .fallback | .finishing _ => true
  | _ => false

def Phase.unfinished : Phase Error → Bool
  | .idle | .finished _ => false
  | _ => true

end TinyImx.Runtime.WriteGroup
