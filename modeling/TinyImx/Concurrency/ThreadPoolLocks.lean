import Mathlib
import TinyImx.Concurrency.ThreadPool
import TinyImx.Lib.Act

/-!
# The locks of the thread pool

The public calls of `ThreadPool` as one thread makes them, one after the other, with the mutexes
that the thread holds.  Between two calls the workers and the manager go on; a thread that locks a
mutex it holds goes no further.
-/

namespace TinyImx.Concurrency.ThreadPool.Locks

inductive Mutex where
  | lifecycle
  | workers
  | queue
  deriving DecidableEq

inductive Fault where
  | deadlock
  | systemError

structure Pool where
  state : PoolState
  /-- `worker_slots_`, by their number. -/
  slots : ℕ
  currentWorkers : ℕ
  threadsCreated : ℕ
  managerRunning : Bool
  queue : Queue
  spawned : ℕ
  held : List Mutex

def Pool.initial : Pool := ⟨.created, 0, 0, 0, false, .empty, 0, []⟩

def lock {α : Type} (m : Mutex) (x : Act Pool Fault α) : Act Pool Fault α := fun p =>
  if m ∈ p.held then (.error .deadlock, p)
  else match x { p with held := m :: p.held } with
    | (.error .deadlock, p') => (.error .deadlock, p')
    | (.error .systemError, p') => (.error .systemError, { p' with held := p'.held.erase m })
    | (.ok a, p') => (.ok a, { p' with held := p'.held.erase m })

section Calls

-- `creates` says which threads can be created
variable (o : Options) (creates : ℕ → Bool)

def workerLimit : ℕ := if o.enableDynamicResize then o.maxThreads else o.workerThreads

def addWorker : Act Pool Fault Bool := lock .workers do
  let p ← Act.read id
  if workerLimit o ≤ p.currentWorkers then
    return false
  Act.modify fun p => { p with slots := p.slots + 1, spawned := p.spawned + 1 }
  if creates p.spawned then
    Act.modify fun p => { p with
      currentWorkers := p.currentWorkers + 1
      threadsCreated := p.threadsCreated + 1 }
    return true
  else
    Act.modify fun p => { p with slots := p.slots - 1 }
    return false

def addWorkers : ℕ → Act Pool Fault Bool
  | 0 => pure true
  | count + 1 => do
    if ← addWorker o creates then
      addWorkers count
    else
      return false

def stopQueue (discardPendingTasks : Bool) : Act Pool Fault Unit :=
  lock .queue (Act.modify fun p => { p with queue := (p.queue.stop discardPendingTasks).2 })

/-- `JoinWorkers`; every worker counts itself out before it is joined. -/
def joinWorkers : Act Pool Fault Unit :=
  lock .workers (Act.modify fun p => { p with slots := 0, currentWorkers := 0 })

def setState (state : PoolState) : Act Pool Fault Unit := Act.modify fun p => { p with state }

def stopManager : Act Pool Fault Unit :=
  Act.modify fun p => if o.enableDynamicResize then { p with managerRunning := false } else p

/-- `Shutdown`; `expired` is whether the wait of a shutdown with a timeout ends by it. -/
def shutdown (mode : ShutdownMode) (expired : Bool) : Act Pool Fault Unit := lock .lifecycle do
  let p ← Act.read id
  if p.state = .stopped then
    return
  if p.state = .created then
    setState .stopped
    return
  stopManager o
  if mode = .force then
    setState .forceStopping
    stopQueue true
    joinWorkers
    setState .stopped
    return
  setState .shuttingDown
  stopQueue false
  if mode = .timeout ∧ expired then
    setState .forceStopping
    stopQueue true
  joinWorkers
  setState .stopped

def start : Act Pool Fault Bool := lock .lifecycle do
  let p ← Act.read id
  if p.state ≠ .created then
    return false
  Act.modify fun p => { p with state := .running, currentWorkers := 0, threadsCreated := 0 }
  if ← addWorkers o creates o.workerThreads then
    if o.enableDynamicResize then
      let p ← Act.read id
      Act.modify fun p => { p with managerRunning := true, spawned := p.spawned + 1 }
      if !creates p.spawned then
        Act.throw .systemError
    return true
  else
    shutdown o .force false
    return false

def exchangeState (expected desired : PoolState) : Act Pool Fault Bool := do
  let p ← Act.read id
  if p.state = expected then
    setState desired
    return true
  else
    return false

def trySubmit (task : Option ℕ) : Act Pool Fault PushResult := do
  match task with
  | none => return .discarded
  | some task =>
    let p ← Act.read id
    if !p.state.accepting then
      return .stopped
    let result ← lock .queue do
      let p ← Act.read id
      let pushed := p.queue.push o.queueCapacity .discard task
      Act.modify fun p => { p with queue := pushed.2.2 }
      return pushed.1
    match result with
    | .ok =>
      -- `UpdatePeakQueueSize`
      let _size ← lock .queue (Act.read fun p => p.queue.items.length)
      return .ok
    | _ => return result

inductive Call where
  | start
  | pause
  | resume
  | trySubmit (task : Option ℕ)
  | shutdown (mode : ShutdownMode) (expired : Bool)

inductive Answer where
  | flag (value : Bool)
  | pushed (result : PushResult)
  | done

def Call.run : Call → Act Pool Fault Answer
  | .start => return .flag (← Locks.start o creates)
  | .pause => return .flag (← exchangeState .running .paused)
  | .resume => return .flag (← exchangeState .paused .running)
  | .trySubmit task => return .pushed (← Locks.trySubmit o task)
  | .shutdown mode expired => do
    Locks.shutdown o mode expired
    return .done

inductive Label where
  | call (c : Call) (result : Except Fault Answer)
  | others

/-- A call of the thread, or steps of the workers and the manager of a pool that is neither new nor
stopped. -/
inductive Step : Pool → Label → Pool → Prop
  | call {p p' : Pool} {c : Call} {result : Except Fault Answer} : p.held = [] →
      c.run o creates p = (result, p') → Step p (.call c result) p'
  | others {p p' : Pool} : p.state ≠ .created → p.state ≠ .stopped → p'.state = p.state →
      p'.held = p.held → Step p .others p'

end Calls

/-! ## Every worker is created, or not -/

variable {o : Options} {creates : ℕ → Bool} {p p' : Pool} {result : Except Fault Answer}
  {ls : List Label}

def Starts (o : Options) (creates : ℕ → Bool) : Prop :=
  (o.enableDynamicResize = true → o.workerThreads ≤ o.maxThreads) ∧
    ∀ i < o.workerThreads, creates i = true

theorem addWorker_eq (hheld : .workers ∉ p.held) :
    addWorker o creates p =
      if p.currentWorkers < workerLimit o then
        if creates p.spawned then
          (.ok true, { p with
            slots := p.slots + 1
            spawned := p.spawned + 1
            currentWorkers := p.currentWorkers + 1
            threadsCreated := p.threadsCreated + 1 })
        else (.ok false, { p with spawned := p.spawned + 1 })
      else (.ok false, p) := by
  by_cases hlimit : p.currentWorkers < workerLimit o
  · by_cases hcreates : creates p.spawned = true <;>
      simp [addWorker, lock, hheld, hlimit, hcreates, Act.bind_apply, not_le.2 hlimit]
  · simp [addWorker, lock, hheld, hlimit, Act.bind_apply, not_lt.1 hlimit]

theorem addWorkers_cases (count : ℕ) (hheld : .workers ∉ p.held) : ∃ created p',
    addWorkers o creates count p = (.ok created, p') ∧ p'.held = p.held ∧ p'.state = p.state ∧
    (created = true ↔ ∀ i < count,
      p.currentWorkers + i < workerLimit o ∧ creates (p.spawned + i) = true) ∧
    (created = true → p'.threadsCreated = p.threadsCreated + count) := by
  induction count generalizing p with
  | zero => exact ⟨true, p, rfl, rfl, rfl, by simp, fun _ => rfl⟩
  | succ count ih =>
    have hadd := @addWorker_eq o creates _ hheld
    by_cases hlimit : p.currentWorkers < workerLimit o
    · by_cases hcreates : creates p.spawned = true
      · rw [if_pos hlimit, if_pos hcreates] at hadd
        obtain ⟨created, p', heq, hheld', hstate, hiff, hcount⟩ := ih (p := { p with
          slots := p.slots + 1
          spawned := p.spawned + 1
          currentWorkers := p.currentWorkers + 1
          threadsCreated := p.threadsCreated + 1 }) hheld
        refine ⟨created, p', (Act.bind_of_ok hadd).trans heq, hheld', hstate,
          hiff.trans ⟨fun h i hi => ?_, fun h i hi => ?_⟩,
          fun h => (hcount h).trans (Nat.add_right_comm _ _ _)⟩
        · cases i with
          | zero => exact ⟨hlimit, hcreates⟩
          | succ i =>
            have := h i (by omega)
            simpa only [Nat.add_assoc, Nat.add_comm 1] using this
        · have := h (i + 1) (by omega)
          simpa only [Nat.add_assoc, Nat.add_comm 1] using this
      · rw [if_pos hlimit, if_neg hcreates] at hadd
        refine ⟨false, _, Act.bind_of_ok hadd, rfl, rfl, ⟨fun h => (by cases h), fun h => ?_⟩,
          fun h => by cases h⟩
        exact absurd (h 0 (Nat.succ_pos _)).2 hcreates
    · rw [if_neg hlimit] at hadd
      refine ⟨false, _, Act.bind_of_ok hadd, rfl, rfl, ⟨fun h => (by cases h), fun h => ?_⟩,
        fun h => by cases h⟩
      exact absurd (h 0 (Nat.succ_pos _)).1 hlimit

theorem starts_iff : Starts o creates ↔
    ∀ i < o.workerThreads, 0 + i < workerLimit o ∧ creates (0 + i) = true := by
  have hpos := o.workerThreads_pos
  unfold Starts workerLimit
  constructor
  · intro h i hi
    rw [Nat.zero_add]
    refine ⟨?_, h.2 i hi⟩
    split
    · next hdynamic => exact hi.trans_le (h.1 hdynamic)
    · exact hi
  · intro h
    refine ⟨fun hdynamic => ?_, fun i hi => by simpa using (h i hi).2⟩
    have hlast := (h (o.workerThreads - 1) (by omega)).1
    rw [if_pos hdynamic] at hlast
    omega

theorem shutdown_held {mode : ShutdownMode} {expired : Bool} (h : .lifecycle ∈ p.held) :
    shutdown o mode expired p = (.error .deadlock, p) := by
  rw [shutdown, lock, if_pos h]

theorem start_created (hstate : p.state = .created) (hspawned : p.spawned = 0)
    (hheld : p.held = []) : ∃ r p', start o creates p = (r, p') ∧
      (Starts o creates → (∀ e, r = .error e → e = .systemError) ∧ p'.held = [] ∧
        p'.state = .running ∧ p'.threadsCreated = o.workerThreads) ∧
      (¬ Starts o creates → r = .error .deadlock) := by
  obtain ⟨created, p₁, heq, hheld₁, hstate₁, hiff, hcount⟩ :=
    @addWorkers_cases o creates
      { p with state := .running, currentWorkers := 0, threadsCreated := 0, held := [.lifecycle] }
      o.workerThreads (by simp)
  dsimp only at hheld₁ hstate₁ hiff hcount
  rw [hspawned, ← starts_iff] at hiff
  cases created with
  | true =>
    have hthreads := (hcount rfl).trans (Nat.zero_add _)
    cases hdynamic : o.enableDynamicResize with
    | false =>
      refine ⟨.ok true, { p₁ with held := [] }, ?_, fun _ => ⟨fun e h => (by cases h), rfl,
        hstate₁, hthreads⟩, fun h => absurd (hiff.1 rfl) h⟩
      simp [start, lock, hheld, hstate, Act.bind_apply, heq, hdynamic, hheld₁]
    | true =>
      cases hmanager : creates p₁.spawned with
      | true =>
        refine ⟨.ok true,
          { p₁ with managerRunning := true, spawned := p₁.spawned + 1, held := [] }, ?_,
          fun _ => ⟨fun e h => (by cases h), rfl, hstate₁, hthreads⟩,
          fun h => absurd (hiff.1 rfl) h⟩
        simp [start, lock, hheld, hstate, Act.bind_apply, heq, hdynamic, hheld₁, hmanager]
      | false =>
        refine ⟨.error .systemError,
          { p₁ with managerRunning := true, spawned := p₁.spawned + 1, held := [] }, ?_,
          fun _ => ⟨fun e h => (by cases h; rfl), rfl, hstate₁, hthreads⟩,
          fun h => absurd (hiff.1 rfl) h⟩
        simp [start, lock, hheld, hstate, Act.bind_apply, heq, hdynamic, hheld₁, hmanager]
  | false =>
    have hnot : ¬ Starts o creates := fun h => by cases hiff.2 h
    refine ⟨.error .deadlock, p₁, ?_, fun h => absurd h hnot, fun _ => rfl⟩
    have hshutdown : shutdown o .force false p₁ = (.error .deadlock, p₁) :=
      shutdown_held (by rw [hheld₁]; exact List.mem_singleton.2 rfl)
    simp [start, lock, hheld, hstate, Act.bind_apply, heq, hshutdown]

/-! ## The calls -/

/-- A pool whose thread holds nothing, and that has tried to create no thread while it is new. -/
structure Idle (p : Pool) : Prop where
  held : p.held = []
  spawned : p.state = .created → p.spawned = 0

theorem shutdown_idle (mode : ShutdownMode) (expired : Bool) (hheld : p.held = []) :
    (shutdown o mode expired p).1 = .ok () ∧ (shutdown o mode expired p).2.held = [] ∧
      (shutdown o mode expired p).2.state = .stopped := by
  by_cases hstopped : p.state = .stopped
  · simp [shutdown, lock, hheld, hstopped, Act.bind_apply]
  by_cases hcreated : p.state = .created
  · simp [shutdown, lock, hheld, hcreated, setState, Act.bind_apply]
  cases hdynamic : o.enableDynamicResize <;> cases mode <;> cases expired <;>
    simp [shutdown, lock, hheld, hstopped, hcreated, hdynamic, stopManager, setState, stopQueue,
      joinWorkers, Act.bind_apply]

theorem trySubmit_idle (task : Option ℕ) (h : Idle p) :
    (∃ r, (trySubmit o task p).1 = .ok r) ∧ Idle (trySubmit o task p).2 := by
  have hheld := h.held
  cases task with
  | none => exact ⟨⟨_, rfl⟩, h⟩
  | some task =>
    cases haccepting : p.state.accepting with
    | false => simp [trySubmit, haccepting, Act.bind_apply, h]
    | true =>
      have hspawned := h.spawned
      rcases hpush : p.queue.push o.queueCapacity .discard task with ⟨result, dropped, queue⟩
      cases result <;>
        simp [trySubmit, lock, hheld, haccepting, hpush, Act.bind_apply] <;>
        exact ⟨rfl, hspawned⟩

theorem exchangeState_idle {expected desired : PoolState} (hdesired : desired ≠ .created)
    (h : Idle p) : (∃ r, (exchangeState expected desired p).1 = .ok r) ∧
      Idle (exchangeState expected desired p).2 := by
  by_cases hstate : p.state = expected
  · have heq : exchangeState expected desired p = (.ok true, { p with state := desired }) := by
      simp [exchangeState, hstate, setState, Act.bind_apply]
    rw [heq]
    exact ⟨⟨_, rfl⟩, h.held, fun hcreated => absurd hcreated hdesired⟩
  · simp [exchangeState, hstate, Act.bind_apply, h]

/-- A call does not lock a mutex that its thread holds, and a `Start` that does not create all
workers returns `false` and leaves a stopped pool without workers. -/
def Answers (o : Options) (p : Pool) (c : Call) (result : Except Fault Answer) (p' : Pool) : Prop :=
  result ≠ .error .deadlock ∧
    (c = .start → p.state = .created → p'.threadsCreated < o.workerThreads →
      result = .ok (.flag false) ∧ p'.state = .stopped ∧ p'.slots = 0 ∧ p'.currentWorkers = 0)

theorem Call.answers (hstarts : Starts o creates) (h : Idle p) {c : Call}
    (hrun : c.run o creates p = (result, p')) : Idle p' ∧ Answers o p c result p' := by
  cases c with
  | start =>
    by_cases hcreated : p.state = .created
    · obtain ⟨r, p₁, heq, hyes, -⟩ :=
        @start_created o creates _ hcreated (h.spawned hcreated) h.held
      obtain ⟨herror, hheld, hrunning, hthreads⟩ := hyes hstarts
      have hidle : Idle p₁ := ⟨hheld, fun hc => by rw [hrunning] at hc; cases hc⟩
      cases r with
      | ok b =>
        cases (Act.bind_of_ok heq).symm.trans hrun
        exact ⟨hidle, by simp, fun _ _ hlt => by omega⟩
      | error e =>
        obtain rfl := herror e rfl
        cases (Act.bind_of_error heq).symm.trans hrun
        exact ⟨hidle, by simp, fun _ _ hlt => by omega⟩
    · have heq : Locks.start o creates p = (.ok false, p) := by
        simp [Locks.start, lock, h.held, hcreated, Act.bind_apply]
        rw [← h.held]
      cases (Act.bind_of_ok heq).symm.trans hrun
      exact ⟨h, by simp, fun _ hc => absurd hc hcreated⟩
  | pause =>
    obtain ⟨⟨r, hr⟩, hidle⟩ := @exchangeState_idle _ .running .paused (by simp) h
    cases (Act.bind_of_ok (Prod.ext hr rfl)).symm.trans hrun
    exact ⟨hidle, by simp, by simp⟩
  | resume =>
    obtain ⟨⟨r, hr⟩, hidle⟩ := @exchangeState_idle _ .paused .running (by simp) h
    cases (Act.bind_of_ok (Prod.ext hr rfl)).symm.trans hrun
    exact ⟨hidle, by simp, by simp⟩
  | trySubmit task =>
    obtain ⟨⟨r, hr⟩, hidle⟩ := @trySubmit_idle o _ task h
    cases (Act.bind_of_ok (Prod.ext hr rfl)).symm.trans hrun
    exact ⟨hidle, by simp, by simp⟩
  | shutdown mode expired =>
    obtain ⟨hr, hheld, hstopped⟩ := @shutdown_idle o _ mode expired h.held
    cases (Act.bind_of_ok (Prod.ext hr rfl)).symm.trans hrun
    exact ⟨⟨hheld, fun hc => by rw [hstopped] at hc; cases hc⟩, by simp, by simp⟩

theorem idle_of_run (hstarts : Starts o creates) (hrun : Run (Step o creates) .initial ls p) :
    Idle p := by
  refine hrun.invariant (fun p l p' h hstep => ?_) ⟨rfl, fun _ => rfl⟩
  cases hstep with
  | call _ hcall => exact (Call.answers hstarts h hcall).1
  | others hcreated _ hstate hheld =>
    exact ⟨hheld.trans h.held, fun hc => absurd (hstate ▸ hc) hcreated⟩

/-- Every sequence of calls is answered exactly if all workers of the pool can be created. -/
theorem lifecycle_calls (o : Options) (creates : ℕ → Bool) :
    (∀ ls p, Run (Step o creates) .initial ls p → ∀ c result p',
      Step o creates p (.call c result) p' → Answers o p c result p') ↔ Starts o creates := by
  constructor
  · intro hall
    by_contra hnot
    obtain ⟨r, p', heq, -, hno⟩ := @start_created o creates .initial rfl rfl rfl
    obtain rfl := hno hnot
    exact (hall _ _ (.nil _) .start _ _ (.call rfl (Act.bind_of_error heq))).1 rfl
  · intro hstarts ls p hrun c result p' hstep
    cases hstep with
    | call _ hcall => exact (Call.answers hstarts (idle_of_run hstarts hrun) hcall).2

def narrow : Options where
  workerThreads := 2
  queueCapacity := 1
  queueFullPolicy := .block
  enableDynamicResize := true
  minThreads := 1
  maxThreads := 1
  scaleUp _ := false
  scaleDown _ := false
  workerThreads_pos := Nat.two_pos
  queueCapacity_pos := Nat.one_pos

/-- The second worker is refused, and `Start` calls `Shutdown` with its mutex locked. -/
theorem start_waits_for_itself : ¬ ∀ (o : Options) (creates : ℕ → Bool) (ls : List Label)
    (p : Pool), Run (Step o creates) .initial ls p → ∀ c result p',
      Step o creates p (.call c result) p' → Answers o p c result p' := by
  intro hall
  have hcall : Call.start.run narrow (fun _ => true) .initial = (.error .deadlock,
      { Pool.initial with
        state := .running
        slots := 1
        currentWorkers := 1
        threadsCreated := 1
        spawned := 1
        held := [.lifecycle] }) := rfl
  exact (hall narrow (fun _ => true) _ _ (.nil _) .start _ _ (.call rfl hcall)).1 rfl

end TinyImx.Concurrency.ThreadPool.Locks
