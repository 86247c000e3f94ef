import Mathlib
import TinyImx.Lib.Custody
import TinyImx.Concurrency.ThreadPool

/-!
# What becomes of an accepted task

Every accepted task is in the queue, with a worker, or was run, overwritten, discarded by `Stop`, or
dropped by a worker that left with it.  If no worker leaves with a task, and the last worker to
leave leaves an empty queue that takes no further task, then nothing is left when `Shutdown` has
returned.
-/

namespace TinyImx.Concurrency.ThreadPool

open Multiset (card_add coe_add coe_card coe_nil coe_singleton map_cons mem_cons mem_cons_self
  nodup_of_le singleton_add zero_ne_cons)

variable {o : Options} {s s' : State} {ls : List Label} {l : Label} {w w' : Worker}

/-! ## What a run did -/

def Label.acceptedTasks : Label → List ℕ
  | .accepted task _ => [task]
  | _ => []

def Label.ranTasks : Label → List ℕ
  | .ran task => [task]
  | _ => []

def Label.overwrittenTasks : Label → List ℕ
  | .accepted _ overwritten => overwritten.toList
  | _ => []

def Label.discardedTasks : Label → List ℕ
  | .discarded tasks => tasks
  | _ => []

def Label.droppedTasks : Label → List ℕ
  | .dropped task => [task]
  | _ => []

def tasks (kind : Label → List ℕ) (ls : List Label) : Multiset ℕ := ↑(ls.flatMap kind)

@[simp] theorem tasks_nil (kind : Label → List ℕ) : tasks kind [] = 0 := rfl

theorem tasks_snoc (kind : Label → List ℕ) (ls : List Label) (l : Label) :
    tasks kind (ls ++ [l]) = tasks kind ls + ↑(kind l) := by
  simp [tasks, List.flatMap_append]

theorem push_ok {capacity task : ℕ} {policy : QueueFullPolicy} {q q' : Queue}
    {overwritten : Option ℕ}
    (h : q.push capacity policy task = (.ok, overwritten, q')) : q.stopped = false ∧
      q'.stopped = q.stopped ∧ q'.forceStopped = q.forceStopped ∧
      q'.shutdownDiscardCounter = q.shutdownDiscardCounter ∧
      q'.overrunCounter = q.overrunCounter + overwritten.toList.length ∧
      overwritten.toList ++ q'.items = q.items ++ [task] := by
  unfold Queue.push at h
  split at h
  · cases h
  · next hstopped =>
    split at h
    · split at h
      · cases h
      · cases h
      · split at h
        · cases h
        · next hitems =>
          grind
    · cases h
      exact ⟨Bool.eq_false_of_not_eq_true hstopped, rfl, rfl, rfl, rfl, rfl⟩

theorem push_no {capacity task : ℕ} {policy : QueueFullPolicy} {q q' : Queue}
    {overwritten : Option ℕ}
    {result : PushResult} (h : q.push capacity policy task = (result, overwritten, q'))
    (hne : result ≠ .ok) : q'.stopped = q.stopped ∧ q'.forceStopped = q.forceStopped ∧
      q'.shutdownDiscardCounter = q.shutdownDiscardCounter ∧ q'.overrunCounter = q.overrunCounter ∧
      q'.items = q.items := by
  unfold Queue.push at h
  split at h
  · simp_all
  · split at h
    · split at h
      · simp_all
      · grind
      · split at h
        · cases h
          exact ⟨rfl, rfl, rfl, rfl, rfl⟩
        · cases h
          exact absurd rfl hne
    · cases h
      exact absurd rfl hne

theorem stop_eq {discard : Bool} {q q' : Queue} {discarded : List ℕ}
    (h : q.stop discard = (discarded, q')) : discarded ++ q'.items = q.items ∧ q'.stopped = true ∧
      q'.shutdownDiscardCounter = q.shutdownDiscardCounter + discarded.length ∧
      q'.overrunCounter = q.overrunCounter ∧
      (discard = true → q'.forceStopped = true ∧ q'.items = []) ∧
      (discard = false → q'.forceStopped = q.forceStopped ∧ discarded = []) := by
  unfold Queue.stop at h
  cases discard with
  | true =>
    grind
  | false =>
    grind

def Worker.task : Worker → Option ℕ
  | .popped task | .waited task | .cleared task | .running task => some task
  | _ => none

structure Conserved (ls : List Label) (s : State) : Prop where
  conserved : tasks Label.acceptedTasks ls = ↑s.queue.items + tokensOf Worker.task s.workers +
    tasks Label.ranTasks ls + tasks Label.overwrittenTasks ls + tasks Label.discardedTasks ls +
    tasks Label.droppedTasks ls
  nodup : (s.producers.map Prod.fst + tasks Label.acceptedTasks ls).Nodup
  lt : ∀ i ∈ s.producers.map Prod.fst + tasks Label.acceptedTasks ls, i < s.nextTask
  overwritten : s.queue.overrunCounter = Multiset.card (tasks Label.overwrittenTasks ls)
  discarded : s.queue.shutdownDiscardCounter = Multiset.card (tasks Label.discardedTasks ls)

namespace Conserved

theorem init : Conserved [] State.initial := by
  refine ⟨rfl, Multiset.nodup_zero, ?_, rfl, rfl⟩
  intro i hi
  exact absurd hi (Multiset.notMem_zero i)

theorem congr (h : Conserved ls s) (hl : l = .silent ∨ (∃ task, l = .rejected task) ∨ l = .leaves)
    (hqueue : s'.queue.items = s.queue.items ∧ s'.queue.overrunCounter = s.queue.overrunCounter ∧
      s'.queue.shutdownDiscardCounter = s.queue.shutdownDiscardCounter)
    (hworkers : tokensOf Worker.task s'.workers = tokensOf Worker.task s.workers)
    (hproducers : s'.producers ≤ s.producers) (hnext : s.nextTask ≤ s'.nextTask) :
    Conserved (ls ++ [l]) s' := by
  have hkinds : l.acceptedTasks = [] ∧ l.ranTasks = [] ∧ l.overwrittenTasks = [] ∧
      l.discardedTasks = [] ∧ l.droppedTasks = [] := by
    rcases hl with rfl | ⟨task, rfl⟩ | rfl <;> exact ⟨rfl, rfl, rfl, rfl, rfl⟩
  obtain ⟨ha, hr, ho, hd, hp⟩ := hkinds
  obtain ⟨hitems, hover, hdisc⟩ := hqueue
  have hsub : s'.producers.map Prod.fst + tasks Label.acceptedTasks (ls ++ [l]) ≤
      s.producers.map Prod.fst + tasks Label.acceptedTasks ls := by
    rw [tasks_snoc, ha, coe_nil, add_zero]
    exact add_le_add_left (Multiset.map_le_map hproducers) _
  refine ⟨?_, nodup_of_le hsub h.nodup,
    fun i hi => (h.lt i (Multiset.mem_of_le hsub hi)).trans_le hnext, ?_, ?_⟩
  · simp only [tasks_snoc, ha, hr, ho, hd, hp, coe_nil, add_zero, hitems, hworkers]
    exact h.conserved
  · rw [hover, tasks_snoc, ho, h.overwritten, coe_nil, add_zero]
  · rw [hdisc, tasks_snoc, hd, h.discarded, coe_nil, add_zero]

theorem worker {workers : Multiset Worker} (h : Conserved ls s) (hw : s.workers = w ::ₘ workers)
    (hl : l = .silent ∨ (∃ task, l = .rejected task) ∨ l = .leaves) (htask : w'.task = w.task)
    (hsame : s'.queue = s.queue ∧ s'.producers = s.producers ∧ s'.nextTask = s.nextTask) :
    Conserved (ls ++ [l]) { s' with workers := w' ::ₘ workers } := by
  obtain ⟨hqueue, hproducers, hnext⟩ := hsame
  refine h.congr hl ⟨?_, ?_, ?_⟩ ?_ (le_of_eq hproducers) (le_of_eq hnext.symm)
  · exact congrArg Queue.items hqueue
  · exact congrArg Queue.overrunCounter hqueue
  · exact congrArg Queue.shutdownDiscardCounter hqueue
  · rw [hw, tokensOf_cons, tokensOf_cons, htask]

theorem giveUp {workers : Multiset Worker} {task : ℕ} (h : Conserved ls s)
    (hw : s.workers = w ::ₘ workers) (hl : l = .ran task ∨ l = .dropped task)
    (htask : w.task = some task) (hnone : w'.task = none)
    (hsame : s'.queue = s.queue ∧ s'.producers = s.producers ∧ s'.nextTask = s.nextTask) :
    Conserved (ls ++ [l]) { s' with workers := w' ::ₘ workers } := by
  obtain ⟨hqueue, hproducers, hnext⟩ := hsame
  have hcons := h.conserved
  rw [hw, tokensOf_cons, htask, Option.tokens_some] at hcons
  have hkinds : l.acceptedTasks = [] ∧ l.overwrittenTasks = [] ∧ l.discardedTasks = [] := by
    rcases hl with rfl | rfl <;> exact ⟨rfl, rfl, rfl⟩
  obtain ⟨ha, ho, hd⟩ := hkinds
  refine ⟨?_, ?_, ?_, ?_, ?_⟩
  · simp only [tasks_snoc, ha, ho, hd, coe_nil, add_zero, tokensOf_cons, hnone,
      Option.tokens_none, zero_add, hqueue]
    rw [hcons]
    rcases hl with rfl | rfl <;>
      simp only [Label.ranTasks, Label.droppedTasks, coe_nil, add_zero,
        coe_singleton] <;> ac_rfl
  · simp only [tasks_snoc, ha, coe_nil, add_zero, hproducers]
    exact h.nodup
  · simp only [tasks_snoc, ha, coe_nil, add_zero, hproducers, hnext]
    exact h.lt
  · simp only [tasks_snoc, ho, coe_nil, add_zero, hqueue]
    exact h.overwritten
  · simp only [tasks_snoc, hd, coe_nil, add_zero, hqueue]
    exact h.discarded

theorem pop {workers : Multiset Worker} {task : ℕ} {items : List ℕ} (h : Conserved ls s)
    (hw : s.workers = .popping ::ₘ workers) (hitems : s.queue.items = task :: items) :
    Conserved (ls ++ [.silent]) { s with
      queue := { s.queue with items }
      workers := .popped task ::ₘ workers } := by
  have hcons := h.conserved
  rw [hw, tokensOf_cons, hitems, ← Multiset.cons_coe, ← singleton_add] at hcons
  refine ⟨?_, ?_, ?_, ?_, ?_⟩
  · simp only [tasks_snoc, Label.acceptedTasks, Label.ranTasks, Label.overwrittenTasks,
      Label.discardedTasks, Label.droppedTasks, coe_nil, add_zero, tokensOf_cons]
    rw [hcons]
    simp only [Worker.task, Option.tokens_none, Option.tokens_some, zero_add]
    ac_rfl
  · simp only [tasks_snoc, Label.acceptedTasks, coe_nil, add_zero]
    exact h.nodup
  · simp only [tasks_snoc, Label.acceptedTasks, coe_nil, add_zero]
    exact h.lt
  · simp only [tasks_snoc, Label.overwrittenTasks, coe_nil, add_zero]
    exact h.overwritten
  · simp only [tasks_snoc, Label.discardedTasks, coe_nil, add_zero]
    exact h.discarded

theorem top_task (o : Options) : (Worker.top o).task = none := by
  unfold Worker.top
  split <;> rfl

theorem stay_task (o : Options) (idle : Bool) : (Worker.stay o idle).task = none := by
  unfold Worker.stay
  split
  · exact top_task o
  · rfl

theorem workerStep {workers : Multiset Worker} (h : Conserved ls s) (hw : s.workers = w ::ₘ workers)
    (hs : Worker.Step o s w l s' w') : Conserved (ls ++ [l])
        { s' with workers := w' ::ₘ workers } := by
  have hquiet : ∀ {w₁ : Worker}, w₁.task = w.task → Conserved (ls ++ [.silent])
      { s with workers := w₁ ::ₘ workers } := fun htask =>
          h.worker hw (.inl rfl) htask ⟨rfl, rfl, rfl⟩
  cases hs with
  | stateOk _ => exact hquiet rfl
  | stateNo _ => exact hquiet (stay_task o _)
  | sizeOk _ => exact hquiet rfl
  | sizeNo _ => exact hquiet (stay_task o _)
  | pendingOk _ => exact hquiet rfl
  | pendingNo _ => exact hquiet (stay_task o _)
  | countOk _ => exact hquiet rfl
  | countNo _ => exact hquiet (stay_task o _)
  | exchangeOk _ => exact h.worker hw (.inr (.inr rfl)) rfl ⟨rfl, rfl, rfl⟩
  | exchangeNo =>
    refine hquiet ?_
    split
    · rfl
    · exact stay_task o _
  | pop _ hitems => exact h.pop hw hitems
  | popStopped _ => exact hquiet rfl
  | popTimedOut _ _ _ _ => exact hquiet rfl
  | failedLeave _ => exact h.worker hw (.inr (.inr rfl)) rfl ⟨rfl, rfl, rfl⟩
  | failedStay _ =>
    refine hquiet ?_
    split
    · rfl
    · exact top_task o
  | resume _ => exact hquiet rfl
  | waitedDrop _ => exact h.giveUp hw (.inr rfl) rfl rfl ⟨rfl, rfl, rfl⟩
  | waitedOk _ => exact hquiet rfl
  | clearedDrop _ => exact h.giveUp hw (.inr rfl) rfl rfl ⟨rfl, rfl, rfl⟩
  | clearedOk _ => exact h.worker hw (.inl rfl) rfl ⟨rfl, rfl, rfl⟩
  | run => exact h.giveUp hw (.inl rfl) rfl (top_task o) ⟨rfl, rfl, rfl⟩
  | leave => exact h.worker hw (.inl rfl) rfl ⟨rfl, rfl, rfl⟩
  | exit => exact h.worker hw (.inl rfl) rfl ⟨rfl, rfl, rfl⟩

theorem push {task : ℕ} {policy : QueueFullPolicy} {producers : Multiset (ℕ × QueueFullPolicy)}
    {overwritten : Option ℕ} {queue : Queue} {capacity : ℕ} (h : Conserved ls s)
    (hproducers : s.producers = (task, policy) ::ₘ producers)
    (hpush : s.queue.push capacity policy task = (.ok, overwritten, queue)) :
    Conserved (ls ++ [.accepted task overwritten]) { s with queue, producers } := by
  obtain ⟨-, -, -, hdisc, hover, hitems⟩ := push_ok hpush
  have hitems' : (↑overwritten.toList + ↑queue.items : Multiset ℕ) = ↑s.queue.items + {task} := by
    rw [coe_add, hitems, ← coe_add, coe_singleton]
  have hmove : producers.map Prod.fst + tasks Label.acceptedTasks
      (ls ++ [.accepted task overwritten]) =
      s.producers.map Prod.fst + tasks Label.acceptedTasks ls := by
    rw [tasks_snoc, hproducers, map_cons, ← singleton_add, Label.acceptedTasks,
      coe_singleton]
    ac_rfl
  refine ⟨?_, hmove ▸ h.nodup, hmove ▸ h.lt, ?_, ?_⟩
  · simp only [tasks_snoc, Label.acceptedTasks, Label.ranTasks, Label.overwrittenTasks,
      Label.discardedTasks, Label.droppedTasks, coe_nil, add_zero, coe_singleton]
    rw [h.conserved]
    calc ↑s.queue.items + tokensOf Worker.task s.workers + tasks Label.ranTasks ls +
          tasks Label.overwrittenTasks ls + tasks Label.discardedTasks ls +
          tasks Label.droppedTasks ls + {task}
        = (↑s.queue.items + {task}) + tokensOf Worker.task s.workers + tasks Label.ranTasks ls +
          tasks Label.overwrittenTasks ls + tasks Label.discardedTasks ls +
          tasks Label.droppedTasks ls := by ac_rfl
      _ = _ := by
        rw [← hitems']
        ac_rfl
  · simp only [hover, tasks_snoc, Label.overwrittenTasks, card_add, coe_card,
      h.overwritten]
  · simp only [hdisc, tasks_snoc, Label.discardedTasks, coe_nil, add_zero, h.discarded]

theorem stop {discard : Bool} {discarded : List ℕ} {queue : Queue} {lifecycle : Lifecycle}
    (h : Conserved ls s) (hstop : s.queue.stop discard = (discarded, queue)) :
    Conserved (ls ++ [.discarded discarded]) { s with queue, lifecycle } := by
  obtain ⟨hitems, -, hdisc, hover, -⟩ := stop_eq hstop
  have hitems' : (↑s.queue.items : Multiset ℕ) = ↑discarded + ↑queue.items := by
    rw [coe_add, hitems]
  refine ⟨?_, ?_, ?_, ?_, ?_⟩
  · simp only [tasks_snoc, Label.acceptedTasks, Label.ranTasks, Label.overwrittenTasks,
      Label.discardedTasks, Label.droppedTasks, coe_nil, add_zero]
    rw [h.conserved, hitems']
    ac_rfl
  · simp only [tasks_snoc, Label.acceptedTasks, coe_nil, add_zero]
    exact h.nodup
  · simp only [tasks_snoc, Label.acceptedTasks, coe_nil, add_zero]
    exact h.lt
  · simp only [hover, tasks_snoc, Label.overwrittenTasks, coe_nil, add_zero, h.overwritten]
  · simp only [hdisc, tasks_snoc, Label.discardedTasks, card_add, coe_card,
      h.discarded]

theorem submit {policy : QueueFullPolicy} (h : Conserved ls s) :
    Conserved (ls ++ [.silent]) { s with
      nextTask := s.nextTask + 1
      producers := (s.nextTask, policy) ::ₘ s.producers } := by
  have hadd : Multiset.map Prod.fst ((s.nextTask, policy) ::ₘ s.producers) +
      tasks Label.acceptedTasks (ls ++ [.silent]) =
      s.nextTask ::ₘ (s.producers.map Prod.fst + tasks Label.acceptedTasks ls) := by
    simp only [tasks_snoc, Label.acceptedTasks, coe_nil, add_zero, map_cons,
      Multiset.cons_add]
  refine ⟨?_, ?_, ?_, ?_, ?_⟩
  · simp only [tasks_snoc, Label.acceptedTasks, Label.ranTasks, Label.overwrittenTasks,
      Label.discardedTasks, Label.droppedTasks, coe_nil, add_zero]
    exact h.conserved
  · rw [hadd, Multiset.nodup_cons]
    exact ⟨fun hmem => lt_irrefl _ (h.lt _ hmem), h.nodup⟩
  · rw [hadd]
    intro i hi
    rcases mem_cons.1 hi with rfl | hi
    · exact Nat.lt_succ_self _
    · exact Nat.lt_succ_of_lt (h.lt i hi)
  · simp only [tasks_snoc, Label.overwrittenTasks, coe_nil, add_zero]
    exact h.overwritten
  · simp only [tasks_snoc, Label.discardedTasks, coe_nil, add_zero]
    exact h.discarded

theorem keep (h : Conserved ls s) (hl : l = .silent ∨ (∃ task, l = .rejected task) ∨ l = .leaves)
    (hsame : s'.queue = s.queue ∧ s'.workers = s.workers ∧ s'.producers = s.producers)
    (hnext : s.nextTask ≤ s'.nextTask) : Conserved (ls ++ [l]) s' := by
  obtain ⟨hqueue, hworkers, hproducers⟩ := hsame
  exact h.congr hl ⟨by rw [hqueue], by rw [hqueue], by rw [hqueue]⟩ (by rw [hworkers])
    (le_of_eq hproducers) hnext

theorem step (h : Conserved ls s) (hs : Step o s l s') : Conserved (ls ++ [l]) s' := by
  have hgrow : ∀ {workers : Multiset Worker}, workers = .top o ::ₘ s.workers →
      tokensOf Worker.task workers = tokensOf Worker.task s.workers := fun heq => by
    rw [heq, tokensOf_cons, top_task, Option.tokens_none, zero_add]
  cases hs with
  | worker hw hs => exact h.workerStep hw hs
  | submit _ _ => exact h.submit
  | refuse _ => exact h.keep (.inr (.inl ⟨_, rfl⟩)) ⟨rfl, rfl, rfl⟩ (Nat.le_succ _)
  | push hproducers _ hpush => exact h.push hproducers hpush
  | pushNo hproducers _ hpush hne =>
    obtain ⟨-, -, hdisc, hover, hitems⟩ := push_no hpush hne
    exact h.congr (.inr (.inl ⟨_, rfl⟩)) ⟨hitems, hover, hdisc⟩ rfl
      (hproducers ▸ Multiset.le_cons_self _ _) le_rfl
  | addWorker _ _ => exact h.congr (.inl rfl) ⟨rfl, rfl, rfl⟩ (hgrow rfl) le_rfl le_rfl
  | scaleUp _ _ _ _ => exact h.congr (.inl rfl) ⟨rfl, rfl, rfl⟩ (hgrow rfl) le_rfl le_rfl
  | stopQueue _ hstop => exact h.stop hstop
  | force _ hstop => exact h.stop hstop
  | _ => exact h.keep (.inl rfl) ⟨rfl, rfl, rfl⟩ le_rfl

theorem ran_le_one (h : Conserved ls s) (i : ℕ) : (tasks Label.ranTasks ls).count i ≤ 1 := by
  have hle : tasks Label.ranTasks ls ≤ s.producers.map Prod.fst + tasks Label.acceptedTasks ls := by
    rw [h.conserved]
    refine le_trans ?_ (Multiset.le_add_left _ _)
    exact (Multiset.le_add_left _ _).trans ((Multiset.le_add_right _ _).trans
      ((Multiset.le_add_right _ _).trans (Multiset.le_add_right _ _)))
  exact Multiset.nodup_iff_count_le_one.1 (nodup_of_le hle h.nodup) i

end Conserved

/-! ## The end of a pool -/

def Worker.live : Worker → Bool
  | .leaving | .left | .exited => false
  | _ => true

def State.Live (s : State) : Prop := ∃ w ∈ s.workers, w.live = true

def Queue.Closed (q : Queue) : Prop := q.items = [] ∧ q.stopped = true

/-- No worker leaves its loop with a task, and when one leaves then another is in its loop, the pool
is being force-stopped, or the queue is empty and stopped. -/
def Careful (s : State) (l : Label) (s' : State) : Prop :=
  (∀ task, l ≠ .dropped task) ∧
    (l = .leaves → s'.Live ∨ s.state = .forceStopping ∨ s.queue.Closed)

def CarefulStep (o : Options) (s : State) (l : Label) (s' : State) : Prop :=
  Step o s l s' ∧ Careful s l s'

def Lifecycle.queueStopped : Lifecycle → Bool
  | .waiting | .forcing | .joining _ | .marking _ | .returned _ => true
  | _ => false

def Lifecycle.queueForced : Lifecycle → Bool
  | .joining forced | .marking forced | .returned forced => forced
  | _ => false

def Lifecycle.joined : Lifecycle → Bool
  | .marking _ | .returned _ => true
  | _ => false

def Lifecycle.force : Lifecycle → Bool
  | .stopQueue mode => mode = .force
  | .forcing => true
  | .joining forced | .marking forced => forced
  | _ => false

def Lifecycle.managerJoined : Lifecycle → Bool
  | .idle | .starting _ | .stopManager _ | .joinManager _ => false
  | _ => true

def Manager.idle : Manager → Bool
  | .off | .exited => true
  | _ => false

structure Unstarted (s : State) : Prop where
  workers : s.workers = 0
  producers : s.producers = 0
  queue : s.queue = .empty
  phase : s.state = .created ∧ s.lifecycle = .idle ∨
    s.state = .stopped ∧ s.lifecycle = .returned false
  manager : s.manager = .off

structure Started (o : Options) (s : State) : Prop where
  created : s.state ≠ .created
  queueStopped : s.lifecycle.queueStopped = true → s.queue.stopped = true
  queueForced : s.lifecycle.queueForced = true → s.queue.Closed
  joined : s.lifecycle.joined = true → ∀ w ∈ s.workers, w = .exited
  forceStopping : s.state = .forceStopping → s.lifecycle.force = true
  live : s.lifecycle = .starting o.workerThreads ∨ s.Live ∨ s.state = .forceStopping ∨
      s.queue.Closed
  managerJoined : s.lifecycle.managerJoined = true → s.manager.idle = true
  managerStopped : s.managerRunning = false →
    s.manager.idle = true ∨ ∃ mode, s.lifecycle = .joinManager mode

namespace Started

theorem congr (h : Started o s) (hcreated : s'.state ≠ .created)
    (hqueue : s'.queue.items = s.queue.items ∧ s'.queue.stopped = s.queue.stopped)
    (hworkers : s'.workers = s.workers) (hlifecycle : s'.lifecycle = s.lifecycle)
    (hmanager : s'.manager = s.manager ∨ s.manager.idle = false)
    (hrunning : s'.managerRunning = s.managerRunning)
    (hforce : s'.state = .forceStopping ↔ s.state = .forceStopping) : Started o s' := by
  have hclosed : s'.queue.Closed ↔ s.queue.Closed := by
    unfold Queue.Closed
    rw [hqueue.1, hqueue.2]
  refine ⟨hcreated, ?_, ?_, ?_, ?_, ?_, fun hj => ?_, fun hr => ?_⟩
  · rw [hlifecycle, hqueue.2]
    exact h.queueStopped
  · rw [hlifecycle, hclosed]
    exact h.queueForced
  · rw [hlifecycle, hworkers]
    exact h.joined
  · rw [hlifecycle, hforce]
    exact h.forceStopping
  · unfold State.Live
    rw [hlifecycle, hworkers, hforce, hclosed]
    exact h.live
  · have hidle := h.managerJoined (hlifecycle ▸ hj)
    simp_all
  · rw [hlifecycle]
    rcases h.managerStopped (hrunning ▸ hr) with hidle | hjoin
    · grind
    · exact .inr hjoin

theorem live_top (o : Options) : (Worker.top o).live = true := by
  unfold Worker.top
  split <;> rfl

theorem live_stay (o : Options) (idle : Bool) : (Worker.stay o idle).live = true := by
  unfold Worker.stay
  split
  · exact live_top o
  · rfl

theorem live_step (hs : Worker.Step o s w l s' w') (hl : l ≠ .leaves ∧ ∀ task, l ≠ .dropped task)
    (hw : w.live = true) : w'.live = true := by
  cases hs with
  | stateOk | sizeOk | pendingOk | countOk | pop | popStopped | popTimedOut | resume | waitedOk |
      clearedOk => rfl
  | stateNo | sizeNo | pendingNo | countNo => exact live_stay o _
  | exchangeOk _ => exact absurd rfl hl.1
  | exchangeNo =>
    split
    · rfl
    · exact live_stay o _
  | failedLeave _ => exact absurd rfl hl.1
  | failedStay _ =>
    split
    · rfl
    · exact live_top o
  | waitedDrop _ => exact absurd rfl (hl.2 _)
  | clearedDrop _ => exact absurd rfl (hl.2 _)
  | run => exact live_top o
  | leave => cases hw
  | exit => cases hw

theorem workerStep_same (hs : Worker.Step o s w l s' w') : s'.state = s.state ∧
    s'.lifecycle = s.lifecycle ∧ s'.manager = s.manager ∧ s'.managerRunning = s.managerRunning ∧
    s'.queue.stopped = s.queue.stopped ∧ (s.queue.items = [] → s'.queue.items = []) := by
  cases hs with
  | pop _ hitems =>
    simp_all
  | _ => exact ⟨rfl, rfl, rfl, rfl, rfl, id⟩

theorem worker {workers : Multiset Worker} (h : Started o s) (hw : s.workers = w ::ₘ workers)
    (hs : Worker.Step o s w l s' w')
    (hcareful : Careful s l { s' with workers := w' ::ₘ workers }) :
    Started o { s' with workers := w' ::ₘ workers } := by
  obtain ⟨hstate, hlife, hmanager, hrunning, hstopped, hnil⟩ := workerStep_same hs
  have hclosed : s.queue.Closed → s'.queue.Closed := fun hc => ⟨hnil hc.1, hstopped.trans hc.2⟩
  refine ⟨?_, ?_, ?_, ?_, ?_, ?_, ?_, ?_⟩
  · exact fun hc => h.created (hstate ▸ hc)
  · intro hq
    exact hstopped.trans (h.queueStopped (hlife ▸ hq))
  · exact fun hq => hclosed (h.queueForced (hlife ▸ hq))
  · intro hj
    have hall := h.joined (hlife ▸ hj)
    obtain rfl := hall w (hw ▸ mem_cons_self _ _)
    cases hs
  · exact fun hf => hlife ▸ h.forceStopping (hstate ▸ hf)
  · rcases h.live with hstart | ⟨v, hv, hlive⟩ | hforce | hc
    · exact .inl (hlife.trans hstart)
    · rw [hw] at hv
      rcases mem_cons.1 hv with rfl | hv
      · by_cases hl : l = .leaves
        · rcases hcareful.2 hl with hlive' | hforce | hc
          · exact .inr (.inl hlive')
          · exact .inr (.inr (.inl (hstate.trans hforce)))
          · exact .inr (.inr (.inr (hclosed hc)))
        · exact .inr (.inl ⟨w', mem_cons_self _ _, live_step hs ⟨hl, hcareful.1⟩ hlive⟩)
      · exact .inr (.inl ⟨v, Multiset.mem_cons_of_mem hv, hlive⟩)
    · exact .inr (.inr (.inl (hstate.trans hforce)))
    · exact .inr (.inr (.inr (hclosed hc)))
  · exact fun hj => hmanager ▸ h.managerJoined (hlife ▸ hj)
  · exact fun hr => hmanager ▸ hlife ▸ h.managerStopped (hrunning ▸ hr)

theorem lifecycle {state : PoolState} {lifecycle : Lifecycle} {managerRunning : Bool}
    {manager : Manager}
    (h : Started o s) (hcreated : state ≠ .created)
    (hstopped : lifecycle.queueStopped = true → s.lifecycle.queueStopped = true)
    (hforced : lifecycle.queueForced = true → s.lifecycle.queueForced = true)
    (hjoined : lifecycle.joined = true → ∀ w ∈ s.workers, w = .exited)
    (hforce : state = .forceStopping → lifecycle.force = true)
    (hlive : s.lifecycle ≠ .starting o.workerThreads)
    (hkeep : s.state = .forceStopping → state = .forceStopping ∨ s.queue.Closed)
    (hmanager : lifecycle.managerJoined = true → manager.idle = true)
    (hrunning : managerRunning = false → manager.idle = true ∨ ∃ mode,
        lifecycle = .joinManager mode) :
    Started o { s with state, lifecycle, managerRunning, manager } := by
  refine ⟨hcreated, fun hq => h.queueStopped (hstopped hq), fun hq => h.queueForced (hforced hq),
    hjoined, hforce, ?_, hmanager, hrunning⟩
  rcases h.live with hstart | hl | hf | hc
  · exact absurd hstart hlive
  · exact .inr (.inl hl)
  · rcases hkeep hf with hf | hc
    · exact .inr (.inr (.inl hf))
    · exact .inr (.inr (.inr hc))
  · exact .inr (.inr (.inr hc))

theorem stop {discard : Bool} {discarded : List ℕ} {queue : Queue} {lifecycle : Lifecycle}
    (h : Started o s) (hstop : s.queue.stop discard = (discarded, queue))
    (hforced : lifecycle.queueForced = true → discard = true)
    (hjoined : lifecycle.joined = false)
    (hforce : s.state = .forceStopping → lifecycle.force = true)
    (hold : s.lifecycle.managerJoined = true) :
    Started o { s with queue, lifecycle } := by
  have hidle := h.managerJoined hold
  obtain ⟨hitems, hstopped, -, -, hdiscard, -⟩ := stop_eq hstop
  have hclosed : s.queue.Closed → queue.Closed := fun hc => by
    rw [hc.1] at hitems
    exact ⟨(List.append_eq_nil_iff.1 hitems).2, hstopped⟩
  refine ⟨h.created, fun _ => hstopped, fun hq => ⟨(hdiscard (hforced hq)).2, hstopped⟩,
    fun hj => ?_, hforce, ?_, fun _ => hidle, fun _ => .inl hidle⟩
  · rw [hjoined] at hj
    cases hj
  · rcases h.live with hstart | hl | hf | hc
    · rw [hstart] at hold
      cases hold
    · exact .inr (.inl hl)
    · exact .inr (.inr (.inl hf))
    · exact .inr (.inr (.inr (hclosed hc)))

theorem grow {lifecycle : Lifecycle} {currentWorkers : ℕ} {manager : Manager} (h : Started o s)
    (hsame : lifecycle.queueStopped = s.lifecycle.queueStopped ∧
      lifecycle.queueForced = s.lifecycle.queueForced ∧ lifecycle.force = s.lifecycle.force ∧
      lifecycle.joined = false)
    (hmanager : lifecycle.managerJoined = true → manager.idle = true)
    (hrunning : s.managerRunning = false → manager.idle = true ∨ ∃ mode,
        lifecycle = .joinManager mode) :
    Started o { s with workers := .top o ::ₘ s.workers, lifecycle, currentWorkers, manager } := by
  obtain ⟨hstopped, hforced, hforce, hjoined⟩ := hsame
  refine ⟨h.created, fun hq => h.queueStopped (hstopped ▸ hq), fun hq =>
      h.queueForced (hforced ▸ hq),
    fun hj => ?_, fun hf => hforce ▸ h.forceStopping hf,
    .inr (.inl ⟨_, mem_cons_self _ _, live_top o⟩), hmanager, hrunning⟩
  rw [hjoined] at hj
  cases hj

theorem push {task capacity : ℕ} {policy : QueueFullPolicy}
    {producers : Multiset (ℕ × QueueFullPolicy)} {overwritten : Option ℕ} {queue : Queue}
    (h : Started o s) (hpush : s.queue.push capacity policy task = (.ok, overwritten, queue)) :
    Started o { s with queue, producers } := by
  obtain ⟨hopen, -⟩ := push_ok hpush
  have hclosed : ¬ s.queue.Closed := fun hc => by
    rw [hc.2] at hopen
    cases hopen
  refine ⟨h.created, fun hq => ?_, fun hq => absurd (h.queueForced hq) hclosed, h.joined,
    h.forceStopping, ?_, h.managerJoined, h.managerStopped⟩
  · rw [h.queueStopped hq] at hopen
    cases hopen
  · rcases h.live with hstart | hl | hf | hc
    · exact .inl hstart
    · exact .inr (.inl hl)
    · exact .inr (.inr (.inl hf))
    · exact absurd hc hclosed

theorem managed (h : Started o s) {manager : Manager} {currentWorkers pendingExits : ℕ}
    (hactive : s.manager.idle = false) :
    Started o { s with manager, currentWorkers, pendingExits } :=
  h.congr h.created ⟨rfl, rfl⟩ rfl rfl (.inr hactive) rfl Iff.rfl

theorem not_managerJoined (h : Started o s) (hactive : s.manager.idle = false) :
    s.lifecycle.managerJoined = false := by
  cases hj : s.lifecycle.managerJoined with
  | false => rfl
  | true =>
    rw [h.managerJoined hj] at hactive
    cases hactive

theorem joined_le (l : Lifecycle) (h : l.managerJoined = false) : l.joined = false := by
  cases l <;> first | rfl | cases h

theorem force_false (h : Started o s) (hnot : s.lifecycle.force = false) :
    s.state ≠ .forceStopping :=
  fun hf => by
    rw [h.forceStopping hf] at hnot
    cases hnot

theorem step (h : Started o s) (hs : Step o s l s') (hcareful : Careful s l s') : Started o s' := by
  cases hs with
  | worker hw hs => exact h.worker hw hs hcareful
  | submit _ _ => exact h.congr h.created ⟨rfl, rfl⟩ rfl rfl (.inl rfl) rfl Iff.rfl
  | refuse _ => exact h.congr h.created ⟨rfl, rfl⟩ rfl rfl (.inl rfl) rfl Iff.rfl
  | push _ _ hpush => exact h.push hpush
  | pushNo _ _ hpush hne =>
    obtain ⟨hstopped, -, -, -, hitems⟩ := push_no hpush hne
    exact h.congr h.created ⟨hitems, hstopped⟩ rfl rfl (.inl rfl) rfl Iff.rfl
  | pause hst => exact h.congr (by simp) ⟨rfl, rfl⟩ rfl rfl (.inl rfl) rfl (by simp [hst])
  | resume hst => exact h.congr (by simp) ⟨rfl, rfl⟩ rfl rfl (.inl rfl) rfl (by simp [hst])
  | start _ hst => exact absurd hst h.created
  | addWorker hl _ =>
    refine h.grow (by rw [hl]; exact ⟨rfl, rfl, rfl, rfl⟩) (fun hj => by cases hj) fun hr => ?_
    refine .inl ((h.managerStopped hr).resolve_right ?_)
    simp_all
  | started hl =>
    have hpos := o.workerThreads_pos
    refine h.lifecycle h.created (by simp [Lifecycle.queueStopped])
        (by simp [Lifecycle.queueForced])
      (by simp [Lifecycle.joined]) (fun hf => absurd hf (h.force_false (by rw [hl]; rfl)))
      (fun heq => ?_) (fun hf => .inl hf) (by simp [Lifecycle.managerJoined]) fun hr => ?_
    · simp_all
    · rw [if_neg (by simp [hr])]
      exact .inl rfl
  | wake hm _ _ => exact h.managed (by rw [hm]; rfl)
  | managerExit hm _ => exact h.managed (by rw [hm]; rfl)
  | cooldown hm => exact h.managed (by rw [hm]; rfl)
  | readSize hm => exact h.managed (by rw [hm]; rfl)
  | readCurrent hm => exact h.managed (by rw [hm]; rfl)
  | readActive hm => exact h.managed (by rw [hm]; rfl)
  | scaleUp hm _ _ _ =>
    have hactive : s.manager.idle = false := by rw [hm]; rfl
    have hnot := h.not_managerJoined hactive
    refine h.grow ⟨rfl, rfl, rfl, joined_le _ hnot⟩ (fun hj => ?_) fun hr => .inr ?_
    · rw [hnot] at hj
      cases hj
    · exact (h.managerStopped hr).resolve_left (by rw [hactive]; simp)
  | scaleUpNo hm _ _ _ => exact h.managed (by rw [hm]; rfl)
  | added hm => exact h.managed (by rw [hm]; rfl)
  | scaleDown hm _ _ _ _ _ _ => exact h.managed (by rw [hm]; rfl)
  | keepSize hm _ _ => exact h.managed (by rw [hm]; rfl)
  | shutdownCreated _ hst => exact absurd hst h.created
  | shutdown mode hl _ _ =>
    refine h.lifecycle h.created (by simp [Lifecycle.queueStopped])
        (by simp [Lifecycle.queueForced])
      (by simp [Lifecycle.joined]) (fun hf => absurd hf (h.force_false (by rw [hl]; rfl)))
      (by simp [hl]) (fun hf => .inl hf) (by simp [Lifecycle.managerJoined]) fun hr => ?_
    refine .inl ((h.managerStopped hr).resolve_right ?_)
    simp [hl]
  | @stopManager mode hl =>
    have hnot := h.force_false (by rw [hl]; rfl)
    cases hr : s.managerRunning with
    | true =>
      exact h.lifecycle h.created (by simp [Lifecycle.queueStopped])
          (by simp [Lifecycle.queueForced])
        (by simp [Lifecycle.joined]) (fun hf => absurd hf hnot) (by simp [hl]) (fun hf => .inl hf)
        (by simp [Lifecycle.managerJoined]) fun _ => .inr ⟨mode, rfl⟩
    | false =>
      have hidle := (h.managerStopped hr).resolve_right (by simp [hl])
      exact h.lifecycle h.created (by simp [Lifecycle.queueStopped])
          (by simp [Lifecycle.queueForced])
        (by simp [Lifecycle.joined]) (fun hf => absurd hf hnot) (by simp [hl]) (fun hf => .inl hf)
        (fun _ => hidle) fun _ => .inl hidle
  | joinManager hl hm =>
    have hidle : s.manager.idle = true := by rw [hm]; rfl
    exact h.lifecycle h.created (by simp [Lifecycle.queueStopped]) (by simp [Lifecycle.queueForced])
      (by simp [Lifecycle.joined]) (fun hf => absurd hf (h.force_false (by rw [hl]; rfl)))
      (by simp [hl]) (fun hf => .inl hf) (fun _ => hidle) fun _ => .inl hidle
  | @mark mode hl =>
    have hidle := h.managerJoined (by rw [hl]; rfl)
    refine h.lifecycle ?_ (by simp [Lifecycle.queueStopped]) (by simp [Lifecycle.queueForced])
      (by simp [Lifecycle.joined]) (fun hf => ?_) (by simp [hl])
      (fun hf => absurd hf (h.force_false (by rw [hl]; rfl))) (fun _ => hidle) fun _ => .inl hidle
    · split <;> simp
    · cases mode <;> simp_all [Lifecycle.force]
  | @stopQueue mode _ _ hl hstop =>
    refine h.stop hstop (fun hq => ?_) ?_ (fun hf => ?_) (by rw [hl]; rfl)
    · cases mode <;> simp_all [Lifecycle.queueForced]
    · cases mode <;> simp [Lifecycle.joined]
    · have hforce := h.forceStopping hf
      rw [hl] at hforce
      cases mode <;> simp_all [Lifecycle.force]
  | waited hl _ =>
    have hidle := h.managerJoined (by rw [hl]; rfl)
    exact h.lifecycle h.created (fun _ => by rw [hl]; rfl) (by simp [Lifecycle.queueForced])
      (by simp [Lifecycle.joined]) (fun hf => absurd hf (h.force_false (by rw [hl]; rfl)))
      (by simp [hl]) (fun hf => .inl hf) (fun _ => hidle) fun _ => .inl hidle
  | timedOut hl =>
    have hidle := h.managerJoined (by rw [hl]; rfl)
    exact h.lifecycle (by simp) (fun _ => by rw [hl]; rfl) (by simp [Lifecycle.queueForced])
      (by simp [Lifecycle.joined]) (fun _ => rfl) (by simp [hl]) (fun _ => .inl rfl)
      (fun _ => hidle) fun _ => .inl hidle
  | force hl hstop => exact h.stop hstop (fun _ => rfl) rfl (fun _ => rfl) (by rw [hl]; rfl)
  | join hl hall =>
    have hidle := h.managerJoined (by rw [hl]; rfl)
    refine h.lifecycle h.created (fun _ => by rw [hl]; rfl) (fun hq => by rw [hl]; exact hq)
      (fun _ => hall) (fun hf => ?_) (by simp [hl]) (fun hf => .inl hf) (fun _ => hidle)
      fun _ => .inl hidle
    have hforce := h.forceStopping hf
    rw [hl] at hforce
    exact hforce
  | finish hl =>
    have hidle := h.managerJoined (by rw [hl]; rfl)
    refine h.lifecycle (by simp) (fun _ => by rw [hl]; rfl) (fun hq => by rw [hl]; exact hq)
      (fun _ => h.joined (by rw [hl]; rfl)) (by simp) (by simp [hl]) (fun hf => .inr ?_)
      (fun _ => hidle) fun _ => .inl hidle
    have hforce := h.forceStopping hf
    rw [hl] at hforce
    exact h.queueForced (by rw [hl]; exact hforce)

end Started

theorem Unstarted.step (h : Unstarted s) (hs : Step o s l s') : Unstarted s' ∨ Started o s' := by
  have hlife : s.lifecycle = .idle ∨ s.lifecycle = .returned false :=
      h.phase.imp And.right And.right
  have haccept : s.state.accepting = false := by
    rcases h.phase with ⟨hst, -⟩ | ⟨hst, -⟩ <;> rw [hst] <;> rfl
  have hphase : ∀ {phase : Lifecycle}, s.lifecycle = phase → phase ≠ .idle →
      phase ≠ .returned false →
      Unstarted s' ∨ Started o s' := fun heq h₁ h₂ => by
    simp_all
  have hmanager : ∀ {phase : Manager}, s.manager = phase → phase ≠ .off →
      Unstarted s' ∨ Started o s' := fun heq hne => absurd (heq.symm.trans h.manager) hne
  cases hs with
  | worker hw _ =>
    rw [h.workers] at hw
    exact absurd hw zero_ne_cons
  | submit _ hacc =>
    rw [haccept] at hacc
    cases hacc
  | refuse _ => exact .inl ⟨h.workers, h.producers, h.queue, h.phase, h.manager⟩
  | push hp _ _ =>
    rw [h.producers] at hp
    exact absurd hp zero_ne_cons
  | pushNo hp _ _ _ =>
    rw [h.producers] at hp
    exact absurd hp zero_ne_cons
  | pause hst =>
    rw [hst] at haccept
    cases haccept
  | resume hst =>
    rw [hst] at haccept
    cases haccept
  | start _ _ =>
    refine .inr ⟨by simp, by simp [Lifecycle.queueStopped], by simp [Lifecycle.queueForced],
      by simp [Lifecycle.joined], by simp, .inl rfl, by simp [Lifecycle.managerJoined], fun _ =>
          .inl ?_⟩
    show s.manager.idle = true
    rw [h.manager]
    rfl
  | addWorker hl _ => exact hphase hl (by simp) (by simp)
  | started hl => exact hphase hl (by simp) (by simp)
  | wake hm _ _ => exact hmanager hm (by simp)
  | managerExit hm _ => exact hmanager hm (by simp)
  | cooldown hm => exact hmanager hm (by simp)
  | readSize hm => exact hmanager hm (by simp)
  | readCurrent hm => exact hmanager hm (by simp)
  | readActive hm => exact hmanager hm (by simp)
  | scaleUp hm _ _ _ => exact hmanager hm (by simp)
  | scaleUpNo hm _ _ _ => exact hmanager hm (by simp)
  | added hm => exact hmanager hm (by simp)
  | scaleDown hm _ _ _ _ _ _ => exact hmanager hm (by simp)
  | keepSize hm _ _ => exact hmanager hm (by simp)
  | shutdownCreated _ _ => exact .inl ⟨h.workers, h.producers, h.queue, .inr ⟨rfl, rfl⟩, h.manager⟩
  | shutdown mode hl hne hne' =>
    rcases h.phase with ⟨hst, -⟩ | ⟨hst, -⟩
    · exact absurd hst hne
    · exact absurd hst hne'
  | stopManager hl => exact hphase hl (by simp) (by simp)
  | joinManager hl _ => exact hphase hl (by simp) (by simp)
  | mark hl => exact hphase hl (by simp) (by simp)
  | stopQueue hl _ => exact hphase hl (by simp) (by simp)
  | waited hl _ => exact hphase hl (by simp) (by simp)
  | timedOut hl => exact hphase hl (by simp) (by simp)
  | force hl _ => exact hphase hl (by simp) (by simp)
  | join hl _ => exact hphase hl (by simp) (by simp)
  | finish hl => exact hphase hl (by simp) (by simp)

theorem discarded_forced (h : s.lifecycle.queueForced = false → tasks Label.discardedTasks ls = 0)
    (hs : Step o s l s') :
    s'.lifecycle.queueForced = false → tasks Label.discardedTasks (ls ++ [l]) = 0 := by
  intro hnew
  rw [tasks_snoc]
  have hold : l.discardedTasks = [] → s.lifecycle.queueForced = false →
      tasks Label.discardedTasks ls + ↑l.discardedTasks = 0 := fun hl hf => by
    rw [hl, h hf, coe_nil, add_zero]
  cases hs with
  | @worker s' w w' workers _ hw hs =>
    obtain ⟨-, hlife, -⟩ := Started.workerStep_same hs
    refine hold ?_ (hlife ▸ hnew)
    cases hs <;> rfl
  | addWorker hl _ => exact hold rfl (by rw [hl]; rfl)
  | started hl => exact hold rfl (by rw [hl]; rfl)
  | start hl _ => exact hold rfl (by rw [hl]; rfl)
  | shutdownCreated hl _ => exact hold rfl (by rw [hl]; rfl)
  | shutdown _ hl _ _ => exact hold rfl (by rw [hl]; rfl)
  | stopManager hl => exact hold rfl (by rw [hl]; rfl)
  | joinManager hl _ => exact hold rfl (by rw [hl]; rfl)
  | mark hl => exact hold rfl (by rw [hl]; rfl)
  | @stopQueue mode _ _ hl hstop =>
    obtain ⟨-, -, -, -, -, hnone⟩ := stop_eq hstop
    refine hold (hnone ?_).2 (by rw [hl]; rfl)
    cases mode <;> simp_all [Lifecycle.queueForced]
  | waited hl _ => exact hold rfl (by rw [hl]; rfl)
  | timedOut hl => exact hold rfl (by rw [hl]; rfl)
  | force _ _ => cases hnew
  | join hl _ => exact hold rfl (by rw [hl]; exact hnew)
  | finish hl => exact hold rfl (by rw [hl]; exact hnew)
  | _ => exact hold rfl hnew

/-! ## Whole runs -/

theorem run_at_most_once (hrun : Run (Step o) .initial ls s) (i : ℕ) :
    (tasks Label.ranTasks ls).count i ≤ 1 :=
  (hrun.history (I := Conserved) (fun _ _ _ _ h hs => h.step hs) .init).ran_le_one i

/-- Every accepted task was run exactly once, or is one of those counted as overwritten or as
discarded by the shutdown. -/
def Accounted (ls : List Label) (s : State) : Prop :=
  (∀ i ∈ tasks Label.acceptedTasks ls,
    (tasks Label.ranTasks ls + tasks Label.overwrittenTasks ls +
        tasks Label.discardedTasks ls).count i
      = 1) ∧
  s.queue.overrunCounter = Multiset.card (tasks Label.overwrittenTasks ls) ∧
  s.queue.shutdownDiscardCounter = Multiset.card (tasks Label.discardedTasks ls)

/-- In a careful run nothing is left when `Shutdown` has returned, and without force nothing is
discarded. -/
theorem accounted_of_careful {forced : Bool} (hrun : Run (CarefulStep o) .initial ls s)
    (hreturned : s.lifecycle = .returned forced) :
    Accounted ls s ∧ (forced = false → tasks Label.discardedTasks ls = 0) := by
  have hinv : Conserved ls s ∧ (Unstarted s ∨ Started o s) ∧ tasks Label.droppedTasks ls = 0 ∧
      (s.lifecycle.queueForced = false → tasks Label.discardedTasks ls = 0) := by
    refine hrun.history (I := fun ls s => Conserved ls s ∧ (Unstarted s ∨ Started o s) ∧
      tasks Label.droppedTasks ls = 0 ∧
      (s.lifecycle.queueForced = false → tasks Label.discardedTasks ls = 0)) ?_
      ⟨.init, .inl ⟨rfl, rfl, rfl, .inl ⟨rfl, rfl⟩, rfl⟩, rfl, fun _ => rfl⟩
    rintro ls s l s' ⟨hcons, hphase, hdropped, hdisc⟩ ⟨hs, hcareful⟩
    refine ⟨hcons.step hs, ?_, ?_, discarded_forced hdisc hs⟩
    · rcases hphase with h | h
      · exact h.step hs
      · exact .inr (h.step hs hcareful)
    · rw [tasks_snoc, hdropped, zero_add]
      cases l with
      | dropped task => exact absurd rfl (hcareful.1 task)
      | _ => rfl
  obtain ⟨hcons, hphase, hdropped, hdisc⟩ := hinv
  have hempty : s.queue.items = [] ∧ tokensOf Worker.task s.workers = 0 := by
    rcases hphase with h | h
    · rw [h.queue, h.workers]
      exact ⟨rfl, rfl⟩
    · have hall := h.joined (by rw [hreturned]; rfl)
      refine ⟨?_, Multiset.eq_zero_of_forall_notMem fun i hi => ?_⟩
      · rcases h.live with hstart | ⟨w, hw, hlive⟩ | hforce | hc
        · simp_all
        · rw [hall w hw] at hlive
          cases hlive
        · have hf := h.forceStopping hforce
          rw [hreturned] at hf
          cases hf
        · exact hc.1
      · obtain ⟨w, hw, htask⟩ := mem_tokensOf.1 hi
        rw [hall w hw] at htask
        cases htask
  have hall := hcons.conserved
  rw [hempty.1, hempty.2, hdropped, coe_nil, zero_add, zero_add, add_zero] at hall
  refine ⟨⟨fun i hi => ?_, hcons.overwritten, hcons.discarded⟩, fun hf => hdisc ?_⟩
  · have hnodup := nodup_of_le (Multiset.le_add_left _ _) hcons.nodup
    simp_all
  · rw [hreturned, hf]
    rfl

/-- In every run no task is run twice.  In every careful run, when `Shutdown` has returned, every
accepted task is accounted for, and without force each of them was run or overwritten. -/
theorem tasks_conserved (o : Options) :
    (∀ (ls : List Label) (s : State), Run (Step o) .initial ls s → ∀ i,
      (tasks Label.ranTasks ls).count i ≤ 1) ∧
    ∀ (ls : List Label) (s : State) (forced : Bool), Run (CarefulStep o) .initial ls s →
      s.lifecycle = .returned forced →
      Accounted ls s ∧ (forced = false → tasks Label.discardedTasks ls = 0) :=
  ⟨fun _ _ hrun i => run_at_most_once hrun i, fun _ _ _ hrun hreturned =>
    accounted_of_careful hrun hreturned⟩

def sole (enableDynamicResize : Bool) : Options where
  workerThreads := 1
  queueCapacity := 1
  queueFullPolicy := .block
  enableDynamicResize := enableDynamicResize
  minThreads := 1
  maxThreads := 1
  scaleUp _ := false
  scaleDown _ := false
  workerThreads_pos := Nat.one_pos
  queueCapacity_pos := Nat.one_pos

def soleState (state : PoolState) (queue : Queue) (w : Worker)
    (producers : Multiset (ℕ × QueueFullPolicy))
    (nextTask current active exited : ℕ) (manager : Bool × Manager)
        (lifecycle : Lifecycle) : State :=
  ⟨state, queue, {w}, producers, nextTask, current, active, exited, 0, manager.1, manager.2,
      lifecycle⟩

theorem tasks_conserved_sole : ∃ (ls : List Label) (s : State),
    Run (CarefulStep (sole false)) .initial ls s ∧ s.lifecycle = .returned false ∧
    tasks Label.acceptedTasks ls = {0} ∧
    (tasks Label.ranTasks ls + tasks Label.overwrittenTasks ls +
        tasks Label.discardedTasks ls).count 0
      = 1 := by
  have h : Run (CarefulStep (sole false)) .initial [] .initial := .nil _
  have h : Run (CarefulStep (sole false)) .initial _
      { State.initial with state := .running, lifecycle := .starting 1 } :=
    h.snoc (⟨.start rfl rfl, by simp, by simp⟩)
  have h : Run (CarefulStep (sole false)) .initial _
      (soleState .running .empty .popping 0 0 1 0 0 (false, .off) (.starting 0)) :=
    h.snoc (⟨.addWorker (show _ = Lifecycle.starting (0 + 1) from rfl)
        (by decide), by simp, by simp⟩)
  have h : Run (CarefulStep (sole false)) .initial _
      (soleState .running .empty .popping 0 0 1 0 0 (false, .off) .idle) :=
    h.snoc (⟨.started rfl, by simp, by simp⟩)
  have h : Run (CarefulStep (sole false)) .initial _
      (soleState .running .empty .popping {(0, .block)} 1 1 0 0 (false, .off) .idle) :=
    h.snoc (⟨.submit (.inr rfl) rfl, by simp, by simp⟩)
  have h : Run (CarefulStep (sole false)) .initial _
      (soleState .running ⟨[0], false, false, 0, 0, 0⟩ .popping 0 1 1 0 0 (false, .off) .idle) :=
    h.snoc (⟨.push (show _ = _ ::ₘ 0 from rfl) rfl rfl, by simp, by simp⟩)
  have h : Run (CarefulStep (sole false)) .initial _
      (soleState .running .empty (.popped 0) 0 1 1 0 0 (false, .off) .idle) :=
    h.snoc (⟨.worker (show _ = _ ::ₘ 0 from rfl) (.pop rfl rfl), by simp, by simp⟩)
  have h : Run (CarefulStep (sole false)) .initial _
      (soleState .running .empty (.waited 0) 0 1 1 0 0 (false, .off) .idle) :=
    h.snoc (⟨.worker (show _ = _ ::ₘ 0 from rfl) (.resume (by simp [soleState])), by simp, by simp⟩)
  have h : Run (CarefulStep (sole false)) .initial _
      (soleState .running .empty (.cleared 0) 0 1 1 0 0 (false, .off) .idle) :=
    h.snoc (⟨.worker (show _ = _ ::ₘ 0 from rfl) (.waitedOk rfl), by simp, by simp⟩)
  have h : Run (CarefulStep (sole false)) .initial _
      (soleState .running .empty (.running 0) 0 1 1 1 0 (false, .off) .idle) :=
    h.snoc (⟨.worker (show _ = _ ::ₘ 0 from rfl) (.clearedOk rfl), by simp, by simp⟩)
  have h : Run (CarefulStep (sole false)) .initial _
      (soleState .running .empty .popping 0 1 1 0 0 (false, .off) .idle) :=
    h.snoc (⟨.worker (show _ = _ ::ₘ 0 from rfl)
        (show Worker.Step _ (soleState .running .empty (.running 0) 0 1 1 1 0 (false, .off) .idle)
        (.running 0) (.ran 0)
      (soleState .running .empty (.running 0) 0 1 1 0 0 (false, .off) .idle) .popping from .run),
          by simp, by simp⟩)
  have h : Run (CarefulStep (sole false)) .initial _
      (soleState .running .empty .popping 0 1 1 0 0 (false, .off) (.stopManager .graceful)) :=
    h.snoc (⟨.shutdown .graceful rfl (by simp [soleState]) (by simp [soleState]), by simp, by simp⟩)
  have h : Run (CarefulStep (sole false)) .initial _
      (soleState .running .empty .popping 0 1 1 0 0 (false, .off) (.mark .graceful)) :=
    h.snoc (⟨.stopManager rfl, by simp, by simp⟩)
  have h : Run (CarefulStep (sole false)) .initial _
      (soleState .shuttingDown .empty .popping 0 1 1 0 0 (false, .off) (.stopQueue .graceful)) :=
    h.snoc (⟨.mark (show _ = Lifecycle.mark .graceful from rfl), by simp, by simp⟩)
  have h : Run (CarefulStep (sole false)) .initial _
      (soleState .shuttingDown ⟨[], true, false, 0, 0, 0⟩ .popping 0 1 1 0 0 (false, .off)
      (.joining false)) :=
    h.snoc (⟨.stopQueue (show _ = Lifecycle.stopQueue .graceful from rfl) rfl, by simp, by simp⟩)
  have h : Run (CarefulStep (sole false)) .initial _
      (soleState .shuttingDown ⟨[], true, false, 0, 0, 0⟩ .failed 0 1 1 0 0 (false, .off)
      (.joining false)) :=
    h.snoc (⟨.worker (show _ = _ ::ₘ 0 from rfl) (.popStopped (.inr ⟨rfl, rfl⟩)), by simp, by simp⟩)
  have h : Run (CarefulStep (sole false)) .initial _
      (soleState .shuttingDown ⟨[], true, false, 0, 0, 0⟩ .leaving 0 1 1 0 0 (false, .off)
      (.joining false)) :=
    h.snoc (⟨.worker (show _ = _ ::ₘ 0 from rfl) (.failedLeave rfl), by simp, fun _ =>
        .inr (.inr ⟨rfl, rfl⟩)⟩)
  have h : Run (CarefulStep (sole false)) .initial _
      (soleState .shuttingDown ⟨[], true, false, 0, 0, 0⟩ .left 0 1 0 0 0 (false, .off)
      (.joining false)) :=
    h.snoc (⟨.worker (show _ = _ ::ₘ 0 from rfl) .leave, by simp, by simp⟩)
  have h : Run (CarefulStep (sole false)) .initial _
      (soleState .shuttingDown ⟨[], true, false, 0, 0, 0⟩ .exited 0 1 0 0 1 (false, .off)
      (.joining false)) :=
    h.snoc (⟨.worker (show _ = _ ::ₘ 0 from rfl) .exit, by simp, by simp⟩)
  have h : Run (CarefulStep (sole false)) .initial _
      (soleState .shuttingDown ⟨[], true, false, 0, 0, 0⟩ .exited 0 1 0 0 1 (false, .off)
      (.marking false)) :=
    h.snoc (⟨.join rfl (by simp [soleState]), by simp, by simp⟩)
  have h : Run (CarefulStep (sole false)) .initial _
      (soleState .stopped ⟨[], true, false, 0, 0, 0⟩ .exited 0 1 0 0 1 (false, .off)
      (.returned false)) :=
    h.snoc (⟨.finish rfl, by simp, by simp⟩)
  have hall := ((tasks_conserved (sole false)).2 _ _ _ h rfl).1.1 0 (by decide)
  exact ⟨_, _, h, rfl, rfl, hall⟩

/-- A worker whose `PopFor` has timed out leaves its loop when the pool is shutting down, whatever
was pushed since; a task accepted then is neither run nor counted. -/
theorem graceful_task_lost : ¬ ∀ (o : Options) (ls : List Label) (s : State) (forced : Bool),
    Run (Step o) .initial ls s → s.lifecycle = .returned forced → Accounted ls s := by
  intro hall
  have h : Run (Step (sole true)) .initial [] .initial := .nil _
  have h : Run (Step (sole true)) .initial _
      { State.initial with state := .running, lifecycle := .starting 1 } :=
    h.snoc (.start rfl rfl)
  have h : Run (Step (sole true)) .initial _
      (soleState .running .empty (.scaling .state false) 0 0 1 0 0 (false, .off) (.starting 0)) :=
    h.snoc (.addWorker (show _ = Lifecycle.starting (0 + 1) from rfl) (by decide))
  have h : Run (Step (sole true)) .initial _
      (soleState .running .empty (.scaling .state false) 0 0 1 0 0 (true, .sleeping) .idle) :=
    h.snoc (.started rfl)
  have h : Run (Step (sole true)) .initial _
      (soleState .running .empty (.scaling .size false) 0 0 1 0 0 (true, .sleeping) .idle) :=
    h.snoc (.worker (show _ = _ ::ₘ 0 from rfl) (.stateOk rfl))
  have h : Run (Step (sole true)) .initial _
      (soleState .running .empty (.scaling .pending false) 0 0 1 0 0 (true, .sleeping) .idle) :=
    h.snoc (.worker (show _ = _ ::ₘ 0 from rfl) (.sizeOk rfl))
  have h : Run (Step (sole true)) .initial _
      (soleState .running .empty .popping 0 0 1 0 0 (true, .sleeping) .idle) :=
    h.snoc (.worker rfl (show Worker.Step _ _ (.scaling .pending false) _ _ .popping from .pendingNo
        rfl))
  have h : Run (Step (sole true)) .initial _
      (soleState .running .empty .failed 0 0 1 0 0 (true, .sleeping) .idle) :=
    h.snoc (.worker (show _ = _ ::ₘ 0 from rfl) (.popTimedOut rfl rfl rfl rfl))
  have h : Run (Step (sole true)) .initial _
      (soleState .running .empty .failed {(0, .block)} 1 1 0 0 (true, .sleeping) .idle) :=
    h.snoc (.submit (.inr rfl) rfl)
  have h : Run (Step (sole true)) .initial _
      (soleState .running ⟨[0], false, false, 0, 0, 0⟩ .failed 0 1 1 0 0 (true, .sleeping) .idle) :=
    h.snoc (.push (show _ = _ ::ₘ 0 from rfl) rfl rfl)
  have h : Run (Step (sole true)) .initial _
      (soleState .running ⟨[0], false, false, 0, 0, 0⟩ .failed 0 1 1 0 0 (true, .sleeping)
      (.stopManager .graceful)) :=
    h.snoc (.shutdown .graceful rfl (by simp [soleState]) (by simp [soleState]))
  have h : Run (Step (sole true)) .initial _
      (soleState .running ⟨[0], false, false, 0, 0, 0⟩ .failed 0 1 1 0 0 (false, .sleeping)
      (.joinManager .graceful)) :=
    h.snoc (.stopManager rfl)
  have h : Run (Step (sole true)) .initial _
      (soleState .running ⟨[0], false, false, 0, 0, 0⟩ .failed 0 1 1 0 0 (false, .exited)
      (.joinManager .graceful)) :=
    h.snoc (.managerExit rfl (.inl rfl))
  have h : Run (Step (sole true)) .initial _
      (soleState .running ⟨[0], false, false, 0, 0, 0⟩ .failed 0 1 1 0 0 (false, .exited)
      (.mark .graceful)) :=
    h.snoc (.joinManager rfl rfl)
  have h : Run (Step (sole true)) .initial _
      (soleState .shuttingDown ⟨[0], false, false, 0, 0, 0⟩ .failed 0 1 1 0 0 (false, .exited)
      (.stopQueue .graceful)) :=
    h.snoc (.mark (show _ = Lifecycle.mark .graceful from rfl))
  have h : Run (Step (sole true)) .initial _
      (soleState .shuttingDown ⟨[0], true, false, 0, 0, 0⟩ .failed 0 1 1 0 0 (false, .exited)
      (.joining false)) :=
    h.snoc (.stopQueue (show _ = Lifecycle.stopQueue .graceful from rfl) rfl)
  have h : Run (Step (sole true)) .initial _
      (soleState .shuttingDown ⟨[0], true, false, 0, 0, 0⟩ .leaving 0 1 1 0 0 (false, .exited)
      (.joining false)) :=
    h.snoc (.worker (show _ = _ ::ₘ 0 from rfl) (.failedLeave rfl))
  have h : Run (Step (sole true)) .initial _
      (soleState .shuttingDown ⟨[0], true, false, 0, 0, 0⟩ .left 0 1 0 0 0 (false, .exited)
      (.joining false)) :=
    h.snoc (.worker (show _ = _ ::ₘ 0 from rfl) .leave)
  have h : Run (Step (sole true)) .initial _
      (soleState .shuttingDown ⟨[0], true, false, 0, 0, 0⟩ .exited 0 1 0 0 1 (false, .exited)
      (.joining false)) :=
    h.snoc (.worker (show _ = _ ::ₘ 0 from rfl) .exit)
  have h : Run (Step (sole true)) .initial _
      (soleState .shuttingDown ⟨[0], true, false, 0, 0, 0⟩ .exited 0 1 0 0 1 (false, .exited)
      (.marking false)) :=
    h.snoc (.join rfl (by simp [soleState]))
  have h : Run (Step (sole true)) .initial _
      (soleState .stopped ⟨[0], true, false, 0, 0, 0⟩ .exited 0 1 0 0 1 (false, .exited)
      (.returned false)) :=
    h.snoc (.finish rfl)
  have hcount := (hall _ _ _ false h rfl).1 0 (by decide)
  revert hcount
  decide

end TinyImx.Concurrency.ThreadPool
