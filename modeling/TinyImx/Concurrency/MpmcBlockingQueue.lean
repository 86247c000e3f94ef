import TinyImx.Concurrency.CircularQueue
import TinyImx.Concurrency.ThreadPool
import TinyImx.Lib.BoundedFifo

/-!
# The blocking queue

`MpmcBlockingQueue` guards a circular queue by one mutex.  A call that waits gives the mutex up, so
that every call is one step, taken when its wait is over.
-/

namespace TinyImx.Concurrency

open ThreadPool (QueueFullPolicy PushResult)

structure MpmcBlockingQueue (α : Type) where
  queue : CircularQueue α
  stopped : Bool
  forceStopped : Bool
  discardCounter : ℕ
  shutdownDiscardCounter : ℕ

namespace MpmcBlockingQueue

variable {α : Type}

def make [Inhabited α] (capacity : UInt64) : MpmcBlockingQueue α :=
  ⟨.make capacity, false, false, 0, 0⟩

def notFull (s : MpmcBlockingQueue α) : Option Bool :=
  if s.stopped then some true else s.queue.full.map (!·)

def pushBlocking (s : MpmcBlockingQueue α) (item : α) :
    Option (PushResult × Option α × MpmcBlockingQueue α) := do
  if s.stopped then
    return (.stopped, none, s)
  let (ok, queue) ← s.queue.pushBack item
  return (if ok then .ok else .discarded, none, { s with queue })

def pushDiscard (s : MpmcBlockingQueue α) (item : α) :
    Option (PushResult × Option α × MpmcBlockingQueue α) := do
  if s.stopped then
    return (.stopped, none, s)
  if ← s.queue.full then
    return (.discarded, none, { s with discardCounter := (s.discardCounter + 1) % 2 ^ 64 })
  let (ok, queue) ← s.queue.pushBack item
  if !ok then
    return (.discarded, none, { s with queue, discardCounter := (s.discardCounter + 1) % 2 ^ 64 })
  return (.ok, none, { s with queue })

def pushOverwrite [Inhabited α] (s : MpmcBlockingQueue α) (item : α) :
    Option (PushResult × Option α × MpmcBlockingQueue α) := do
  if s.stopped then
    return (.stopped, none, s)
  let (dropped, queue) ← if ← s.queue.full then s.queue.dropFront else some (none, s.queue)
  let (ok, queue) ← queue.pushBack item
  if !ok then
    return (.discarded, dropped,
      { s with queue, discardCounter := (s.discardCounter + 1) % 2 ^ 64 })
  return (.ok, dropped, { s with queue })

def push [Inhabited α] (s : MpmcBlockingQueue α) (policy : QueueFullPolicy) (item : α) :
    Option (PushResult × Option α × MpmcBlockingQueue α) :=
  match policy with
  | .block => s.pushBlocking item
  | .discard => s.pushDiscard item
  | .overwrite => s.pushOverwrite item

def pushReady (s : MpmcBlockingQueue α) : QueueFullPolicy → Option Bool
  | .block => s.notFull
  | _ => some true

def notEmpty (s : MpmcBlockingQueue α) : Bool :=
  s.forceStopped || !s.queue.empty || (s.stopped && s.queue.empty)

/-- `Pop` and `PopFor` behind their wait; `target` is whether there is a place for the item. -/
def pop [Inhabited α] (s : MpmcBlockingQueue α) (target : Bool) :
    Option (Option α × MpmcBlockingQueue α) :=
  if s.forceStopped then some (none, s)
  else if !s.queue.empty then
    (s.queue.popFront target).map fun r => (r.1, { s with queue := r.2 })
  else some (none, s)

def stop [Inhabited α] (s : MpmcBlockingQueue α) (discardPendingTasks : Bool) :
    Option (List α × MpmcBlockingQueue α) :=
  if discardPendingTasks then
    (s.queue.clear false).map fun queue => (s.queue.toList,
      { s with
        queue
        stopped := true
        forceStopped := true
        shutdownDiscardCounter := (s.shutdownDiscardCounter + s.queue.size) % 2 ^ 64 })
  else some ([], { s with stopped := true })

inductive Label (α : Type) where
  | push (policy : QueueFullPolicy) (item : α) (result : PushResult) (dropped : Option α)
  /-- `Pop` or `PopFor`, with the item that it returned. -/
  | pop (item : Option α)
  | stop (discardPendingTasks : Bool) (discarded : List α)
  | undefined

inductive Step [Inhabited α] : MpmcBlockingQueue α → Label α → MpmcBlockingQueue α → Prop
  | push {s s' : MpmcBlockingQueue α} {policy : QueueFullPolicy} {item : α} {result : PushResult}
      {dropped : Option α} : s.pushReady policy = some true →
      s.push policy item = some (result, dropped, s') →
      Step s (.push policy item result dropped) s'
  | pushUndefined {s : MpmcBlockingQueue α} {policy : QueueFullPolicy} {item : α} :
      s.pushReady policy = none ∨ s.pushReady policy = some true ∧ s.push policy item = none →
      Step s .undefined s
  | pop {s s' : MpmcBlockingQueue α} {target : Bool} {item : Option α} : s.notEmpty = true →
      s.pop target = some (item, s') → Step s (.pop item) s'
  | popUndefined {s : MpmcBlockingQueue α} {target : Bool} : s.notEmpty = true →
      s.pop target = none → Step s .undefined s
  | timeout {s : MpmcBlockingQueue α} : s.notEmpty = false → Step s (.pop none) s
  | stop {s s' : MpmcBlockingQueue α} {discardPendingTasks : Bool} {discarded : List α} :
      s.stop discardPendingTasks = some (discarded, s') →
      Step s (.stop discardPendingTasks discarded) s'
  | stopUndefined {s : MpmcBlockingQueue α} {discardPendingTasks : Bool} :
      s.stop discardPendingTasks = none → Step s .undefined s

def Label.event : Label α → BoundedFifo.Event α
  | .push _ item .ok dropped => .put item dropped
  | .pop (some item) => .take item
  | .stop true discarded => .clear discarded
  | _ => .skip

def accepted (ls : List (Label α)) : List α := ls.flatMap fun l => l.event.accepted

def popped (ls : List (Label α)) : List α := ls.flatMap fun l => l.event.taken

def overwritten (ls : List (Label α)) : List α := ls.flatMap fun l => l.event.displaced

def discarded (ls : List (Label α)) : List α := ls.flatMap fun l => l.event.cleared

def Label.keeps : Label α → Bool
  | .push .overwrite _ _ _ => false
  | .stop true _ => false
  | _ => true

/-! ## The queue and its items -/

variable {s s' : MpmcBlockingQueue α} {l : Label α} {ls : List (Label α)} {capacity : ℕ}

/-- The circular queue is in order and has room for `capacity` items. -/
structure Sound (capacity : ℕ) (s : MpmcBlockingQueue α) : Prop where
  valid : s.queue.Valid
  slots : s.queue.slots = capacity + 1

namespace Sound

theorem full (h : Sound capacity s) : s.queue.full = some (decide (s.queue.size = capacity)) := by
  rw [h.valid.full, h.slots]
  simp

theorem pushBack (h : Sound capacity s) (item : α) : s.queue.pushBack item =
    if s.queue.size = capacity then some (false, s.queue)
    else some (true, s.queue.pushed item) := by
  rw [h.valid.pushBack, h.slots]
  simp

theorem room (h : Sound capacity s) (hne : s.queue.size ≠ capacity) :
    s.queue.size + 1 < s.queue.slots := by
  have := h.valid.size_lt
  rw [h.slots] at this ⊢
  omega

variable [Inhabited α]

theorem pushed (h : Sound capacity s) (hne : s.queue.size ≠ capacity) (item : α) :
    Sound capacity { s with queue := s.queue.pushed item } ∧
      BoundedFifo.Step capacity s.queue.toList (.put item none) (s.queue.pushed item).toList := by
  refine ⟨⟨h.valid.pushed item, h.slots⟩, ?_⟩
  have hroom := h.room hne
  rw [h.slots] at hroom
  rw [h.valid.toList_pushed (h.room hne)]
  exact .put (by rw [CircularQueue.length_toList]; omega)

end Sound

variable [Inhabited α]

structure Effect (capacity : ℕ) (s : MpmcBlockingQueue α) (l : Label α) (s' : MpmcBlockingQueue α) :
    Prop where
  sound : Sound capacity s'
  defined : l ≠ .undefined
  fifo : BoundedFifo.Step capacity s.queue.toList l.event s'.queue.toList
  overrun : s'.queue.overrunCounter =
    (s.queue.overrunCounter + l.event.displaced.length) % 2 ^ 64
  shutdownDiscard : s'.shutdownDiscardCounter =
    (s.shutdownDiscardCounter + l.event.cleared.length) % 2 ^ 64
  keeps : l.keeps = true → l.event.displaced = [] ∧ l.event.cleared = []

structure Counters (s : MpmcBlockingQueue α) : Prop where
  overrun : s.queue.overrunCounter < 2 ^ 64
  shutdownDiscard : s.shutdownDiscardCounter < 2 ^ 64

theorem Effect.idle (h : Sound capacity s) (hc : Counters s) (hl : l ≠ .undefined)
    (hevent : l.event = .skip) (hqueue : s'.queue = s.queue)
    (hdiscard : s'.shutdownDiscardCounter = s.shutdownDiscardCounter) :
    Effect capacity s l s' where
  sound := ⟨hqueue ▸ h.valid, hqueue ▸ h.slots⟩
  defined := hl
  fifo := by rw [hevent, hqueue]; exact .skip
  overrun := by rw [hevent, hqueue]; exact (Nat.mod_eq_of_lt hc.overrun).symm
  shutdownDiscard := by rw [hevent, hdiscard]; exact (Nat.mod_eq_of_lt hc.shutdownDiscard).symm
  keeps _ := by rw [hevent]; exact ⟨rfl, rfl⟩

namespace Sound

theorem accept (h : Sound capacity s) (hc : Counters s) (hne : s.queue.size ≠ capacity)
    (policy : QueueFullPolicy) (item : α) : Effect capacity s (.push policy item .ok none)
      { s with queue := s.queue.pushed item } where
  sound := (h.pushed hne item).1
  defined := by simp
  fifo := (h.pushed hne item).2
  overrun := (Nat.mod_eq_of_lt hc.overrun).symm
  shutdownDiscard := (Nat.mod_eq_of_lt hc.shutdownDiscard).symm
  keeps _ := ⟨rfl, rfl⟩

theorem overwrite (h : Sound capacity s) (hc : Counters s) (hfull : s.queue.size = capacity)
    (hpos : 0 < capacity) (hstopped : s.stopped = false) (item : α) :
    s.pushOverwrite item = some (.ok, s.queue.toList.head?,
        { s with queue := s.queue.dropped.pushed item }) ∧
      Effect capacity s (.push .overwrite item .ok s.queue.toList.head?)
        { s with queue := s.queue.dropped.pushed item } := by
  have hlist := h.valid.toList_shifted (hfull ▸ hpos)
  have hsize := h.valid.size_shifted (hfull ▸ hpos)
  -- the queue behind the drop has room
  have hdropped : Sound capacity { s with queue := s.queue.dropped } := ⟨h.valid.dropped, h.slots⟩
  have hne : s.queue.dropped.size ≠ capacity := by
    show s.queue.shifted.size ≠ capacity
    omega
  have hpush : s.queue.dropped.pushBack item = some (true, s.queue.dropped.pushed item) :=
    (hdropped.pushBack item).trans (if_neg hne)
  refine ⟨?_, (hdropped.pushed hne item).1, by simp, ?_, ?_,
    (Nat.mod_eq_of_lt hc.shutdownDiscard).symm, fun hkeeps => by cases hkeeps⟩
  · simp [pushOverwrite, hstopped, h.full, hfull, h.valid.dropFront (hfull ▸ hpos), hpush, hlist]
  · have hpushed : (s.queue.dropped.pushed item).toList = s.queue.shifted.toList ++ [item] :=
      hdropped.valid.toList_pushed (hdropped.room hne)
    show BoundedFifo.Step capacity s.queue.toList _ (s.queue.dropped.pushed item).toList
    rw [hpushed, hlist]
    exact .displace (by rw [CircularQueue.length_toList]; omega)
  · rw [hlist]
    rfl

end Sound

/-! ## One call -/

namespace Sound

theorem push (h : Sound capacity s) (hc : Counters s) (policy : QueueFullPolicy) (item : α)
    (hready : s.pushReady policy = some true) : ∃ result dropped s',
      s.push policy item = some (result, dropped, s') ∧
      Effect capacity s (.push policy item result dropped) s' := by
  cases hstopped : s.stopped with
  | true =>
    refine ⟨.stopped, none, s, ?_, .idle h hc (by simp) rfl rfl rfl⟩
    cases policy <;>
      simp [MpmcBlockingQueue.push, pushBlocking, pushDiscard, pushOverwrite, hstopped]
  | false =>
    by_cases hfull : s.queue.size = capacity
    · have hpush : s.queue.pushBack item = some (false, s.queue) :=
        (h.pushBack item).trans (if_pos hfull)
      cases policy with
      | block => simp [pushReady, notFull, hstopped, h.full, hfull] at hready
      | discard =>
        refine ⟨.discarded, none,
          { s with discardCounter := (s.discardCounter + 1) % 2 ^ 64 }, ?_,
          .idle h hc (by simp) rfl rfl rfl⟩
        simp [MpmcBlockingQueue.push, pushDiscard, hstopped, h.full, hfull]
      | overwrite =>
        rcases Nat.eq_zero_or_pos capacity with hzero | hpos
        · -- there is nothing to drop, and no room
          have hempty : s.queue.empty = true := h.valid.empty_iff.2 (hfull.trans hzero)
          refine ⟨.discarded, none,
            { s with discardCounter := (s.discardCounter + 1) % 2 ^ 64 }, ?_,
            .idle h hc (by simp) rfl rfl rfl⟩
          simp [MpmcBlockingQueue.push, pushOverwrite, hstopped, h.full, hfull,
            CircularQueue.dropFront, hempty, hpush]
        · exact ⟨_, _, _, h.overwrite hc hfull hpos hstopped item⟩
    · have hpush : s.queue.pushBack item = some (true, s.queue.pushed item) :=
        (h.pushBack item).trans (if_neg hfull)
      refine ⟨.ok, none, { s with queue := s.queue.pushed item }, ?_, h.accept hc hfull policy item⟩
      cases policy <;>
        simp [MpmcBlockingQueue.push, pushBlocking, pushDiscard, pushOverwrite, hstopped, h.full,
          hfull, hpush]

omit [Inhabited α] in
theorem pushReady (h : Sound capacity s) (policy : QueueFullPolicy) :
    s.pushReady policy ≠ none := by
  cases policy with
  | block =>
    cases hstopped : s.stopped <;>
      simp [MpmcBlockingQueue.pushReady, notFull, hstopped, h.full]
  | discard | overwrite => simp [MpmcBlockingQueue.pushReady]

theorem pop (h : Sound capacity s) (hc : Counters s) (target : Bool) : ∃ item s',
    s.pop target = some (item, s') ∧ Effect capacity s (.pop item) s' := by
  unfold MpmcBlockingQueue.pop
  split
  · exact ⟨none, s, rfl, .idle h hc (by simp) rfl rfl rfl⟩
  split
  · next hne =>
    rw [Bool.not_eq_true', ← Bool.not_eq_true, h.valid.empty_iff] at hne
    cases target with
    | false =>
      refine ⟨none, s, ?_, .idle h hc (by simp) rfl rfl rfl⟩
      simp [CircularQueue.popFront]
    | true =>
      have hlist := h.valid.toList_shifted (Nat.pos_of_ne_zero hne)
      have hempty : s.queue.empty = false := by
        rw [← Bool.not_eq_true, h.valid.empty_iff]
        exact hne
      refine ⟨some (s.queue.buffer.getD s.queue.head default),
        { s with queue := s.queue.shifted }, ?_, ⟨h.valid.shifted, h.slots⟩, by simp, ?_, ?_, ?_,
        fun _ => ⟨rfl, rfl⟩⟩
      · simp [CircularQueue.popFront, hempty, h.valid.shift]
      · rw [hlist]
        exact .take
      · exact (Nat.mod_eq_of_lt hc.overrun).symm
      · exact (Nat.mod_eq_of_lt hc.shutdownDiscard).symm
  · exact ⟨none, s, rfl, .idle h hc (by simp) rfl rfl rfl⟩

theorem stop (h : Sound capacity s) (hc : Counters s) (discardPendingTasks : Bool) :
    ∃ discarded s', s.stop discardPendingTasks = some (discarded, s') ∧
      Effect capacity s (.stop discardPendingTasks discarded) s' := by
  cases discardPendingTasks with
  | false => exact ⟨[], { s with stopped := true }, rfl, .idle h hc (by simp) rfl rfl rfl⟩
  | true =>
    obtain ⟨queue, hqueue, hvalid, hslots, hoverrun, hnil⟩ := h.valid.clear
    refine ⟨s.queue.toList, _, by rw [MpmcBlockingQueue.stop, if_pos rfl, hqueue]; rfl,
      ⟨hvalid, hslots.trans h.slots⟩, by simp, ?_, ?_, ?_, fun hkeeps => by cases hkeeps⟩
    · rw [hnil]
      exact .clear
    · exact hoverrun.trans (Nat.mod_eq_of_lt hc.overrun).symm
    · show _ = (_ + s.queue.toList.length) % 2 ^ 64
      rw [CircularQueue.length_toList]

end Sound

theorem Step.effect (h : Sound capacity s) (hc : Counters s) (hs : Step s l s') :
    Effect capacity s l s' := by
  cases hs with
  | @push _ policy item _ _ hready hpush =>
    obtain ⟨result, dropped, s₁, heq, heffect⟩ := h.push hc policy item hready
    simp_all
  | @pushUndefined policy item hnone =>
    rcases hnone with hnone | ⟨hready, hnone⟩
    · exact absurd hnone (h.pushReady policy)
    · obtain ⟨result, dropped, s₁, heq, -⟩ := h.push hc policy item hready
      cases hnone.symm.trans heq
  | @pop _ target _ _ hpop =>
    obtain ⟨item, s₁, heq, heffect⟩ := h.pop hc target
    cases hpop.symm.trans heq
    exact heffect
  | @popUndefined target _ hnone =>
    obtain ⟨item, s₁, heq, -⟩ := h.pop hc target
    cases hnone.symm.trans heq
  | timeout => exact .idle h hc (by simp) rfl rfl rfl
  | @stop _ discardPendingTasks _ hstop =>
    obtain ⟨discarded, s₁, heq, heffect⟩ := h.stop hc discardPendingTasks
    simp_all
  | @stopUndefined discardPendingTasks hnone =>
    obtain ⟨discarded, s₁, heq, -⟩ := h.stop hc discardPendingTasks
    cases hnone.symm.trans heq

theorem Effect.counters (h : Effect capacity s l s') : Counters s' :=
  ⟨h.overrun ▸ Nat.mod_lt _ (by decide), h.shutdownDiscard ▸ Nat.mod_lt _ (by decide)⟩

/-! ## Whole runs -/

structure Fifo (capacity : ℕ) (ls : List (Label α)) (s : MpmcBlockingQueue α) : Prop where
  defined : .undefined ∉ ls
  refines : Run (BoundedFifo.Step capacity) [] (ls.map Label.event) s.queue.toList
  size_eq : s.queue.size = s.queue.toList.length
  size_le : s.queue.size ≤ capacity
  order : (popped ls).Sublist (accepted ls)
  kept : (∀ l ∈ ls, l.keeps = true) → accepted ls = popped ls ++ s.queue.toList
  overwrites : ∀ item, s.stopped = false → 0 < capacity → ∃ s',
    s.push .overwrite item =
      some (.ok, if s.queue.size = capacity then s.queue.toList.head? else none, s')
  balance : (accepted ls).length = (popped ls).length + s.queue.size + (overwritten ls).length +
    (discarded ls).length
  overrun : s.queue.overrunCounter = (overwritten ls).length % 2 ^ 64
  shutdownDiscard : s.shutdownDiscardCounter = (discarded ls).length % 2 ^ 64

structure Kept (capacity : ℕ) (ls : List (Label α)) (s : MpmcBlockingQueue α) : Prop where
  sound : Sound capacity s
  counters : Counters s
  defined : .undefined ∉ ls
  refines : Run (BoundedFifo.Step capacity) [] (ls.map Label.event) s.queue.toList
  keeps : ∀ l ∈ ls, l.keeps = true → l.event.displaced = [] ∧ l.event.cleared = []
  overrun : s.queue.overrunCounter = (overwritten ls).length % 2 ^ 64
  shutdownDiscard : s.shutdownDiscardCounter = (discarded ls).length % 2 ^ 64

theorem Kept.make {capacity : UInt64} (h : (capacity + 1).toNat = capacity.toNat + 1) :
    Kept capacity.toNat ([] : List (Label α)) (make capacity) where
  sound := ⟨CircularQueue.valid_make (by omega), h⟩
  counters := ⟨Nat.two_pow_pos 64, Nat.two_pow_pos 64⟩
  defined := List.not_mem_nil
  refines := .nil _
  keeps l hl := by cases hl
  overrun := rfl
  shutdownDiscard := rfl

theorem Kept.step (h : Kept capacity ls s) (hs : Step s l s') : Kept capacity (ls ++ [l]) s' := by
  have heffect := hs.effect h.sound h.counters
  refine ⟨heffect.sound, heffect.counters, ?_, ?_, ?_, ?_, ?_⟩
  · rw [List.mem_append, List.mem_singleton]
    rintro (hl | hl)
    · exact h.defined hl
    · exact heffect.defined hl.symm
  · rw [List.map_append]
    exact h.refines.snoc heffect.fifo
  · intro l' hl'
    rcases List.mem_append.1 hl' with hl' | hl'
    · exact h.keeps l' hl'
    · exact List.mem_singleton.1 hl' ▸ heffect.keeps
  · rw [heffect.overrun, h.overrun, Nat.mod_add_mod, overwritten, overwritten, List.flatMap_append,
      List.length_append, List.flatMap_singleton]
  · rw [heffect.shutdownDiscard, h.shutdownDiscard, Nat.mod_add_mod, discarded, discarded,
      List.flatMap_append, List.length_append, List.flatMap_singleton]

theorem Kept.fifo (h : Kept capacity ls s) : Fifo capacity ls s := by
  have hmap : ∀ f : BoundedFifo.Event α → List α,
      (ls.map Label.event).flatMap f = ls.flatMap fun l => f l.event := fun f =>
    List.flatMap_map _ _ _
  have hsize := CircularQueue.length_toList s.queue
  have hle := BoundedFifo.length_le h.refines
  have hbalance := BoundedFifo.length_accepted h.refines
  rw [hmap, hmap, hmap, hmap, hsize] at hbalance
  refine ⟨h.defined, h.refines, hsize.symm, hsize ▸ hle, ?_, fun hkeeps => ?_,
    fun item hstopped hpos => ?_, hbalance, h.overrun, h.shutdownDiscard⟩
  · have horder := BoundedFifo.taken_sublist h.refines
    rwa [hmap, hmap] at horder
  · have hkept := BoundedFifo.accepted_eq_of_kept h.refines fun e he => by
      obtain ⟨l, hl, rfl⟩ := List.mem_map.1 he
      exact h.keeps l hl (hkeeps l hl)
    rwa [hmap, hmap] at hkept
  · split
    · next hfull =>
      exact ⟨_, (h.sound.overwrite h.counters hfull hpos hstopped item).1⟩
    · next hfull =>
      have hpush : s.queue.pushBack item = some (true, s.queue.pushed item) :=
        (h.sound.pushBack item).trans (if_neg hfull)
      refine ⟨{ s with queue := s.queue.pushed item }, ?_⟩
      simp [MpmcBlockingQueue.push, pushOverwrite, hstopped, h.sound.full, hfull, hpush]

/-- The blocking queue is a bounded queue in every run exactly if its capacity has a successor. -/
theorem queue_is_fifo (capacity : UInt64) :
    (∀ (α : Type) [Inhabited α] (ls : List (Label α)) (s : MpmcBlockingQueue α),
      Run Step (make capacity) ls s → Fifo capacity.toNat ls s) ↔
    capacity ≠ 18446744073709551615 := by
  constructor
  · intro hall heq
    subst heq
    have hundefined : Step (make 18446744073709551615 : MpmcBlockingQueue ℕ) .undefined
        (make 18446744073709551615) :=
      @Step.pushUndefined _ _ _ .discard 0 (.inr ⟨rfl, rfl⟩)
    exact (hall ℕ _ _ ((Run.nil _).snoc hundefined)).defined (by simp)
  · intro hne α _ ls s hrun
    have hsucc : (capacity + 1).toNat = capacity.toNat + 1 := by
      have hlt := capacity.toNat_lt
      have hne' : capacity.toNat ≠ 18446744073709551615 := fun h =>
        hne (UInt64.toNat_inj.1 h)
      rw [UInt64.toNat_add]
      exact Nat.mod_eq_of_lt (by change capacity.toNat + 1 < _; omega)
    exact (hrun.history (I := Kept capacity.toNat)
      (fun _ _ _ _ h hstep => h.step hstep) (Kept.make hsucc)).fifo

/-- With the largest capacity the ring has no slot. -/
theorem queue_without_slots : ¬ ∀ (capacity : UInt64) (ls : List (Label ℕ))
    (s : MpmcBlockingQueue ℕ), Run Step (make capacity) ls s → Fifo capacity.toNat ls s := by
  intro hall
  have hundefined : Step (make 18446744073709551615 : MpmcBlockingQueue ℕ) .undefined
      (make 18446744073709551615) :=
    @Step.pushUndefined _ _ _ .discard 0 (.inr ⟨rfl, rfl⟩)
  exact (hall _ _ _ ((Run.nil _).snoc hundefined)).defined (by simp)

end MpmcBlockingQueue

end TinyImx.Concurrency
