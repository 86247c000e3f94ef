import TinyImx.Net.EventLoopRuns

/-!
# The thread of an event loop

`StartLoop` starts a thread that constructs an event loop, shows it to the others under a mutex, runs
it, and takes the pointer back before the loop is destroyed.  The destructor asks the loop that it
finds to stop, and joins the thread; it holds the mutex while it asks.
-/

namespace TinyImx.Net.EventLoopThread

open EventLoop (State Phase Caller Good GoodStep Inv)
open Bool (and_eq_true)

/-- Where `ThreadFunc` is. -/
inductive Worker
  | starting
  /-- `loop_` and `ready_` are set. -/
  | ready
  | looping
  /-- `Loop` has returned, and `loop_` is not yet cleared. -/
  | returned
  | finished
  deriving DecidableEq

inductive Destroyer
  | before
  | locked
  /-- It holds the mutex, inside `Quit`. -/
  | quitting
  | joining
  | joined
  deriving DecidableEq

structure System (τ : Type) where
  loop : State τ
  worker : Worker
  /-- `loop_` is not null. -/
  pointer : Bool
  destroyer : Destroyer

inductive Act (τ : Type)
  | publish
  | abandon
  | enter
  | event (a : EventLoop.Act τ)
  | clear
  | destroy
  | destroyQuit
  | destroyWakeup
  | join

namespace Act

variable {τ : Type}

def isWorker : Act τ → Bool
  | .publish | .abandon | .enter | .clear => true
  | .event a => a.isLoop
  | _ => false

def isDestroyer : Act τ → Bool
  | .destroyQuit | .destroyWakeup | .join => true
  | _ => false

end Act

def caller {τ : Type} : EventLoop.Act τ → Caller τ
  | .queueInLoop c | .runInLoop c | .quit c | .wakeup c => c
  | _ => .loop

namespace System

variable {τ : Type}

def init : System τ := ⟨State.init, .starting, false, .before⟩

def held (s : System τ) : Bool := s.destroyer = .locked || s.destroyer = .quitting

variable [DecidableEq τ]

/-- The step is possible, where `d` is the thread that calls the destructor.  The loop thread calls
the event loop while it runs it, and `d` before it destroys it. -/
def enabled (d : τ) (s : System τ) : Act τ → Bool
  | .publish => s.worker = .starting && !s.held
  | .abandon => s.worker = .starting && !s.held
  | .enter => s.worker = .ready && s.loop.enabled .loop
  | .event a => s.loop.enabled a &&
      (match caller a with
      | .loop => s.worker = .looping
      | .other t => (s.worker = .ready || s.worker = .looping || s.worker = .returned) &&
          (t ≠ d || s.destroyer = .before))
  | .clear => s.worker = .returned && !s.held
  | .destroy => s.destroyer = .before && s.worker ≠ .starting && !s.loop.writing (.other d)
  | .destroyQuit => s.destroyer = .locked && (!s.pointer || s.loop.enabled (.quit (.other d)))
  | .destroyWakeup => s.destroyer = .quitting && s.loop.enabled (.wakeup (.other d))
  | .join => s.destroyer = .joining && s.worker = .finished

def apply (d : τ) (s : System τ) : Act τ → System τ
  | .publish => { s with worker := .ready, pointer := true }
  | .abandon => { s with worker := .finished }
  | .enter => { s with loop := s.loop.apply .loop, worker := .looping }
  | .event a => { s with
      loop := s.loop.apply a
      worker := if a = .leave then .returned else s.worker }
  | .clear => { s with worker := .finished, pointer := false }
  | .destroy => { s with destroyer := .locked }
  | .destroyQuit =>
    if s.pointer then { s with loop := s.loop.apply (.quit (.other d)), destroyer := .quitting }
    else { s with destroyer := .joining }
  | .destroyWakeup =>
    { s with loop := s.loop.apply (.wakeup (.other d)), destroyer := .joining }
  | .join => { s with destroyer := .joined }

end System

def loopAct {τ : Type} (d : τ) (s : System τ) : Act τ → Option (EventLoop.Act τ)
  | .enter => some .loop
  | .event a => some a
  | .destroyQuit => if s.pointer then some (.quit (.other d)) else none
  | .destroyWakeup => some (.wakeup (.other d))
  | _ => none

def ThreadStep {τ : Type} [DecidableEq τ] (d : τ) (s : System τ) (a : Act τ) (s' : System τ) : Prop :=
  s.enabled d a = true ∧ s' = s.apply d a ∧ ∀ b, loopAct d s a = some b → Good s.loop b

variable {τ : Type} [DecidableEq τ] {d : τ} {s s' : System τ} {a : Act τ}

structure ThreadInv (d : τ) (s : System τ) : Prop where
  inv : Inv s.loop
  inside : s.worker = .looping ↔ s.loop.phase ≠ .outside
  pointer : s.pointer = true ↔ s.worker = .ready ∨ s.worker = .looping ∨ s.worker = .returned
  asked : s.destroyer = .quitting ∨ s.destroyer = .joining → s.pointer = true →
    s.worker = .returned ∨ s.loop.requested = true
  started : s.destroyer ≠ .before → s.worker ≠ .starting
  locked : s.destroyer = .locked → s.loop.writing (.other d) = false
  quitting : s.destroyer = .quitting → s.loop.writing (.other d) = true

omit [DecidableEq τ] in
theorem threadInv_init : ThreadInv d (System.init : System τ) := by
  constructor
  · exact EventLoop.inv_init
  all_goals simp [System.init, State.init]

theorem loop_step (h : ThreadStep d s a s') :
    s'.loop = s.loop ∨ ∃ b, loopAct d s a = some b ∧ GoodStep s.loop b s'.loop := by
  obtain ⟨henabled, rfl, hgood⟩ := h
  have htake : ∀ b, loopAct d s a = some b → s.loop.enabled b = true →
      (s.apply d a).loop = s.loop.apply b →
      ∃ b, loopAct d s a = some b ∧ GoodStep s.loop b (s.apply d a).loop :=
    fun b hb hen happly => ⟨b, hb, ⟨hen, happly⟩, hgood b hb⟩
  cases a with
  | enter =>
    rw [System.enabled, and_eq_true] at henabled
    exact .inr (htake .loop rfl henabled.2 rfl)
  | event b =>
    rw [System.enabled, and_eq_true] at henabled
    exact .inr (htake b rfl henabled.1 rfl)
  | destroyQuit =>
    simp only [System.enabled, and_eq_true] at henabled
    cases hp : s.pointer with
    | false => exact .inl (by simp [System.apply, hp])
    | true =>
      refine .inr (htake (.quit (.other d)) (by simp [loopAct, hp]) ?_ (by simp [System.apply, hp]))
      simpa [hp] using henabled.2
  | destroyWakeup =>
    rw [System.enabled, and_eq_true] at henabled
    exact .inr (htake (.wakeup (.other d)) rfl henabled.2 rfl)
  | publish | abandon | clear | destroy | join => exact .inl rfl

theorem writing_apply {s : State τ} {a : EventLoop.Act τ} {c : Caller τ} (h : caller a ≠ c) :
    (s.apply a).writing c = s.writing c := by
  have hne := Ne.symm h
  cases a with
  | queueInLoop c' | quit c' | wakeup c' => exact Function.update_of_ne hne _ _
  | runInLoop c' =>
    cases c' with
    | loop => rfl
    | other t => exact Function.update_of_ne hne _ _
  | loop | handleEvent | functorReturns =>
    rw [State.apply]
    split <;> rfl
  | _ => rfl

theorem inside_apply {s : State τ} {a : EventLoop.Act τ} (henabled : s.enabled a = true)
    (hloop : a ≠ .loop) (hleave : a ≠ .leave) :
    ((s.apply a).phase = .outside ↔ s.phase = .outside) := by
  cases a with
  | loop => exact absurd rfl hloop
  | leave => exact absurd rfl hleave
  | queueInLoop c | quit c | wakeup c => rfl
  | runInLoop c => cases c <;> rfl
  | clearQuit | callPending | swap | callPendingDone | dropped =>
    simp only [State.enabled, and_eq_true, decide_eq_true_eq] at henabled
    simp [State.apply, henabled.2]
  | checkQuit =>
    simp only [State.enabled, and_eq_true, decide_eq_true_eq] at henabled
    cases hquit : s.quit <;> simp [State.apply, henabled.2, hquit]
  | interrupted | ready events =>
    simp only [State.enabled, and_eq_true, decide_eq_true_eq] at henabled
    simp [State.apply, henabled.1.2]
  | handleEvent | functorReturns =>
    rw [State.apply]
    split
    all_goals simp_all

theorem ThreadInv.event (hi : ThreadInv d s) {b : EventLoop.Act τ}
    (hinv : Inv (s.loop.apply b)) (h : s.enabled d (.event b) = true) :
    ThreadInv d (s.apply d (.event b)) := by
  rw [System.enabled, and_eq_true] at h
  obtain ⟨henabled, hcaller⟩ := h
  have hwriting : s.destroyer ≠ .before → (s.loop.apply b).writing (.other d) =
      s.loop.writing (.other d) := by
    refine fun hbefore => writing_apply ?_
    grind
  have hlocked : s.destroyer = .locked → (s.loop.apply b).writing (.other d) = false :=
    fun hd => (hwriting (by simp [hd])).trans (hi.locked hd)
  have hquitting : s.destroyer = .quitting → (s.loop.apply b).writing (.other d) = true :=
    fun hd => (hwriting (by simp [hd])).trans (hi.quitting hd)
  by_cases hleave : b = .leave
  · subst hleave
    have hworker : s.worker = .looping := by simpa [caller] using hcaller
    have hpointer := hi.pointer.2 (.inr (.inl hworker))
    refine ⟨hinv, ?_, ?_, ?_, ?_, hlocked, hquitting⟩
    all_goals simp [System.apply, State.apply, hpointer]
  · refine ⟨hinv, ?_, ?_, ?_, ?_, hlocked, hquitting⟩
    · by_cases hloop : b = .loop
      · subst hloop
        have hworker : s.worker = .looping := by simpa [caller] using hcaller
        have hinside := hi.inside.1 hworker
        have hlooping := hi.inv.looping.2 hinside
        simpa [System.apply, State.apply, hworker, hlooping] using hinside
      · simp only [System.apply, hleave, if_false]
        rw [hi.inside, not_iff_not, inside_apply henabled hloop hleave]
    · simpa [System.apply, hleave] using hi.pointer
    · intro hdestroyer hpointer
      simp only [System.apply, hleave, if_false] at hdestroyer hpointer ⊢
      exact (hi.asked hdestroyer hpointer).imp_right (EventLoop.requested_apply hleave)
    · simpa [System.apply, hleave] using hi.started

/-- A step of a good run keeps the invariant. -/
theorem ThreadInv.step (hi : ThreadInv d s) (h : ThreadStep d s a s') : ThreadInv d s' := by
  have hinv : Inv s'.loop := by
    rcases loop_step h with hsame | ⟨b, -, hb⟩
    · rw [hsame]
      exact hi.inv
    · exact hi.inv.step hb
  obtain ⟨henabled, rfl, hgood⟩ := h
  cases a with
  | event b => exact hi.event hinv henabled
  | publish =>
    simp only [System.enabled, and_eq_true, decide_eq_true_eq] at henabled
    have hbefore : s.destroyer = .before := by
      by_contra hne
      exact hi.started hne henabled.1
    refine ⟨hinv, ?_, ?_, ?_, ?_, ?_, ?_⟩
    · simpa [System.apply, henabled.1] using hi.inside
    all_goals simp [System.apply, hbefore]
  | abandon =>
    simp only [System.enabled, and_eq_true, decide_eq_true_eq] at henabled
    have hpointer : s.pointer = false := by simpa [henabled.1] using hi.pointer
    refine ⟨hinv, ?_, ?_, ?_, ?_, hi.locked, hi.quitting⟩
    · simpa [System.apply, henabled.1] using hi.inside
    all_goals simp [System.apply, hpointer]
  | enter =>
    simp only [System.enabled, and_eq_true, decide_eq_true_eq] at henabled
    have hpointer := hi.pointer.2 (.inl henabled.1)
    have hlooping : s.loop.looping = false := by
      have hout : s.loop.phase = .outside := by simpa [henabled.1] using hi.inside
      simpa [hout] using hi.inv.looping
    -- a loop that was asked to stop does not begin
    have hrequested : s.loop.requested = false := hgood .loop rfl hlooping
    refine ⟨hinv, ?_, ?_, ?_, ?_, ?_, ?_⟩
    · simp [System.apply, State.apply, hlooping]
    · simp [System.apply, hpointer]
    · intro hdestroyer hpointer
      rcases hi.asked hdestroyer hpointer with hworker | hasked
      · simp [henabled.1] at hworker
      · simp [hrequested] at hasked
    · simp [System.apply]
    · simpa [System.apply, State.apply, hlooping] using hi.locked
    · simpa [System.apply, State.apply, hlooping] using hi.quitting
  | clear =>
    simp only [System.enabled, and_eq_true, decide_eq_true_eq] at henabled
    refine ⟨hinv, ?_, ?_, ?_, ?_, hi.locked, hi.quitting⟩
    · simpa [System.apply, henabled.1] using hi.inside
    all_goals simp [System.apply]
  | destroy =>
    simp only [System.enabled, and_eq_true, decide_eq_true_eq] at henabled
    refine ⟨hinv, hi.inside, hi.pointer, ?_, ?_, ?_, ?_⟩
    · simp [System.apply]
    · exact fun _ => henabled.1.2
    · simpa [System.apply] using henabled.2
    · simp [System.apply]
  | destroyQuit =>
    simp only [System.enabled, and_eq_true, decide_eq_true_eq] at henabled
    have hstarted := hi.started (by simp [henabled.1])
    cases hpointer : s.pointer with
    | false =>
      simp only [System.apply, hpointer, Bool.false_eq_true, if_false] at hinv ⊢
      refine ⟨hinv, hi.inside, hpointer ▸ hi.pointer, ?_, ?_, ?_, ?_⟩
      · simp
      · exact fun _ => hstarted
      all_goals simp
    | true =>
      simp only [System.apply, hpointer, if_true] at hinv ⊢
      refine ⟨hinv, hi.inside, hpointer ▸ hi.pointer, ?_, ?_, ?_, ?_⟩
      · exact fun _ _ => .inr rfl
      · exact fun _ => hstarted
      · simp
      · simp [State.apply, State.storeQuit]
  | destroyWakeup =>
    simp only [System.enabled, and_eq_true, decide_eq_true_eq] at henabled
    have hstarted := hi.started (by simp [henabled.1])
    refine ⟨hinv, hi.inside, hi.pointer, ?_, ?_, ?_, ?_⟩
    · exact fun _ hpointer => hi.asked (.inl henabled.1) hpointer
    · exact fun _ => hstarted
    all_goals simp [System.apply]
  | join =>
    simp only [System.enabled, and_eq_true, decide_eq_true_eq] at henabled
    have hstarted := hi.started (by simp [henabled.1])
    refine ⟨hinv, hi.inside, hi.pointer, ?_, ?_, ?_, ?_⟩
    · simp [System.apply]
    · exact fun _ => hstarted
    all_goals simp [System.apply]

/-! ## The destructor comes back -/

/-- `ThreadFunc` keeps taking steps, unless it waits for the mutex or has ended. -/
def WorkerFair (t : Trace (ThreadStep d)) : Prop :=
  ∀ i, ∃ j, i ≤ j ∧ ((t.state j).worker = .finished ∨ (t.state j).held = true ∨
    ∃ a, t.label j = some a ∧ a.isWorker = true)

def DestroyerFair (t : Trace (ThreadStep d)) : Prop :=
  ∀ i, ∃ j, i ≤ j ∧ ((∃ a, t.label j = some a ∧ a.isDestroyer = true) ∨
    ∀ a, a.isDestroyer = true → (t.state j).enabled d a = false)

def Destroyer.left : Destroyer → ℕ
  | .locked => 3
  | .quitting => 2
  | .joining => 1
  | _ => 0

def Worker.left : Worker → ℕ
  | .finished => 0
  | .returned => 1
  | .looping => 2
  | .ready => 3
  | .starting => 4

theorem destroyer_apply (ha : a.isDestroyer = false) (h : s.destroyer ≠ .before)
    (henabled : s.enabled d a = true) : (s.apply d a).destroyer = s.destroyer := by
  cases a with
  | destroy => simp [System.enabled, h] at henabled
  | publish | abandon | enter | event b | clear => rfl
  | destroyQuit | destroyWakeup | join => cases ha

omit [DecidableEq τ] in
theorem held_iff : s.held = true ↔ s.destroyer = .locked ∨ s.destroyer = .quitting := by
  simp [System.held]

variable {t : Trace (ThreadStep d)}

/-- The destructor lets go of the mutex. -/
theorem destroyer_joins (hfair : DestroyerFair t) {i : ℕ}
    (hi : ThreadInv d (t.state i)) (hheld : (t.state i).held = true) :
    ∃ j, i ≤ j ∧ ThreadInv d (t.state j) ∧ (t.state j).destroyer = .joining := by
  have hstep : ∀ s a s', ThreadInv d s ∧ s.held = true → ThreadStep d s a s' →
      (ThreadInv d s' ∧ s'.destroyer = .joining) ∨ (ThreadInv d s' ∧ s'.held = true) ∧
        s'.destroyer.left ≤ s.destroyer.left ∧
        (a.isDestroyer = true → s'.destroyer.left < s.destroyer.left) := by
    rintro s a s' ⟨hi, hheld⟩ hs
    have hi' := hi.step hs
    obtain ⟨henabled, rfl, -⟩ := hs
    cases ha : a.isDestroyer with
    | false =>
      have hsame := destroyer_apply ha (by rcases held_iff.1 hheld with h | h <;> simp [h]) henabled
      right
      rw [System.held, hsame]
      exact ⟨⟨hi', hheld⟩, le_rfl, by simp⟩
    | true =>
      cases a with
      | destroyQuit =>
        simp only [System.enabled, and_eq_true, decide_eq_true_eq] at henabled
        cases hpointer : s.pointer with
        | false => exact .inl ⟨hi', by simp [System.apply, hpointer]⟩
        | true =>
          right
          simp only [System.apply, hpointer, if_true] at hi' ⊢
          simp [hi', System.held, henabled.1, Destroyer.left]
      | destroyWakeup => exact .inl ⟨hi', rfl⟩
      | join =>
        simp only [System.enabled, and_eq_true, decide_eq_true_eq] at henabled
        simp [System.held, henabled.1] at hheld
      | _ => cases ha
  refine t.eventually (P := fun s => ThreadInv d s ∧ s.held = true)
    (H := fun a : Act τ => a.isDestroyer = true) (μ := fun s => s.destroyer.left)
    (fun s a s' hp hs => (hstep s a s' hp hs).imp_right fun h => ⟨h.1, h.2.1⟩)
    (fun s a s' hp ha hs => (hstep s a s' hp hs).imp_right fun h => h.2.2 ha) ?_ ⟨hi, hheld⟩
  intro i
  obtain ⟨j, hij, hj⟩ := hfair i
  refine ⟨j, hij, fun h => .inr (hj.resolve_right fun hnone => ?_)⟩
  obtain ⟨hi, hheld⟩ := h
  rcases held_iff.1 hheld with hd | hd
  · have hfree := hi.locked hd
    have := hnone .destroyQuit rfl
    simp [System.enabled, hd, State.enabled, State.free, hfree] at this
  · have hwriting := hi.quitting hd
    have := hnone .destroyWakeup rfl
    simp [System.enabled, hd, State.enabled, hwriting] at this

def System.left (s : System τ) : ℕ ×ₗ ℕ ×ₗ ℕ := toLex (s.worker.left, s.loop.phase.left)

/-- While the destructor joins, the thread of a loop that was asked to stop comes nearer to its
end. -/
theorem ThreadInv.left_step (hi : ThreadInv d s) (hjoining : s.destroyer = .joining)
    (hworker : s.worker ≠ .finished) (h : ThreadStep d s a s') : s'.destroyer = .joining ∧
    s'.left ≤ s.left ∧ (a.isWorker = true → s'.left < s.left) := by
  obtain ⟨henabled, rfl, hgood⟩ := h
  have hstarted := hi.started (by simp [hjoining])
  have hpointer : s.pointer = true := by
    rw [hi.pointer]
    cases hw : s.worker <;> simp_all
  cases a with
  | publish | abandon | destroy | destroyQuit | destroyWakeup | join => simp_all [System.enabled]
  | enter =>
    -- `Loop` does not begin when it was asked to stop
    simp only [System.enabled, and_eq_true, decide_eq_true_eq] at henabled
    have hout : s.loop.phase = .outside := by simpa [henabled.1] using hi.inside
    have hlooping : s.loop.looping = false := by simpa [hout] using hi.inv.looping
    have hrequested : s.loop.requested = false := hgood .loop rfl hlooping
    rcases hi.asked (.inr hjoining) hpointer with hreturned | hasked
    · simp [henabled.1] at hreturned
    · simp [hrequested] at hasked
  | clear =>
    simp only [System.enabled, and_eq_true, decide_eq_true_eq] at henabled
    have hlt : (s.apply d .clear).left < s.left := by
      refine Prod.Lex.lt_iff.2 (.inl ?_)
      simp [System.apply, System.left, Worker.left, henabled.1]
    exact ⟨hjoining, hlt.le, fun _ => hlt⟩
  | event b =>
    rw [System.enabled, and_eq_true] at henabled
    obtain ⟨henabled, hcaller⟩ := henabled
    refine ⟨hjoining, ?_⟩
    by_cases hleave : b = .leave
    · subst hleave
      have hlooping : s.worker = .looping := by simpa [caller] using hcaller
      have hlt : (s.apply d (.event .leave)).left < s.left := by
        refine Prod.Lex.lt_iff.2 (.inl ?_)
        simp [System.apply, System.left, Worker.left, hlooping]
      exact ⟨hlt.le, fun _ => hlt⟩
    · have hsame : (s.apply d (.event b)).worker = s.worker := by simp [System.apply, hleave]
      cases hb : b.isLoop with
      | false =>
        have hphase : (s.loop.apply b).phase = s.loop.phase := by
          refine EventLoop.phase_apply hb ?_
          rintro rfl
          have hlooping : s.worker = .looping := by simpa [caller] using hcaller
          exact hi.inv.looping.2 (hi.inside.1 hlooping)
        have heq : (s.apply d (.event b)).left = s.left := by
          rw [System.left, hsame]
          simp [System.left, System.apply, hphase]
        exact ⟨heq.le, by simp [Act.isWorker, hb]⟩
      | true =>
        have hlooping : s.worker = .looping := by
          cases b <;> simp_all [caller, EventLoop.Act.isLoop]
        have hrequested := (hi.asked (.inr hjoining) hpointer).resolve_left (by simp [hlooping])
        have hending : EventLoop.Ending s.loop := ⟨hi.inv, hrequested, hi.inside.1 hlooping⟩
        have hlt : (s.apply d (.event b)).left < s.left := by
          refine Prod.Lex.lt_iff.2 (.inr ⟨congrArg Worker.left hsame, ?_⟩)
          exact EventLoop.left_apply henabled hb hending.quit.1 hending.quit.2
        exact ⟨hlt.le, fun _ => hlt⟩

theorem worker_finishes (hfair : WorkerFair t) {i : ℕ}
    (hi : ThreadInv d (t.state i)) (hjoining : (t.state i).destroyer = .joining) :
    ∃ j, i ≤ j ∧ (t.state j).destroyer = .joining ∧ (t.state j).worker = .finished := by
  by_cases hfinished : (t.state i).worker = .finished
  · exact ⟨i, le_rfl, hjoining, hfinished⟩
  · have hstep : ∀ s a s', (ThreadInv d s ∧ s.destroyer = .joining ∧ s.worker ≠ .finished) →
        ThreadStep d s a s' → (s'.destroyer = .joining ∧ s'.worker = .finished) ∨
          (ThreadInv d s' ∧ s'.destroyer = .joining ∧ s'.worker ≠ .finished) ∧ s'.left ≤ s.left ∧
            (a.isWorker = true → s'.left < s.left) := by
      rintro s a s' ⟨hi, hjoining, hworker⟩ hs
      obtain ⟨hjoining', hleft⟩ := hi.left_step hjoining hworker hs
      by_cases hfinished : s'.worker = .finished
      · exact .inl ⟨hjoining', hfinished⟩
      · exact .inr ⟨⟨hi.step hs, hjoining', hfinished⟩, hleft⟩
    refine t.eventually (H := fun a : Act τ => a.isWorker = true) (μ := System.left)
      (fun s a s' hp hs => (hstep s a s' hp hs).imp_right fun h => ⟨h.1, h.2.1⟩)
      (fun s a s' hp ha hs => (hstep s a s' hp hs).imp_right fun h => h.2.2 ha) ?_
      ⟨hi, hjoining, hfinished⟩
    intro i
    obtain ⟨j, hij, hj⟩ := hfair i
    refine ⟨j, hij, fun ⟨_, hjoining, hworker⟩ => .inr ?_⟩
    rcases hj with hj | hj | hj
    · exact absurd hj hworker
    · simp [System.held, hjoining] at hj
    · exact hj

theorem joined_of_finished (hfair : DestroyerFair t) {i : ℕ}
    (hjoining : (t.state i).destroyer = .joining) (hfinished : (t.state i).worker = .finished) :
    ∃ j, i ≤ j ∧ (t.state j).destroyer = .joined := by
  have hstep : ∀ s a s', (s.destroyer = .joining ∧ s.worker = .finished) → ThreadStep d s a s' →
      s'.destroyer = .joined ∨ (s'.destroyer = .joining ∧ s'.worker = .finished) ∧
        s'.destroyer.left ≤ s.destroyer.left := by
    rintro s a s' ⟨hjoining, hfinished⟩ ⟨henabled, rfl, -⟩
    cases a with
    | join => exact .inl rfl
    | event b =>
      simp only [System.enabled, and_eq_true] at henabled
      cases hc : caller b <;> simp [hc, hfinished] at henabled
    | _ => simp_all [System.enabled]
  have hjoin : ∀ s a s', (s.destroyer = .joining ∧ s.worker = .finished) → a.isDestroyer = true →
      ThreadStep d s a s' → s'.destroyer = .joined ∨ s'.destroyer.left < s.destroyer.left := by
    rintro s a s' ⟨hjoining, -⟩ ha ⟨henabled, rfl, -⟩
    cases a with
    | join => exact .inl rfl
    | destroyQuit | destroyWakeup => simp [System.enabled, hjoining] at henabled
    | _ => cases ha
  refine t.eventually (H := fun a : Act τ => a.isDestroyer = true) hstep hjoin ?_
    ⟨hjoining, hfinished⟩
  intro i
  obtain ⟨j, hij, hj⟩ := hfair i
  refine ⟨j, hij, fun h => .inr (hj.resolve_right fun hnone => ?_)⟩
  obtain ⟨hjoining, hfinished⟩ := h
  have := hnone .join rfl
  simp [System.enabled, hjoining, hfinished] at this

theorem destructor_joins (h0 : t.state 0 = System.init)
    (hworker : WorkerFair t) (hdestroyer : DestroyerFair t) {i : ℕ}
    (hcalled : (t.state i).destroyer ≠ .before) : ∃ j, (t.state j).destroyer = .joined := by
  have hinv : ThreadInv d (t.state i) :=
    t.always (fun _ _ _ hi hs => hi.step hs) (h0 ▸ threadInv_init) i (Nat.zero_le i)
  have hjoins : ∃ j, (t.state j).destroyer = .joined ∨
      ThreadInv d (t.state j) ∧ (t.state j).destroyer = .joining := by
    cases hd : (t.state i).destroyer with
    | before => exact absurd hd hcalled
    | joined => exact ⟨i, .inl hd⟩
    | joining => exact ⟨i, .inr ⟨hinv, hd⟩⟩
    | locked | quitting =>
      obtain ⟨j, -, hj⟩ := destroyer_joins hdestroyer hinv (by simp [System.held, hd])
      exact ⟨j, .inr hj⟩
  obtain ⟨j, hj | ⟨hinv, hj⟩⟩ := hjoins
  · exact ⟨j, hj⟩
  · obtain ⟨k, -, hjoining, hfinished⟩ := worker_finishes hworker hinv hj
    obtain ⟨l, -, hjoined⟩ := joined_of_finished hdestroyer hjoining hfinished
    exact ⟨l, hjoined⟩

/-! ## The event loop and its thread -/

/-- In every good run, functors run once each and in the order they were queued; when `Loop` has
returned, those that a thread queued before it called `Quit` have run; the loop does not wait with a
functor or a request and without a wake-up, unread or about to be written, and it is never stuck.
`Loop` returns after `Quit`, and the destructor of the thread joins it. -/
theorem event_loop_hands_over {τ : Type} [DecidableEq τ] :
    (∀ (as : List (EventLoop.Act τ)) (s : State τ), Run GoodStep State.init as s →
      (s.queued = s.ran ++ s.phase.batch ++ s.pendingFunctors ∧ s.queued.Nodup) ∧
      (s.phase = .outside → ∀ f ∈ s.owed, f ∈ s.ran) ∧
      (s.phase = .waiting → s.pendingFunctors ≠ [] ∨ s.requested = true →
        0 < s.unread ∨ ∃ c, s.writing c = true) ∧
      (s.phase ≠ .outside → s.writing .loop = false →
        ∃ a, EventLoop.Act.isLoop a = true ∧ s.enabled a = true)) ∧
    (∀ t : Trace (GoodStep (τ := τ)), t.state 0 = State.init → EventLoop.Fair t → ∀ i,
      (t.state i).requested = true → (t.state i).phase ≠ .outside →
        ∃ j, i ≤ j ∧ (t.state j).phase = .outside) ∧
    ∀ (d : τ) (t : Trace (ThreadStep d)), t.state 0 = System.init → WorkerFair t →
      DestroyerFair t → ∀ i, (t.state i).destroyer ≠ .before → ∃ j, (t.state j).destroyer = .joined := by
  refine ⟨fun as s hrun => ?_, fun t h0 hfair i hrequested hinside => ?_, fun d t h0 hw hd i hi => ?_⟩
  · have hi := EventLoop.inv_run hrun
    refine ⟨⟨hi.order, ?_⟩, ?_, ?_, EventLoop.loop_enabled⟩
    · refine List.Nodup.of_map EventLoop.Functor.serial ?_
      rw [hi.serials]
      exact List.nodup_range
    · intro hout
      exact hi.owed_ran (by simp [hout, Phase.batch]) (by simp [hout]) (by simp [hout, Phase.swaps])
    · rintro hwaiting (hpending | hrequested)
      · obtain ⟨f, hf⟩ := List.exists_mem_of_ne_nil _ hpending
        exact (hi.woken (by simp [hwaiting, Phase.swaps]) f hf).imp_right fun h => ⟨_, h⟩
      · refine hi.asked hwaiting ?_
        exact ((hi.remembered hrequested).resolve_left (by simp [hwaiting])).2
  · have hinv : Inv (t.state i) :=
      t.always (fun _ _ _ hi hs => hi.step hs) (h0 ▸ EventLoop.inv_init) i (Nat.zero_le i)
    exact EventLoop.loop_ends hfair ⟨hinv, hrequested, hinside⟩
  · exact destructor_joins h0 hw hd hi

def sampleActs : List (EventLoop.Act ℕ) :=
  [.loop, .clearQuit, .checkQuit, .queueInLoop (.other 0), .wakeup (.other 0), .quit (.other 0),
    .wakeup (.other 0), .ready [.wakeup], .handleEvent, .callPending, .swap, .functorReturns,
    .callPendingDone, .dropped, .checkQuit, .leave]

theorem sampleActs_good : ∀ n : Fin sampleActs.length,
    ((sampleActs.take n).foldl State.apply State.init).enabled sampleActs[n] = true ∧
      Good ((sampleActs.take n).foldl State.apply State.init) sampleActs[n] := by decide

def sampleTrace : Trace (GoodStep (τ := ℕ)) :=
  .ofList State.apply State.init sampleActs fun n l hl => by
    obtain ⟨hn, rfl⟩ := List.getElem?_eq_some_iff.1 hl
    have hgood := sampleActs_good ⟨n, hn⟩
    exact ⟨⟨hgood.1, rfl⟩, hgood.2⟩

def sampleThreadActs : List (Act ℕ) :=
  [.publish, .enter, .event .clearQuit, .event .checkQuit, .destroy, .destroyQuit, .destroyWakeup,
    .event (.ready [.wakeup]), .event .handleEvent, .event .callPending, .event .swap,
    .event .callPendingDone, .event .dropped, .event .checkQuit, .event .leave, .clear, .join]

theorem sampleThreadActs_good : ∀ n : Fin sampleThreadActs.length,
    ((sampleThreadActs.take n).foldl (System.apply 0) System.init).enabled 0 sampleThreadActs[n] =
      true ∧
    ((loopAct 0 ((sampleThreadActs.take n).foldl (System.apply 0) System.init)
      sampleThreadActs[n]).all fun b =>
        Good ((sampleThreadActs.take n).foldl (System.apply 0) System.init).loop b) = true := by
  decide

def sampleThreadTrace : Trace (ThreadStep (0 : ℕ)) :=
  .ofList (System.apply 0) System.init sampleThreadActs fun n l hl => by
    obtain ⟨hn, rfl⟩ := List.getElem?_eq_some_iff.1 hl
    have hgood := sampleThreadActs_good ⟨n, hn⟩
    refine ⟨hgood.1, rfl, fun b hb => ?_⟩
    have hb' := hgood.2
    simp only [Fin.getElem_fin] at hb'
    rw [hb] at hb'
    simpa using hb'

theorem event_loop_hands_over_sample :
    (∃ as s, Run (GoodStep (τ := ℕ)) State.init as s ∧ s.owed = [⟨.other 0, 0⟩] ∧
      ∀ f ∈ s.owed, f ∈ s.ran) ∧
    ((sampleTrace.state 6).requested = true ∧ ∃ j, 6 ≤ j ∧ (sampleTrace.state j).phase = .outside) ∧
    (sampleThreadTrace.state 5).destroyer = .locked ∧
      ∃ j, (sampleThreadTrace.state j).destroyer = .joined := by
  have hlate : ∀ i, (sampleTrace.state (i + 16)).phase = .outside := by
    intro i
    have htake : sampleActs.take (i + 16) = sampleActs := List.take_of_length_le (by simp [sampleActs])
    change ((sampleActs.take (i + 16)).foldl State.apply State.init).phase = .outside
    rw [htake]
    decide
  have hthread : ∀ i, sampleThreadTrace.state (i + 17) =
      sampleThreadActs.foldl (System.apply 0) System.init := by
    intro i
    have htake : sampleThreadActs.take (i + 17) = sampleThreadActs :=
      List.take_of_length_le (by simp [sampleThreadActs])
    change (sampleThreadActs.take (i + 17)).foldl (System.apply 0) System.init = _
    rw [htake]
  refine ⟨⟨_, _, sampleTrace.run 16, rfl, ?_⟩, ⟨rfl, ?_⟩, rfl, ?_⟩
  · exact ((event_loop_hands_over (τ := ℕ)).1 _ _ (sampleTrace.run 16)).2.1 rfl
  · refine (event_loop_hands_over (τ := ℕ)).2.1 sampleTrace rfl ?_ 6 rfl (by decide)
    exact fun i => ⟨i + 16, by omega, .inl (hlate i)⟩
  · refine (event_loop_hands_over (τ := ℕ)).2.2 0 sampleThreadTrace rfl ?_ ?_ 5 (by decide)
    · refine fun i => ⟨i + 17, by omega, .inl ?_⟩
      rw [hthread]
      decide
    · refine fun i => ⟨i + 17, by omega, .inr fun a ha => ?_⟩
      rw [hthread]
      cases a with
      | destroyQuit | destroyWakeup | join => decide
      | _ => cases ha

theorem exists_run (as : List (EventLoop.Act ℕ)) (h : ∀ n : Fin as.length,
    ((as.take n).foldl State.apply State.init).enabled as[n] = true) :
    ∃ bs, Run EventLoop.Step (State.init : State ℕ) bs (as.foldl State.apply State.init) := by
  let t : Trace (EventLoop.Step (τ := ℕ)) := .ofList State.apply State.init as fun n l hl => by
    obtain ⟨hn, rfl⟩ := List.getElem?_eq_some_iff.1 hl
    exact ⟨h ⟨n, hn⟩, rfl⟩
  have hrun := t.run as.length
  have hlast : t.state as.length = as.foldl State.apply State.init := by
    show (as.take as.length).foldl State.apply State.init = _
    rw [List.take_length]
  exact ⟨_, hlast ▸ hrun⟩

/-- A thread queues a functor after the last swap and then calls `Quit`: `Loop` returns without it.
The loop thread queues a functor before it calls `Loop`: the loop waits without a wake-up.  `Quit` is
called before `Loop` clears the flag: the loop waits, and nothing is left to stop it. -/
theorem functors_and_requests_lost :
    (∃ as s, Run EventLoop.Step (State.init : State ℕ) as s ∧ s.phase = .outside ∧
      ∃ f ∈ s.owed, f ∉ s.ran) ∧
    (∃ as s, Run EventLoop.Step (State.init : State ℕ) as s ∧ s.phase = .waiting ∧
      s.pendingFunctors ≠ [] ∧ s.unread = 0 ∧ ∀ c, s.writing c = false) ∧
    ∃ as s, Run EventLoop.Step (State.init : State ℕ) as s ∧ s.phase = .waiting ∧
      s.requested = true ∧ s.quit = false ∧ s.unread = 0 ∧ ∀ c, s.writing c = false := by
  obtain ⟨as₁, h₁⟩ := exists_run [.loop, .clearQuit, .checkQuit, .ready [.channel], .handleEvent,
    .callPending, .swap, .queueInLoop (.other 0), .wakeup (.other 0), .quit (.other 0),
    .wakeup (.other 0), .callPendingDone, .dropped, .checkQuit, .leave] (by decide)
  obtain ⟨as₂, h₂⟩ := exists_run [.queueInLoop .loop, .loop, .clearQuit, .checkQuit] (by decide)
  obtain ⟨as₃, h₃⟩ := exists_run [.quit (.other 0), .wakeup (.other 0), .loop, .clearQuit, .checkQuit,
    .ready [.wakeup], .handleEvent, .callPending, .swap, .callPendingDone, .dropped, .checkQuit]
    (by decide)
  refine ⟨⟨as₁, _, h₁, rfl, ⟨.other 0, 0⟩, by decide, by decide⟩,
    ⟨as₂, _, h₂, rfl, by decide, rfl, fun c => ?_⟩, as₃, _, h₃, rfl, rfl, rfl, rfl, fun c => ?_⟩
  · cases c with
    | loop => rfl
    | other t => rfl
  · cases c with
    | loop => rfl
    | other t => cases t <;> rfl

end TinyImx.Net.EventLoopThread
