import Mathlib.Data.List.Nodup
import Mathlib.Data.List.Range
import Mathlib.Data.Prod.Lex
import TinyImx.Lib.Trace
import TinyImx.Net.EventLoop

/-!
# What holds in every run of the event loop

The functors that have run, those that the loop has taken and those in the queue are the functors
that were queued, in that order; this holds in every run.  A functor in a queue that the loop will
not swap before it waits has a wake-up, unread or about to be written, and a functor that is owed to
a thread that called `Quit` is on its way: these need good steps.  From there a requested quit is
counted down by every step of `Loop`.
-/

namespace TinyImx.Net.EventLoop

variable {τ : Type} [DecidableEq τ] {s s' : State τ} {a : Act τ} {c : Caller τ}

structure Inv (s : State τ) : Prop where
  order : s.queued = s.ran ++ s.phase.batch ++ s.pendingFunctors
  serials : s.queued.map Functor.serial = List.range s.queued.length
  calling : s.callingPendingFunctors = true ↔ s.phase = .draining ∨ ∃ fs, s.phase = .running fs
  looping : s.looping = true ↔ s.phase ≠ .outside
  woken : s.phase.swaps = false → ∀ f ∈ s.pendingFunctors, 0 < s.unread ∨ s.writing f.caller = true
  asked : s.phase = .waiting → s.quit = true → 0 < s.unread ∨ ∃ c, s.writing c = true
  remembered : s.requested = true → s.phase = .outside ∨ s.phase ≠ .entered ∧ s.quit = true
  owed : ∀ f ∈ s.owed, f ∈ s.ran ∨ f ∈ s.phase.batch ∨
    f ∈ s.pendingFunctors ∧ (s.phase = .waiting ∧ 0 < s.unread ∨ s.phase.swaps = true)

omit [DecidableEq τ] in
theorem inv_init : Inv (State.init : State τ) := by
  constructor <;> simp [State.init, Phase.batch]

omit [DecidableEq τ] in
theorem writing_of_free (h : s.free c = true) : s.writing c = false := by
  cases c with
  | loop =>
    rw [State.free, Bool.and_eq_true] at h
    simpa using h.1
  | other t => simpa [State.free] using h

omit [DecidableEq τ] in
theorem userCode_of_free (h : s.free .loop = true) : s.phase.userCode = true := by
  rw [State.free, Bool.and_eq_true] at h
  exact h.2

theorem writing_update {b : Bool} {c' : Caller τ} (hfree : s.writing c = false)
    (h : s.writing c' = true) : Function.update s.writing c b c' = true := by
  have hne : c' ≠ c := by
    grind
  rwa [Function.update_of_ne hne]

/-! ## Calls -/

theorem Inv.push (hi : Inv s) (hfree : s.free c = true)
    (hgood : c = .loop → s.phase ≠ .outside ∧ s.phase ≠ .dropping) : Inv (s.push c) := by
  have hwriting := writing_of_free hfree
  constructor
  · simp [State.push, hi.order]
  · simp [State.push, hi.serials, List.range_succ]
  · exact hi.calling
  · exact hi.looping
  · intro hswaps f hf
    rcases List.mem_append.1 hf with hf | hf
    · exact (hi.woken hswaps f hf).imp_right fun h => writing_update hwriting h
    · rw [List.mem_singleton.1 hf]
      right
      cases c with
      | other t => simp [State.push]
      | loop =>
        -- the loop thread queues while it runs functors, and then wakes itself
        have huser := userCode_of_free hfree
        have hcalling : s.callingPendingFunctors = true := by
          refine hi.calling.2 ?_
          change s.phase.swaps = false at hswaps
          cases hphase : s.phase <;> simp_all [Phase.swaps, Phase.userCode]
        simp [State.push, hcalling]
  · intro hwaiting hquit
    exact (hi.asked hwaiting hquit).imp_right fun ⟨c', h⟩ => ⟨c', writing_update hwriting h⟩
  · exact hi.remembered
  · intro f hf
    refine (hi.owed f hf).imp_right (Or.imp_right fun ⟨hpending, h⟩ => ⟨?_, h⟩)
    exact List.mem_append_left _ hpending

theorem Inv.storeQuit (hi : Inv s) (hfree : s.free c = true) (hentered : s.phase ≠ .entered)
    (hgood : (∃ f ∈ s.pendingFunctors, f.caller = c) → s.phase = .waiting ∨ s.phase.swaps = true) :
    Inv (s.storeQuit c) := by
  have hwriting := writing_of_free hfree
  have hlater : ∀ f ∈ s.pendingFunctors, s.phase.swaps = false → 0 < s.unread ∨
      Function.update s.writing c (c ≠ .loop) f.caller = true := fun f hf hswaps =>
    (hi.woken hswaps f hf).imp_right fun h => writing_update hwriting h
  constructor
  · exact hi.order
  · exact hi.serials
  · exact hi.calling
  · exact hi.looping
  · exact fun hswaps f hf => hlater f hf hswaps
  · intro hwaiting _
    right
    cases c with
    | other t => exact ⟨.other t, by simp [State.storeQuit]⟩
    | loop =>
      have huser := userCode_of_free hfree
      change s.phase = .waiting at hwaiting
      rw [hwaiting] at huser
      cases huser
  · exact fun _ => .inr ⟨hentered, rfl⟩
  · intro f hf
    rcases List.mem_append.1 hf with hf | hf
    · exact hi.owed f hf
    · obtain ⟨hqueued, hcaller⟩ := List.mem_filter.1 hf
      have hcaller : f.caller = c := by simpa using hcaller
      rw [hi.order, List.append_assoc, List.mem_append, List.mem_append] at hqueued
      refine hqueued.imp_right (Or.imp_right fun hpending => ⟨hpending, ?_⟩)
      refine (hgood ⟨f, hpending, hcaller⟩).imp_left fun hwaiting => ⟨hwaiting, ?_⟩
      change s.phase = .waiting at hwaiting
      have hswaps : s.phase.swaps = false := by rw [hwaiting]; rfl
      refine (hi.woken hswaps f hpending).resolve_right ?_
      rw [hcaller, hwriting]
      simp

omit [DecidableEq τ] in
theorem kMaxUnread_pos : 0 < State.kMaxUnread := by decide

theorem unread_write (s : State τ) (c : Caller τ) : 0 < (s.write c).unread := by
  have hmax := kMaxUnread_pos
  simp only [State.write]
  split <;> omega

theorem Inv.write (hi : Inv s) : Inv (s.write c) := by
  have hunread := unread_write s c
  constructor
  · exact hi.order
  · exact hi.serials
  · exact hi.calling
  · exact hi.looping
  · exact fun _ _ _ => .inl hunread
  · exact fun _ _ => .inl hunread
  · exact hi.remembered
  · intro f hf
    refine (hi.owed f hf).imp_right (Or.imp_right (And.imp_right ?_))
    exact Or.imp_left fun h => ⟨h.1, hunread⟩

/-! ## The steps of `Loop` -/

omit [DecidableEq τ] in
theorem Inv.owed_ran (hi : Inv s) (hbatch : s.phase.batch = []) (hwaiting : s.phase ≠ .waiting)
    (hswaps : s.phase.swaps = false) : ∀ f ∈ s.owed, f ∈ s.ran := by
  intro f hf
  rcases hi.owed f hf with hran | hrunning | ⟨-, h | h⟩
  · exact hran
  · rw [hbatch] at hrunning
    cases hrunning
  · exact absurd h.1 hwaiting
  · rw [hswaps] at h
    cases h

omit [DecidableEq τ] in
theorem Inv.clearQuit (hi : Inv s) (h : s.phase = .entered) :
    Inv { s with quit := false, phase := .check } := by
  obtain ⟨order, serials, calling, looping, woken, asked, remembered, owed⟩ := hi
  rw [h] at order calling looping woken remembered owed
  constructor
  all_goals simp_all [Phase.batch, Phase.swaps]

omit [DecidableEq τ] in
theorem Inv.checkQuit (hi : Inv s) (h : s.phase = .check) :
    Inv { s with phase := if s.quit then .leaving else .waiting } := by
  obtain ⟨order, serials, calling, looping, woken, asked, remembered, owed⟩ := hi
  rw [h] at order calling looping woken remembered owed
  cases hquit : s.quit
  all_goals
    constructor
    all_goals simp_all [Phase.batch, Phase.swaps]

omit [DecidableEq τ] in
theorem Inv.interrupted (hi : Inv s) (h : s.phase = .waiting) (hunread : s.unread = 0) :
    Inv { s with phase := .check } := by
  obtain ⟨order, serials, calling, looping, woken, asked, remembered, owed⟩ := hi
  rw [h] at order calling looping woken remembered owed
  constructor
  all_goals simp_all [Phase.batch, Phase.swaps]

omit [DecidableEq τ] in
theorem Inv.ready (hi : Inv s) (h : s.phase = .waiting) (events : List Event) :
    Inv { s with phase := .handling events } := by
  obtain ⟨order, serials, calling, looping, woken, asked, remembered, owed⟩ := hi
  rw [h] at order calling looping woken remembered owed
  constructor
  all_goals simp_all [Phase.batch, Phase.swaps]
  intro f hf
  rcases owed f hf with hran | ⟨hpending, -⟩
  · exact .inl hran
  · exact .inr hpending

omit [DecidableEq τ] in
theorem Inv.handleEvent (hi : Inv s) {events events' : List Event} (h : s.phase = .handling events)
    (n : ℕ) : Inv { s with unread := n, phase := .handling events' } := by
  obtain ⟨order, serials, calling, looping, woken, asked, remembered, owed⟩ := hi
  rw [h] at order calling looping woken remembered owed
  constructor
  all_goals simp_all [Phase.batch, Phase.swaps]

omit [DecidableEq τ] in
theorem Inv.callPending (hi : Inv s) (h : s.phase = .handling []) :
    Inv { s with callingPendingFunctors := true, phase := .draining } := by
  obtain ⟨order, serials, calling, looping, woken, asked, remembered, owed⟩ := hi
  rw [h] at order calling looping woken remembered owed
  constructor
  all_goals simp_all [Phase.batch, Phase.swaps]

omit [DecidableEq τ] in
theorem Inv.swap (hi : Inv s) (h : s.phase = .draining) :
    Inv { s with pendingFunctors := [], phase := .running s.pendingFunctors } := by
  obtain ⟨order, serials, calling, looping, woken, asked, remembered, owed⟩ := hi
  rw [h] at order calling looping woken remembered owed
  constructor
  all_goals simp_all [Phase.batch, Phase.swaps]

omit [DecidableEq τ] in
theorem Inv.functorReturns (hi : Inv s) {f : Functor τ} {functors : List (Functor τ)}
    (h : s.phase = .running (f :: functors)) :
    Inv { s with ran := s.ran ++ [f], phase := .running functors } := by
  obtain ⟨order, serials, calling, looping, woken, asked, remembered, owed⟩ := hi
  rw [h] at order calling looping woken remembered owed
  constructor
  all_goals simp_all [Phase.batch, Phase.swaps, or_assoc]

omit [DecidableEq τ] in
theorem Inv.callPendingDone (hi : Inv s) (h : s.phase = .running []) :
    Inv { s with callingPendingFunctors := false, phase := .dropping } := by
  obtain ⟨order, serials, calling, looping, woken, asked, remembered, owed⟩ := hi
  rw [h] at order calling looping woken remembered owed
  constructor
  all_goals simp_all [Phase.batch, Phase.swaps]

omit [DecidableEq τ] in
theorem Inv.dropped (hi : Inv s) (h : s.phase = .dropping) : Inv { s with phase := .check } := by
  obtain ⟨order, serials, calling, looping, woken, asked, remembered, owed⟩ := hi
  rw [h] at order calling looping woken remembered owed
  constructor
  all_goals simp_all [Phase.batch, Phase.swaps]

omit [DecidableEq τ] in
theorem Inv.leave (hi : Inv s) (h : s.phase = .leaving) :
    Inv { s with looping := false, phase := .outside, requested := false } := by
  obtain ⟨order, serials, calling, looping, woken, asked, remembered, owed⟩ := hi
  rw [h] at order calling looping woken remembered owed
  constructor
  all_goals simp_all [Phase.batch, Phase.swaps]

omit [DecidableEq τ] in
theorem Inv.enter (hi : Inv s) (h : s.phase = .outside) (hrequested : s.requested = false) :
    Inv { s with looping := true, phase := .entered } := by
  obtain ⟨order, serials, calling, looping, woken, asked, remembered, owed⟩ := hi
  rw [h] at order calling looping woken remembered owed
  constructor
  all_goals simp_all [Phase.batch, Phase.swaps]

/-- A good step keeps the invariant. -/
theorem Inv.step (hi : Inv s) (h : GoodStep s a s') : Inv s' := by
  obtain ⟨⟨henabled, rfl⟩, hgood⟩ := h
  cases a with
  | queueInLoop c =>
    refine hi.push henabled ?_
    rintro rfl
    exact hgood
  | runInLoop c =>
    cases c with
    | loop =>
      exact ⟨hi.order, hi.serials, hi.calling, hi.looping, hi.woken, hi.asked, hi.remembered, hi.owed⟩
    | other t => exact hi.push henabled (by simp)
  | quit c => exact hi.storeQuit henabled hgood.1 hgood.2
  | wakeup c => exact hi.write
  | loop =>
    rw [State.apply]
    split
    · exact hi
    · next hlooping =>
      have hlooping : s.looping = false := by simpa using hlooping
      refine hi.enter ?_ (hgood hlooping)
      by_contra hout
      rw [hi.looping.2 hout] at hlooping
      cases hlooping
  | clearQuit => exact hi.clearQuit (by simpa using (Bool.and_eq_true_iff.1 henabled).2)
  | checkQuit => exact hi.checkQuit (by simpa using (Bool.and_eq_true_iff.1 henabled).2)
  | interrupted =>
    simp only [State.enabled, Bool.and_eq_true, decide_eq_true_eq] at henabled
    exact hi.interrupted henabled.1.2 henabled.2
  | ready events =>
    simp only [State.enabled, Bool.and_eq_true, decide_eq_true_eq] at henabled
    exact hi.ready henabled.1.2 events
  | handleEvent =>
    simp only [State.apply]
    split
    · next h => exact hi.handleEvent h 0
    · next h => exact hi.handleEvent h s.unread
    · exact hi
  | callPending => exact hi.callPending (by simpa using (Bool.and_eq_true_iff.1 henabled).2)
  | swap => exact hi.swap (by simpa using (Bool.and_eq_true_iff.1 henabled).2)
  | functorReturns =>
    simp only [State.apply]
    split
    · next h => exact hi.functorReturns h
    · exact hi
  | callPendingDone => exact hi.callPendingDone (by simpa using (Bool.and_eq_true_iff.1 henabled).2)
  | dropped => exact hi.dropped (by simpa using (Bool.and_eq_true_iff.1 henabled).2)
  | leave => exact hi.leave (by simpa using (Bool.and_eq_true_iff.1 henabled).2)

theorem inv_run {as : List (Act τ)} (h : Run GoodStep State.init as s) : Inv s :=
  h.invariant (fun _ _ _ hi hs => hi.step hs) inv_init

/-! ## The end of `Loop` -/

def Phase.left : Phase τ → ℕ ×ₗ ℕ
  | .outside => toLex (0, 0)
  | .leaving => toLex (1, 0)
  | .check => toLex (2, 0)
  | .dropping => toLex (3, 0)
  | .running functors => toLex (4, functors.length)
  | .draining => toLex (5, 0)
  | .handling events => toLex (6, events.length)
  | .waiting => toLex (7, 0)
  | .entered => toLex (8, 0)

/-- `Loop` is running, and was asked to stop. -/
structure Ending (s : State τ) : Prop where
  inv : Inv s
  requested : s.requested = true
  inside : s.phase ≠ .outside

omit [DecidableEq τ] in
theorem Ending.quit (h : Ending s) : s.phase ≠ .entered ∧ s.quit = true :=
  (h.inv.remembered h.requested).resolve_left h.inside

omit [DecidableEq τ] in
theorem Phase.left_lt {p q : Phase τ} (h : (ofLex p.left).1 < (ofLex q.left).1) : p.left < q.left :=
  Prod.Lex.lt_iff.2 (.inl h)

theorem phase_apply (ha : a.isLoop = false) (hlooping : a = .loop → s.looping = true) :
    (s.apply a).phase = s.phase := by
  cases a with
  | loop => simp [State.apply, hlooping rfl]
  | runInLoop c => cases c <;> rfl
  | queueInLoop c | quit c | wakeup c => rfl
  | _ => cases ha

theorem requested_apply (ha : a ≠ .leave) (h : s.requested = true) :
    (s.apply a).requested = true := by
  cases a with
  | leave => exact absurd rfl ha
  | quit c => rfl
  | runInLoop c => cases c <;> exact h
  | loop | handleEvent | functorReturns =>
    rw [State.apply]
    split <;> exact h
  | _ => exact h

theorem left_apply (henabled : s.enabled a = true) (ha : a.isLoop = true)
    (hentered : s.phase ≠ .entered) (hquit : s.quit = true) :
    (s.apply a).phase.left < s.phase.left := by
  have hphase : ∀ {p : Phase τ}, (!s.writing .loop && s.phase = p) = true → s.phase = p :=
    fun h => by simpa using (Bool.and_eq_true_iff.1 h).2
  cases a with
  | queueInLoop c | runInLoop c | quit c | wakeup c | loop => cases ha
  | clearQuit => exact absurd (hphase henabled) hentered
  | checkQuit =>
    refine Phase.left_lt ?_
    simp [hphase henabled, State.apply, hquit, Phase.left]
  | interrupted | ready events =>
    refine Phase.left_lt ?_
    simp only [State.enabled, Bool.and_eq_true, decide_eq_true_eq] at henabled
    simp [henabled.1.2, Phase.left, State.apply]
  | handleEvent =>
    simp only [State.enabled, Bool.and_eq_true] at henabled
    cases hp : s.phase with
    | handling events =>
      match events with
      | [] => simp [hp] at henabled
      | .wakeup :: events | .channel :: events =>
        simp only [State.apply, hp]
        exact Prod.Lex.lt_iff.2 (.inr ⟨rfl, Nat.lt_succ_self _⟩)
    | _ => simp [hp] at henabled
  | functorReturns =>
    simp only [State.enabled, Bool.and_eq_true] at henabled
    cases hp : s.phase with
    | running functors =>
      match functors with
      | [] => simp [hp] at henabled
      | f :: functors =>
        simp only [State.apply, hp]
        exact Prod.Lex.lt_iff.2 (.inr ⟨rfl, Nat.lt_succ_self _⟩)
    | _ => simp [hp] at henabled
  | callPending | swap | callPendingDone | dropped | leave =>
    refine Phase.left_lt ?_
    simp [hphase henabled, Phase.left, State.apply]

theorem Ending.step (he : Ending s) (h : GoodStep s a s') : s'.phase = .outside ∨ Ending s' ∧
    s'.phase.left ≤ s.phase.left ∧ (a.isLoop = true → s'.phase.left < s.phase.left) := by
  have hinv := he.inv.step h
  obtain ⟨⟨henabled, rfl⟩, -⟩ := h
  by_cases hout : (s.apply a).phase = .outside
  · exact .inl hout
  · have hleave : a ≠ .leave := by
      rintro rfl
      exact hout rfl
    have hrequested := requested_apply hleave he.requested
    refine .inr ⟨⟨hinv, hrequested, hout⟩, ?_⟩
    cases ha : a.isLoop with
    | false =>
      rw [phase_apply ha fun _ => he.inv.looping.2 he.inside]
      exact ⟨le_rfl, by simp⟩
    | true =>
      have hlt := left_apply henabled ha he.quit.1 he.quit.2
      exact ⟨hlt.le, fun _ => hlt⟩

/-- The loop thread keeps taking the steps of `Loop`: its handlers and functors return. -/
def Fair (t : Trace (GoodStep (τ := τ))) : Prop :=
  ∀ i, ∃ j, i ≤ j ∧ ((t.state j).phase = .outside ∨ ∃ a, t.label j = some a ∧ a.isLoop = true)

theorem loop_ends {t : Trace (GoodStep (τ := τ))} (hfair : Fair t) {i : ℕ}
    (h : Ending (t.state i)) : ∃ j, i ≤ j ∧ (t.state j).phase = .outside := by
  refine t.eventually (P := Ending) (Q := fun s => s.phase = .outside)
    (H := fun a : Act τ => a.isLoop = true) (μ := fun s => s.phase.left) ?_ ?_
    (fun i => (hfair i).imp fun _ => And.imp_right fun h _ => h) h
  · intro s a s' he hs
    exact (he.step hs).imp_right fun h => ⟨h.1, h.2.1⟩
  · intro s a s' he ha hs
    exact (he.step hs).imp_right fun h => h.2.2 ha

theorem loop_enabled (hinside : s.phase ≠ .outside) (hwriting : s.writing .loop = false) :
    ∃ a, a.isLoop = true ∧ s.enabled a = true := by
  cases hp : s.phase with
  | outside => exact absurd hp hinside
  | entered => exact ⟨.clearQuit, rfl, by simp [State.enabled, hp, hwriting]⟩
  | check => exact ⟨.checkQuit, rfl, by simp [State.enabled, hp, hwriting]⟩
  | waiting =>
    by_cases hunread : s.unread = 0
    · exact ⟨.ready [], rfl, by simp [State.enabled, hp, hwriting, hunread]⟩
    · exact ⟨.ready [.wakeup], rfl, by simp [State.enabled, hp, hwriting, hunread]⟩
  | handling events =>
    cases events with
    | nil => exact ⟨.callPending, rfl, by simp [State.enabled, hp, hwriting]⟩
    | cons e events => exact ⟨.handleEvent, rfl, by simp [State.enabled, hp, hwriting]⟩
  | draining => exact ⟨.swap, rfl, by simp [State.enabled, hp, hwriting]⟩
  | running functors =>
    cases functors with
    | nil => exact ⟨.callPendingDone, rfl, by simp [State.enabled, hp, hwriting]⟩
    | cons f functors => exact ⟨.functorReturns, rfl, by simp [State.enabled, hp, hwriting]⟩
  | dropping => exact ⟨.dropped, rfl, by simp [State.enabled, hp, hwriting]⟩
  | leaving => exact ⟨.leave, rfl, by simp [State.enabled, hp, hwriting]⟩

end TinyImx.Net.EventLoop
