import Mathlib.Tactic.Abel
import TinyImx.Gateway.Executor
import TinyImx.Lib.Custody

/-!
# Who owns a lane and who holds a task

A lane that runs is owned once: by the `Submit` that has to schedule its drainer, by a drainer in the
pool's queue or at work, or by an async task.  A task with a pending slot is held once: in its lane, in
the pool's queue, by a thread or by the closures of an async task.
-/

namespace TinyImx.Gateway.Executor

variable (o : Options) {s s' : State}

/-! ## Lanes -/

def Place.lane : Place → Option Lane
  | drain l | complete _ l | post l _ => some l
  | handover t _ => o.lane t
  | rest _ => none

def Thread.lane : Thread → Option Lane
  | «at» p | dispatch _ p | terminal _ p | count _ _ p | release _ p => p.lane o
  | exec _ back | working _ back => back
  | _ => none

def Job.lane : Job → Option Lane
  | drain l => some l
  | _ => none

def State.admissionLane (s : State) : Option Lane :=
  match s.admission with
  | some (t, .schedule) | some (t, .unwind) => o.lane t
  | _ => none

def State.laneHolders (s : State) : Multiset Lane :=
  tokensOf Job.lane ↑s.jobs + tokensOf o.lane s.suspended + (s.admissionLane o).tokens + s.lost

def Place.Fine : Place → Prop
  | complete t l => o.lane t = some l
  | _ => True

def Thread.Fine : Thread → Prop
  | «at» p | dispatch _ p | terminal _ p | count _ _ p | release _ p => p.Fine o
  | exec t back | working t back => back = o.lane t
  | _ => True

variable {o}

@[simp] theorem after_lane (t : Task) (back : Option Lane) : (after t back).lane o = back := by
  rcases back with _ | (i | ⟨i, k⟩) <;> rfl

@[simp] theorem State.mark_laneHolders (m : Mark) (back : Option Lane) (t : Task) :
    (s.mark m back t).laneHolders o = s.laneHolders o := by
  cases back <;> rfl

@[simp] theorem State.mark_running (m : Mark) (back : Option Lane) (t : Task) :
    (s.mark m back t).running = s.running := by
  cases back <;> rfl

theorem State.laneHolders_suspend (t : Task) :
    (s.suspend t).laneHolders o = (o.lane t).tokens + s.laneHolders o := by
  simp only [State.laneHolders, State.admissionLane, State.suspend, tokensOf_cons]
  abel

theorem State.laneHolders_erase {t : Task} (h : t ∈ s.suspended) :
    s.laneHolders o =
      (o.lane t).tokens + { s with suspended := s.suspended.erase t }.laneHolders o := by
  rw [← State.laneHolders_suspend]
  simp only [State.suspend, Multiset.cons_erase h]

theorem State.laneHolders_push (j : Job) :
    (s.push j).laneHolders o = j.lane.tokens + s.laneHolders o := by
  simp only [State.laneHolders, State.admissionLane, State.push, tokensOf_coe_append,
    tokensOf_coe_cons, tokensOf_nil]
  abel

theorem State.laneHolders_pop {j : Job} {jobs : List Job} (h : s.jobs = j :: jobs) :
    s.laneHolders o = j.lane.tokens + { s with jobs := jobs }.laneHolders o := by
  simp only [State.laneHolders, State.admissionLane, h, tokensOf_coe_cons]
  abel

theorem State.laneHolders_lose (l : Lane) :
    { s with lost := l ::ₘ s.lost }.laneHolders o = l ::ₘ s.laneHolders o := by
  simp only [State.laneHolders, State.admissionLane, ← Multiset.singleton_add]
  abel

theorem Admit.lanes (h : Admit o s s') {rest : Multiset Lane}
    (hc : Custody (rest + s.laneHolders o) s.running) :
    Custody (rest + s'.laneHolders o) s'.running := by
  cases h with
  | unordered hadm _ _ | unorderedFull hadm _ _ | hotStripe hadm _ _ | joinStripe hadm _ _ _
  | hotKey hadm _ | joinKey hadm _ _ _ | scheduleFull hadm _ | reject hadm | accept hadm =>
    simpa [State.laneHolders, State.admissionLane, hadm, State.push, State.enqueue, State.takeSlot,
      Job.lane] using hc
  | openStripe hadm hl _ hnew | openKey hadm hl _ hnew =>
    refine (hc.take hnew).of_eq ?_
    simp only [State.laneHolders, State.admissionLane, hadm, hl, Option.tokens_some,
      Option.tokens_none, State.enqueue, State.takeSlot, ← Multiset.singleton_add]
    abel
  | schedule hadm hl _ =>
    refine hc.of_eq ?_
    simp only [State.laneHolders, State.admissionLane, hadm, hl, Option.tokens_some,
      Option.tokens_none, State.push, tokensOf_coe_append, tokensOf_coe_cons, tokensOf_nil, Job.lane]
    abel
  | unwindStripe hadm hl | unwindKey hadm hl =>
    refine Custody.give (hc.of_eq ?_)
    simp only [State.laneHolders, State.admissionLane, hadm, hl, Option.tokens_some,
      Option.tokens_none, State.retire, State.giveSlot, ← Multiset.singleton_add]
    abel

theorem Call.lanes {new : Multiset Thread} (h : Call o s s' new) {rest : Multiset Lane}
    (hc : Custody (rest + s.laneHolders o) s.running) :
    Custody (rest + s'.laneHolders o) s'.running ∧ tokensOf (Thread.lane o) new = 0 := by
  cases h with
  | submit _ hadm _ _ | beginDrain hadm =>
    exact ⟨by simpa [State.laneHolders, State.admissionLane, hadm] using hc, rfl⟩
  | refuse => exact ⟨hc, rfl⟩
  | enter ha => exact ⟨ha.lanes hc, rfl⟩
  | post _ | done outcome => exact ⟨hc, rfl⟩

/-- A step keeps the lanes that run owned once each. -/
theorem Act.lanes {t : Thread} {new : Multiset Thread} (h : Act o s t s' new) (ht : t.Fine o)
    {rest : Multiset Lane}
    (hc : Custody ((t.lane o).tokens + rest + s.laneHolders o) s.running) :
    Custody (tokensOf (Thread.lane o) new + rest + s'.laneHolders o) s'.running := by
  cases h with
  | call hcall =>
    obtain ⟨hc', hnew⟩ := hcall.lanes hc
    simpa [hnew, Thread.lane] using hc'
  | popTask hjobs | popResume hjobs _ | popStale hjobs _ | popDrain hjobs =>
    refine hc.of_eq ?_
    rw [State.laneHolders_pop hjobs]
    simp only [Thread.lane, Place.lane, Job.lane, tokensOf_singleton, Option.tokens_none,
      Option.tokens_some]
    abel
  | drainEmpty _ =>
    refine Custody.give (hc.of_eq ?_)
    simp [Thread.lane, Place.lane, State.laneHolders, State.admissionLane, State.retire]
  | @probeThrow t back counted _ =>
    refine hc.of_eq ?_
    cases back with
    | none => simp [Thread.lane, Place.lane, State.laneHolders, State.admissionLane]
    | some l =>
      simp only [Thread.lane, Place.lane, State.laneHolders, State.admissionLane, Option.elim,
        tokensOf_singleton, Option.tokens_none, Option.tokens_some, ← Multiset.singleton_add]
      abel
  | @asyncWork t back _ =>
    have hback : back = o.lane t := ht
    rw [State.mark_running, State.mark_laneHolders, State.laneHolders_suspend]
    refine hc.of_eq ?_
    simp only [Thread.lane, tokensOf_singleton, Option.tokens_none, hback]
    abel
  | finishError hmem | finishEmpty hmem | finishDone hmem =>
    refine hc.of_eq ?_
    rw [State.laneHolders_erase hmem]
    simp only [Thread.lane, Place.lane, tokensOf_singleton, Option.tokens_none]
    abel
  | completeThrow _ | postFull _ =>
    refine hc.of_eq ?_
    rw [State.laneHolders_lose]
    simp only [Thread.lane, Place.lane, tokensOf_singleton, Option.tokens_none, Option.tokens_some,
      ← Multiset.singleton_add]
    abel
  | handoverFull hl _ | handoverThrow hl _ =>
    refine hc.of_eq ?_
    rw [State.laneHolders_lose]
    simp only [Thread.lane, Place.lane, tokensOf_singleton, Option.tokens_none, Option.tokens_some,
      ← Multiset.singleton_add, hl]
    abel
  | completeEmpty _ _ _ =>
    refine Custody.give (hc.of_eq ?_)
    simp [Thread.lane, Place.lane, State.laneHolders, State.admissionLane, State.retire, State.giveSlot]
  | handoverEmpty hl _ _ _ =>
    refine Custody.give (hc.of_eq ?_)
    simp [Thread.lane, Place.lane, State.laneHolders, State.admissionLane, State.retire,
      State.giveSlot, hl]
  | handoverMore hl _ _ _ =>
    simpa [Thread.lane, Place.lane, State.laneHolders, State.admissionLane, State.giveSlot, hl] using hc
  | posted _ => simpa [Thread.lane, State.laneHolders, State.admissionLane, State.push, Job.lane] using hc
  | handoverNone hl => simpa [Thread.lane, Place.lane, hl] using hc
  | handoverStripe hl _ =>
    refine hc.of_eq ?_
    rw [State.laneHolders_push]
    simp only [Thread.lane, Place.lane, Job.lane, tokensOf_singleton, Option.tokens_none,
      Option.tokens_some, hl]
    abel
  | post _ =>
    refine hc.of_eq ?_
    rw [State.laneHolders_push]
    simp only [Thread.lane, Place.lane, Job.lane, tokensOf_singleton, Option.tokens_none,
      Option.tokens_some]
    abel
  | expired _ | cancelled _ | work _ | workThrow | workEmpty | workDone | hand _ | handThrow _
  | handTerminal _ _ | handTerminalThrow _ _ => simpa [Thread.lane] using hc
  | _ =>
    simpa [Thread.lane, Place.lane, State.laneHolders, State.admissionLane, State.dequeue,
      State.giveSlot, State.countTask, State.releasePending] using hc

end TinyImx.Gateway.Executor
