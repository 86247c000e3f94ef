import Mathlib
import TinyImx.Concurrency.ThreadPoolTasks

/-!
# The size of a dynamic thread pool

A worker that is granted an exit counts itself out later, and an exit that is requested is granted
later still.  Both compare with the same count, so that requests may pile up and be granted below
`min_threads`.
-/

namespace TinyImx.Concurrency.ThreadPool

open Multiset (countP countP_cons mem_cons)

variable {o : Options} {s s' : State} {l : Label} {w w' : Worker} {ls : List Label} {remaining : ℕ}

def State.Running (s : State) : Prop := s.lifecycle = .idle ∧ s.state ≠ .created

def State.liveWorkers (s : State) : ℕ := s.workers.countP (·.live = true)

def Worker.granted : Worker → Bool
  | .leaving => true
  | _ => false

def State.grantedWorkers (s : State) : ℕ := s.workers.countP (·.granted = true)

/-- An exit is requested only while the workers that count, less those that have left their loops
and those that are yet to leave, are more than `min_threads`. -/
def Spares (o : Options) (s s' : State) : Prop :=
  s'.pendingExits = s.pendingExits + 1 →
    o.minThreads + s.pendingExits + s.grantedWorkers < s.currentWorkers

def SparingStep (o : Options) (s : State) (l : Label) (s' : State) : Prop :=
  Step o s l s' ∧ Spares o s s'

/-! ## One worker -/

def Worker.Told : Worker → Prop
  | .scaling (.count pending) _ | .scaling (.exchange pending) _ => 0 < pending
  | _ => True

theorem told_stay (o : Options) (idle : Bool) : (Worker.stay o idle).Told := by
  unfold Worker.stay Worker.top
  split <;> (try split) <;> trivial

theorem granted_stay (o : Options) (idle : Bool) : (Worker.stay o idle).granted = false := by
  unfold Worker.stay Worker.top
  split <;> (try split) <;> rfl

theorem told_top (o : Options) : (Worker.top o).Told := by
  unfold Worker.top
  split <;> trivial

theorem granted_top (o : Options) : (Worker.top o).granted = false := by
  unfold Worker.top
  split <;> rfl

inductive Moves : State → Worker → State → Worker → Prop
  | stay {s s' : State} {w w' : Worker} : w'.live = w.live → w'.granted = w.granted →
      s'.currentWorkers = s.currentWorkers → s'.pendingExits = s.pendingExits → Moves s w s' w'
  | grant {s s' : State} {w w' : Worker} : w.live = true → w.granted = false → w'.live = false →
      w'.granted = true → s'.currentWorkers = s.currentWorkers →
      s.pendingExits = s'.pendingExits + 1 → Moves s w s' w'
  | leave {s s' : State} {w w' : Worker} : w.live = false → w.granted = true → w'.live = false →
      w'.granted = false → s'.currentWorkers = s.currentWorkers - 1 →
      s'.pendingExits = s.pendingExits → Moves s w s' w'

theorem Worker.Step.moves (hs : Worker.Step o s w l s' w') (haccepting : s.state.accepting = true)
    (htold : w.Told) : Moves s w s' w' ∧ w'.Told := by
  have hstopping : s.state.stopping = false := by
    cases hstate : s.state <;> rw [hstate] at haccepting <;> first | rfl | cases haccepting
  have hforced : s.state.forced = false := by
    cases hstate : s.state <;> rw [hstate] at haccepting <;> first | rfl | cases haccepting
  have hstay : ∀ idle : Bool, (Worker.stay o idle).live = true ∧
      (Worker.stay o idle).granted = false ∧ (Worker.stay o idle).Told := fun idle =>
    ⟨Started.live_stay o idle, granted_stay o idle, told_stay o idle⟩
  cases hs with
  | stateOk | sizeOk => exact ⟨.stay rfl rfl rfl rfl, trivial⟩
  | pendingOk hpos => exact ⟨.stay rfl rfl rfl rfl, hpos⟩
  | countOk => exact ⟨.stay rfl rfl rfl rfl, htold⟩
  | stateNo | sizeNo | pendingNo | countNo =>
    exact ⟨.stay (hstay _).1 (hstay _).2.1 rfl rfl, (hstay _).2.2⟩
  | exchangeOk hpending =>
    have hpos : 0 < s.pendingExits := by rw [hpending]; exact htold
    exact ⟨.grant rfl rfl rfl rfl rfl (by dsimp only; omega), trivial⟩
  | exchangeNo =>
    split
    · next hpos => exact ⟨.stay rfl rfl rfl rfl, hpos⟩
    · exact ⟨.stay (hstay _).1 (hstay _).2.1 rfl rfl, (hstay _).2.2⟩
  | pop | popStopped | popTimedOut | resume | waitedOk | clearedOk =>
    exact ⟨.stay rfl rfl rfl rfl, trivial⟩
  | failedLeave hstop =>
    rw [hstopping] at hstop
    cases hstop
  | failedStay =>
    split
    · exact ⟨.stay rfl rfl rfl rfl, trivial⟩
    · exact ⟨.stay (Started.live_top o) (granted_top o) rfl rfl, told_top o⟩
  | waitedDrop hforce | clearedDrop hforce =>
    rw [hforced] at hforce
    cases hforce
  | run => exact ⟨.stay (Started.live_top o) (granted_top o) rfl rfl, told_top o⟩
  | leave => exact ⟨.leave rfl rfl rfl rfl rfl rfl, trivial⟩
  | exit => exact ⟨.stay rfl rfl rfl rfl, trivial⟩

/-! ## The whole pool -/

def Manager.uncounted : Manager → ℕ
  | .adding => 1
  | _ => 0

/-- A pool between the start and the shutdown, with the workers that `Start` has yet to add. -/
structure Sized (o : Options) (remaining : ℕ) (s : State) : Prop where
  accepting : s.state.accepting = true
  phase : s.lifecycle = .starting remaining ∧ s.manager = .off ∨ s.lifecycle = .idle ∧ remaining = 0
  counted : s.liveWorkers + s.grantedWorkers = s.currentWorkers + s.manager.uncounted
  le_max : s.currentWorkers + s.manager.uncounted + remaining ≤ o.maxThreads
  room : o.minThreads + s.pendingExits + s.grantedWorkers ≤ s.currentWorkers + remaining
  told : ∀ w ∈ s.workers, w.Told

namespace Sized

theorem congr (h : Sized o remaining s) (hstate : s'.state.accepting = true)
    (hlifecycle : s'.lifecycle = s.lifecycle) (hworkers : s'.workers = s.workers)
    (hcurrent : s'.currentWorkers = s.currentWorkers) (hpending : s'.pendingExits = s.pendingExits)
    (hmanager : s'.manager = s.manager ∨ s.manager ≠ .off ∧
      s'.manager.uncounted = s.manager.uncounted) : Sized o remaining s' := by
  have huncounted : s'.manager.uncounted = s.manager.uncounted := by
    grind
  refine ⟨hstate, ?_, ?_, ?_, ?_, ?_⟩
  · rcases h.phase with ⟨hl, hoff⟩ | hl
    · simp_all
    · exact .inr ⟨hlifecycle.trans hl.1, hl.2⟩
  · rw [State.liveWorkers, State.grantedWorkers, hworkers, hcurrent, huncounted]
    exact h.counted
  · rw [hcurrent, huncounted]
    exact h.le_max
  · rw [State.grantedWorkers, hworkers, hcurrent, hpending]
    exact h.room
  · rw [hworkers]
    exact h.told

end Sized

namespace Sized

theorem worker {workers : Multiset Worker} (h : Sized o remaining s)
    (hw : s.workers = w ::ₘ workers) (hs : Worker.Step o s w l s' w') :
    Sized o remaining { s' with workers := w' ::ₘ workers } := by
  obtain ⟨hstate, hlife, hmanager, -⟩ := Started.workerStep_same hs
  obtain ⟨hmoves, htold⟩ := hs.moves h.accepting (h.told w (by simp [hw]))
  have hcounted := h.counted
  have hle := h.le_max
  have hroom := h.room
  have hlive : s.liveWorkers = workers.countP (·.live = true) + if w.live = true then 1 else 0 := by
    rw [State.liveWorkers, hw, countP_cons]
  have hgranted : s.grantedWorkers =
      workers.countP (·.granted = true) + if w.granted = true then 1 else 0 := by
    rw [State.grantedWorkers, hw, countP_cons]
  have hoff : 0 < remaining → s.manager.uncounted = 0 := fun hpos => by
    rcases h.phase with ⟨-, hoff⟩ | ⟨-, hzero⟩
    · rw [hoff]
      rfl
    · omega
  refine ⟨hstate ▸ h.accepting, ?_, ?_, ?_, ?_, ?_⟩
  · rcases h.phase with ⟨hl, hoff⟩ | ⟨hl, hzero⟩
    · exact .inl ⟨hlife.trans hl, hmanager.trans hoff⟩
    · exact .inr ⟨hlife.trans hl, hzero⟩
  · show countP _ (w' ::ₘ workers) + countP _ (w' ::ₘ workers) = _
    rw [countP_cons, countP_cons]
    rw [hmanager]
    cases hmoves with
    | stay hl hg hc _ =>
      rw [hl, hg, hc]
      omega
    | grant hl hg hl' hg' hc _ =>
      simp only [hl, hg, hl', hg', hc, if_true, Bool.false_eq_true, if_false] at *
      omega
    | leave hl hg hl' hg' hc _ =>
      simp only [hl, hg, hl', hg', hc, if_true, Bool.false_eq_true, if_false] at *
      grind
  · dsimp only
    rw [hmanager]
    cases hmoves with
    | stay _ _ hc _ | grant _ _ _ _ hc _ =>
      rw [hc]
      exact hle
    | leave _ _ _ _ hc _ =>
      rw [hc]
      omega
  · show _ + _ + countP _ (w' ::ₘ workers) ≤ _
    rw [countP_cons]
    cases hmoves with
    | stay _ hg hc hp =>
      rw [hg, hc, hp]
      omega
    | grant _ hg _ hg' hc hp =>
      grind
    | leave hl hg _ hg' hc hp =>
      grind
  · intro v hv
    rcases mem_cons.1 hv with rfl | hv
    · exact htold
    · exact h.told v (by simp [hw, hv])

end Sized

def Lifecycle.begun : Lifecycle → Bool
  | .idle | .starting _ => false
  | _ => true

structure Created (s : State) : Prop where
  state : s.state = .created
  lifecycle : s.lifecycle = .idle
  workers : s.workers = 0
  current : s.currentWorkers = 0
  pending : s.pendingExits = 0
  manager : s.manager = .off

inductive Phase (o : Options) (s : State) : Prop
  | created : Created s → Phase o s
  | sized (remaining : ℕ) : Sized o remaining s → Phase o s
  | begun : s.lifecycle.begun = true → Phase o s

theorem begun_step (h : s.lifecycle.begun = true) (hs : Step o s l s') :
    s'.lifecycle.begun = true := by
  have hnot : ∀ {phase : Lifecycle}, s.lifecycle = phase → phase.begun = false → False :=
    fun heq hphase => by
      rw [heq, hphase] at h
      cases h
  cases hs with
  | worker _ hw => exact (Started.workerStep_same hw).2.1 ▸ h
  | start hl _ | addWorker hl _ | started hl | shutdownCreated hl _ | shutdown _ hl _ _ =>
    exact (hnot hl rfl).elim
  | stopManager => split <;> rfl
  | stopQueue => split <;> rfl
  | joinManager | mark | waited | timedOut | force | join | finish => rfl
  | _ => exact h

theorem Created.step (hmin : o.minThreads ≤ o.workerThreads) (hmax : o.workerThreads ≤ o.maxThreads)
    (h : Created s) (hs : Step o s l s') : Phase o s' := by
  have hlife : ∀ {phase : Lifecycle}, s.lifecycle = phase → phase ≠ .idle → Phase o s' :=
    fun heq hne => absurd (heq.symm.trans h.lifecycle) hne
  have hmanager : ∀ {phase : Manager}, s.manager = phase → phase ≠ .off → Phase o s' :=
    fun heq hne => absurd (heq.symm.trans h.manager) hne
  have haccepting : s.state.accepting = false := by rw [h.state]; rfl
  cases hs with
  | worker hw _ =>
    rw [h.workers] at hw
    exact absurd hw Multiset.zero_ne_cons
  | submit _ hacc =>
    rw [haccepting] at hacc
    cases hacc
  | refuse | push | pushNo =>
    exact .created ⟨h.state, h.lifecycle, h.workers, h.current, h.pending, h.manager⟩
  | pause hst | resume hst =>
    rw [h.state] at hst
    cases hst
  | start _ _ =>
    refine .sized o.workerThreads ⟨rfl, .inl ⟨rfl, h.manager⟩, ?_, ?_, ?_, ?_⟩
    · show countP _ s.workers + countP _ s.workers = s.currentWorkers + _
      rw [h.workers, h.current, h.manager]
      rfl
    · show s.currentWorkers + s.manager.uncounted + _ ≤ _
      rw [h.current, h.manager]
      simpa [Manager.uncounted] using hmax
    · show o.minThreads + s.pendingExits + countP _ s.workers ≤ s.currentWorkers + _
      rw [h.workers, h.current, h.pending]
      simpa using hmin
    · intro w hw
      change w ∈ s.workers at hw
      rw [h.workers] at hw
      exact absurd hw (Multiset.notMem_zero w)
  | shutdownCreated => exact .begun rfl
  | shutdown _ _ hne _ => exact absurd h.state hne
  | addWorker hl _ | started hl | stopManager hl | joinManager hl _ | mark hl | stopQueue hl _
  | waited hl _ | timedOut hl | force hl _ | join hl _ | finish hl => exact hlife hl (by simp)
  | wake hm _ _ | managerExit hm _ | cooldown hm | readSize hm | readCurrent hm | readActive hm
  | scaleUp hm _ _ _ | scaleUpNo hm _ _ _ | added hm | scaleDown hm _ _ _ _ _ _
  | keepSize hm _ _ => exact hmanager hm (by simp)

theorem Sized.step (h : Sized o remaining s) (hdynamic : o.enableDynamicResize = true)
    (hs : Step o s l s') (hspares : Spares o s s') : Phase o s' := by
  have hbegun : ∀ {phase : Lifecycle}, s.lifecycle = phase → phase.begun = true → Phase o s' :=
    fun heq hphase => by
      rcases h.phase with ⟨hl, -⟩ | ⟨hl, -⟩ <;>
      · rw [← heq, hl] at hphase
        cases hphase
  have hidle : s.manager ≠ .off → remaining = 0 := fun hne => by
    rcases h.phase with ⟨-, hoff⟩ | ⟨-, hzero⟩
    · exact absurd hoff hne
    · exact hzero
  cases hs with
  | worker hw hstep => exact .sized remaining (h.worker hw hstep)
  | submit | refuse | push | pushNo =>
    exact .sized remaining (h.congr h.accepting rfl rfl rfl rfl (.inl rfl))
  | pause | resume => exact .sized remaining (h.congr rfl rfl rfl rfl rfl (.inl rfl))
  | start hl hst =>
    have := h.accepting
    rw [hst] at this
    cases this
  | @addWorker count hl hlt =>
    rcases h.phase with ⟨hl', hoff⟩ | ⟨hl', -⟩
    · cases hl.symm.trans hl'
      have hcounted := h.counted
      have hle := h.le_max
      have hroom := h.room
      refine .sized count ⟨h.accepting, .inl ⟨rfl, hoff⟩, ?_, ?_, ?_, ?_⟩
      · show countP _ (Worker.top o ::ₘ s.workers) +
          countP _ (Worker.top o ::ₘ s.workers) = s.currentWorkers + 1 + _
        rw [countP_cons, countP_cons, if_pos (Started.live_top o),
          if_neg (by simp [granted_top])]
        unfold State.liveWorkers State.grantedWorkers at hcounted
        dsimp only
        omega
      · dsimp only
        omega
      · show _ + _ + countP _ (Worker.top o ::ₘ s.workers) ≤ _
        rw [countP_cons, if_neg (by simp [granted_top])]
        unfold State.grantedWorkers at hroom
        dsimp only
        omega
      · intro w hw
        rcases mem_cons.1 hw with rfl | hw
        · exact told_top o
        · exact h.told w hw
    · cases hl.symm.trans hl'
  | started hl =>
    rcases h.phase with ⟨hl', hoff⟩ | ⟨hl', -⟩
    · cases hl.symm.trans hl'
      have hcounted := h.counted
      have hle := h.le_max
      rw [hoff] at hcounted hle
      refine .sized 0 ⟨h.accepting, .inr ⟨rfl, rfl⟩, ?_, ?_, h.room, h.told⟩
      all_goals
        rw [if_pos hdynamic]
        assumption
    · cases hl.symm.trans hl'
  | wake hm | managerExit hm | cooldown hm | readSize hm | readCurrent hm | readActive hm
  | scaleUpNo hm | keepSize hm =>
    refine .sized remaining (h.congr h.accepting rfl rfl rfl rfl (.inr ⟨?_, ?_⟩))
    · simp [hm]
    · rw [hm]
      rfl
  | scaleUp hm _ _ hlt =>
    have hcounted := h.counted
    have hzero := hidle (by simp [hm])
    have hroom := h.room
    rw [hm] at hcounted
    subst hzero
    refine .sized 0 ⟨h.accepting, .inr ⟨?_, rfl⟩, ?_, ?_, ?_, ?_⟩
    · rcases h.phase with ⟨-, hoff⟩ | ⟨hl, -⟩
      · rw [hm] at hoff
        cases hoff
      · exact hl
    · show countP _ (Worker.top o ::ₘ s.workers) +
          countP _ (Worker.top o ::ₘ s.workers) = s.currentWorkers + 1
      rw [countP_cons, countP_cons, if_pos (Started.live_top o),
        if_neg (by simp [granted_top])]
      unfold State.liveWorkers State.grantedWorkers at hcounted
      dsimp only [Manager.uncounted] at hcounted
      omega
    · show s.currentWorkers + 1 + 0 ≤ _
      omega
    · show _ + _ + countP _ (Worker.top o ::ₘ s.workers) ≤ _
      rw [countP_cons, if_neg (by simp [granted_top])]
      exact hroom
    · intro w hw
      rcases mem_cons.1 hw with rfl | hw
      · exact told_top o
      · exact h.told w hw
  | added hm =>
    have hcounted := h.counted
    have hle := h.le_max
    have hroom := h.room
    rw [hm] at hcounted hle
    refine .sized remaining ⟨h.accepting, ?_, hcounted, hle, ?_, h.told⟩
    · rcases h.phase with ⟨-, hoff⟩ | hl
      · rw [hm] at hoff
        cases hoff
      · exact .inr hl
    · show o.minThreads + s.pendingExits + s.grantedWorkers ≤ s.currentWorkers + 1 + remaining
      omega
  | scaleDown hm =>
    have hspare := hspares rfl
    have hcounted := h.counted
    have hle := h.le_max
    rw [hm] at hcounted hle
    refine .sized remaining ⟨h.accepting, ?_, hcounted, hle, ?_, h.told⟩
    · rcases h.phase with ⟨-, hoff⟩ | hl
      · rw [hm] at hoff
        cases hoff
      · exact .inr hl
    · show _ + (s.pendingExits + 1) + s.grantedWorkers ≤ s.currentWorkers + _
      omega
  | shutdownCreated => exact .begun rfl
  | shutdown => exact .begun rfl
  | stopManager hl | joinManager hl _ | mark hl | stopQueue hl _ | waited hl _ | timedOut hl
  | force hl _ | join hl _ | finish hl => exact hbegun hl rfl

theorem phase_of_run (hdynamic : o.enableDynamicResize = true)
    (hmin : o.minThreads ≤ o.workerThreads) (hmax : o.workerThreads ≤ o.maxThreads)
    (hrun : Run (SparingStep o) .initial ls s) :
    Phase o s := by
  refine hrun.invariant (fun s l s' h hstep => ?_) (.created ⟨rfl, rfl, rfl, rfl, rfl, rfl⟩)
  cases h with
  | created h => exact h.step hmin hmax hstep.1
  | sized _ h => exact h.step hdynamic hstep.1 hstep.2
  | begun h => exact .begun (begun_step h hstep.1)

def Bounded (o : Options) (s : State) : Prop :=
  s.Running → o.minThreads ≤ s.liveWorkers ∧ s.liveWorkers ≤ o.maxThreads

/-- As long as exits are requested only for workers that are spare, the size of a dynamic pool stays
between its bounds, in every run. -/
theorem dynamic_size_bounded (o : Options) (ls : List Label) (s : State)
    (hdynamic : o.enableDynamicResize = true) (hmin : o.minThreads ≤ o.workerThreads)
    (hmax : o.workerThreads ≤ o.maxThreads) (hrun : Run (SparingStep o) .initial ls s) :
    Bounded o s := by
  intro hrunning
  cases phase_of_run hdynamic hmin hmax hrun with
  | created h => exact absurd h.state hrunning.2
  | sized remaining h =>
    have hzero : remaining = 0 := by
      rcases h.phase with ⟨hl, -⟩ | ⟨-, hzero⟩
      · cases hl.symm.trans hrunning.1
      · exact hzero
    have hcounted := h.counted
    have hle := h.le_max
    have hroom := h.room
    omega
  | begun h =>
    rw [hrunning.1] at h
    cases h

/-! ## A pool of two workers -/

def shrinking : Options where
  workerThreads := 2
  queueCapacity := 1
  queueFullPolicy := .block
  enableDynamicResize := true
  minThreads := 1
  maxThreads := 2
  scaleUp _ := false
  scaleDown _ := true
  workerThreads_pos := Nat.two_pos
  queueCapacity_pos := Nat.one_pos

def shrinkingState (workers : Multiset Worker) (current pending : ℕ) (running : Bool)
    (manager : Manager) (lifecycle : Lifecycle) : State :=
  ⟨.running, .empty, workers, 0, 0, current, 0, 0, pending, running, manager, lifecycle⟩

section Sample

variable {R : State → Label → State → Prop} {workers : Multiset Worker} {pending : ℕ}
  {manager : Manager}
  (hquiet : ∀ s l s', Step shrinking s l s' → s'.pendingExits ≤ s.pendingExits → R s l s')

include hquiet

theorem shrinking_started : ∃ ls, Run R .initial ls
    (shrinkingState (.top shrinking ::ₘ .top shrinking ::ₘ 0) 2 0 true .sleeping .idle) := by
  have h : Run R .initial [] .initial := .nil _
  have h := h.snoc (hquiet _ _ { State.initial with state := .running, lifecycle := .starting 2 }
    (.start rfl rfl) (le_refl _))
  have h := h.snoc (hquiet _ _ (shrinkingState (.top shrinking ::ₘ 0) 1 0 false .off (.starting 1))
    (.addWorker (show _ = Lifecycle.starting (1 + 1) from rfl) (by decide : (0 : ℕ) < 2))
    (le_refl _))
  have h := h.snoc (hquiet _ _
    (shrinkingState (.top shrinking ::ₘ .top shrinking ::ₘ 0) 2 0 false .off (.starting 0))
    (.addWorker (show _ = Lifecycle.starting (0 + 1) from rfl) (by decide : (1 : ℕ) < 2))
    (le_refl _))
  exact ⟨_, h.snoc (hquiet _ _ _ (.started rfl) (le_refl _))⟩

theorem shrinking_requests
    (hrequest : R (shrinkingState workers 2 pending true (.ready 0 2 0) .idle) .silent
      (shrinkingState workers 2 (pending + 1) true .sleeping .idle)) :
    ∃ ls, Run R (shrinkingState workers 2 pending true .sleeping .idle) ls
      (shrinkingState workers 2 (pending + 1) true .sleeping .idle) := by
  have h : Run R (shrinkingState workers 2 pending true .sleeping .idle) [] _ := .nil _
  have h := h.snoc (hquiet _ _ (shrinkingState workers 2 pending true .looking .idle)
    (.wake rfl rfl rfl) (le_refl _))
  have h := h.snoc (hquiet _ _ (shrinkingState workers 2 pending true (.sized 0) .idle)
    (.readSize rfl) (le_refl _))
  have h := h.snoc (hquiet _ _ (shrinkingState workers 2 pending true (.counted 0 2) .idle)
    (.readCurrent (show _ = Manager.sized 0 from rfl)) (le_refl _))
  have h := h.snoc (hquiet _ _ (shrinkingState workers 2 pending true (.ready 0 2 0) .idle)
    (.readActive (show _ = Manager.counted 0 2 from rfl)) (le_refl _))
  exact ⟨_, h.snoc hrequest⟩

theorem shrinking_grants :
    ∃ ls, Run R (shrinkingState (.top shrinking ::ₘ workers) 2 (pending + 1) true manager .idle) ls
      (shrinkingState (.leaving ::ₘ workers) 2 pending true manager .idle) := by
  have hstep : ∀ {w w' : Worker}, Worker.Step shrinking
      (shrinkingState (w ::ₘ workers) 2 (pending + 1) true manager .idle) w .silent
      (shrinkingState (w ::ₘ workers) 2 (pending + 1) true manager .idle) w' →
      R (shrinkingState (w ::ₘ workers) 2 (pending + 1) true manager .idle) .silent
        (shrinkingState (w' ::ₘ workers) 2 (pending + 1) true manager .idle) :=
    fun hw => hquiet _ _ _ (.worker rfl hw) (le_refl _)
  have h := @Run.nil _ _ R
    (shrinkingState (.scaling .state false ::ₘ workers) 2 (pending + 1) true manager .idle)
  have h := h.snoc (hstep (.stateOk rfl))
  have h := h.snoc (hstep (.sizeOk rfl))
  have h := h.snoc (hstep (.pendingOk (Nat.succ_pos pending)))
  have h := h.snoc (hstep (.countOk (by decide : (1 : ℕ) < 2)))
  exact ⟨_, h.snoc (hquiet _ _ _ (.worker rfl (.exchangeOk rfl)) (Nat.le_succ _))⟩

end Sample

theorem dynamic_size_bounded_shrinking : ∃ ls s, Run (SparingStep shrinking) .initial ls s ∧
    s.Running ∧ s.grantedWorkers = 1 ∧ 1 ≤ s.liveWorkers ∧ s.liveWorkers ≤ 2 := by
  have hquiet : ∀ s l s', Step shrinking s l s' → s'.pendingExits ≤ s.pendingExits →
      SparingStep shrinking s l s' := fun _ _ _ hstep hle => ⟨hstep, fun heq => by omega⟩
  obtain ⟨ls₁, h₁⟩ := shrinking_started hquiet
  obtain ⟨ls₂, h₂⟩ := @shrinking_requests _ (.top shrinking ::ₘ .top shrinking ::ₘ 0) 0
    hquiet ⟨.scaleDown rfl (by decide) rfl rfl rfl (by decide) (by decide),
      fun _ => by decide⟩
  obtain ⟨ls₃, h₃⟩ := @shrinking_grants _ (.top shrinking ::ₘ 0) 0 .sleeping hquiet
  have hrun := (h₁.append h₂).append h₃
  have hrunning : State.Running
      (shrinkingState (.leaving ::ₘ .top shrinking ::ₘ 0) 2 0 true .sleeping .idle) :=
    ⟨rfl, by decide⟩
  exact ⟨_, _, hrun, hrunning, rfl,
    dynamic_size_bounded shrinking _ _ rfl (by decide) (by decide) hrun hrunning⟩

/-- Two exits are requested before a worker leaves, and each of the two workers is granted one by
the count that none of them has left yet. -/
theorem dynamic_size_falls : ¬ ∀ (o : Options) (ls : List Label) (s : State),
    o.enableDynamicResize = true → o.minThreads ≤ o.workerThreads → o.workerThreads ≤ o.maxThreads →
    Run (Step o) .initial ls s → Bounded o s := by
  intro hall
  have hquiet : ∀ s l s', Step shrinking s l s' → s'.pendingExits ≤ s.pendingExits →
      Step shrinking s l s' := fun _ _ _ hstep _ => hstep
  have hrequest : ∀ pending, Step shrinking (shrinkingState
      (.top shrinking ::ₘ .top shrinking ::ₘ 0) 2 pending true (.ready 0 2 0) .idle) .silent
      (shrinkingState (.top shrinking ::ₘ .top shrinking ::ₘ 0) 2 (pending + 1) true .sleeping
        .idle) :=
    fun _ => .scaleDown rfl (by decide) rfl rfl rfl (by decide) (by decide : (1 : ℕ) < 2)
  obtain ⟨ls₁, h₁⟩ := shrinking_started hquiet
  obtain ⟨ls₂, h₂⟩ := shrinking_requests hquiet (hrequest 0)
  obtain ⟨ls₃, h₃⟩ := shrinking_requests hquiet (hrequest 1)
  obtain ⟨ls₄, h₄⟩ := @shrinking_grants _ (.top shrinking ::ₘ 0) 1 .sleeping hquiet
  obtain ⟨ls₅, h₅⟩ := @shrinking_grants _ (.leaving ::ₘ 0) 0 .sleeping hquiet
  have hswap : shrinkingState (.leaving ::ₘ .top shrinking ::ₘ 0) 2 1 true .sleeping .idle =
      shrinkingState (.top shrinking ::ₘ .leaving ::ₘ 0) 2 1 true .sleeping .idle :=
    congrArg (shrinkingState · 2 1 true .sleeping .idle) (Multiset.cons_swap _ _ _)
  rw [hswap] at h₄
  have hbounded := hall shrinking _ _ rfl (by decide) (by decide)
    ((((h₁.append h₂).append h₃).append h₄).append h₅) ⟨rfl, by decide⟩
  exact absurd hbounded.1 (by decide)

end TinyImx.Concurrency.ThreadPool
