import TinyImx.Gateway.StatusAccounting

/-!
# Every job gets its terminal

Each step of the collector or a worker uses up fuel, so that after finitely many of them there is
none left to do.  Every accepted job has ended then, and a `Stop` that waits can return.
-/

namespace TinyImx.Gateway.StatusMaintenance

open TinyImx.Cache OnlineStatusCache

variable {o : Options} {s s' : Shared} {w w' : Worker} {st st' : State} {label : Label}

/-! ## Fuel -/

def Phase.fuel : Phase → ℕ
  | .waiting => 1
  | .exited => 0
  | .filter _ rest valid _ => 3 + 7 * rest.length + 5 * valid.length
  | .validating _ _ rest valid _ => 9 + 7 * rest.length + 5 * valid.length
  | .refreshing _ valid _ => 2 + 5 * valid.length
  | .deliver valid _ i => 2 + 4 * (valid.length - i)
  | .rechecking valid _ i _ => 5 + 4 * (valid.length - i - 1)
  | .calling valid _ i _ => 4 + 4 * (valid.length - i - 1)

def Worker.fuel (w : Worker) : ℕ := w.phase.fuel + w.finishing.length

def Collector.fuel : Collector → ℕ
  | .waiting => 1
  | .flushing => 0
  | .done => 0

def Shared.fuel (s : Shared) : ℕ :=
  12 * s.input.length + (s.ready.map fun batch => 3 + 7 * batch.length).sum + s.collector.fuel

/-- A bound of the steps that the collector and the workers can make without a submission. -/
def State.fuel (st : State) : ℕ := st.shared.fuel + (st.workers.map Worker.fuel).sum

theorem WorkerStep.fuel_lt (hok : w.phase.Ok o s) (h : WorkerStep s w s' w') :
    s'.fuel + w'.fuel < s.fuel + w.fuel := by
  have hsame : s'.fuel = s.fuel → w'.fuel < w.fuel → s'.fuel + w'.fuel < s.fuel + w.fuel := by
    omega
  have hlt : ∀ {valid : List Job} {i : ℕ} {job : Job}, valid[i]? = some job → i < valid.length :=
    fun hjob => (List.getElem?_eq_some_iff.1 hjob).1
  cases h with
  | finish =>
    refine hsame rfl ?_
    simp only [Worker.fuel, List.length_cons]
    omega
  | @take batch ready hready =>
    have hfuel : s.fuel = 3 + 7 * batch.length + Shared.fuel { s with ready := ready } := by
      simp only [Shared.fuel, hready, List.map_cons, List.sum_cons]
      omega
    rw [hfuel]
    simp only [Worker.fuel, Phase.fuel, List.length_nil]
    omega
  | @validated batch rest valid job requests validity =>
    refine hsame rfl ?_
    cases validity with
    | _ =>
      simp only [Worker.fuel, Phase.fuel, List.length_append, List.length_cons, List.length_nil]
      omega
  | @answered batch valid requests results =>
    have hne := List.length_pos_iff.2 hok.2.2.2
    refine hsame rfl ?_
    simp only [Worker.fuel, Phase.fuel, List.length_nil]
    omega
  | @mismatched batch valid =>
    refine hsame rfl ?_
    simp only [Worker.fuel, Phase.fuel, List.length_nil, List.length_map]
    omega
  | @threw batch valid =>
    refine hsame rfl ?_
    simp only [Worker.fuel, Phase.fuel, List.length_nil, List.length_map]
    omega
  | record hjob =>
    have := hlt hjob
    refine hsame rfl ?_
    simp only [Worker.fuel, Phase.fuel, List.length_nil]
    omega
  | cancelled =>
    refine hsame rfl ?_
    simp only [Worker.fuel, Phase.fuel, List.length_nil, List.length_singleton]
    omega
  | recheckThrew =>
    refine hsame rfl ?_
    simp only [Worker.fuel, Phase.fuel, List.length_nil, List.length_singleton]
    omega
  | silent =>
    have := hlt hok.2
    refine hsame rfl ?_
    simp only [Worker.fuel, Phase.fuel, List.length_nil, List.length_singleton]
    omega
  | called =>
    refine hsame rfl ?_
    simp only [Worker.fuel, Phase.fuel, List.length_nil, List.length_singleton]
    omega
  | _ =>
    refine hsame rfl ?_
    simp only [Worker.fuel, Phase.fuel, List.length_nil, List.length_cons]
    omega

theorem CollectorStep.fuel_lt (ho : o.maxBatch ≠ 0) (hok : s.Ok o) (h : CollectorStep o s s') :
    s'.fuel < s.fuel := by
  cases h with
  | see hwaiting =>
    simp only [Shared.fuel, hwaiting, Collector.fuel]
    omega
  | take hflushing =>
    have hinput := List.length_pos_iff.2 (hok.flushing hflushing)
    simp only [Shared.fuel, Shared.collect, hflushing, Collector.fuel, List.map_append,
      List.map_singleton, List.sum_append, List.sum_singleton, List.length_drop, List.length_take]
    omega
  | done hwaiting =>
    simp only [Shared.fuel, hwaiting, Collector.fuel]
    omega

def Label.Internal : Label → Prop
  | .collector => True
  | .worker => True
  | _ => False

theorem Step.fuel_lt (ho : o.maxBatch ≠ 0) (hinv : st.Inv o) (hlabel : label.Internal)
    (h : Step o st label st') : st'.fuel < st.fuel := by
  cases h with
  | collector hstep => exact Nat.add_lt_add_right (hstep.fuel_lt ho hinv.shared) _
  | @worker s s' worker worker' workers hstep =>
    have hlt := hstep.fuel_lt (hinv.workers worker (Multiset.mem_cons_self _ _)).phase
    simp only [State.fuel, Multiset.map_cons, Multiset.sum_cons, ← Nat.add_assoc]
    exact Nat.add_lt_add_right hlt _
  | _ => exact hlabel.elim

theorem internal_run (ho : o.maxBatch ≠ 0) (hinv : st.Inv o) {labels : List Label}
    (h : Run (Step o) st labels st') (hlabels : ∀ label ∈ labels, label.Internal) :
    st'.Inv o ∧ labels.length + st'.fuel ≤ st.fuel := by
  induction h with
  | nil => exact ⟨hinv, by simp⟩
  | snoc hrun hstep ih =>
    obtain ⟨hmid, hfuel⟩ := ih fun label hlabel => hlabels label (List.mem_append_left _ hlabel)
    have hlt := hstep.fuel_lt ho hmid
      (hlabels _ (List.mem_append_right _ (List.mem_singleton_self _)))
    refine ⟨hstep.inv hmid, ?_⟩
    rw [List.length_append, List.length_singleton]
    omega

/-! ## Nothing is left to do -/

theorem exists_workerStep (hok : w.phase.Ok o s) :
    (∃ s' w', WorkerStep s w s' w') ∨ w = ⟨.exited, []⟩ ∨
      (w = ⟨.waiting, []⟩ ∧ s.ready = [] ∧ s.collector ≠ .done) := by
  obtain ⟨phase, finishing⟩ := w
  cases finishing with
  | cons entry finishing => exact .inl ⟨_, _, .finish⟩
  | nil =>
    cases phase with
    | waiting =>
      cases hready : s.ready with
      | cons batch ready => exact .inl ⟨_, _, .take hready⟩
      | nil =>
        by_cases hdone : s.collector = .done
        · exact .inl ⟨_, _, .exit hready hdone⟩
        · exact .inr (.inr ⟨rfl, rfl, hdone⟩)
    | exited => exact .inr (.inl rfl)
    | filter batch rest valid requests =>
      cases rest with
      | cons job rest =>
        rcases lt_or_ge 0 job.deadline with hnow | hnow
        · exact .inl ⟨_, _, .timely 0 hnow⟩
        · exact .inl ⟨_, _, .late 0 hnow⟩
      | nil =>
        by_cases hvalid : valid = []
        · subst hvalid
          exact .inl ⟨_, _, .empty⟩
        · exact .inl ⟨_, _, .request hvalid⟩
    | validating => exact .inl ⟨_, _, .validated .holds⟩
    | refreshing => exact .inl ⟨_, _, .threw⟩
    | deliver valid results i =>
      rcases lt_or_ge i valid.length with hi | hi
      · have hresult : i < results.length := hok.1.1 ▸ hi
        exact .inl ⟨_, _, .record (List.getElem?_eq_getElem hi) (List.getElem?_eq_getElem hresult)⟩
      · exact .inl ⟨_, _, .finished hi⟩
    | rechecking => exact .inl ⟨_, _, .cancelled⟩
    | calling => exact .inl ⟨_, _, .called true⟩

theorem exists_collectorStep (o : Options) (s : Shared) :
    (∃ s', CollectorStep o s s') ∨ s.collector = .done ∨
      (s.collector = .waiting ∧ s.input = [] ∧ s.stopping = false) := by
  cases hcollector : s.collector with
  | waiting =>
    by_cases hinput : s.input = []
    · cases hstop : s.stopping with
      | true => exact .inl ⟨_, .done hcollector hinput hstop⟩
      | false => exact .inr (.inr ⟨rfl, hinput, rfl⟩)
    · exact .inl ⟨_, .see hcollector hinput⟩
  | flushing => exact .inl ⟨_, .take hcollector⟩
  | done => exact .inr (.inl rfl)

def State.Quiet (o : Options) (st : State) : Prop :=
  ∀ label : Label, label.Internal → ∀ st', ¬ Step o st label st'

theorem quiet_worker (hinv : st.Inv o) (hquiet : st.Quiet o) (hw : w ∈ st.workers) :
    w = ⟨.exited, []⟩ ∨
      (w = ⟨.waiting, []⟩ ∧ st.shared.ready = [] ∧ st.shared.collector ≠ .done) := by
  refine (exists_workerStep (hinv.workers w hw).phase).resolve_left ?_
  rintro ⟨s', w', hstep⟩
  obtain ⟨workers, hworkers⟩ := Multiset.exists_cons_of_mem hw
  have hst : st = ⟨st.shared, w ::ₘ workers⟩ := by rw [← hworkers]
  refine hquiet .worker trivial ⟨s', w' ::ₘ workers⟩ ?_
  rw [hst]
  exact .worker hstep

theorem quiet_collector (hinv : st.Inv o) (hquiet : st.Quiet o) :
    st.shared.input = [] ∧ (st.shared.stopping = true → st.shared.collector = .done) := by
  have hcases := (exists_collectorStep o st.shared).resolve_left fun ⟨s', hstep⟩ =>
    hquiet .collector trivial ⟨s', st.workers⟩ (.collector hstep)
  rcases hcases with hdone | ⟨_, hinput, hstop⟩
  · exact ⟨(hinv.shared.done hdone).2, fun _ => hdone⟩
  · refine ⟨hinput, fun h => ?_⟩
    rw [hstop] at h
    cases h

theorem quiet_live (ho : o.workers ≠ 0) (hinv : st.Inv o) (hquiet : st.Quiet o) : st.live = 0 := by
  obtain ⟨w, hw⟩ : ∃ w, w ∈ st.workers := by
    refine Multiset.card_pos_iff_exists_mem.1 ?_
    rw [hinv.size]
    omega
  have hready : st.shared.ready = [] := by
    rcases quiet_worker hinv hquiet hw with rfl | hwaiting
    · exact (hinv.workers _ hw).phase.2
    · exact hwaiting.2.1
  have hjobs : (st.workers.map fun w => ids w.jobs).sum = 0 := by
    refine Multiset.sum_eq_zero fun n hn => ?_
    obtain ⟨w, hw, rfl⟩ := Multiset.mem_map.1 hn
    rcases quiet_worker hinv hquiet hw with rfl | ⟨rfl, _⟩ <;> rfl
  rw [State.live, Shared.queued, hjobs, hready, (quiet_collector hinv hquiet).1]
  rfl

theorem quiet_stopReturn (hinv : st.Inv o) (hquiet : st.Quiet o)
    (hjoin : st.shared.joining = true) : ∃ st', Step o st .stopReturn st' := by
  have hdone := (quiet_collector hinv hquiet).2 (hinv.shared.joining hjoin)
  refine ⟨_, .stopReturn hjoin hdone fun worker hworker => ?_⟩
  exact (quiet_worker hinv hquiet hworker).resolve_right fun h => h.2.2 hdone

theorem pending_pos (hinv : st.Inv o) (hw : w ∈ st.workers) (hfinishing : w.finishing ≠ []) :
    0 < st.shared.stats.pending := by
  obtain ⟨workers, hworkers⟩ := Multiset.exists_cons_of_mem hw
  rw [hinv.accounted.pending, State.live, hworkers, Multiset.map_cons, Multiset.sum_cons,
    Multiset.card_add, Multiset.card_add, card_ids, Worker.jobs, List.length_append,
    List.length_map]
  have := List.length_pos_iff.2 hfinishing
  omega

/-! ## The accounts of a run -/

structure Accounts (o : Options) (st : State) : Prop where
  once : st.live + st.shared.endedIds = Multiset.range st.shared.stats.accepted
  balance : st.shared.stats.accepted = st.shared.stats.pending + st.shared.stats.terminals
  counted : ∀ terminal, st.shared.stats.terminal terminal =
    st.shared.ended.countP (·.2 = terminal)
  bounded : st.shared.stats.pending ≤ o.maxPending
  no_underflow : ∀ worker ∈ st.workers, worker.finishing ≠ [] → 0 < st.shared.stats.pending
  callbacks : ∀ event ∈ st.shared.callbacks, event.Faithful o st.shared
  stopped : st.shared.stopped = true →
    st.shared.stats.pending = 0 ∧ ∀ worker ∈ st.workers, worker = ⟨.exited, []⟩
  ends : ∀ (labels : List Label) (st' : State), (∀ label ∈ labels, label.Internal) →
    Run (Step o) st labels st' → labels.length ≤ st.fuel ∧
      (st'.Quiet o → st'.shared.endedIds = Multiset.range st'.shared.stats.accepted ∧
        (st'.shared.joining = true → ∃ st'', Step o st' .stopReturn st''))

/-- In every state of every run the accounts are right, and every accepted job gets one terminal. -/
theorem accounts (ho : o.valid = true) {labels : List Label}
    (h : Run (Step o) (start o) labels st) : Accounts o st := by
  have hinv := run_inv h
  have hoptions : o.workers ≠ 0 ∧ o.maxBatch ≠ 0 := by
    simp only [Options.valid, Bool.and_eq_true, decide_eq_true_eq] at ho
    exact ⟨ho.1.1.1.1.1.1, ho.1.1.1.2⟩
  refine ⟨hinv.accounted.custody, hinv.accounted.accepted, hinv.accounted.terminal,
    hinv.shared.bounded, fun worker hworker => pending_pos hinv hworker, hinv.shared.callbacks,
    fun hstopped => ?_, fun labels' st' hlabels hrun => ?_⟩
  · obtain ⟨hdone, hworkers⟩ := hinv.stopped hstopped
    refine ⟨?_, hworkers⟩
    have hlive := quiet_live hoptions.1 hinv fun label hlabel st' hstep => ?_
    · rw [hinv.accounted.pending, hlive]
      rfl
    · cases hstep with
      | @collector s s' workers hcollector =>
        cases hcollector with
        | see hwaiting => exact absurd (hwaiting.symm.trans hdone) (by decide)
        | take hflushing => exact absurd (hflushing.symm.trans hdone) (by decide)
        | done hwaiting => exact absurd (hwaiting.symm.trans hdone) (by decide)
      | worker hworker =>
        exact hworker.not_exited (hworkers _ (Multiset.mem_cons_self _ _))
      | _ => exact hlabel.elim
  · obtain ⟨hinv', hfuel⟩ := internal_run hoptions.2 hinv hrun hlabels
    refine ⟨(Nat.le_add_right _ _).trans hfuel, fun hquiet => ⟨?_, quiet_stopReturn hinv' hquiet⟩⟩
    rw [← hinv'.accounted.custody, quiet_live hoptions.1 hinv' hquiet, zero_add]

/-! ## A job from its submission to the end -/

def sampleOptions : Options := ⟨1, 1, 1, 5, 100⟩

def sampleSubmission : Submission := ⟨⟨7, "gateway", "connection", 60⟩, 0, true, true⟩

def sampleJob : Job := ⟨0, ⟨7, "gateway", "connection", 60⟩, 103, true⟩

theorem exists_sampleRun : ∃ labels st, Run (Step sampleOptions) (start sampleOptions) labels st ∧
    st.shared.stopped = true ∧ st.shared.ended = [(sampleJob, .completed)] := by
  have h₁ : Run (Step sampleOptions) (start sampleOptions) [.accept]
      ⟨{ (start sampleOptions).shared with starting := false, accepting := true },
        {⟨.waiting, []⟩}⟩ := .single (.accept rfl)
  have h₂ := h₁.snoc (.submit 3 sampleSubmission)
  have h₃ := h₂.snoc (.collector (.see rfl (List.cons_ne_nil sampleJob [])))
  have h₄ := h₃.snoc (.collector (.take rfl))
  have h₅ := h₄.snoc (.worker (@WorkerStep.take _ [sampleJob] [] rfl))
  have h₆ := h₅.snoc (.worker (.timely 5 (by decide)))
  have h₇ := h₆.snoc (.worker (.validated .holds))
  have h₈ := h₇.snoc (.worker (.request (List.cons_ne_nil _ _)))
  have h₉ := h₈.snoc (.worker (@WorkerStep.answered _ _ _ _ [⟨.refreshed, ""⟩] rfl))
  have h₁₀ := h₉.snoc (.worker (.record rfl rfl))
  have h₁₁ := h₁₀.snoc (.worker (.call rfl rfl))
  have h₁₂ := h₁₁.snoc (.worker (.called false))
  have h₁₃ := h₁₂.snoc (.worker .finish)
  have h₁₄ := h₁₃.snoc (.worker (.finished le_rfl))
  have h₁₅ := h₁₄.snoc (.stop rfl rfl)
  have h₁₆ := h₁₅.snoc (.collector (.done rfl rfl rfl))
  have h₁₇ := h₁₆.snoc (.worker (.exit rfl rfl))
  have h₁₈ := h₁₇.snoc (.stopReturn rfl rfl fun worker hworker => Multiset.mem_singleton.1 hworker)
  exact ⟨_, _, h₁₈, rfl, rfl⟩

theorem accounts_sample : ∃ labels st, Run (Step sampleOptions) (start sampleOptions) labels st ∧
    st.shared.ended = [(sampleJob, .completed)] ∧ st.shared.stopped = true ∧
    Accounts sampleOptions st := by
  obtain ⟨labels, st, hrun, hstopped, hended⟩ := exists_sampleRun
  exact ⟨labels, st, hrun, hended, hstopped, accounts (by decide) hrun⟩

end TinyImx.Gateway.StatusMaintenance
