import Mathlib.Data.Multiset.Range
import Mathlib.Tactic.Abel
import TinyImx.Gateway.StatusMaintenance

/-!
# Every accepted job ends once

Each accepted job is at one place: in a queue, with a worker, or ended.  The counters follow from
that, and the batches and results follow from what a worker knows about its batch.
-/

namespace TinyImx.Gateway.StatusMaintenance

open TinyImx.Cache OnlineStatusCache

variable {o : Options} {s s' : Shared} {w w' : Worker} {st st' : State} {label : Label}

/-! ## Where the jobs are -/

def Phase.jobs : Phase → List Job
  | .waiting => []
  | .exited => []
  | .filter _ rest valid _ => valid ++ rest
  | .validating _ job rest valid _ => valid ++ job :: rest
  | .refreshing _ valid _ => valid
  | .deliver valid _ i => valid.drop i
  | .rechecking valid _ i _ => valid.drop i
  | .calling valid _ i _ => valid.drop i

def Phase.batch : Phase → List Job
  | .filter batch _ _ _ => batch
  | .validating batch _ _ _ _ => batch
  | .refreshing batch _ _ => batch
  | _ => []

def Worker.jobs (w : Worker) : List Job := w.finishing.map Prod.fst ++ w.phase.jobs

def ids (jobs : List Job) : Multiset ℕ := ↑(jobs.map Job.id)

namespace Shared

def queued (s : Shared) : Multiset ℕ := ids s.input + ids s.ready.flatten

def endedIds (s : Shared) : Multiset ℕ := ids (s.ended.map Prod.fst)

end Shared

def State.live (st : State) : Multiset ℕ :=
  st.shared.queued + (st.workers.map fun w => ids w.jobs).sum

theorem ids_append (jobs jobs' : List Job) : ids (jobs ++ jobs') = ids jobs + ids jobs' := by
  rw [ids, List.map_append, ← Multiset.coe_add]
  rfl

theorem ids_cons (job : Job) (jobs : List Job) : ids (job :: jobs) = job.id ::ₘ ids jobs := rfl

theorem map_fst_map (jobs : List Job) (terminal : Terminal) :
    (jobs.map fun job => (job, terminal)).map Prod.fst = jobs := by
  rw [List.map_map]
  exact List.map_id jobs

/-! ## What a worker knows -/

def Answered (s : Shared) (jobs : List Job) (results : List RefreshOnlineIfMatchResult) : Prop :=
  results.length = jobs.length ∧
    ∃ batch, .refreshed batch jobs (jobs.map Job.request) (.returned results) ∈ s.callbacks

def Phase.Ok (o : Options) (s : Shared) : Phase → Prop
  | .waiting => True
  | .exited => s.collector = .done ∧ s.ready = []
  | .filter batch rest valid requests =>
    requests = valid.map Job.request ∧ (valid ++ rest).Sublist batch ∧ batch.length ≤ o.maxBatch
  | .validating batch job rest valid requests =>
    requests = valid.map Job.request ∧ (valid ++ job :: rest).Sublist batch ∧
      batch.length ≤ o.maxBatch
  | .refreshing batch valid requests =>
    requests = valid.map Job.request ∧ valid.Sublist batch ∧ batch.length ≤ o.maxBatch ∧ valid ≠ []
  | .deliver valid results i => Answered s valid results ∧ i ≤ valid.length
  | .rechecking valid results i job => Answered s valid results ∧ valid[i]? = some job
  | .calling valid results i job => Answered s valid results ∧ valid[i]? = some job

def Terminal.beforeRequest : Terminal → Prop
  | .deadline => True
  | .cancelledIo => True
  | .workerException => True
  | _ => False

structure Worker.Ok (o : Options) (s : Shared) (w : Worker) : Prop where
  phase : w.phase.Ok o s
  dropped : ∀ job ∈ w.phase.batch, job ∈ w.phase.jobs ∨
    ∃ terminal : Terminal, terminal.beforeRequest ∧
      ((job, terminal) ∈ w.finishing ∨ (job, terminal) ∈ s.ended)

/-- What the callbacks were called with.  The jobs that survive of a batch are those that have not
ended before the request. -/
def CallbackEvent.Faithful (o : Options) (s : Shared) : CallbackEvent → Prop
  | .refreshed batch jobs requests _ =>
    requests = jobs.map Job.request ∧ jobs.Sublist batch ∧
      (∀ job ∈ batch, job ∈ jobs ∨
        ∃ terminal : Terminal, terminal.beforeRequest ∧ (job, terminal) ∈ s.ended) ∧
      1 ≤ requests.length ∧ requests.length ≤ o.maxBatch
  | .delivered jobs results i job result =>
    jobs[i]? = some job ∧ results[i]? = some result ∧ Answered s jobs results

structure Later (s s' : Shared) : Prop where
  callbacks : ∀ event ∈ s.callbacks, event ∈ s'.callbacks
  ended : ∀ entry ∈ s.ended, entry ∈ s'.ended
  drained : s.collector = .done → s.ready = [] → s'.collector = .done ∧ s'.ready = []

theorem Answered.later {jobs : List Job} {results : List RefreshOnlineIfMatchResult}
    (h : Answered s jobs results) (hl : Later s s') : Answered s' jobs results :=
  ⟨h.1, h.2.imp fun _ hmem => hl.callbacks _ hmem⟩

theorem Phase.Ok.later {phase : Phase} (h : phase.Ok o s) (hl : Later s s') : phase.Ok o s' := by
  cases phase with
  | exited => exact hl.drained h.1 h.2
  | deliver valid results i => exact ⟨h.1.later hl, h.2⟩
  | rechecking valid results i job => exact ⟨h.1.later hl, h.2⟩
  | calling valid results i job => exact ⟨h.1.later hl, h.2⟩
  | _ => exact h

theorem Worker.Ok.later (h : w.Ok o s) (hl : Later s s') : w.Ok o s' :=
  ⟨h.phase.later hl, fun job hjob => (h.dropped job hjob).imp_right fun hended =>
    hended.imp fun _ hterminal => ⟨hterminal.1, hterminal.2.imp_right (hl.ended _)⟩⟩

theorem CallbackEvent.Faithful.later {event : CallbackEvent} (h : event.Faithful o s)
    (hl : Later s s') : event.Faithful o s' := by
  cases event with
  | refreshed batch jobs requests answer =>
    refine ⟨h.1, h.2.1, fun job hjob => ?_, h.2.2.2⟩
    exact (h.2.2.1 job hjob).imp_right fun hended =>
      hended.imp fun _ hterminal => ⟨hterminal.1, hl.ended _ hterminal.2⟩
  | delivered jobs results i job result => exact ⟨h.1, h.2.1, h.2.2.later hl⟩

theorem later_note (s : Shared) (event : CallbackEvent) : Later s (s.note event) :=
  ⟨fun _ h => List.mem_append_left _ h, fun _ h => h, fun hdone hready => ⟨hdone, hready⟩⟩

theorem later_rfl (hcallbacks : s'.callbacks = s.callbacks) (hended : s'.ended = s.ended)
    (hcollector : s'.collector = s.collector) (hready : s'.ready = s.ready) : Later s s' :=
  ⟨fun _ h => by rwa [hcallbacks], fun _ h => by rwa [hended],
    fun hdone hempty => ⟨hcollector.trans hdone, hready.trans hempty⟩⟩

theorem drop_of_getElem? {jobs : List Job} {i : ℕ} {job : Job} (h : jobs[i]? = some job) :
    jobs.drop i = job :: jobs.drop (i + 1) := by
  obtain ⟨hi, rfl⟩ := List.getElem?_eq_some_iff.1 h
  exact List.drop_eq_getElem_cons hi

/-! ## Steps of a worker -/

theorem WorkerStep.later (h : WorkerStep s w s' w') : Later s s' := by
  cases h with
  | finish =>
    exact ⟨fun _ h => h, fun _ h => List.mem_append_left _ h, fun hdone hempty => ⟨hdone, hempty⟩⟩
  | take hready =>
    refine ⟨fun _ h => h, fun _ h => h, fun _ hempty => ?_⟩
    rw [hready] at hempty
    cases hempty
  | answered => exact later_note _ _
  | mismatched => exact later_note _ _
  | threw => exact later_note _ _
  | call => exact later_note _ _
  | _ => exact later_rfl rfl rfl rfl rfl

/-- The jobs of a worker, the queues and the ended jobs are together what they were. -/
theorem WorkerStep.custody (hok : w.phase.Ok o s) (h : WorkerStep s w s' w') :
    s'.queued + ids w'.jobs + s'.endedIds = s.queued + ids w.jobs + s.endedIds := by
  have hsame : ∀ {jobs jobs' : List Job}, jobs'.Perm jobs →
      s.queued + ids jobs' + s.endedIds = s.queued + ids jobs + s.endedIds := fun hperm => by
    rw [ids, ids, Multiset.coe_eq_coe.2 (hperm.map Job.id)]
  have hdropped : ∀ (valid rest : List Job) (job : Job),
      s.queued + ids (job :: (valid ++ rest)) + s.endedIds =
        s.queued + ids (valid ++ job :: rest) + s.endedIds :=
    fun _ _ _ => hsame List.perm_middle.symm
  cases h with
  | @finish phase job terminal finishing =>
    have hended : (s.finish job terminal).endedIds = s.endedIds + {job.id} := by
      change ids ((s.ended ++ [(job, terminal)]).map Prod.fst) = _
      rw [List.map_append, ids_append]
      rfl
    change s.queued + ids (finishing.map Prod.fst ++ phase.jobs) + _ =
      s.queued + ids (job :: (finishing.map Prod.fst ++ phase.jobs)) + s.endedIds
    rw [hended, ids_cons, ← Multiset.singleton_add]
    abel
  | @take batch ready hready =>
    change ids s.input + ids ready.flatten + ids batch + s.endedIds =
      ids s.input + ids s.ready.flatten + 0 + s.endedIds
    rw [hready, List.flatten_cons, ids_append]
    abel
  | exit => rfl
  | @late batch rest valid job => exact hdropped valid rest job
  | timely => rfl
  | @validated batch rest valid job requests validity =>
    cases validity with
    | holds =>
      refine hsame ?_
      change (valid ++ [job] ++ rest).Perm (valid ++ job :: rest)
      simp_all
    | fails => exact hdropped valid rest job
    | throws => exact hdropped valid rest job
  | empty => rfl
  | @request batch valid =>
    refine hsame ?_
    change valid.Perm (valid ++ [])
    rw [List.append_nil]
  | answered => rfl
  | @mismatched batch valid =>
    refine hsame ?_
    change ((valid.map fun job => (job, Terminal.workerException)).map Prod.fst ++ []).Perm valid
    rw [map_fst_map, List.append_nil]
  | @threw batch valid =>
    refine hsame ?_
    change ((valid.map fun job => (job, Terminal.workerException)).map Prod.fst ++ []).Perm valid
    rw [map_fst_map, List.append_nil]
  | record => rfl
  | cancelled =>
    refine hsame ?_
    change (_ :: List.drop _ _).Perm (List.drop _ _)
    rw [drop_of_getElem? hok.2]
  | recheckThrew =>
    refine hsame ?_
    change (_ :: List.drop _ _).Perm (List.drop _ _)
    rw [drop_of_getElem? hok.2]
  | silent =>
    refine hsame ?_
    change (_ :: List.drop _ _).Perm (List.drop _ _)
    rw [drop_of_getElem? hok.2]
  | call => rfl
  | called =>
    refine hsame ?_
    change (_ :: List.drop _ _).Perm (List.drop _ _)
    rw [drop_of_getElem? hok.2]
  | @finished valid results i hi =>
    refine hsame ?_
    change ([] : List Job).Perm (valid.drop i)
    rw [List.drop_eq_nil_of_le hi]

theorem WorkerStep.phase_ok (hready : ∀ batch ∈ s.ready, batch.length ≤ o.maxBatch)
    (hok : w.phase.Ok o s) (h : WorkerStep s w s' w') : w'.phase.Ok o s' := by
  have hl := h.later
  cases h with
  | finish => exact hok.later hl
  | take hmem => exact ⟨rfl, List.Sublist.refl _, hready _ (by rw [hmem]; exact List.mem_cons_self)⟩
  | exit hempty hdone => exact ⟨hdone, hempty⟩
  | late =>
    exact ⟨hok.1, (List.Sublist.append_left (List.sublist_cons_self _ _) _).trans hok.2.1, hok.2.2⟩
  | timely => exact hok
  | @validated batch rest valid job requests validity =>
    have hrest : (valid ++ rest).Sublist batch :=
      (List.Sublist.append_left (List.sublist_cons_self _ _) _).trans hok.2.1
    cases validity with
    | holds =>
      refine ⟨?_, ?_, hok.2.2⟩
      · rw [hok.1, List.map_append]
        rfl
      · rw [List.append_assoc]
        exact hok.2.1
    | fails => exact ⟨hok.1, hrest, hok.2.2⟩
    | throws => exact ⟨hok.1, hrest, hok.2.2⟩
  | empty => trivial
  | request hne =>
    have hsub := hok.2.1
    rw [List.append_nil] at hsub
    exact ⟨hok.1, hsub, hok.2.2, hne⟩
  | @answered batch valid requests results hlength =>
    refine ⟨⟨hlength, batch, ?_⟩, Nat.zero_le _⟩
    rw [← hok.1]
    exact List.mem_append_right _ (List.mem_singleton_self _)
  | mismatched => trivial
  | threw => trivial
  | record hjob => exact ⟨hok.1.later hl, hjob⟩
  | cancelled => exact ⟨hok.1, (List.getElem?_eq_some_iff.1 hok.2).1⟩
  | recheckThrew => exact ⟨hok.1, (List.getElem?_eq_some_iff.1 hok.2).1⟩
  | silent => exact ⟨hok.1, (List.getElem?_eq_some_iff.1 hok.2).1⟩
  | call => exact ⟨hok.1.later hl, hok.2⟩
  | called => exact ⟨hok.1, (List.getElem?_eq_some_iff.1 hok.2).1⟩
  | finished => trivial

/-- A job that leaves the jobs of a worker before the request is one that it ends. -/
theorem WorkerStep.dropped (hok : w.Ok o s) (h : WorkerStep s w s' w') :
    ∀ job ∈ w'.phase.batch, job ∈ w'.phase.jobs ∨
      ∃ terminal : Terminal, terminal.beforeRequest ∧
        ((job, terminal) ∈ w'.finishing ∨ (job, terminal) ∈ s'.ended) := by
  have hl := h.later
  have hdropped := hok.dropped
  -- A job is taken out of the list while its end is among the calls of `Finish`.
  have hgone : ∀ (batch valid rest : List Job) (gone : Job) (terminal : Terminal),
      terminal.beforeRequest →
      (∀ job ∈ batch, job ∈ valid ++ gone :: rest ∨ ∃ terminal : Terminal,
        terminal.beforeRequest ∧ ((job, terminal) ∈ [] ∨ (job, terminal) ∈ s.ended)) →
      ∀ job ∈ batch, job ∈ valid ++ rest ∨ ∃ terminal' : Terminal,
        terminal'.beforeRequest ∧ ((job, terminal') ∈ [(gone, terminal)] ∨
          (job, terminal') ∈ s.ended) := by
    grind
  cases h with
  | finish =>
    intro job hjob
    refine (hdropped job hjob).imp_right fun hended =>
      hended.imp fun terminal hterminal => ⟨hterminal.1, ?_⟩
    rcases hterminal.2 with hmem | hmem
    · rcases List.mem_cons.1 hmem with heq | hmem
      · exact .inr (heq ▸ List.mem_append_right _ (List.mem_singleton_self _))
      · exact .inl hmem
    · exact .inr (hl.ended _ hmem)
  | take => exact fun job hjob => .inl hjob
  | @late batch rest valid job => exact hgone batch valid rest job .deadline trivial hdropped
  | timely => exact hdropped
  | @validated batch rest valid job requests validity =>
    cases validity with
    | holds =>
      intro j hj
      change j ∈ valid ++ [job] ++ rest ∨ _
      rw [List.append_assoc]
      exact hdropped j hj
    | fails => exact hgone batch valid rest job .cancelledIo trivial hdropped
    | throws => exact hgone batch valid rest job .workerException trivial hdropped
  | @request batch valid =>
    intro job hjob
    have hold := hdropped job hjob
    change job ∈ valid ++ [] ∨ _ at hold
    rw [List.append_nil] at hold
    exact hold
  | _ => exact fun job hjob => absurd hjob List.not_mem_nil

theorem WorkerStep.ok (hready : ∀ batch ∈ s.ready, batch.length ≤ o.maxBatch) (hok : w.Ok o s)
    (h : WorkerStep s w s' w') : w'.Ok o s' :=
  ⟨h.phase_ok hready hok.phase, h.dropped hok⟩

theorem WorkerStep.faithful (hok : w.Ok o s) (h : WorkerStep s w s' w')
    (hcallbacks : ∀ event ∈ s.callbacks, event.Faithful o s) :
    ∀ event ∈ s'.callbacks, event.Faithful o s' := by
  have hl := h.later
  have hnote : ∀ event, s' = s.note event → event.Faithful o s →
      ∀ e ∈ s'.callbacks, e.Faithful o s' := by
    rintro event rfl hevent e he
    rcases List.mem_append.1 he with he | he
    · exact (hcallbacks e he).later hl
    · rw [List.mem_singleton.1 he]
      exact hevent.later hl
  have hsame : s'.callbacks = s.callbacks → ∀ e ∈ s'.callbacks, e.Faithful o s' :=
    fun heq e he => (hcallbacks e (heq ▸ he)).later hl
  have hrefreshed : ∀ {batch valid : List Job} {requests : List OnlineStatusRefreshRequest}
      (answer : Answer), (⟨.refreshing batch valid requests, []⟩ : Worker).Ok o s →
      (CallbackEvent.refreshed batch valid requests answer).Faithful o s := by
    rintro batch valid requests answer ⟨⟨rfl, hsub, hlength, hne⟩, hdropped⟩
    rw [CallbackEvent.Faithful, List.length_map]
    refine ⟨rfl, hsub, fun job hjob => ?_, List.length_pos_iff.2 hne, hsub.length_le.trans hlength⟩
    exact (hdropped job hjob).imp_right fun hended =>
      hended.imp fun _ hterminal => ⟨hterminal.1, hterminal.2.resolve_left List.not_mem_nil⟩
  cases h with
  | answered => exact hnote _ rfl (hrefreshed _ hok)
  | mismatched => exact hnote _ rfl (hrefreshed _ hok)
  | threw => exact hnote _ rfl (hrefreshed _ hok)
  | call _ hresult => exact hnote _ rfl ⟨hok.phase.2, hresult, hok.phase.1⟩
  | _ => exact hsame rfl

structure Kept (s s' : Shared) : Prop where
  starting : s'.starting = s.starting
  accepting : s'.accepting = s.accepting
  stopping : s'.stopping = s.stopping
  joining : s'.joining = s.joining
  stopped : s'.stopped = s.stopped
  collector : s'.collector = s.collector
  input : s'.input = s.input
  accepted : s'.stats.accepted = s.stats.accepted
  ready : ∀ batch ∈ s'.ready, batch ∈ s.ready

theorem WorkerStep.kept (h : WorkerStep s w s' w') : Kept s s' := by
  cases h with
  | take hready =>
    refine ⟨rfl, rfl, rfl, rfl, rfl, rfl, rfl, rfl, fun batch hbatch => ?_⟩
    simp_all
  | _ => exact ⟨rfl, rfl, rfl, rfl, rfl, rfl, rfl, rfl, fun _ h => h⟩

theorem WorkerStep.counters (h : WorkerStep s w s' w') :
    (∃ job terminal, s' = s.finish job terminal ∧ (job, terminal) ∈ w.finishing) ∨
      (s'.ended = s.ended ∧ s'.stats.pending = s.stats.pending ∧
        s'.stats.terminal = s.stats.terminal) := by
  cases h with
  | finish => exact .inl ⟨_, _, rfl, List.mem_cons_self⟩
  | _ => exact .inr ⟨rfl, rfl, rfl⟩

/-! ## The accounts -/

structure Accounted (live : Multiset ℕ) (s : Shared) : Prop where
  custody : live + s.endedIds = Multiset.range s.stats.accepted
  pending : s.stats.pending = Multiset.card live
  terminal : ∀ terminal, s.stats.terminal terminal = s.ended.countP (·.2 = terminal)

theorem card_ids (jobs : List Job) : Multiset.card (ids jobs) = jobs.length := by
  rw [ids, Multiset.coe_card, List.length_map]

theorem Shared.card_endedIds (s : Shared) : Multiset.card s.endedIds = s.ended.length := by
  rw [Shared.endedIds, card_ids, List.length_map]

theorem length_eq_countP (ended : List (Job × Terminal)) :
    ended.length = ended.countP (·.2 = .completed) + ended.countP (·.2 = .deadline) +
      ended.countP (·.2 = .cancelledIo) + ended.countP (·.2 = .cancelledCallback) +
      ended.countP (·.2 = .workerException) + ended.countP (·.2 = .completionException) := by
  induction ended with
  | nil => rfl
  | cons entry ended ih =>
    obtain ⟨job, terminal⟩ := entry
    cases terminal <;> simp [ih] <;> omega

theorem Accounted.terminals {live : Multiset ℕ} (h : Accounted live s) :
    s.stats.terminals = s.ended.length := by
  rw [length_eq_countP, Stats.terminals]
  simp only [h.terminal]

theorem Accounted.accepted {live : Multiset ℕ} (h : Accounted live s) :
    s.stats.accepted = s.stats.pending + s.stats.terminals := by
  rw [h.terminals, h.pending, ← s.card_endedIds, ← Multiset.card_add, h.custody,
    Multiset.card_range]

theorem Accounted.of_eq {live live' : Multiset ℕ} (h : Accounted live s)
    (hcustody : live' + s'.endedIds = live + s.endedIds) (hended : s'.ended = s.ended)
    (haccepted : s'.stats.accepted = s.stats.accepted)
    (hpending : s'.stats.pending = s.stats.pending)
    (hterminal : s'.stats.terminal = s.stats.terminal) : Accounted live' s' := by
  have hlive : live' = live := by
    rw [Shared.endedIds, hended] at hcustody
    exact add_right_cancel hcustody
  refine ⟨?_, ?_, fun terminal => ?_⟩
  · rw [hcustody, haccepted, h.custody]
  · rw [hpending, hlive, h.pending]
  · rw [hterminal, hended, h.terminal]

theorem Accounted.finish {live live' : Multiset ℕ} {job : Job} {terminal : Terminal}
    (h : Accounted live s)
    (hcustody : live' + (s.finish job terminal).endedIds = live + s.endedIds) :
    Accounted live' (s.finish job terminal) := by
  refine ⟨hcustody.trans h.custody, ?_, fun t => ?_⟩
  · have hcard := congrArg Multiset.card hcustody
    rw [Multiset.card_add, Multiset.card_add, Shared.card_endedIds, Shared.card_endedIds] at hcard
    change _ + (s.ended ++ [(job, terminal)]).length = _ at hcard
    rw [List.length_append, List.length_singleton] at hcard
    change s.stats.pending - 1 = _
    rw [h.pending]
    omega
  · change Function.update s.stats.terminal terminal (s.stats.terminal terminal + 1) t =
      (s.ended ++ [(job, terminal)]).countP (·.2 = t)
    rw [List.countP_append, List.countP_singleton, ← h.terminal t]
    by_cases ht : terminal = t
    · subst ht
      simp
    · rw [Function.update_of_ne (Ne.symm ht)]
      simp [ht]

/-! ## The states of a run -/

structure Shared.Ok (o : Options) (s : Shared) : Prop where
  callbacks : ∀ event ∈ s.callbacks, event.Faithful o s
  ready : ∀ batch ∈ s.ready, batch.length ≤ o.maxBatch
  stopping : s.stopping = true → s.accepting = false ∧ s.starting = false
  joining : s.joining = true → s.stopping = true
  flushing : s.collector = .flushing → s.input ≠ []
  done : s.collector = .done → s.stopping = true ∧ s.input = []
  bounded : s.stats.pending ≤ o.maxPending

structure State.Inv (o : Options) (st : State) : Prop where
  shared : st.shared.Ok o
  workers : ∀ worker ∈ st.workers, worker.Ok o st.shared
  size : Multiset.card st.workers = o.workers
  accounted : Accounted st.live st.shared
  stopped : st.shared.stopped = true →
    st.shared.collector = .done ∧ ∀ worker ∈ st.workers, worker = ⟨.exited, []⟩

theorem start_inv (o : Options) : (start o).Inv o where
  shared := {
    callbacks := fun _ h => absurd h List.not_mem_nil
    ready := fun _ h => absurd h List.not_mem_nil
    stopping := fun h => by cases h
    joining := fun h => by cases h
    flushing := fun h => by cases h
    done := fun h => by cases h
    bounded := Nat.zero_le _ }
  workers := fun worker hworker => by
    rw [Multiset.eq_of_mem_replicate hworker]
    exact ⟨trivial, fun _ h => absurd h List.not_mem_nil⟩
  size := Multiset.card_replicate _ _
  accounted := by
    have hlive : (start o).live = 0 := by
      change 0 + ((Multiset.replicate o.workers (⟨.waiting, []⟩ : Worker)).map fun w =>
        ids w.jobs).sum = 0
      rw [Multiset.map_replicate, zero_add]
      exact Multiset.sum_eq_zero fun _ h => Multiset.eq_of_mem_replicate h
    rw [hlive]
    exact ⟨rfl, rfl, fun _ => rfl⟩
  stopped := fun h => by cases h

theorem CollectorStep.queued (h : CollectorStep o s s') : s'.queued = s.queued := by
  cases h with
  | take =>
    change ids (s.input.drop _) + ids (s.ready ++ [s.input.take _]).flatten = s.queued
    rw [List.flatten_append, ids_append, List.flatten_singleton, Shared.queued,
      add_comm (ids s.ready.flatten), ← add_assoc, add_comm (ids (s.input.drop _)), ← ids_append,
      List.take_append_drop]
  | _ => rfl

theorem CollectorStep.later (h : CollectorStep o s s') : Later s s' := by
  cases h with
  | see hwaiting =>
    refine ⟨fun _ h => h, fun _ h => h, fun hdone => ?_⟩
    rw [hwaiting] at hdone
    cases hdone
  | take hflushing =>
    refine ⟨fun _ h => h, fun _ h => h, fun hdone => ?_⟩
    rw [hflushing] at hdone
    cases hdone
  | done => exact ⟨fun _ h => h, fun _ h => h, fun _ hempty => ⟨rfl, hempty⟩⟩

theorem CollectorStep.ok (hok : s.Ok o) (h : CollectorStep o s s') : s'.Ok o := by
  have hcallbacks : ∀ event ∈ s.callbacks, event.Faithful o s' :=
    fun event hevent => (hok.callbacks event hevent).later h.later
  cases h with
  | see hwaiting hinput =>
    exact ⟨hcallbacks, hok.ready, hok.stopping, hok.joining, fun _ => hinput,
      (fun h => by cases h), hok.bounded⟩
  | take hflushing =>
    refine ⟨hcallbacks, fun batch hbatch => ?_, hok.stopping, hok.joining, (fun h => by cases h),
      (fun h => by cases h), hok.bounded⟩
    rcases List.mem_append.1 hbatch with hbatch | hbatch
    · exact hok.ready batch hbatch
    · rw [List.mem_singleton.1 hbatch, List.length_take]
      exact (Nat.min_le_left _ _).trans (Nat.min_le_left _ _)
  | done hwaiting hinput hstop =>
    exact ⟨hcallbacks, hok.ready, hok.stopping, hok.joining, (fun h => by cases h),
      fun _ => ⟨hstop, hinput⟩, hok.bounded⟩

theorem WorkerStep.shared_ok (hok : s.Ok o) (hw : w.Ok o s) (h : WorkerStep s w s' w') :
    s'.Ok o := by
  have hk := h.kept
  refine ⟨h.faithful hw hok.callbacks, fun batch hbatch => hok.ready batch (hk.ready batch hbatch),
    ?_, ?_, ?_, ?_, ?_⟩
  · rw [hk.stopping, hk.accepting, hk.starting]
    exact hok.stopping
  · rw [hk.joining, hk.stopping]
    exact hok.joining
  · rw [hk.collector, hk.input]
    exact hok.flushing
  · rw [hk.collector, hk.stopping, hk.input]
    exact hok.done
  · rcases h.counters with ⟨job, terminal, rfl, _⟩ | ⟨_, hpending, _⟩
    · exact (Nat.sub_le _ _).trans hok.bounded
    · rw [hpending]
      exact hok.bounded

theorem trySubmit_cases (o : Options) (s : Shared) (now : ℤ) (submission : Submission) :
    ((s.trySubmit o now submission).1 ≠ .accepted ∧ ∃ stats : Stats,
      (s.trySubmit o now submission).2 = { s with stats := stats } ∧
      stats.accepted = s.stats.accepted ∧ stats.pending = s.stats.pending ∧
      stats.terminal = s.stats.terminal) ∨
    ((s.trySubmit o now submission).1 = .accepted ∧ s.accepting = true ∧
      s.stats.pending < o.maxPending ∧ ∃ (job : Job) (stats : Stats),
      (s.trySubmit o now submission).2 = { s with input := s.input ++ [job], stats := stats } ∧
      job.id = s.stats.accepted ∧ stats.accepted = s.stats.accepted + 1 ∧
      stats.pending = s.stats.pending + 1 ∧ stats.terminal = s.stats.terminal) := by
  unfold Shared.trySubmit
  split
  · exact .inl ⟨by simp, _, rfl, rfl, rfl, rfl⟩
  · split
    · exact .inl ⟨by simp, _, rfl, rfl, rfl, rfl⟩
    · split
      · exact .inl ⟨by simp, _, rfl, rfl, rfl, rfl⟩
      · grind

theorem live_cons (s : Shared) (w : Worker) (workers : Multiset Worker) :
    State.live ⟨s, w ::ₘ workers⟩ =
      s.queued + ids w.jobs + (workers.map fun w => ids w.jobs).sum := by
  rw [State.live, Multiset.map_cons, Multiset.sum_cons, add_assoc]

variable {workers : Multiset Worker}

theorem State.Inv.of_shared (h : State.Inv o ⟨s, workers⟩)
    (hok : s'.Ok o) (hl : Later s s') (haccounted : Accounted (State.live ⟨s', workers⟩) s')
    (hstopped : s'.stopped = true →
      s'.collector = .done ∧ ∀ worker ∈ workers, worker = ⟨.exited, []⟩) :
    State.Inv o ⟨s', workers⟩ :=
  ⟨hok, fun worker hworker => (h.workers worker hworker).later hl, h.size, haccounted, hstopped⟩

theorem submit_inv (h : State.Inv o ⟨s, workers⟩) (now : ℤ)
    (submission : Submission) : State.Inv o ⟨(s.trySubmit o now submission).2, workers⟩ := by
  rcases trySubmit_cases o s now submission with
    ⟨_, stats, heq, haccepted, hpending, hterminal⟩ |
      ⟨_, haccepting, hroom, job, stats, heq, hid, haccepted, hpending, hterminal⟩ <;> rw [heq]
  · have hl : Later s { s with stats := stats } := later_rfl rfl rfl rfl rfl
    refine h.of_shared ⟨fun event hevent => (h.shared.callbacks event hevent).later hl,
      h.shared.ready, h.shared.stopping, h.shared.joining, h.shared.flushing, h.shared.done,
      hpending.trans_le h.shared.bounded⟩ hl ?_ h.stopped
    exact h.accounted.of_eq rfl rfl haccepted hpending hterminal
  · have hl : Later s { s with input := s.input ++ [job], stats := stats } :=
      later_rfl rfl rfl rfl rfl
    refine h.of_shared ⟨fun event hevent => (h.shared.callbacks event hevent).later hl,
      h.shared.ready, h.shared.stopping, h.shared.joining, fun _ => by simp, fun hdone => ?_,
      hpending.trans_le hroom⟩ hl ?_ h.stopped
    · rw [(h.shared.stopping (h.shared.done hdone).1).1] at haccepting
      cases haccepting
    · have hlive : State.live ⟨{ s with input := s.input ++ [job], stats := stats }, workers⟩ =
          s.stats.accepted ::ₘ State.live ⟨s, workers⟩ := by
        change ids (s.input ++ [job]) + ids s.ready.flatten + _ = s.stats.accepted ::ₘ
          (ids s.input + ids s.ready.flatten + _)
        rw [ids_append, ← hid, ← Multiset.singleton_add]
        change ids s.input + {job.id} + ids s.ready.flatten + _ = _
        abel
      rw [hlive]
      refine ⟨?_, ?_, fun terminal => ?_⟩
      · change _ + s.endedIds = Multiset.range stats.accepted
        rw [haccepted, Multiset.range_succ, Multiset.cons_add, h.accounted.custody]
      · change stats.pending = _
        rw [hpending, Multiset.card_cons, h.accounted.pending]
      · change stats.terminal terminal = s.ended.countP _
        rw [hterminal, h.accounted.terminal]

theorem collector_inv (h : State.Inv o ⟨s, workers⟩)
    (hstep : CollectorStep o s s') : State.Inv o ⟨s', workers⟩ := by
  have hlive : State.live ⟨s', workers⟩ = State.live ⟨s, workers⟩ := by
    rw [State.live, State.live, hstep.queued]
  refine h.of_shared (hstep.ok h.shared) hstep.later ?_ ?_
  · rw [hlive]
    cases hstep with
    | _ => exact h.accounted.of_eq rfl rfl rfl rfl rfl
  · cases hstep with
    | see hwaiting =>
      intro hstopped
      rw [(h.stopped hstopped).1] at hwaiting
      cases hwaiting
    | take hflushing =>
      intro hstopped
      rw [(h.stopped hstopped).1] at hflushing
      cases hflushing
    | done => exact fun hstopped => ⟨rfl, (h.stopped hstopped).2⟩

theorem WorkerStep.not_exited (h : WorkerStep s w s' w') : w ≠ ⟨.exited, []⟩ := by
  rintro rfl
  cases h

theorem worker_inv (h : State.Inv o ⟨s, w ::ₘ workers⟩)
    (hstep : WorkerStep s w s' w') : State.Inv o ⟨s', w' ::ₘ workers⟩ := by
  have hw : w.Ok o s := h.workers w (Multiset.mem_cons_self _ _)
  have hcustody : State.live ⟨s', w' ::ₘ workers⟩ + s'.endedIds =
      State.live ⟨s, w ::ₘ workers⟩ + s.endedIds := by
    rw [live_cons, live_cons, add_right_comm, hstep.custody hw.phase, add_right_comm]
  refine ⟨hstep.shared_ok h.shared hw, fun worker hworker => ?_, ?_, ?_, fun hstopped => ?_⟩
  · rcases Multiset.mem_cons.1 hworker with rfl | hworker
    · exact hstep.ok h.shared.ready hw
    · exact (h.workers worker (Multiset.mem_cons_of_mem hworker)).later hstep.later
  · rw [Multiset.card_cons, ← h.size, Multiset.card_cons]
  · rcases hstep.counters with ⟨job, terminal, rfl, _⟩ | ⟨hended, hpending, hterminal⟩
    · exact h.accounted.finish hcustody
    · exact h.accounted.of_eq hcustody hended hstep.kept.accepted hpending hterminal
  · rw [hstep.kept.stopped] at hstopped
    exact absurd ((h.stopped hstopped).2 w (Multiset.mem_cons_self _ _)) hstep.not_exited

theorem Step.inv (hinv : st.Inv o) (h : Step o st label st') : st'.Inv o := by
  cases h with
  | @accept s workers hstarting =>
    have hl : Later s { s with starting := false, accepting := true } := later_rfl rfl rfl rfl rfl
    have hnot : s.stopping ≠ true := fun hstop => by
      rw [(hinv.shared.stopping hstop).2] at hstarting
      cases hstarting
    exact hinv.of_shared ⟨fun event hevent => (hinv.shared.callbacks event hevent).later hl,
      hinv.shared.ready, fun hstop => absurd hstop hnot, hinv.shared.joining, hinv.shared.flushing,
      hinv.shared.done, hinv.shared.bounded⟩ hl (hinv.accounted.of_eq rfl rfl rfl rfl rfl)
      hinv.stopped
  | submit now submission => exact submit_inv hinv now submission
  | @stop s workers hstart =>
    have hl : Later s { s with accepting := false, stopping := true, joining := true } :=
      later_rfl rfl rfl rfl rfl
    exact hinv.of_shared ⟨fun event hevent => (hinv.shared.callbacks event hevent).later hl,
      hinv.shared.ready, fun _ => ⟨rfl, hstart⟩, fun _ => rfl, hinv.shared.flushing,
      fun hdone => ⟨rfl, (hinv.shared.done hdone).2⟩, hinv.shared.bounded⟩ hl
      (hinv.accounted.of_eq rfl rfl rfl rfl rfl) hinv.stopped
  | @stopReturn s workers hjoin hcollector hworkers =>
    have hl : Later s { s with joining := false, stopped := true } := later_rfl rfl rfl rfl rfl
    exact hinv.of_shared ⟨fun event hevent => (hinv.shared.callbacks event hevent).later hl,
      hinv.shared.ready, hinv.shared.stopping, (fun h => by cases h), hinv.shared.flushing,
      hinv.shared.done, hinv.shared.bounded⟩ hl (hinv.accounted.of_eq rfl rfl rfl rfl rfl)
      fun _ => ⟨hcollector, hworkers⟩
  | collector hstep => exact collector_inv hinv hstep
  | worker hstep => exact worker_inv hinv hstep

theorem run_inv {labels : List Label} (h : Run (Step o) (start o) labels st) : st.Inv o :=
  h.invariant (fun _ _ _ hinv hstep => Step.inv hinv hstep) (start_inv o)

end TinyImx.Gateway.StatusMaintenance
