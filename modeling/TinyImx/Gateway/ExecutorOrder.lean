import TinyImx.Gateway.ExecutorCustody

/-!
# The order of the tasks of a lane

The tasks of a lane run one at a time.  They are started, and their completions are handed to the
dispatchers, in the order of their `Submit`s, whatever the interleaving.
-/

namespace TinyImx.Gateway.Executor

variable {o : Options} {s s' : State}

/-! ## The line of a lane -/

def State.line (s : State) (l : Lane) : List Task := s.taken l ++ s.queue l

variable (o) in
/-- The tasks of a lane stand in the order of their numbers, before the one that is admitted. -/
structure State.InLine (s : State) : Prop where
  lane : ∀ l, ∀ t ∈ s.line l, o.lane t = some l
  sorted : ∀ l, (s.line l).Pairwise (·.id < ·.id)
  below : ∀ l, ∀ t ∈ s.line l, t.id < s.submitted
  fresh : ∀ t, s.admission = some (t, .reserved) →
    t.id < s.submitted ∧ ∀ l, ∀ u ∈ s.line l, u.id < t.id
  jobs : ∀ t, .task t ∈ s.jobs → o.lane t = none

theorem State.InLine.mono (h : s.InLine o) (hline : ∀ l, (s'.line l).Sublist (s.line l))
    (hsub : s.submitted ≤ s'.submitted)
    (hadm : ∀ t, s'.admission = some (t, .reserved) → s.admission = some (t, .reserved))
    (hjobs : ∀ t, .task t ∈ s'.jobs → o.lane t = none) : s'.InLine o where
  lane l t ht := h.lane l t ((hline l).subset ht)
  sorted l := (h.sorted l).sublist (hline l)
  below l t ht := lt_of_lt_of_le (h.below l t ((hline l).subset ht)) hsub
  fresh t ht := by
    obtain ⟨hlt, hfresh⟩ := h.fresh t (hadm t ht)
    exact ⟨lt_of_lt_of_le hlt hsub, fun l u hu => hfresh l u ((hline l).subset hu)⟩
  jobs := hjobs

theorem State.line_enqueue (l : Lane) (t : Task) :
    (s.enqueue l t).line = Function.update s.line l (s.line l ++ [t]) := by
  funext l'
  by_cases h : l' = l
  · subst h
    simp [State.line, State.enqueue]
  · simp [State.line, State.enqueue, h]

theorem State.InLine.enqueue (h : s.InLine o) {t : Task} {l : Lane}
    (hadm : s.admission = some (t, .reserved)) (hl : o.lane t = some l)
    (hline : s'.line = (s.enqueue l t).line) (hsub : s'.submitted = s.submitted)
    (hadm' : ∀ u, s'.admission ≠ some (u, .reserved)) (hjobs : s'.jobs = s.jobs) : s'.InLine o := by
  obtain ⟨hlt, hfresh⟩ := h.fresh t hadm
  have hcases : ∀ l' u, u ∈ s'.line l' → u ∈ s.line l' ∨ l' = l ∧ u = t := by
    intro l' u hu
    rw [hline, State.line_enqueue] at hu
    by_cases heq : l' = l
    · subst heq
      simpa using hu
    · exact .inl (by simpa [heq] using hu)
  refine ⟨fun l' u hu => ?_, fun l' => ?_, fun l' u hu => ?_, fun u hu => absurd hu (hadm' u), ?_⟩
  · rcases hcases l' u hu with hold | ⟨rfl, rfl⟩
    · exact h.lane l' u hold
    · exact hl
  · rw [hline, State.line_enqueue]
    by_cases heq : l' = l
    · subst heq
      simpa [List.pairwise_append] using ⟨h.sorted l', hfresh l'⟩
    · simpa [heq] using h.sorted l'
  · rw [hsub]
    rcases hcases l' u hu with hold | ⟨rfl, rfl⟩
    · exact h.below l' u hold
    · exact hlt
  · rw [hjobs]
    exact h.jobs

theorem State.line_clear (l l' : Lane) :
    List.Sublist (s.taken l' ++ Function.update s.queue l [] l') (s.line l') := by
  refine (List.Sublist.refl _).append ?_
  by_cases h : l' = l
  · subst h
    simp
  · simp [h]

theorem State.line_dequeue {l : Lane} {t : Task} {rest : List Task} (hq : s.queue l = t :: rest) :
    (s.dequeue l t rest).line = s.line := by
  funext l'
  by_cases heq : l' = l
  · subst heq
    simp [State.line, State.dequeue, hq]
  · simp [State.line, State.dequeue, heq]

theorem Admit.inLine (h : Admit o s s') (hi : s.InLine o) : s'.InLine o := by
  cases h with
  | @unordered t hadm hl _ =>
    refine hi.mono (fun _ => .refl _) le_rfl (by simp) fun u hu => ?_
    rcases List.mem_append.1 hu with hu | hu
    · exact hi.jobs u hu
    · obtain rfl : u = t := by simpa using hu
      exact hl
  | joinStripe hadm hl _ _ | openStripe hadm hl _ _ | joinKey hadm hl _ _ | openKey hadm hl _ _ =>
    exact hi.enqueue hadm hl rfl rfl (by simp) rfl
  | schedule hadm hl _ =>
    exact hi.mono (fun _ => .refl _) le_rfl (by simp) fun u hu =>
      hi.jobs u (by simpa [State.push] using hu)
  | unwindStripe hadm _ | unwindKey hadm _ =>
    exact hi.mono (fun l => @State.line_clear s _ l) le_rfl (by simp) hi.jobs
  | _ => exact hi.mono (fun _ => .refl _) le_rfl (by simp) hi.jobs

variable {t : Thread} {new : Multiset Thread}

theorem Act.inLine (h : Act o s t s' new) (hi : s.InLine o) : s'.InLine o := by
  cases h with
  | call hcall =>
    cases hcall with
    | @submit t hid hadm _ _ =>
      refine ⟨hi.lane, hi.sorted, fun l u hu => Nat.lt_succ_of_lt (hi.below l u hu), ?_, hi.jobs⟩
      intro u hu
      obtain rfl : t = u := by simpa using hu
      exact ⟨hid ▸ Nat.lt_succ_self _, fun l v hv => hid ▸ hi.below l v hv⟩
    | refuse => exact hi.mono (fun _ => .refl _) (Nat.le_succ _) (fun _ h => h) hi.jobs
    | enter ha => exact ha.inLine hi
    | _ => exact hi.mono (fun _ => .refl _) le_rfl (fun _ h => h) hi.jobs
  | popTask hjobs | popDrain hjobs | popResume hjobs _ | popStale hjobs _ =>
    exact hi.mono (fun _ => .refl _) le_rfl (fun _ h => h) fun u hu =>
      hi.jobs u (hjobs ▸ List.mem_cons_of_mem _ hu)
  | @drainTake l t rest hq =>
    have hline := State.line_dequeue hq
    exact hi.mono (fun l' => hline ▸ .refl _) le_rfl (fun _ h => h) hi.jobs
  | posted _ | handoverStripe _ _ | post _ =>
    exact hi.mono (fun _ => .refl _) le_rfl (fun _ h => h) fun u hu =>
      hi.jobs u (by simpa [State.push] using hu)
  | @work _ back _ | @asyncWork _ back _ =>
    cases back <;> exact hi.mono (fun _ => .refl _) le_rfl (fun _ h => h) hi.jobs
  | @hand t _ _ | @handThrow t _ _ | @handTerminal t _ _ _ | @handTerminalThrow t _ _ _ =>
    cases hl : o.lane t <;> exact hi.mono (fun _ => .refl _) le_rfl (fun _ h => h) hi.jobs
  | _ => exact hi.mono (fun _ => .refl _) le_rfl (fun _ h => h) hi.jobs

/-! ## The tasks at work -/

/-- A task of a lane was taken, and comes after every task of the lane that has the mark. -/
def State.Ahead (s : State) (m : Mark) (l : Lane) (t : Task) : Prop :=
  t ∈ s.taken l ∧ ∀ u ∈ s.marks (m, l), u.id < t.id

variable (o) in
/-- The tasks of a lane get their marks in the order of their numbers. -/
structure State.Marked (s : State) : Prop where
  sorted : ∀ k, (s.marks k).Pairwise (·.id < ·.id)
  taken : ∀ k, s.marks k ⊆ s.taken k.2
  suspended : ∀ t ∈ s.suspended, ∀ l, o.lane t = some l → s.Ahead .handed l t

def Thread.due : Thread → Mark → Option Task
  | exec t _, _ | working t _, .handed | dispatch t _, .handed | terminal t _, .handed
  | count t .deadlineExpired _, .handed => some t
  | _, _ => none

variable (o) in
/-- A thread with a task of a lane owns the lane, and the task is the next of the lane. -/
structure Thread.Placed (s : State) (u : Thread) : Prop where
  fine : u.Fine o
  due : ∀ m t l, u.due m = some t → o.lane t = some l → u.lane o = some l ∧ s.Ahead m l t

/-- A step that leaves the tasks at work of the lanes but `mine` where they are. -/
def Frame (mine : Option Lane) (s s' : State) : Prop :=
  ∀ l, mine ≠ some l → (∀ m, s'.marks (m, l) = s.marks (m, l)) ∧ s'.taken l = s.taken l

theorem Frame.refl {mine : Option Lane} : Frame mine s s :=
  fun _ _ => ⟨fun _ => Eq.refl _, Eq.refl _⟩

theorem Thread.Placed.frame {u : Thread} {mine : Option Lane} (h : u.Placed o s)
    (hf : Frame mine s s') (hne : ∀ l, mine = some l → u.lane o ≠ some l) : u.Placed o s' := by
  refine ⟨h.fine, fun m t l ht hl => ?_⟩
  obtain ⟨hlane, hahead⟩ := h.due m t l ht hl
  obtain ⟨hmarks, htaken⟩ := hf l fun hm => hne l hm hlane
  exact ⟨hlane, htaken ▸ hahead.1, hmarks m ▸ hahead.2⟩

theorem State.frame_mark {mine back : Option Lane} (h : ∀ l, back = some l → mine = some l)
    (m : Mark) (t : Task) : Frame mine s (s.mark m back t) := by
  intro l hl
  cases back with
  | none => exact ⟨fun _ => rfl, rfl⟩
  | some l' =>
    have hne : l ≠ l' := fun heq => hl (heq ▸ h l' rfl)
    exact ⟨fun m' => by simp [State.mark, hne], rfl⟩

/-- A thread touches the tasks at work of its own lane only. -/
theorem Act.frame {t : Thread} {new : Multiset Thread} (h : Act o s t s' new)
    (ht : t.Placed o s) : Frame (t.lane o) s s' := by
  cases h with
  | call hcall =>
    cases hcall with
    | enter ha => cases ha <;> exact .refl
    | _ => exact .refl
  | @drainTake l t rest _ =>
    intro l' hl'
    have hne : l' ≠ l := fun h => hl' (h ▸ rfl)
    exact ⟨fun _ => rfl, Function.update_of_ne hne _ _⟩
  | work _ => exact State.frame_mark (fun _ hl => hl) _ _
  | @asyncWork t back _ => exact @State.frame_mark (s.suspend t) back back (fun _ hl => hl) _ t
  | @hand t _ _ | @handThrow t _ _ | @handTerminal t _ _ _ | @handTerminalThrow t _ _ _ =>
    exact State.frame_mark (fun l hl => (ht.due .handed t l rfl hl).1) _ t
  | _ => exact .refl

theorem State.Marked.mark (h : s.Marked o) {m : Mark} {back : Option Lane} {t : Task}
    (hahead : ∀ l, back = some l → s.Ahead m l t)
    (halone : m = .handed → ∀ l, back = some l → ∀ u ∈ s.suspended, o.lane u ≠ some l) :
    (s.mark m back t).Marked o := by
  cases back with
  | none => exact h
  | some l =>
    obtain ⟨htaken, hlast⟩ := hahead l rfl
    refine ⟨fun k => ?_, fun k => ?_, fun u hu l' hl' => ?_⟩
    · by_cases heq : k = (m, l)
      · subst heq
        simpa [State.mark, List.pairwise_append] using ⟨h.sorted (m, l), hlast⟩
      · simpa [State.mark, heq] using h.sorted k
    · by_cases heq : k = (m, l)
      · subst heq
        simpa [State.mark] using ⟨h.taken (m, l), htaken⟩
      · simpa [State.mark, heq] using h.taken k
    · have hne : ¬ (.handed = m ∧ l' = l) := fun heq =>
        halone heq.1.symm l rfl u hu (heq.2 ▸ hl')
      simpa [State.Ahead, State.mark, hne] using h.suspended u hu l' hl'

/-- A step keeps the marks, when no other task at work has the thread's lane. -/
theorem Act.marked {t : Thread} {new : Multiset Thread} (h : Act o s t s' new) (ht : t.Placed o s)
    (hm : s.Marked o) (halone : ∀ l, t.lane o = some l → ∀ u ∈ s.suspended, o.lane u ≠ some l) :
    s'.Marked o := by
  cases h with
  | call hcall =>
    cases hcall with
    | enter ha => cases ha <;> exact ⟨hm.sorted, hm.taken, hm.suspended⟩
    | _ => exact ⟨hm.sorted, hm.taken, hm.suspended⟩
  | @drainTake l t rest hq =>
    have hsub : ∀ l', s.taken l' ⊆ (s.dequeue l t rest).taken l' := by
      intro l'
      by_cases heq : l' = l
      · subst heq
        simp [State.dequeue]
      · simp [State.dequeue, heq]
    refine ⟨hm.sorted, fun k _ hx => hsub k.2 (hm.taken k hx), fun u hu l' hl' => ?_⟩
    obtain ⟨hmem, hlast⟩ := hm.suspended u hu l' hl'
    exact ⟨hsub l' hmem, hlast⟩
  | @work t back _ =>
    obtain rfl : back = o.lane t := ht.fine
    exact hm.mark (fun l hl => (ht.due .started t l rfl hl).2) fun h => by cases h
  | @asyncWork t back _ =>
    obtain rfl : back = o.lane t := ht.fine
    have hsuspend : (s.suspend t).Marked o := by
      refine ⟨hm.sorted, hm.taken, fun u hu l hl => ?_⟩
      rcases Multiset.mem_cons.1 hu with rfl | hu
      · exact (ht.due .handed u l rfl hl).2
      · exact hm.suspended u hu l hl
    exact hsuspend.mark (fun l hl => (ht.due .started t l rfl hl).2) fun h => by cases h
  | finishError _ | finishEmpty _ | finishDone _ =>
    exact ⟨hm.sorted, hm.taken, fun u hu => hm.suspended u (Multiset.mem_of_mem_erase hu)⟩
  | @hand t _ _ | @handThrow t _ _ | @handTerminal t _ _ _ | @handTerminalThrow t _ _ _ =>
    exact hm.mark (fun l hl => (ht.due .handed t l rfl hl).2)
      fun _ l hl => halone l (ht.due .handed t l rfl hl).1
  | _ => exact ⟨hm.sorted, hm.taken, hm.suspended⟩

theorem Thread.Placed.of_idle {u : Thread} (hfine : u.Fine o) (hidle : ∀ m, u.due m = none) :
    u.Placed o s :=
  ⟨hfine, fun m t l ht => by simp [hidle] at ht⟩

/-- A thread that goes on with its task after the start. -/
theorem Thread.Placed.next {u u' : Thread} (h : u.Placed o s) (hfine : u'.Fine o)
    (hstart : u'.due .started = none) (hhand : u'.due .handed = u.due .handed)
    (hlane : u'.lane o = u.lane o) (htaken : s'.taken = s.taken)
    (hmarks : ∀ l, s'.marks (.handed, l) = s.marks (.handed, l)) : u'.Placed o s' := by
  refine ⟨hfine, fun m t l ht hl => ?_⟩
  cases m with
  | started => simp [hstart] at ht
  | handed =>
    obtain ⟨hown, hahead⟩ := h.due .handed t l (hhand ▸ ht) hl
    exact ⟨hlane.trans hown, htaken ▸ hahead.1, hmarks l ▸ hahead.2⟩

theorem placed_singleton {u : Thread} (h : u.Placed o s) :
    ∀ v ∈ ({u} : Multiset Thread), v.Placed o s :=
  fun _ hv => Multiset.mem_singleton.1 hv ▸ h

theorem after_fine {t : Task} {back : Option Lane} (h : back = o.lane t) : (after t back).Fine o := by
  rcases back with _ | (i | ⟨i, k⟩)
  · trivial
  · trivial
  · exact h.symm

theorem Act.placed {t : Thread} {new : Multiset Thread} (h : Act o s t s' new) (ht : t.Placed o s)
    (hi : s.InLine o) (hm : s.Marked o) : ∀ u ∈ new, u.Placed o s' := by
  have hfine := ht.fine
  cases h with
  | call hcall =>
    have houtside : Thread.outside.Placed o s' := .of_idle trivial fun _ => rfl
    cases hcall with
    | post _ | done _ =>
      intro u hu
      rcases Multiset.mem_cons.1 hu with rfl | hu
      · exact houtside
      · obtain rfl := Multiset.mem_singleton.1 hu
        exact .of_idle trivial fun _ => rfl
    | _ => simpa using houtside
  | gone | posted _ | notPosted _ => simp
  | @popTask t jobs hjobs =>
    have hlane : o.lane t = none := hi.jobs t (hjobs ▸ List.mem_cons_self ..)
    refine placed_singleton ⟨hlane.symm, fun m u l hu hl => ?_⟩
    obtain rfl : t = u := Option.some.inj hu
    rw [hlane] at hl
    cases hl
  | @drainTake l t rest hq =>
    have hmem : t ∈ s.line l := by simp [State.line, hq]
    have hbefore : ∀ u ∈ s.taken l, u.id < t.id := by
      have hsorted := hi.sorted l
      rw [State.line, hq, List.pairwise_append] at hsorted
      exact fun u hu => hsorted.2.2 u hu t (List.mem_cons_self ..)
    have hlane := hi.lane l t hmem
    refine placed_singleton ⟨hlane.symm, fun m u l' hu hl => ?_⟩
    obtain rfl : t = u := Option.some.inj hu
    obtain rfl : l = l' := Option.some.inj (hlane.symm.trans hl)
    exact ⟨rfl, by simp [State.dequeue], fun u hu => hbefore u (hm.taken (m, l) hu)⟩
  | expired _ | workDone =>
    exact placed_singleton (ht.next (after_fine hfine) rfl rfl (after_lane ..) rfl fun _ => rfl)
  | cancelled _ | workThrow | workEmpty =>
    exact placed_singleton (.of_idle (after_fine hfine) fun m => by cases m <;> rfl)
  | @work t back _ =>
    cases back with
    | none => exact placed_singleton (ht.next hfine rfl rfl rfl rfl fun _ => rfl)
    | some l =>
      exact placed_singleton (ht.next hfine rfl rfl rfl rfl fun l' => by simp [State.mark])
  | @finishDone t _ hmem =>
    refine placed_singleton ⟨trivial, fun m u l hu hl => ?_⟩
    cases m with
    | started => cases hu
    | handed =>
      obtain rfl : t = u := Option.some.inj hu
      exact ⟨hl, hm.suspended t hmem l hl⟩
  | hand _ | handTerminal _ _ =>
    intro u hu
    rcases Multiset.mem_cons.1 hu with rfl | hu
    · exact .of_idle hfine fun _ => rfl
    · obtain rfl := Multiset.mem_singleton.1 hu
      exact .of_idle trivial fun _ => rfl
  | complete hreason =>
    rcases hreason with rfl | rfl | rfl <;>
      exact placed_singleton (.of_idle trivial fun m => by cases m <;> rfl)
  | countDeadline => exact placed_singleton (ht.next hfine rfl rfl rfl rfl fun _ => rfl)
  | _ =>
    exact placed_singleton (.of_idle (by first | exact hfine | trivial) fun m => by cases m <;> rfl)

/-! ## Runs -/

def State.Awake (s : State) : Prop := ∀ l, s.queue l ≠ [] → l ∈ s.running

theorem State.Awake.retire (h : s.Awake) {l : Lane} (hq : s.queue l = []) : (s.retire l).Awake := by
  intro l' hl'
  have hne : l' ≠ l := fun heq => hl' (heq ▸ hq)
  exact Finset.mem_erase.2 ⟨hne, h l' hl'⟩

theorem Admit.awake (h : Admit o s s') (hw : s.Awake) : s'.Awake := by
  cases h with
  | @joinStripe t i _ _ _ hrun =>
    intro l hl
    by_cases heq : l = .stripe i
    · exact heq ▸ hrun
    · exact hw l (by simpa [State.enqueue, heq] using hl)
  | @joinKey t i k _ _ _ hrun =>
    intro l hl
    by_cases heq : l = .key i k
    · exact heq ▸ hrun
    · exact hw l (by simpa [State.enqueue, State.takeSlot, heq] using hl)
  | @openStripe t i _ _ _ _ =>
    intro l hl
    by_cases heq : l = .stripe i
    · exact heq ▸ Finset.mem_insert_self _ _
    · exact Finset.mem_insert_of_mem (hw l (by simpa [State.enqueue, heq] using hl))
  | @openKey t i k _ _ _ _ =>
    intro l hl
    by_cases heq : l = .key i k
    · exact heq ▸ Finset.mem_insert_self _ _
    · exact Finset.mem_insert_of_mem (hw l (by simpa [State.enqueue, State.takeSlot, heq] using hl))
  | @unwindStripe t i _ _ =>
    intro l hl
    by_cases heq : l = .stripe i
    · exact absurd (by simp [heq]) hl
    · exact Finset.mem_erase.2 ⟨heq, hw l (by simpa [heq] using hl)⟩
  | @unwindKey t i k _ _ =>
    intro l hl
    by_cases heq : l = .key i k
    · exact absurd (by simp [heq]) hl
    · exact Finset.mem_erase.2 ⟨heq, hw l (by simpa [heq] using hl)⟩
  | _ => exact hw

theorem Act.awake (h : Act o s t s' new) (hw : s.Awake) : s'.Awake := by
  cases h with
  | call hcall =>
    cases hcall with
    | enter ha => exact ha.awake hw
    | _ => exact hw
  | drainEmpty hq | completeEmpty _ _ hq | handoverEmpty _ _ _ hq => exact hw.retire hq
  | @drainTake l t rest hq =>
    intro l' hl'
    by_cases heq : l' = l
    · exact heq ▸ hw l (by simp [hq])
    · exact hw l' (by simpa [State.dequeue, heq] using hl')
  | @work t back _ | @asyncWork t back _ => cases back <;> exact hw
  | @hand t _ _ | @handThrow t _ _ | @handTerminal t _ _ _ | @handTerminalThrow t _ _ _ =>
    cases hl : o.lane t <;> exact hw
  | _ => exact hw

variable (o) in
/-- An accepted task of a lane stands in its line, and a `Submit` that may still withdraw its task
has the lane for itself. -/
structure State.Kept (s : State) : Prop where
  accepted : ∀ t ∈ s.accepted, ∀ l, o.lane t = some l → t ∈ s.line l
  accept : ∀ t, s.admission = some (t, .accept) → ∀ l, o.lane t = some l → t ∈ s.line l
  opening : ∀ t, s.admission = some (t, .schedule) ∨ s.admission = some (t, .unwind) →
    ∀ l, o.lane t = some l → s.queue l = [t] ∧ t ∉ s.accepted

theorem State.Kept.of_eq (h : s.Kept o) (hline : s'.line = s.line) (hqueue : s'.queue = s.queue)
    (hadm : s'.admission = s.admission) (hacc : s'.accepted = s.accepted) : s'.Kept o := by
  refine ⟨?_, ?_, ?_⟩
  · rw [hline, hacc]
    exact h.accepted
  · rw [hline, hadm]
    exact h.accept
  · rw [hqueue, hadm, hacc]
    exact h.opening

theorem State.subset_line_enqueue (l l' : Lane) (t : Task) : s.line l' ⊆ (s.enqueue l t).line l' := by
  rw [State.line_enqueue]
  by_cases h : l' = l
  · subst h
    simp
  · simp [h]

theorem State.mem_line_enqueue (l : Lane) (t : Task) : t ∈ (s.enqueue l t).line l := by
  simp [State.line_enqueue]

theorem Admit.kept (h : Admit o s s') (hi : s.InLine o) (hw : s.Awake) (hk : s.Kept o) :
    s'.Kept o := by
  have hopen : ∀ t l, s.admission = some (t, .reserved) → o.lane t = some l → l ∉ s.running →
      (s.enqueue l t).queue l = [t] ∧ t ∉ s.accepted := by
    intro t l hadm hl hrun
    have hq : s.queue l = [] := by_contra fun hne => hrun (hw l hne)
    refine ⟨by simp [State.enqueue, hq], fun hacc => ?_⟩
    exact lt_irrefl _ ((hi.fresh t hadm).2 l t (hk.accepted t hacc l hl))
  have hclear : ∀ t l, s.admission = some (t, .unwind) → o.lane t = some l →
      ∀ u ∈ s.accepted, ∀ l', o.lane u = some l' →
        u ∈ s.taken l' ++ Function.update s.queue l [] l' := by
    intro t l hadm hl u hu l' hl'
    have hmem := hk.accepted u hu l' hl'
    by_cases heq : l' = l
    · subst heq
      obtain ⟨hq, hne⟩ := hk.opening t (.inr hadm) l' hl
      have hother : u ≠ t := fun h => hne (h ▸ hu)
      simpa [State.line, hq, hother] using hmem
    · simpa [State.line, heq] using hmem
  cases h with
  | @unordered t _ hl _ =>
    refine ⟨hk.accepted, fun u hu l hlane => ?_, by simp⟩
    obtain rfl : t = u := by simpa using hu
    rw [hl] at hlane
    cases hlane
  | @joinStripe t i _ hl _ _ | @joinKey t i k _ hl _ _ =>
    refine ⟨fun u hu l' hl' => State.subset_line_enqueue _ _ _ (hk.accepted u hu l' hl'), ?_, by simp⟩
    intro u hu l' hl'
    obtain rfl : t = u := by simpa using hu
    obtain rfl := Option.some.inj (hl.symm.trans hl')
    exact @State.mem_line_enqueue s _ t
  | @openStripe t i hadm hl _ hrun | @openKey t i k hadm hl _ hrun =>
    refine ⟨fun u hu l' hl' => State.subset_line_enqueue _ _ _ (hk.accepted u hu l' hl'), by simp, ?_⟩
    intro u hu l' hl'
    obtain rfl : t = u := by simpa using hu
    obtain rfl := Option.some.inj (hl.symm.trans hl')
    exact hopen t _ hadm hl hrun
  | @schedule t l hadm hl _ =>
    refine ⟨hk.accepted, fun u hu l' hl' => ?_, by simp⟩
    obtain rfl : t = u := by simpa using hu
    simp [State.line, State.push, (hk.opening t (.inl hadm) l' hl').1]
  | @scheduleFull t hadm _ =>
    refine ⟨hk.accepted, by simp, fun u hu l hl => ?_⟩
    obtain rfl : t = u := by simpa using hu
    exact hk.opening t (.inl hadm) l hl
  | unwindStripe hadm hl | unwindKey hadm hl => exact ⟨hclear _ _ hadm hl, by simp, by simp⟩
  | @accept t hadm =>
    refine ⟨fun u hu l hl => ?_, by simp, by simp⟩
    rcases List.mem_cons.1 hu with rfl | hu
    · exact hk.accept u hadm l hl
    · exact hk.accepted u hu l hl
  | _ => exact ⟨hk.accepted, by simp, by simp⟩

theorem Act.kept (h : Act o s t s' new) (hi : s.InLine o)
    (hw : s.Awake) (hk : s.Kept o) (halone : ∀ l, t.lane o = some l → s.admissionLane o ≠ some l) :
    s'.Kept o := by
  cases h with
  | call hcall =>
    cases hcall with
    | enter ha => exact ha.kept hi hw hk
    | submit _ _ _ _ => exact ⟨hk.accepted, by simp, by simp⟩
    | _ => exact hk.of_eq rfl rfl rfl rfl
  | @drainTake l t rest hq =>
    have hline := State.line_dequeue hq
    refine ⟨hline ▸ hk.accepted, hline ▸ hk.accept, fun u hu l' hl' => ?_⟩
    have hne : l' ≠ l := by
      rintro rfl
      refine halone l' rfl ?_
      rcases hu with hu | hu <;> simp only [State.dequeue] at hu <;> simpa [State.admissionLane, hu] using hl'
    simpa [State.dequeue, hne] using hk.opening u hu l' hl'
  | @work t back _ | @asyncWork t back _ => cases back <;> exact hk.of_eq rfl rfl rfl rfl
  | @hand t _ _ | @handThrow t _ _ | @handTerminal t _ _ _ | @handTerminalThrow t _ _ _ =>
    cases hl : o.lane t <;> exact hk.of_eq rfl rfl rfl rfl
  | _ => exact hk.of_eq rfl rfl rfl rfl

variable (o) in
/-- What holds of the executor in every run. -/
structure Inv (p : Pool State Thread) : Prop where
  custody : Custody (tokensOf (Thread.lane o) p.threads + p.shared.laneHolders o) p.shared.running
  inLine : p.shared.InLine o
  marked : p.shared.Marked o
  placed : ∀ t ∈ p.threads, t.Placed o p.shared
  awake : p.shared.Awake
  kept : p.shared.Kept o

theorem inv_init : Inv o (init o) := by
  have htokens : tokensOf (Thread.lane o) (init o).threads = 0 := by
    rw [init, tokensOf_cons]
    induction o.workers with
    | zero => simp [Thread.lane]
    | succ n ih => simpa [Multiset.replicate_succ, Thread.lane, Place.lane] using ih
  refine ⟨?_, ⟨?_, ?_, ?_, ?_, ?_⟩, ⟨?_, ?_, ?_⟩, fun t ht => ?_, ?_, ?_⟩
  · rw [htokens]
    exact Custody.zero
  iterate 8 simp [init, State.line]
  · have hidle : t = .outside ∨ t = .at (.rest true) := by
      have hmem : t ∈ Thread.outside ::ₘ Multiset.replicate o.workers (.at (.rest true)) := ht
      rcases Multiset.mem_cons.1 hmem with rfl | hmem
      · exact .inl rfl
      · exact .inr (Multiset.eq_of_mem_replicate hmem)
    rcases hidle with rfl | rfl <;> exact .of_idle trivial fun _ => rfl
  · simp [State.Awake, init]
  · exact ⟨by simp [init], by simp [init], by simp [init]⟩

/-- A lane that a thread owns is owned by no one else. -/
theorem Inv.alone {rest : Multiset Thread} (h : Inv o ⟨s, t ::ₘ rest⟩) {l : Lane}
    (hl : t.lane o = some l) :
    (∀ u ∈ rest, u.lane o ≠ some l) ∧ (∀ u ∈ s.suspended, o.lane u ≠ some l) ∧
      s.admissionLane o ≠ some l := by
  have hcustody := h.custody
  rw [tokensOf_cons, hl, Option.tokens_some, add_assoc, Multiset.singleton_add] at hcustody
  have halone := hcustody.alone
  simp only [State.laneHolders, Multiset.mem_add, not_or, mem_tokensOf, not_exists, not_and] at halone
  obtain ⟨hrest, ⟨⟨⟨-, hsuspended⟩, hadm⟩, -⟩⟩ := halone
  exact ⟨hrest, hsuspended, fun h => hadm (by simp [h])⟩

theorem Inv.step {p p' : Pool State Thread} (h : Inv o p) (hs : Step o p p') : Inv o p' := by
  cases hs with
  | @act s s' t rest new ha =>
    have ht := h.placed t (Multiset.mem_cons_self t rest)
    have hcustody := h.custody
    simp only [tokensOf_cons] at hcustody
    have hnew := ha.lanes ht.fine hcustody
    rw [← tokensOf_add] at hnew
    refine ⟨hnew, ha.inLine h.inLine, ha.marked ht h.marked fun l hl => (h.alone hl).2.1, ?_,
      ha.awake h.awake, ha.kept h.inLine h.awake h.kept fun l hl => (h.alone hl).2.2⟩
    intro u hu
    rcases Multiset.mem_add.1 hu with hu | hu
    · exact ha.placed ht h.inLine h.marked u hu
    · exact (h.placed u (Multiset.mem_cons_of_mem hu)).frame (ha.frame ht)
        fun l hl => (h.alone hl).1 u hu
  | spawn hspawn => exact hspawn.elim

theorem inv_run {p : Pool State Thread} (hrun : Relation.ReflTransGen (Step o) (init o) p) :
    Inv o p := by
  induction hrun with
  | refl => exact inv_init
  | tail _ hs ih => exact ih.step hs

variable (o) in
def Thread.executes : Thread → Option Lane
  | exec t _ | working t _ => o.lane t
  | _ => none

variable (o) in
/-- The lanes of the tasks that execute; an async task does until `FinishAsync`. -/
def executing (p : Pool State Thread) : Multiset Lane :=
  tokensOf (Thread.executes o) p.threads + tokensOf o.lane p.shared.suspended

theorem Inv.executing_le {p : Pool State Thread} (h : Inv o p) :
    executing o p ≤ tokensOf (Thread.lane o) p.threads + p.shared.laneHolders o := by
  refine add_le_add (tokensOf_le fun t ht => ?_) ?_
  · have hfine := (h.placed t ht).fine
    cases t with
    | exec t back | working t back => exact .inr hfine.symm
    | _ => exact .inl rfl
  · simp only [State.laneHolders, add_right_comm _ (tokensOf o.lane _)]
    exact Multiset.le_add_left _ _

/-- In every run, the tasks of a lane are taken, started and handed to their dispatchers in the order
of their `Submit`s; none that was accepted is lost, and a lane that does not run has none left. -/
theorem lane_in_order {p : Pool State Thread}
    (hrun : Relation.ReflTransGen (Step o) (init o) p) (l : Lane) :
    (p.shared.taken l ++ p.shared.queue l).Pairwise (·.id < ·.id) ∧
    (∀ t ∈ p.shared.taken l ++ p.shared.queue l, o.lane t = some l) ∧
    (∀ m, (p.shared.marks (m, l)).Pairwise (·.id < ·.id) ∧ p.shared.marks (m, l) ⊆ p.shared.taken l) ∧
    (∀ t ∈ p.shared.accepted, o.lane t = some l →
      t ∈ p.shared.taken l ++ p.shared.queue l ∧ (l ∉ p.shared.running → t ∈ p.shared.taken l)) := by
  have h := inv_run hrun
  refine ⟨h.inLine.sorted l, h.inLine.lane l, fun m => ⟨h.marked.sorted _, h.marked.taken (m, l)⟩,
    fun t ht hl => ?_⟩
  have hmem := h.kept.accepted t ht l hl
  refine ⟨hmem, fun hrest => ?_⟩
  have hq : p.shared.queue l = [] := by_contra fun hne => hrest (h.awake l hne)
  simpa [State.line, hq] using hmem

/-! ## A run -/

theorem step_of_act {t : Thread} {rest new : Multiset Thread} (h : Act o s t s' new) :
    Step o ⟨s, t ::ₘ rest⟩ ⟨s', new + rest⟩ := Pool.Step.act h

theorem call_step {ts : Multiset Thread} (h : Call o s s' 0) :
    Step o ⟨s, .outside ::ₘ ts⟩ ⟨s', .outside ::ₘ ts⟩ := by
  simpa using @step_of_act o s s' .outside ts _ (.call h)

theorem worker_step {t' : Thread} (h : Act o s t s' {t'}) :
    Step o ⟨s, .outside ::ₘ {t}⟩ ⟨s', .outside ::ₘ {t'}⟩ := by
  have hs := @step_of_act o s s' t {.outside} _ h
  rwa [← Multiset.singleton_add, add_comm, Multiset.singleton_add, add_comm,
    Multiset.singleton_add] at hs

def sampleOptions : Options where
  workers := 1
  maxPending := 2
  stripeCount := 1
  perStripeCapacity := 2
  isolate := false
  workers_pos := by decide
  maxPending_pos := by decide
  stripeCount_pos := by decide
  perStripeCapacity_pos := by decide
  perStripeCapacity_le := by decide

def sampleTask : Task := ⟨0, some 7, false, true, true, false⟩

/-- A task is admitted, its stripe is drained, and it is started. -/
theorem sample_run : ∃ p, Relation.ReflTransGen (Step sampleOptions) (init sampleOptions) p ∧
    p.shared.marks (.started, .stripe 0) = [sampleTask] := by
  refine ⟨_, .head (call_step (.submit (t := sampleTask) rfl rfl rfl (by decide))) <|
    .head (call_step (.enter (.openStripe rfl rfl (by decide) (by decide)))) <|
    .head (call_step (.enter (.schedule rfl rfl (by decide)))) <|
    .head (call_step (.enter (.accept rfl))) <|
    .head (worker_step (.popDrain rfl)) <| .head (worker_step (.drainTake rfl)) <|
    .single (worker_step (.work rfl)), rfl⟩

theorem lane_in_order_sample : ∃ p : Pool State Thread, p.shared.marks (.started, .stripe 0) = [sampleTask] ∧
    p.shared.marks (.started, .stripe 0) ⊆ p.shared.taken (.stripe 0) := by
  obtain ⟨p, hrun, hstarted⟩ := sample_run
  exact ⟨p, hstarted, ((lane_in_order hrun _).2.2.1 _).2⟩

end TinyImx.Gateway.Executor
