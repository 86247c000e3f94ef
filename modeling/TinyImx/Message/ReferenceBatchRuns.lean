import TinyImx.Message.ReferenceBatch

/-!
# Every run of combined pins

A caller whose node is not done is in the queue or in the batch of one leader, so that the counters are
the numbers of such callers and of leaders.  What has happened to a caller is fixed by where it is: by
the stage of the leader whose batch it is in, or by the result of its node.
-/

namespace TinyImx.Message.ReferenceBatch

open List (append_nil getElem?_of_mem length_append mem_append_left mem_cons mem_of_getElem?
  mem_singleton mem_toFinset replicate)
open Function (update_of_ne update_self)

variable {parallel : ℕ} {actors : ℕ → Finset ℕ} {s s' : State} {l : Label} {ls : List Label} {i j : ℕ}
  {b : List ℕ}

/-! ## Nodes -/

theorem assign_of_notMem (nodes : ℕ → Node) {batch : List ℕ} (results : List Bool) (hj : j ∉ batch) :
    assign nodes batch results j = nodes j := by
  induction batch generalizing nodes results with
  | nil => cases results <;> rfl
  | cons i batch ih =>
    rw [mem_cons, not_or] at hj
    cases results with
    | nil => rw [assign, ih _ _ hj.2, update_of_ne hj.1]
    | cons result results => rw [assign, ih _ _ hj.2, update_of_ne hj.1]

theorem assign_get (nodes : ℕ → Node) {batch : List ℕ} (hnodup : batch.Nodup) (results : List Bool)
    {k : ℕ} (hk : batch[k]? = some j) : assign nodes batch results j =
      { nodes j with result := (results[k]?).getD false, done := true } := by
  induction batch generalizing nodes results k with
  | nil => cases hk
  | cons i batch ih =>
    obtain ⟨hi, hnodup⟩ := List.nodup_cons.1 hnodup
    cases k with
    | zero =>
      cases hk
      cases results with
      | nil => rw [assign, assign_of_notMem _ _ hi, update_self]; rfl
      | cons result results => rw [assign, assign_of_notMem _ _ hi, update_self]; rfl
    | succ k =>
      rw [List.getElem?_cons_succ] at hk
      have hne : j ≠ i := fun heq => hi (heq ▸ mem_of_getElem? hk)
      cases results with
      | nil => rw [assign, ih _ hnodup _ hk, update_of_ne hne]; rfl
      | cons result results => rw [assign, ih _ hnodup _ hk, update_of_ne hne]; rfl

def resultAt (results : Option (List Bool)) (k : ℕ) : Bool := (results.bind fun r => r[k]?).getD false

theorem writeBack_get (nodes : ℕ → Node) (hnodup : b.Nodup) {results : Option (List Bool)}
    (hlen : ∀ r, results = some r → r.length = b.length) {k : ℕ} (hk : b[k]? = some j) :
    writeBack nodes b results j = { nodes j with result := resultAt results k, done := true } := by
  cases results with
  | none => exact assign_get nodes hnodup [] hk
  | some r =>
    rw [writeBack, if_pos (hlen r rfl), assign_get nodes hnodup r hk]
    rfl

theorem writeBack_of_notMem (nodes : ℕ → Node) (results : Option (List Bool)) (hj : j ∉ b) :
    writeBack nodes b results j = nodes j := by
  unfold writeBack
  split
  · split <;> exact assign_of_notMem nodes _ hj
  · exact assign_of_notMem nodes _ hj

/-! ## Where callers are -/

theorem setPhase_phase (s : State) (i : ℕ) (p : Phase) :
    (s.setPhase i p).phase = Function.update s.phase i p :=
  rfl

def Stage.batch : Stage → List ℕ
  | .assembled batch | .combining batch | .resolved batch _ | .fallback batch _ | .pinning batch _
  | .executed batch _ => batch

def Phase.inside : Phase → Bool
  | .ready | .asleep | .leading _ => true
  | _ => false

def Phase.batch : Phase → Option (List ℕ)
  | .leading stage => some stage.batch
  | _ => none

def State.Undone (s : State) (i : ℕ) : Prop :=
  (s.phase i).inside = true ∧ (s.nodes i).done = false

theorem afterCombined_batch (batch : List ℕ) (kind : Kind) :
    (afterCombined batch kind).batch = batch := by
  cases kind with
  | missingParent =>
    simp only [afterCombined]
    split <;> rfl
  | _ => rfl

theorem afterSingle_batch (batch : List ℕ) (results : List Bool) (outcome : Option Kind) :
    (afterSingle batch results outcome).batch = batch := by
  cases outcome with
  | none => rfl
  | some kind =>
    cases kind with
    | unavailable => rfl
    | _ =>
      simp only [afterSingle]
      split <;> rfl

@[simp] theorem inside_notified (p : Phase) : p.notified.inside = p.inside := by
  cases p <;> rfl

@[simp] theorem batch_notified (p : Phase) : p.notified.batch = p.batch := by
  cases p <;> rfl

theorem notified_ne_asleep (p : Phase) : p.notified ≠ .asleep := by
  cases p <;> simp [Phase.notified]

theorem notified_of_not_asleep {p : Phase} (hp : p ≠ .asleep) : p.notified = p := by
  cases p with
  | asleep => exact absurd rfl hp
  | _ => rfl

theorem decrement_of_pos {x : ℕ} (hx : 0 < x) : decrement x = x - 1 :=
  if_neg (by omega)

theorem iterate_decrement {n x : ℕ} (h : n ≤ x) : decrement^[n] x = x - n := by
  induction n generalizing x with
  | zero => rfl
  | succ n ih =>
    rw [Function.iterate_succ_apply, decrement_of_pos (by omega), ih (by omega)]
    omega

structure Places (parallel : ℕ) (s : State) : Prop where
  undone : ∃ T : Finset ℕ, (∀ i, i ∈ T ↔ s.Undone i) ∧ T.card = s.pending
  leaders : ∃ T : Finset ℕ, (∀ i, i ∈ T ↔ (s.phase i).batch.isSome) ∧ T.card = s.running
  pending_le : s.pending ≤ capacity
  running_le : s.running ≤ parallel
  queue_nodup : s.queue.Nodup
  queued : ∀ i, i ∈ s.queue ↔ s.Undone i ∧ (s.nodes i).taken = false
  batch : ∀ l b, (s.phase l).batch = some b →
    b.Nodup ∧ l ∈ b ∧ ∀ j ∈ b, s.Undone j ∧ (s.nodes j).taken = true
  owner : ∀ l l' b b' j, (s.phase l).batch = some b → (s.phase l').batch = some b' → j ∈ b → j ∈ b' →
    l = l'
  owned : ∀ i, s.Undone i → (s.nodes i).taken = true → ∃ l b, (s.phase l).batch = some b ∧ i ∈ b
  asleep : ∀ i, s.phase i = .asleep →
    (s.nodes i).done = false ∧ ((s.nodes i).taken = true ∨ parallel ≤ s.running)

namespace Places

theorem init : Places parallel State.initial where
  undone := ⟨∅, by simp [State.initial, State.Undone, Phase.inside], rfl⟩
  leaders := ⟨∅, by simp [State.initial, Phase.batch], rfl⟩
  pending_le := Nat.zero_le _
  running_le := Nat.zero_le _
  queue_nodup := List.nodup_nil
  queued := by simp [State.initial, State.Undone, Phase.inside]
  batch := by simp [State.initial, Phase.batch]
  owner := by simp [State.initial, Phase.batch]
  owned := by simp [State.initial, State.Undone, Phase.inside]
  asleep := by simp [State.initial]

/-- One caller moves, to where it has what it had. -/
theorem move (h : Places parallel s) {p : Phase} (hinside : (s.nodes i).done = false →
      p.inside = (s.phase i).inside)
    (hbatch : p.batch = (s.phase i).batch)
    (hasleep : p = .asleep →
      (s.nodes i).done = false ∧ ((s.nodes i).taken = true ∨ parallel ≤ s.running)) :
    Places parallel (s.setPhase i p) := by
  have hphase : ∀ j, ((s.setPhase i p).phase j).batch = (s.phase j).batch := by
    intro j
    by_cases hj : j = i
    · subst hj
      rw [setPhase_phase, update_self, hbatch]
    · rw [setPhase_phase, update_of_ne hj]
  have hundone : ∀ j, (s.setPhase i p).Undone j ↔ s.Undone j := by
    intro j
    by_cases hj : j = i
    · subst hj
      refine and_congr_left fun hdone => ?_
      rw [setPhase_phase, update_self, hinside hdone]
    · rw [State.Undone, setPhase_phase, update_of_ne hj]
      rfl
  obtain ⟨T, hT, hcard⟩ := h.undone
  obtain ⟨U, hU, hcard'⟩ := h.leaders
  refine ⟨⟨T, fun j => (hT j).trans (hundone j).symm, hcard⟩, ⟨U, fun j => ?_, hcard'⟩, h.pending_le,
    h.running_le, h.queue_nodup, fun j => ?_, fun l b hl => ?_, fun l l' b b' j hl hl' => ?_,
    fun j hj htaken => ?_, fun j hj => ?_⟩
  · rw [hphase]
    exact hU j
  · rw [hundone]
    exact h.queued j
  · rw [hphase] at hl
    obtain ⟨hnodup, hmem, hall⟩ := h.batch l b hl
    exact ⟨hnodup, hmem, fun j hj => ⟨(hundone j).2 (hall j hj).1, (hall j hj).2⟩⟩
  · rw [hphase] at hl hl'
    exact h.owner l l' b b' j hl hl'
  · obtain ⟨l, b, hl, hmem⟩ := h.owned j ((hundone j).1 hj) htaken
    exact ⟨l, b, (hphase l).trans hl, hmem⟩
  · by_cases hji : j = i
    · subst hji
      rw [setPhase_phase, update_self] at hj
      exact hasleep hj
    · rw [setPhase_phase, update_of_ne hji] at hj
      exact h.asleep j hj

theorem queue_length_le (h : Places parallel s) : s.queue.length ≤ capacity := by
  obtain ⟨T, hT, hcard⟩ := h.undone
  have hsub : s.queue.toFinset ⊆ T := fun j hj =>
    (hT j).2 ((h.queued j).1 (mem_toFinset.1 hj)).1
  have hle := Finset.card_le_card hsub
  rw [List.toFinset_card_of_nodup h.queue_nodup, hcard] at hle
  exact hle.trans h.pending_le

theorem take_queue (h : Places parallel s) : s.queue.take batchLimit = s.queue :=
  List.take_of_length_le h.queue_length_le

theorem drop_queue (h : Places parallel s) : s.queue.drop batchLimit = [] :=
  List.drop_of_length_le h.queue_length_le

theorem notMem_of_not_undone (h : Places parallel s) {l : ℕ} (hl : (s.phase l).batch = some b)
    (hi : ¬ s.Undone i) : i ∉ b :=
  fun hmem => hi ((h.batch l b hl).2.2 i hmem).1

theorem admitted (h : Places parallel s) (hidle : s.phase i = .idle) (hlt : s.pending < capacity) :
    Places parallel ({ s with
      queue := s.queue ++ [i]
      pending := s.pending + 1
      nodes := Function.update s.nodes i ⟨false, false, false⟩ }.setPhase i .ready) := by
  have hnew : ¬ s.Undone i := fun hu => by
    rw [State.Undone, hidle] at hu
    cases hu.1
  obtain ⟨T, hT, hcard⟩ := h.undone
  obtain ⟨U, hU, hcard'⟩ := h.leaders
  generalize hs' : ({ s with
      queue := s.queue ++ [i]
      pending := s.pending + 1
      nodes := Function.update s.nodes i ⟨false, false, false⟩ } : State).setPhase i .ready = s'
  have hphase : ∀ j, j ≠ i → s'.phase j = s.phase j := fun j hj => by
    rw [← hs', setPhase_phase, update_of_ne hj]
  have hnodes : ∀ j, j ≠ i → s'.nodes j = s.nodes j := fun j hj => by
    subst hs'
    exact update_of_ne hj _ _
  have hready : s'.phase i = .ready := by
    rw [← hs', setPhase_phase, update_self]
  have hnode : s'.nodes i = ⟨false, false, false⟩ := by
    subst hs'
    exact update_self i _ s.nodes
  have hundone : ∀ j, s'.Undone j ↔ j = i ∨ s.Undone j := by
    intro j
    by_cases hj : j = i
    · subst hj
      simp [State.Undone, hready, hnode, Phase.inside]
    · simp [State.Undone, hphase j hj, hnodes j hj, hj]
  have hbatch : ∀ j, (s'.phase j).batch = (s.phase j).batch := by
    intro j
    by_cases hj : j = i
    · subst hj
      rw [hready, hidle]
      rfl
    · rw [hphase j hj]
  have hqueue : s'.queue = s.queue ++ [i] := by rw [← hs']; rfl
  have hother : ∀ j, s.Undone j → j ≠ i := fun j hj heq => hnew (heq ▸ hj)
  have hpending : s'.pending = s.pending + 1 := by rw [← hs']; rfl
  have hrunning : s'.running = s.running := by rw [← hs']; rfl
  refine ⟨⟨insert i T, fun j => ?_, ?_⟩, ⟨U, fun j => ?_, ?_⟩, ?_, ?_, ?_, fun j => ?_,
    fun l b hl => ?_, fun l l' b b' j hl hl' => ?_, fun j hj htaken => ?_, fun j hj => ?_⟩
  · rw [Finset.mem_insert, hT, hundone]
  · rw [Finset.card_insert_of_notMem fun hi => hnew ((hT i).1 hi), hcard, hpending]
  · rw [hbatch]
    exact hU j
  · rw [hrunning]
    exact hcard'
  · rw [hpending]
    exact hlt
  · rw [hrunning]
    exact h.running_le
  · rw [hqueue]
    refine List.nodup_append.2 ⟨h.queue_nodup, List.nodup_singleton i, fun j hj k hk => ?_⟩
    rw [mem_singleton.1 hk]
    exact hother j ((h.queued j).1 hj).1
  · rw [hqueue, List.mem_append, mem_singleton, h.queued, hundone]
    by_cases hj : j = i
    · subst hj
      simp [hnode]
    · simp [hj, hnodes j hj]
  · rw [hbatch] at hl
    obtain ⟨hnodup, hmem, hall⟩ := h.batch l b hl
    simp_all
  · rw [hbatch] at hl hl'
    exact h.owner l l' b b' j hl hl'
  · rcases (hundone j).1 hj with rfl | hu
    · rw [hnode] at htaken
      cases htaken
    · rw [hnodes j (hother j hu)] at htaken
      obtain ⟨l, b, hl, hmem⟩ := h.owned j hu htaken
      exact ⟨l, b, (hbatch l).trans hl, hmem⟩
  · have hji : j ≠ i := fun heq => by
      rw [heq, hready] at hj
      cases hj
    rw [hphase j hji] at hj
    rw [hnodes j hji, hrunning]
    exact h.asleep j hj

theorem reserveFails (h : Places parallel s) (hready : s.phase i = .ready)
    (hdone : (s.nodes i).done = false) (htaken : (s.nodes i).taken = false) :
    Places parallel ({ s with
      queue := s.queue.erase i
      pending := decrement s.pending
      nodes := Function.update s.nodes i ⟨false, true, false⟩ }.notifyAll.setPhase i .ready) := by
  have hself : s.Undone i := ⟨by rw [hready]; rfl, hdone⟩
  obtain ⟨T, hT, hcard⟩ := h.undone
  obtain ⟨U, hU, hcard'⟩ := h.leaders
  have hmem : i ∈ T := (hT i).2 hself
  have hpos : 0 < s.pending := hcard ▸ Finset.card_pos.2 ⟨i, hmem⟩
  generalize hs' : ({ s with
      queue := s.queue.erase i
      pending := decrement s.pending
      nodes := Function.update s.nodes i ⟨false, true, false⟩ } : State).notifyAll.setPhase i .ready =
    s'
  have hphase : ∀ j, j ≠ i → s'.phase j = (s.phase j).notified := fun j hj => by
    rw [← hs', setPhase_phase, update_of_ne hj]
    rfl
  have hnodes : ∀ j, j ≠ i → s'.nodes j = s.nodes j := fun j hj => by
    subst hs'
    exact update_of_ne hj _ _
  have hready' : s'.phase i = .ready := by
    rw [← hs', setPhase_phase, update_self]
  have hnode : s'.nodes i = ⟨false, true, false⟩ := by
    subst hs'
    exact update_self i _ s.nodes
  have hundone : ∀ j, s'.Undone j ↔ j ≠ i ∧ s.Undone j := by
    intro j
    by_cases hj : j = i
    · subst hj
      simp [State.Undone, hnode]
    · simp [State.Undone, hphase j hj, hnodes j hj, hj]
  have hbatch : ∀ j, (s'.phase j).batch = (s.phase j).batch := by
    intro j
    by_cases hj : j = i
    · subst hj
      rw [hready', hready]
    · rw [hphase j hj, batch_notified]
  have hqueue : s'.queue = s.queue.erase i := by rw [← hs']; rfl
  have hpending : s'.pending = s.pending - 1 := by
    rw [← decrement_of_pos hpos, ← hs']
    rfl
  have hrunning : s'.running = s.running := by rw [← hs']; rfl
  refine ⟨⟨T.erase i, fun j => ?_, ?_⟩, ⟨U, fun j => ?_, ?_⟩, ?_, ?_, ?_, fun j => ?_,
    fun l b hl => ?_, fun l l' b b' j hl hl' => ?_, fun j hj htaken => ?_, fun j hj => ?_⟩
  · rw [Finset.mem_erase, hT, hundone]
  · rw [Finset.card_erase_of_mem hmem, hcard, hpending]
  · rw [hbatch]
    exact hU j
  · rw [hrunning]
    exact hcard'
  · rw [hpending]
    exact (Nat.sub_le _ _).trans h.pending_le
  · rw [hrunning]
    exact h.running_le
  · rw [hqueue]
    exact h.queue_nodup.erase i
  · rw [hqueue, h.queue_nodup.mem_erase_iff, h.queued, hundone]
    by_cases hj : j = i
    · simp [hj]
    · simp [hj, hnodes j hj]
  · rw [hbatch] at hl
    obtain ⟨hnodup, hl', hall⟩ := h.batch l b hl
    refine ⟨hnodup, hl', fun j hj => ?_⟩
    obtain ⟨hu, htaken'⟩ := hall j hj
    have hji : j ≠ i := fun heq => by
      rw [heq, htaken] at htaken'
      cases htaken'
    rw [hnodes j hji]
    exact ⟨(hundone j).2 ⟨hji, hu⟩, htaken'⟩
  · rw [hbatch] at hl hl'
    exact h.owner l l' b b' j hl hl'
  · obtain ⟨hji, hu⟩ := (hundone j).1 hj
    rw [hnodes j hji] at htaken
    obtain ⟨l, b, hl, hmem⟩ := h.owned j hu htaken
    exact ⟨l, b, (hbatch l).trans hl, hmem⟩
  · have hji : j ≠ i := fun heq => by
      rw [heq, hready'] at hj
      cases hj
    rw [hphase j hji] at hj
    exact absurd hj (notified_ne_asleep _)

theorem lead (h : Places parallel s) (hready : s.phase i = .ready) (hdone : (s.nodes i).done = false)
    (htaken : (s.nodes i).taken = false) (hlt : s.running < parallel) :
    Places parallel ({ s with
      queue := s.queue.drop batchLimit
      running := s.running + 1
      nodes := take s.nodes (s.queue.take batchLimit) }.setPhase i
        (.leading (.assembled (s.queue.take batchLimit)))) := by
  have hself : s.Undone i := ⟨by rw [hready]; rfl, hdone⟩
  have hmem : i ∈ s.queue := (h.queued i).2 ⟨hself, htaken⟩
  obtain ⟨T, hT, hcard⟩ := h.undone
  obtain ⟨U, hU, hcard'⟩ := h.leaders
  rw [h.take_queue, h.drop_queue]
  generalize hs' : ({ s with
      queue := []
      running := s.running + 1
      nodes := take s.nodes s.queue } : State).setPhase i (.leading (.assembled s.queue)) = s'
  have hphase : ∀ j, j ≠ i → s'.phase j = s.phase j := fun j hj => by
    rw [← hs', setPhase_phase, update_of_ne hj]
  have hleading : s'.phase i = .leading (.assembled s.queue) := by
    rw [← hs', setPhase_phase, update_self]
  have hnodes : ∀ j, s'.nodes j = take s.nodes s.queue j := fun j => by rw [← hs']; rfl
  have hdones : ∀ j, (s'.nodes j).done = (s.nodes j).done := fun j => by
    rw [hnodes, take]
    split <;> rfl
  have htakens : ∀ j, (s'.nodes j).taken = true ↔ j ∈ s.queue ∨ (s.nodes j).taken = true := by
    intro j
    rw [hnodes, take]
    grind
  have hinside : ∀ j, (s'.phase j).inside = (s.phase j).inside := by
    intro j
    by_cases hj : j = i
    · subst hj
      rw [hleading, hready]
      rfl
    · rw [hphase j hj]
  have hundone : ∀ j, s'.Undone j ↔ s.Undone j := fun j => by
    rw [State.Undone, hinside, hdones]
    rfl
  have hbatch : ∀ j b, (s'.phase j).batch = some b ↔
      (j = i ∧ b = s.queue) ∨ (j ≠ i ∧ (s.phase j).batch = some b) := by
    intro j b
    by_cases hj : j = i
    · subst hj
      rw [hleading]
      simp [Phase.batch, Stage.batch, eq_comm]
    · rw [hphase j hj]
      simp [hj]
  have hapart : ∀ l b, (s.phase l).batch = some b → ∀ j ∈ b, j ∉ s.queue := by
    intro l b hl j hj hq
    have htrue := ((h.batch l b hl).2.2 j hj).2
    rw [((h.queued j).1 hq).2] at htrue
    cases htrue
  have hnone : (s.phase i).batch = none := by rw [hready]; rfl
  have hrunning : s'.running = s.running + 1 := by rw [← hs']; rfl
  refine ⟨⟨T, fun j => (hT j).trans (hundone j).symm, ?_⟩, ⟨insert i U, fun j => ?_, ?_⟩, ?_, ?_, ?_,
    fun j => ?_, fun l b hl => ?_, fun l l' b b' j hl hl' hj hj' => ?_, fun j hj htaken' => ?_,
    fun j hj => ?_⟩
  · rw [hcard, ← hs']
    rfl
  · rw [Finset.mem_insert, hU]
    by_cases hj : j = i
    · grind
    · rw [hphase j hj]
      simp [hj]
  · rw [Finset.card_insert_of_notMem fun hi => by simpa [hnone] using (hU i).1 hi, hcard', hrunning]
  · rw [← hs']
    exact h.pending_le
  · rw [hrunning]
    exact hlt
  · rw [← hs']
    exact List.nodup_nil
  · rw [hundone]
    constructor
    · intro hj
      rw [← hs'] at hj
      cases hj
    · rintro ⟨hu, hfalse⟩
      have hnot : ¬ (s'.nodes j).taken = true := by simp [hfalse]
      rw [htakens, not_or, Bool.not_eq_true] at hnot
      exact absurd ((h.queued j).2 ⟨hu, hnot.2⟩) hnot.1
  · rcases (hbatch l b).1 hl with ⟨rfl, rfl⟩ | ⟨-, hl⟩
    · exact ⟨h.queue_nodup, hmem, fun j hj =>
        ⟨(hundone j).2 ((h.queued j).1 hj).1, (htakens j).2 (.inl hj)⟩⟩
    · obtain ⟨hnodup, hl', hall⟩ := h.batch l b hl
      exact ⟨hnodup, hl', fun j hj =>
        ⟨(hundone j).2 (hall j hj).1, (htakens j).2 (.inr (hall j hj).2)⟩⟩
  · rcases (hbatch l b).1 hl with ⟨rfl, rfl⟩ | ⟨-, hl⟩
    · grind
    · rcases (hbatch l' b').1 hl' with ⟨rfl, rfl⟩ | ⟨-, hl'⟩
      · exact absurd hj' (hapart l b hl j hj)
      · exact h.owner l l' b b' j hl hl' hj hj'
  · rcases (htakens j).1 htaken' with hq | htaken'
    · exact ⟨i, s.queue, (hbatch i _).2 (.inl ⟨rfl, rfl⟩), hq⟩
    · obtain ⟨l, b, hl, hj'⟩ := h.owned j ((hundone j).1 hj) htaken'
      refine ⟨l, b, (hbatch l b).2 (.inr ⟨fun heq => ?_, hl⟩), hj'⟩
      rw [heq, hnone] at hl
      cases hl
  · have hji : j ≠ i := fun heq => by
      rw [heq, hleading] at hj
      cases hj
    rw [hphase j hji] at hj
    obtain ⟨hdone', hor⟩ := h.asleep j hj
    rw [hdones]
    refine ⟨hdone', .inl ((htakens j).2 (.inr (hor.resolve_right ?_)))⟩
    omega

theorem writeBack (h : Places parallel s) {results : Option (List Bool)}
    (hphase : s.phase i = .leading (.executed b results))
    (hlen : ∀ r, results = some r → r.length = b.length) :
    Places parallel ({ s with
      running := decrement s.running
      pending := decrement^[b.length] s.pending
      nodes := writeBack s.nodes b results }.notifyAll.setPhase i .ready) := by
  have hleads : (s.phase i).batch = some b := by rw [hphase]; rfl
  obtain ⟨hnodup, hi, hall⟩ := h.batch i b hleads
  obtain ⟨T, hT, hcard⟩ := h.undone
  obtain ⟨U, hU, hcard'⟩ := h.leaders
  have hsub : b.toFinset ⊆ T := fun j hj => (hT j).2 (hall j (mem_toFinset.1 hj)).1
  have hle : b.length ≤ s.pending := by
    rw [← List.toFinset_card_of_nodup hnodup, ← hcard]
    exact Finset.card_le_card hsub
  have hiU : i ∈ U := (hU i).2 (by rw [hleads]; rfl)
  have hpos : 0 < s.running := hcard' ▸ Finset.card_pos.2 ⟨i, hiU⟩
  generalize hs' : ({ s with
      running := decrement s.running
      pending := decrement^[b.length] s.pending
      nodes := ReferenceBatch.writeBack s.nodes b results } : State).notifyAll.setPhase i .ready = s'
  have hphase' : ∀ j, j ≠ i → s'.phase j = (s.phase j).notified := fun j hj => by
    rw [← hs', setPhase_phase, update_of_ne hj]
    rfl
  have hready : s'.phase i = .ready := by
    rw [← hs', setPhase_phase, update_self]
  have hnodes : ∀ j, s'.nodes j = ReferenceBatch.writeBack s.nodes b results j := fun j => by
    rw [← hs']
    rfl
  have hnode : ∀ j, j ∉ b → s'.nodes j = s.nodes j := fun j hj => by
    rw [hnodes, writeBack_of_notMem _ _ hj]
  have hdone : ∀ j ∈ b, (s'.nodes j).done = true := fun j hj => by
    obtain ⟨k, hk⟩ := getElem?_of_mem hj
    rw [hnodes, writeBack_get _ hnodup hlen hk]
  have hinside : ∀ j, j ≠ i → (s'.phase j).inside = (s.phase j).inside := fun j hj => by
    rw [hphase' j hj, inside_notified]
  have hundone : ∀ j, s'.Undone j ↔ j ∉ b ∧ s.Undone j := by
    intro j
    by_cases hj : j ∈ b
    · simp [State.Undone, hdone j hj, hj]
    · rw [State.Undone, hnode j hj, hinside j fun heq => hj (heq ▸ hi)]
      simp [State.Undone, hj]
  have hbatch : ∀ j c, (s'.phase j).batch = some c ↔ j ≠ i ∧ (s.phase j).batch = some c := by
    intro j c
    by_cases hj : j = i
    · subst hj
      rw [hready]
      simp [Phase.batch]
    · rw [hphase' j hj, batch_notified]
      simp [hj]
  have hapart : ∀ l c, l ≠ i → (s.phase l).batch = some c → ∀ j ∈ c, j ∉ b :=
    fun l c hl hc j hj hjb => hl (h.owner l i c b j hc hleads hj hjb)
  have hrunning : s'.running = s.running - 1 := by
    rw [← decrement_of_pos hpos, ← hs']
    rfl
  have hpending : s'.pending = s.pending - b.length := by
    rw [← iterate_decrement hle, ← hs']
    rfl
  have hqueue : s'.queue = s.queue := by rw [← hs']; rfl
  refine ⟨⟨T \ b.toFinset, fun j => ?_, ?_⟩, ⟨U.erase i, fun j => ?_, ?_⟩, ?_, ?_, ?_, fun j => ?_,
    fun l c hl => ?_, fun l l' c c' j hl hl' hj hj' => ?_, fun j hj htaken => ?_, fun j hj => ?_⟩
  · rw [Finset.mem_sdiff, mem_toFinset, hT, hundone, and_comm]
  · rw [Finset.card_sdiff_of_subset hsub, List.toFinset_card_of_nodup hnodup, hcard, hpending]
  · rw [Finset.mem_erase, hU]
    by_cases hj : j = i
    · subst hj
      simp [hready, Phase.batch]
    · rw [hphase' j hj, batch_notified]
      simp [hj]
  · rw [Finset.card_erase_of_mem hiU, hcard', hrunning]
  · rw [hpending]
    exact (Nat.sub_le _ _).trans h.pending_le
  · rw [hrunning]
    exact (Nat.sub_le _ _).trans h.running_le
  · rw [hqueue]
    exact h.queue_nodup
  · rw [hqueue, hundone, h.queued]
    by_cases hj : j ∈ b
    · simp [hj, (hall j hj).2]
    · simp [hj, hnode j hj]
  · obtain ⟨hli, hl⟩ := (hbatch l c).1 hl
    obtain ⟨hnodup', hl', hall'⟩ := h.batch l c hl
    refine ⟨hnodup', hl', fun j hj => ?_⟩
    have hjb := hapart l c hli hl j hj
    rw [hnode j hjb]
    exact ⟨(hundone j).2 ⟨hjb, (hall' j hj).1⟩, (hall' j hj).2⟩
  · exact h.owner l l' c c' j ((hbatch l c).1 hl).2 ((hbatch l' c').1 hl').2 hj hj'
  · obtain ⟨hjb, hu⟩ := (hundone j).1 hj
    rw [hnode j hjb] at htaken
    obtain ⟨l, c, hl, hjc⟩ := h.owned j hu htaken
    refine ⟨l, c, (hbatch l c).2 ⟨fun heq => hjb ?_, hl⟩, hjc⟩
    rw [heq, hleads] at hl
    cases hl
    exact hjc
  · by_cases hji : j = i
    · rw [hji, hready] at hj
      cases hj
    · rw [hphase' j hji] at hj
      exact absurd hj (notified_ne_asleep _)

end Places

/-! ## What has happened to callers -/

theorem history_snoc (ls : List Label) (l : Label) (i : ℕ) :
    history (ls ++ [l]) i = history ls i ++ l.events i := by
  simp [history]

theorem Before.mono (h : Before ls i j) (l : Label) : Before (ls ++ [l]) i j := by
  obtain ⟨batch, k, m, hmem, hlt, hi, hj⟩ := h
  exact ⟨batch, k, m, mem_append_left _ hmem, hlt, hi, hj⟩

theorem mem_history_mono {e : Event} (h : e ∈ history ls i) (l : Label) :
    e ∈ history (ls ++ [l]) i := by
  rw [history_snoc]
  exact mem_append_left _ h

variable {es : List Event}

theorem Answered.mono {out : Bool} (h : Answered ls i es out) (l : Label) :
    Answered (ls ++ [l]) i es out := by
  cases h with
  | failed => exact .failed
  | threw => exact .threw
  | unrecorded kind => exact .unrecorded kind
  | stored => exact .stored
  | unavailable => exact .unavailable
  | alone htook => exact .alone (mem_append_left _ htook)
  | barred hbefore hstopped =>
    exact .barred (hbefore.mono l) (hstopped.imp (mem_history_mono · l) (mem_history_mono · l))
  | single outcome => exact .single outcome
  | spoiled kind hbefore hthrew => exact .spoiled kind (hbefore.mono l) (mem_history_mono hthrew l)

/-- What has happened to the `k`th caller of a batch whose callers are pinned by themselves, with these
outcomes so far; `started` says that the next call is under way. -/
def fallbackHistory (outcomes : List Kind) (started : Bool) (k : ℕ) : List Event :=
  [.admitted, .combine, .combined (some .missingParent)] ++
    match outcomes[k]? with
    | some kind => [.single, .singled (some kind)]
    | none => if started ∧ k = outcomes.length then [.single] else []

def Falls (ls : List Label) (batch : List ℕ) (results : List Bool) (started : Bool) : Prop :=
  results.length < batch.length ∧ ∃ outcomes : List Kind,
    results = outcomes.map (fun kind => decide (kind = .stored)) ∧ Kind.unavailable ∉ outcomes ∧
      ∀ k j, batch[k]? = some j → history ls j = fallbackHistory outcomes started k

def StageTrace (ls : List Label) : Stage → Prop
  | .assembled batch => ∀ j ∈ batch, history ls j = [.admitted]
  | .combining batch => ∀ j ∈ batch, history ls j = [.admitted, .combine]
  | .resolved batch kind => ∀ j ∈ batch, history ls j = [.admitted, .combine, .combined (some kind)]
  | .fallback batch results => Falls ls batch results false
  | .pinning batch results => Falls ls batch results true
  | .executed batch results => (∀ r, results = some r → r.length = batch.length) ∧
      ∀ k j, batch[k]? = some j → Answered ls j (history ls j) (resultAt results k)

theorem StageTrace.frame {st : Stage} (h : StageTrace ls st) (hl : ∀ j ∈ st.batch, l.events j = []) :
    StageTrace (ls ++ [l]) st := by
  have hhistory : ∀ j ∈ st.batch, history (ls ++ [l]) j = history ls j := fun j hj => by
    rw [history_snoc, hl j hj, append_nil]
  have hfalls : ∀ b results started, Falls ls b results started → st.batch = b →
      Falls (ls ++ [l]) b results started := by
    rintro b results started ⟨hlen, outcomes, hres, hun, hall⟩ rfl
    exact ⟨hlen, outcomes, hres, hun, fun k j hk =>
      (hhistory j (mem_of_getElem? hk)).trans (hall k j hk)⟩
  cases st with
  | assembled b => exact fun j hj => (hhistory j hj).trans (h j hj)
  | combining b => exact fun j hj => (hhistory j hj).trans (h j hj)
  | resolved b kind => exact fun j hj => (hhistory j hj).trans (h j hj)
  | fallback b results => exact hfalls b results _ h rfl
  | pinning b results => exact hfalls b results _ h rfl
  | executed b results =>
    refine ⟨h.1, fun k j hk => ?_⟩
    rw [hhistory j (mem_of_getElem? hk)]
    exact (h.2 k j hk).mono l

structure Located (actors : ℕ → Finset ℕ) (ls : List Label) (p : Phase) (node : Node) (i : ℕ) : Prop where
  idle : p = .idle → history ls i = []
  finished : ∀ out, p = .finished out → Returned actors ls i out
  done : p.inside = true → node.done = true → Answered ls i (history ls i) node.result
  queued : p.inside = true → node.done = false → node.taken = false → history ls i = [.admitted]

namespace Located

variable {p p' : Phase} {node : Node}

theorem keep (h : Located actors ls p node i) (hl : l.events i = [])
    (hp : p' = p ∨ (p'.inside = true ∧ p.inside = true)) : Located actors (ls ++ [l]) p' node i := by
  have hhistory : history (ls ++ [l]) i = history ls i := by
    rw [history_snoc, hl, append_nil]
  have hinside : p'.inside = true → p.inside = true := fun hp' => by
    grind
  refine ⟨fun hidle => ?_, fun out hout => ?_, fun hp' hdone => ?_, fun hp' hdone htaken => ?_⟩
  · rcases hp with rfl | ⟨hp, -⟩
    · exact hhistory.trans (h.idle hidle)
    · rw [hidle] at hp
      cases hp
  · rcases hp with rfl | ⟨hp, -⟩
    · refine (h.finished out hout).imp (fun hr => ⟨hhistory.trans hr.1, hr.2⟩) ?_
      rintro ⟨es, hes, hanswered⟩
      exact ⟨es, hhistory.trans hes, hanswered.mono l⟩
    · rw [hout] at hp
      cases hp
  · rw [hhistory]
    exact (h.done (hinside hp') hdone).mono l
  · exact hhistory.trans (h.queued (hinside hp') hdone htaken)

theorem of_taken (hinside : p.inside = true) (hdone : node.done = false) (htaken : node.taken = true) :
    Located actors ls p node i where
  idle := fun hp => by
    rw [hp] at hinside
    cases hinside
  finished := fun out hp => by
    rw [hp] at hinside
    cases hinside
  done := fun _ htrue => by
    rw [hdone] at htrue
    cases htrue
  queued := fun _ _ hfalse => by
    rw [htaken] at hfalse
    cases hfalse

theorem of_done (hinside : p.inside = true) (hdone : node.done = true)
    (hanswered : Answered ls i (history ls i) node.result) : Located actors ls p node i where
  idle := fun hp => by
    rw [hp] at hinside
    cases hinside
  finished := fun out hp => by
    rw [hp] at hinside
    cases hinside
  done := fun _ _ => hanswered
  queued := fun _ hfalse => by
    rw [hdone] at hfalse
    cases hfalse

theorem of_finished {out : Bool} (hreturned : Returned actors ls i out) :
    Located actors ls (.finished out) node i where
  idle := fun hp => by cases hp
  finished := fun out' hp => by
    cases hp
    exact hreturned
  done := fun hinside => by cases hinside
  queued := fun hinside => by cases hinside

end Located

/-! ## Callers pinned by themselves -/

theorem fallbackHistory_of_lt {outcomes : List Kind} {started : Bool} {k : ℕ} {kind : Kind}
    (hk : outcomes[k]? = some kind) : fallbackHistory outcomes started k =
      [.admitted, .combine, .combined (some .missingParent), .single, .singled (some kind)] := by
  rw [fallbackHistory, hk]
  rfl

theorem fallbackHistory_length (outcomes : List Kind) : fallbackHistory outcomes true outcomes.length =
    [.admitted, .combine, .combined (some .missingParent), .single] := by
  rw [fallbackHistory, List.getElem?_eq_none (Nat.le_refl _)]
  simp

theorem fallbackHistory_of_gt {outcomes : List Kind} {started : Bool} {k : ℕ}
    (hk : outcomes.length < k) : fallbackHistory outcomes started k =
      [.admitted, .combine, .combined (some .missingParent)] := by
  rw [fallbackHistory, List.getElem?_eq_none hk.le]
  simp [hk.ne']

theorem fallbackHistory_false (outcomes : List Kind) : fallbackHistory outcomes false outcomes.length =
    [.admitted, .combine, .combined (some .missingParent)] := by
  rw [fallbackHistory, List.getElem?_eq_none (Nat.le_refl _)]
  simp

theorem ne_of_places (hnodup : b.Nodup) {k m : ℕ} (hi : b[k]? = some i) (hj : b[m]? = some j)
    (hkm : k ≠ m) : i ≠ j := by
  rintro rfl
  obtain ⟨hk, -⟩ := List.getElem?_eq_some_iff.1 hi
  exact hkm ((List.getElem?_inj hk hnodup).1 (hi.trans hj.symm))

theorem Falls.single {results : List Bool} (h : Falls ls b results false) (hnodup : b.Nodup)
    (hj : b[results.length]? = some j) (pinned : Finset ℕ) :
    Falls (ls ++ [.single j pinned]) b results true := by
  obtain ⟨hlt, outcomes, hres, hun, hall⟩ := h
  have hlen : results.length = outcomes.length := by rw [hres, List.length_map]
  refine ⟨hlt, outcomes, hres, hun, fun k i hk => ?_⟩
  rw [history_snoc, hall k i hk]
  by_cases hkm : k = results.length
  · subst hkm
    obtain rfl : i = j := Option.some.inj (hk.symm.trans hj)
    rw [hlen, fallbackHistory_false, fallbackHistory_length]
    simp [Label.events]
  · have hne := ne_of_places hnodup hk hj hkm
    rw [Label.events, if_neg hne, append_nil]
    rcases Nat.lt_or_gt_of_ne hkm with hk' | hk'
    · have hget := List.getElem?_eq_getElem (hlen ▸ hk')
      rw [fallbackHistory_of_lt hget, fallbackHistory_of_lt hget]
    · rw [fallbackHistory_of_gt (hlen ▸ hk'), fallbackHistory_of_gt (hlen ▸ hk')]

theorem resultAt_map (outcomes : List Kind) (rest : List Bool) {k : ℕ} {kind : Kind}
    (hk : outcomes[k]? = some kind) :
    resultAt (some (outcomes.map (fun kind => decide (kind = .stored)) ++ rest)) k =
      decide (some kind = some Kind.stored) := by
  obtain ⟨hlt, hget⟩ := List.getElem?_eq_some_iff.1 hk
  simp [resultAt, List.getElem?_append_left, hlt, hget]

theorem resultAt_append (results : List Bool) (result : Bool) (rest : List Bool) :
    resultAt (some (results ++ result :: rest)) results.length = result := by
  simp [resultAt]

/-- The call for one caller by itself is over. -/
theorem Falls.singled {results : List Bool} (h : Falls ls b results true) (hnodup : b.Nodup)
    (hj : b[results.length]? = some j) (htook : .took b ∈ ls) (outcome : Option Kind) :
    StageTrace (ls ++ [.singled j outcome]) (afterSingle b results outcome) := by
  obtain ⟨hlt, outcomes, hres, hun, hall⟩ := h
  have hlen : results.length = outcomes.length := by rw [hres, List.length_map]
  have hbefore : ∀ (k : ℕ) (kind : Kind) (i : ℕ), outcomes[k]? = some kind → b[k]? = some i →
      history (ls ++ [.singled j outcome]) i =
        [.admitted, .combine, .combined (some .missingParent), .single, .singled (some kind)] := by
    intro k kind i hkind hk
    have hk' := (List.getElem?_eq_some_iff.1 hkind).1
    have hne := ne_of_places hnodup hk hj (by omega)
    rw [history_snoc, hall k i hk, fallbackHistory_of_lt hkind, Label.events, if_neg hne,
      append_nil]
  have hself : history (ls ++ [.singled j outcome]) j =
      [.admitted, .combine, .combined (some .missingParent), .single, .singled outcome] := by
    rw [history_snoc, hall _ j hj, hlen, fallbackHistory_length]
    simp [Label.events]
  have hafter : ∀ k i : ℕ, outcomes.length < k → b[k]? = some i →
      history (ls ++ [.singled j outcome]) i =
        [.admitted, .combine, .combined (some .missingParent)] := by
    intro k i hk' hk
    have hne := ne_of_places hnodup hk hj (by omega)
    rw [history_snoc, hall k i hk, fallbackHistory_of_gt hk', Label.events, if_neg hne,
      append_nil]
  have htook' : .took b ∈ ls ++ [.singled j outcome] := mem_append_left _ htook
  -- a caller is before the one that was pinned, is it, or is after it
  have hcases : ∀ k : ℕ, (∃ kind, outcomes[k]? = some kind) ∨ k = results.length ∨ outcomes.length < k := by
    intro k
    rcases Nat.lt_trichotomy k outcomes.length with hk | hk | hk
    · exact .inl ⟨_, List.getElem?_eq_getElem hk⟩
    · exact .inr (.inl (hk.trans hlen.symm))
    · exact .inr (.inr hk)
  have hstopped : (outcome = none ∨ outcome = some .unavailable) →
      Stopped (ls ++ [.singled j outcome]) j := by
    rintro (rfl | rfl)
    · exact .inr (by rw [hself]; simp)
    · exact .inl (by rw [hself]; simp)
  have hbarred : (outcome = none ∨ outcome = some .unavailable) → ∀ k i : ℕ, outcomes.length < k →
      b[k]? = some i → Answered (ls ++ [.singled j outcome]) i
        (history (ls ++ [.singled j outcome]) i) false := by
    intro ho k i hk' hk
    rw [hafter k i hk' hk]
    exact .barred ⟨b, results.length, k, htook', by omega, hj, hk⟩ (hstopped ho)
  cases outcome with
  | none =>
    refine ⟨by simp, fun k i hk => ?_⟩
    rcases hcases k with ⟨kind, hkind⟩ | rfl | hk'
    · have hk' := (List.getElem?_eq_some_iff.1 hkind).1
      rw [hbefore k kind i hkind hk]
      exact .spoiled kind ⟨b, k, results.length, htook', by omega, hk, hj⟩ (by rw [hself]; simp)
    · obtain rfl : i = j := Option.some.inj (hk.symm.trans hj)
      rw [hself]
      exact .single none
    · exact hbarred (.inl rfl) k i hk' hk
  | some kind =>
    have hdone : ∀ rest : List Bool,
        (∀ k i : ℕ, outcomes.length < k → b[k]? = some i →
          Answered (ls ++ [.singled j (some kind)]) i (history (ls ++ [.singled j (some kind)]) i)
            (resultAt (some (results ++ decide (kind = .stored) :: rest)) k)) →
        ∀ k i : ℕ, b[k]? = some i → Answered (ls ++ [.singled j (some kind)]) i
          (history (ls ++ [.singled j (some kind)]) i)
          (resultAt (some (results ++ decide (kind = .stored) :: rest)) k) := by
      intro rest hrest k i hk
      rcases hcases k with ⟨kind', hkind⟩ | rfl | hk'
      · rw [hbefore k kind' i hkind hk, hres, resultAt_map outcomes _ hkind]
        exact .single (some kind')
      · obtain rfl : i = j := Option.some.inj (hk.symm.trans hj)
        rw [hself, resultAt_append]
        simpa using Answered.single (some kind)
      · exact hrest k i hk' hk
    have hgoes : kind ≠ .unavailable → StageTrace (ls ++ [.singled j (some kind)])
        (if results.length + 1 = b.length then
          .executed b (some (results ++ [decide (kind = .stored)]))
        else .fallback b (results ++ [decide (kind = .stored)])) := by
      intro hkind
      split
      · next hend =>
        refine ⟨fun r hr => ?_, hdone [] fun k i hk' hk => ?_⟩
        · cases hr
          rw [length_append, List.length_singleton, hend]
        · have hbound := (List.getElem?_eq_some_iff.1 hk).1
          omega
      · next hend =>
        refine ⟨?_, outcomes ++ [kind], by simp [hres], by simp [hun, Ne.symm hkind],
          fun k i hk => ?_⟩
        · rw [length_append, List.length_singleton]
          omega
        · rcases hcases k with ⟨kind', hkind'⟩ | rfl | hk'
          · have hk' := (List.getElem?_eq_some_iff.1 hkind').1
            rw [hbefore k kind' i hkind' hk,
              fallbackHistory_of_lt ((List.getElem?_append_left hk').trans hkind')]
          · obtain rfl : i = j := Option.some.inj (hk.symm.trans hj)
            rw [hself, fallbackHistory_of_lt (by rw [hlen]; exact List.getElem?_concat_length)]
          · rw [hafter k i hk' hk]
            rcases Nat.lt_or_eq_of_le (Nat.succ_le_of_lt hk') with hk' | rfl
            · rw [fallbackHistory_of_gt (by simpa using hk')]
            · have hend := fallbackHistory_false (outcomes ++ [kind])
              rw [length_append, List.length_singleton] at hend
              exact hend.symm
    cases kind with
    | unavailable =>
      have hsplit : results ++ replicate (b.length - results.length) false =
          results ++ decide (Kind.unavailable = .stored) ::
            replicate (b.length - results.length - 1) false := by
        obtain ⟨m, hm⟩ : ∃ m, b.length - results.length = m + 1 :=
          ⟨b.length - results.length - 1, by omega⟩
        rw [hm, List.replicate_succ]
        rfl
      rw [afterSingle, hsplit]
      refine ⟨fun r hr => ?_, hdone _ fun k i hk' hk => ?_⟩
      · cases hr
        simp
        omega
      · have hfalse : resultAt (some (results ++ decide (Kind.unavailable = .stored) ::
            replicate (b.length - results.length - 1) false)) k = false := by
          have hbound := (List.getElem?_eq_some_iff.1 hk).1
          rw [← hsplit, resultAt, Option.bind_some, List.getElem?_append_right (by omega),
            List.getElem?_replicate]
          split <;> rfl
        rw [hfalse]
        exact hbarred (.inr rfl) k i hk' hk
    | stored => exact hgoes (by decide)
    | missingParent => exact hgoes (by decide)

structure Traces (actors : ℕ → Finset ℕ) (ls : List Label) (s : State) : Prop where
  caller : ∀ i, Located actors ls (s.phase i) (s.nodes i) i
  leader : ∀ l st, s.phase l = .leading st → StageTrace ls st
  took : ∀ l b, (s.phase l).batch = some b → .took b ∈ ls

namespace Traces

theorem init : Traces actors [] State.initial where
  caller := fun i => ⟨fun _ => rfl, fun out h => (by cases h), fun h => (by cases h),
    fun h => (by cases h)⟩
  leader := fun l st h => by cases h
  took := fun l b h => by cases h

/-- The caller `i` moves, and is in no batch before or after; others may be woken. -/
theorem move (h : Traces actors ls s)
    (hphase : ∀ j, j ≠ i → s'.phase j = s.phase j ∨ s'.phase j = (s.phase j).notified)
    (hnodes : ∀ j, j ≠ i → s'.nodes j = s.nodes j) (hnone : (s'.phase i).batch = none)
    (hother : ∀ j, j ≠ i → l.events j = [])
    (hleaders : ∀ l' b, (s.phase l').batch = some b → i ∉ b)
    (hself : Located actors (ls ++ [l]) (s'.phase i) (s'.nodes i) i) :
    Traces actors (ls ++ [l]) s' := by
  have hleading : ∀ l' st, s'.phase l' = .leading st → s.phase l' = .leading st := by
    intro l' st hl'
    have hne : l' ≠ i := fun heq => by
      rw [← heq, hl'] at hnone
      cases hnone
    rcases hphase l' hne with heq | heq
    · rw [← heq, hl']
    · rw [hl'] at heq
      cases hp : s.phase l' with
      | leading st' =>
        rw [hp] at heq
        exact heq.symm
      | _ =>
        rw [hp] at heq
        cases heq
  have hbatch : ∀ l' b, (s'.phase l').batch = some b → (s.phase l').batch = some b := by
    intro l' b hl'
    cases hp : s'.phase l' with
    | leading st =>
      rw [hleading l' st hp, ← hp]
      exact hl'
    | _ =>
      rw [hp] at hl'
      cases hl'
  refine ⟨fun j => ?_, fun l' st hl' => ?_, fun l' b hl' => ?_⟩
  · by_cases hj : j = i
    · subst hj
      exact hself
    · rw [hnodes j hj]
      refine (h.caller j).keep (hother j hj) ?_
      rcases hphase j hj with heq | heq
      · exact .inl heq
      · by_cases hasleep : s.phase j = .asleep
        · rw [heq, hasleep]
          exact .inr ⟨rfl, rfl⟩
        · exact .inl (heq.trans (notified_of_not_asleep hasleep))
  · have hold := hleading l' st hl'
    refine (h.leader l' st hold).frame fun j hjb => hother j fun heq => ?_
    exact hleaders l' st.batch (by rw [hold]; rfl) (heq ▸ hjb)
  · exact mem_append_left _ (h.took l' b (hbatch l' b hl'))

theorem move_phase (h : Traces actors ls s) {p : Phase} (hnone : p.batch = none)
    (hother : ∀ j, j ≠ i → l.events j = [])
    (hleaders : ∀ l' b, (s.phase l').batch = some b → i ∉ b)
    (hself : Located actors (ls ++ [l]) p (s.nodes i) i) :
    Traces actors (ls ++ [l]) (s.setPhase i p) := by
  refine h.move (fun j hj => .inl ?_) (fun _ _ => rfl) ?_ hother hleaders ?_
  · rw [setPhase_phase, update_of_ne hj]
  · rw [setPhase_phase, update_self]
    exact hnone
  · rw [setPhase_phase, update_self]
    exact hself

theorem still (h : Traces actors ls s) {p : Phase} (hl : ∀ j, l.events j = [])
    (hi : (s.phase i).inside = true) (hp : p.inside = true) (hnone : p.batch = none) :
    Traces actors (ls ++ [l]) (s.setPhase i p) := by
  refine ⟨fun j => ?_, fun l' st hl' => ?_, fun l' b hl' => ?_⟩
  · by_cases hj : j = i
    · subst hj
      rw [setPhase_phase, update_self]
      exact (h.caller j).keep (hl j) (.inr ⟨hp, hi⟩)
    · rw [setPhase_phase, update_of_ne hj]
      exact (h.caller j).keep (hl j) (.inl rfl)
  · by_cases hj : l' = i
    · subst hj
      rw [setPhase_phase, update_self] at hl'
      rw [hl'] at hnone
      cases hnone
    · rw [setPhase_phase, update_of_ne hj] at hl'
      exact (h.leader l' st hl').frame fun j _ => hl j
  · by_cases hj : l' = i
    · subst hj
      rw [setPhase_phase, update_self, hnone] at hl'
      cases hl'
    · rw [setPhase_phase, update_of_ne hj] at hl'
      exact mem_append_left _ (h.took l' b hl')

theorem stage (h : Traces actors ls s) (hplaces : Places parallel s) {st st' : Stage}
    (hi : s.phase i = .leading st) (hbatch : st'.batch = st.batch)
    (hother : ∀ j, j ∉ st.batch → l.events j = []) (hst : StageTrace (ls ++ [l]) st') :
    Traces actors (ls ++ [l]) (s.setPhase i (.leading st')) := by
  have hleads : (s.phase i).batch = some st.batch := by rw [hi]; rfl
  obtain ⟨-, hmem, hall⟩ := hplaces.batch i _ hleads
  refine ⟨fun j => ?_, fun l' st'' hl' => ?_, fun l' b hl' => ?_⟩
  · by_cases hj : j ∈ st.batch
    · obtain ⟨⟨hinside, hdone⟩, htaken⟩ := hall j hj
      refine .of_taken ?_ hdone htaken
      by_cases hji : j = i
      · subst hji
        rw [setPhase_phase, update_self]
        rfl
      · rw [setPhase_phase, update_of_ne hji]
        exact hinside
    · have hji : j ≠ i := fun heq => hj (heq ▸ hmem)
      rw [setPhase_phase, update_of_ne hji]
      exact (h.caller j).keep (hother j hj) (.inl rfl)
  · by_cases hj : l' = i
    · subst hj
      rw [setPhase_phase, update_self] at hl'
      cases hl'
      exact hst
    · rw [setPhase_phase, update_of_ne hj] at hl'
      refine (h.leader l' st'' hl').frame fun j hjb => hother j fun hjb' => hj ?_
      exact hplaces.owner l' i _ _ j (by rw [hl']; rfl) hleads hjb hjb'
  · by_cases hj : l' = i
    · subst hj
      rw [setPhase_phase, update_self] at hl'
      cases hl'
      rw [hbatch]
      exact mem_append_left _ (h.took l' _ hleads)
    · rw [setPhase_phase, update_of_ne hj] at hl'
      exact mem_append_left _ (h.took l' b hl')

/-- A leader takes the queue. -/
theorem lead (h : Traces actors ls s) (hplaces : Places parallel s) (hready : s.phase i = .ready)
    (hdone : (s.nodes i).done = false) (htaken : (s.nodes i).taken = false) :
    Traces actors (ls ++ [.took s.queue]) ({ s with
      queue := []
      running := s.running + 1
      nodes := take s.nodes s.queue }.setPhase i (.leading (.assembled s.queue))) := by
  have hmem : i ∈ s.queue := (hplaces.queued i).2 ⟨⟨by rw [hready]; rfl, hdone⟩, htaken⟩
  refine ⟨fun j => ?_, fun l st hl => ?_, fun l b hl => ?_⟩
  · by_cases hj : j ∈ s.queue
    · obtain ⟨⟨hinside, hdone'⟩, -⟩ := (hplaces.queued j).1 hj
      refine .of_taken ?_ ?_ ?_
      · by_cases hji : j = i
        · subst hji
          rw [setPhase_phase, update_self]
          rfl
        · rw [setPhase_phase, update_of_ne hji]
          exact hinside
      · change (take s.nodes s.queue j).done = false
        rw [take, if_pos hj]
        exact hdone'
      · change (take s.nodes s.queue j).taken = true
        rw [take, if_pos hj]
    · have hji : j ≠ i := fun heq => hj (heq ▸ hmem)
      change Located actors _ _ (take s.nodes s.queue j) j
      rw [setPhase_phase, update_of_ne hji, take, if_neg hj]
      exact (h.caller j).keep rfl (.inl rfl)
  · by_cases hli : l = i
    · subst hli
      rw [setPhase_phase, update_self] at hl
      cases hl
      intro j hj
      obtain ⟨⟨hinside, hdone'⟩, htaken'⟩ := (hplaces.queued j).1 hj
      rw [history_snoc, (h.caller j).queued hinside hdone' htaken']
      rfl
    · rw [setPhase_phase, update_of_ne hli] at hl
      exact (h.leader l st hl).frame fun _ _ => rfl
  · by_cases hli : l = i
    · subst hli
      rw [setPhase_phase, update_self] at hl
      cases hl
      exact List.mem_append_right _ (List.mem_singleton_self _)
    · rw [setPhase_phase, update_of_ne hli] at hl
      exact mem_append_left _ (h.took l b hl)

/-- A leader gives its batch the results. -/
theorem writeBack (h : Traces actors ls s) (hplaces : Places parallel s)
    {results : Option (List Bool)} (hphase : s.phase i = .leading (.executed b results)) {x y : ℕ} :
    Traces actors (ls ++ [.silent]) ({ s with
      running := x
      pending := y
      nodes := ReferenceBatch.writeBack s.nodes b results }.notifyAll.setPhase i .ready) := by
  have hleads : (s.phase i).batch = some b := by rw [hphase]; rfl
  obtain ⟨hnodup, hi, hall⟩ := hplaces.batch i b hleads
  obtain ⟨hlen, hanswered⟩ := h.leader i _ hphase
  have hleading : ∀ l st, l ≠ i → (s.phase l).notified = .leading st → s.phase l = .leading st := by
    intro l st _ hl
    cases hp : s.phase l with
    | leading st' =>
      rw [hp] at hl
      exact hl
    | _ =>
      rw [hp] at hl
      cases hl
  refine ⟨fun j => ?_, fun l st hl => ?_, fun l c hl => ?_⟩
  · change Located actors _ _ (ReferenceBatch.writeBack s.nodes b results j) j
    by_cases hj : j ∈ b
    · obtain ⟨k, hk⟩ := getElem?_of_mem hj
      rw [writeBack_get _ hnodup hlen hk]
      refine .of_done ?_ rfl ?_
      · by_cases hji : j = i
        · subst hji
          rw [setPhase_phase, update_self]
          rfl
        · rw [setPhase_phase, update_of_ne hji]
          exact (inside_notified _).trans (hall j hj).1.1
      · rw [history_snoc, show Label.silent.events j = [] from rfl, append_nil]
        exact (hanswered k j hk).mono .silent
    · have hji : j ≠ i := fun heq => hj (heq ▸ hi)
      rw [writeBack_of_notMem _ _ hj, setPhase_phase, update_of_ne hji]
      refine (h.caller j).keep rfl ?_
      by_cases hasleep : s.phase j = .asleep
      · refine .inr ⟨(inside_notified _).trans ?_, ?_⟩ <;> (rw [hasleep]; rfl)
      · exact .inl (notified_of_not_asleep hasleep)
  · by_cases hli : l = i
    · subst hli
      rw [setPhase_phase, update_self] at hl
      cases hl
    · rw [setPhase_phase, update_of_ne hli] at hl
      exact (h.leader l st (hleading l st hli hl)).frame fun _ _ => rfl
  · by_cases hli : l = i
    · subst hli
      rw [setPhase_phase, update_self] at hl
      cases hl
    · rw [setPhase_phase, update_of_ne hli] at hl
      exact mem_append_left _ (h.took l c ((batch_notified _).symm.trans hl))

end Traces

structure Inv (parallel : ℕ) (actors : ℕ → Finset ℕ) (ls : List Label) (s : State) : Prop where
  places : Places parallel s
  traces : Traces actors ls s

namespace Inv

theorem stage (h : Inv parallel actors ls s) {st st' : Stage} (hi : s.phase i = .leading st)
    (hbatch : st'.batch = st.batch) (hother : ∀ j, j ∉ st.batch → l.events j = [])
    (hst : StageTrace (ls ++ [l]) st') :
    Inv parallel actors (ls ++ [l]) (s.setPhase i (.leading st')) where
  places := h.places.move (fun _ => by rw [hi]; rfl) (by rw [hi, Phase.batch, Phase.batch, hbatch])
    (fun heq => (by cases heq))
  traces := h.traces.stage h.places hi hbatch hother hst

theorem batch_history {batch : List ℕ} {e : Event} (hall : ∀ j ∈ batch, history ls j = es)
    (hl : ∀ j, l.events j = if j ∈ batch then [e] else []) :
    (∀ j, j ∉ batch → l.events j = []) ∧ ∀ j ∈ batch, history (ls ++ [l]) j = es ++ [e] := by
  refine ⟨fun j hj => ?_, fun j hj => ?_⟩
  · rw [hl, if_neg hj]
  · rw [history_snoc, hall j hj, hl, if_pos hj]

theorem executed_all {batch : List ℕ} {results : Option (List Bool)}
    (hlen : ∀ r, results = some r → r.length = batch.length) {out : Bool}
    (hresult : ∀ k, k < batch.length → resultAt results k = out)
    (hall : ∀ j ∈ batch, history ls j = es) (hanswered : ∀ j ∈ batch, Answered ls j es out) :
    StageTrace ls (.executed batch results) := by
  refine ⟨hlen, fun k j hk => ?_⟩
  have hj := mem_of_getElem? hk
  rw [hall j hj, hresult k (List.getElem?_eq_some_iff.1 hk).1]
  exact hanswered j hj

theorem executed_none {batch : List ℕ} (hall : ∀ j ∈ batch, history ls j = es)
    (hanswered : ∀ j ∈ batch, Answered ls j es false) : StageTrace ls (.executed batch none) :=
  executed_all (by simp) (fun _ _ => rfl) hall hanswered

theorem executed_replicate {batch : List ℕ} {out : Bool}
    (hall : ∀ j ∈ batch, history ls j = es) (hanswered : ∀ j ∈ batch, Answered ls j es out) :
    StageTrace ls (.executed batch (some (replicate batch.length out))) := by
  refine executed_all (fun r hr => ?_) (fun k hk => ?_) hall hanswered
  · grind
  · simp [resultAt, hk]

theorem outside (h : Inv parallel actors ls s) (hi : ¬ s.Undone i) :
    ∀ l b, (s.phase l).batch = some b → i ∉ b :=
  fun _ _ hl => h.places.notMem_of_not_undone hl hi

theorem leave (h : Inv parallel actors ls s) (hidle : s.phase i = .idle) {out : Bool}
    (hout : out = true ↔ actors i = ∅) :
    Inv parallel actors (ls ++ [.returned i out]) (s.setPhase i (.finished out)) where
  places := h.places.move (fun _ => by rw [hidle]; rfl) (by rw [hidle]; rfl) (fun heq => (by cases heq))
  traces := by
    refine h.traces.move_phase rfl (fun j hj => if_neg hj)
      (h.outside fun hu => by rw [State.Undone, hidle] at hu; cases hu.1) (.of_finished (.inl ⟨?_, hout⟩))
    rw [history_snoc, (h.traces.caller i).idle hidle, Label.events, if_pos rfl]
    rfl

theorem step (h : Inv parallel actors ls s) (hstep : Step parallel actors s l s') :
    Inv parallel actors (ls ++ [l]) s' := by
  obtain ⟨i, hact⟩ := hstep
  cases hact with
  | empty hidle hactors => exact h.leave hidle (by simp [hactors])
  | invalid hidle hactors => exact h.leave hidle (by simp [hactors])
  | reject hidle hadmissible => exact h.leave hidle (by simp [hadmissible.1])
  | admitted hidle hadmissible hlt =>
    refine ⟨h.places.admitted hidle hlt, h.traces.move (fun j hj => .inl ?_) (fun j hj => ?_) ?_
      (fun j hj => if_neg hj) (h.outside fun hu => by rw [State.Undone, hidle] at hu; cases hu.1) ?_⟩
    · rw [setPhase_phase, update_of_ne hj]
    · exact update_of_ne hj _ _
    · rw [setPhase_phase, update_self]
      rfl
    · rw [setPhase_phase, update_self]
      change Located actors _ _ (Function.update s.nodes i ⟨false, false, false⟩ i) i
      rw [update_self]
      refine ⟨fun hp => (by cases hp), fun out hp => (by cases hp), fun _ hp => (by cases hp),
        fun _ _ _ => ?_⟩
      rw [history_snoc, (h.traces.caller i).idle hidle, Label.events, if_pos rfl]
      rfl
  | finish hready hdone =>
    refine ⟨h.places.move (fun hfalse => ?_) (by rw [hready]; rfl) (fun heq => (by cases heq)),
      h.traces.move_phase rfl (fun j hj => if_neg hj) (h.outside fun hu => ?_) (.of_finished ?_)⟩
    · rw [hdone] at hfalse
      cases hfalse
    · rw [State.Undone, hdone] at hu
      cases hu.2
    · refine .inr ⟨history ls i, ?_, ?_⟩
      · rw [history_snoc, Label.events, if_pos rfl]
      · exact ((h.traces.caller i).done (by rw [hready]; rfl) hdone).mono _
  | sleep hready hdone hwait =>
    exact ⟨h.places.move (fun _ => by rw [hready]; rfl) (by rw [hready]; rfl)
      (fun _ => ⟨hdone, hwait⟩), h.traces.still (fun _ => rfl) (by rw [hready]; rfl) rfl rfl⟩
  | wake hasleep =>
    exact ⟨h.places.move (fun _ => by rw [hasleep]; rfl) (by rw [hasleep]; rfl)
      (fun heq => (by cases heq)), h.traces.still (fun _ => rfl) (by rw [hasleep]; rfl) rfl rfl⟩
  | reserveFails hready hdone htaken hlt =>
    have hinside : (s.phase i).inside = true := by rw [hready]; rfl
    refine ⟨h.places.reserveFails hready hdone htaken, h.traces.move (fun j hj => .inr ?_)
      (fun j hj => ?_) ?_ (fun j hj => if_neg fun hmem => hj (mem_singleton.1 hmem))
      (fun l b hl hmem => ?_) ?_⟩
    · rw [setPhase_phase, update_of_ne hj]
      rfl
    · exact update_of_ne hj _ _
    · rw [setPhase_phase, update_self]
      rfl
    · have htrue := ((h.places.batch l b hl).2.2 i hmem).2
      rw [htaken] at htrue
      cases htrue
    · rw [setPhase_phase, update_self]
      change Located actors _ _ (Function.update s.nodes i ⟨false, true, false⟩ i) i
      rw [update_self]
      refine .of_done rfl rfl ?_
      rw [history_snoc, (h.traces.caller i).queued hinside hdone htaken, Label.events,
        if_pos (List.mem_singleton_self i)]
      exact .failed
  | lead hready hdone htaken hlt =>
    have hlead := h.traces.lead h.places hready hdone htaken
    refine ⟨h.places.lead hready hdone htaken hlt, ?_⟩
    rw [h.places.take_queue, h.places.drop_queue]
    exact hlead
  | @combineFails batch hphase =>
    obtain ⟨hother, hall⟩ := batch_history (h.traces.leader i _ hphase)
      (l := .failed batch) fun j => rfl
    exact h.stage hphase rfl hother (executed_none hall fun _ _ => .failed)
  | @combine batch hphase =>
    obtain ⟨hother, hall⟩ := batch_history (h.traces.leader i _ hphase)
      (l := .combine batch (combinedActors actors batch)) fun j => rfl
    exact h.stage hphase rfl hother hall
  | @combined batch kind hphase =>
    obtain ⟨hother, hall⟩ := batch_history (h.traces.leader i _ hphase)
      (l := .combined batch (some kind)) fun j => rfl
    exact h.stage hphase rfl hother hall
  | @combinedThrows batch hphase =>
    obtain ⟨hother, hall⟩ := batch_history (h.traces.leader i _ hphase)
      (l := .combined batch none) fun j => rfl
    exact h.stage hphase rfl hother (executed_none hall fun _ _ => .threw)
  | @resolve batch kind hphase =>
    have hleads : (s.phase i).batch = some batch := by rw [hphase]; rfl
    have hmem := (h.places.batch i batch hleads).2.1
    have hall : ∀ j ∈ batch, history (ls ++ [.silent]) j =
        [.admitted, .combine, .combined (some kind)] := fun j hj => by
      rw [history_snoc, h.traces.leader i _ hphase j hj]
      rfl
    refine h.stage hphase (afterCombined_batch batch kind) (fun _ _ => rfl) ?_
    cases kind with
    | stored => exact executed_replicate hall fun _ _ => .stored
    | unavailable => exact executed_replicate hall fun _ _ => .unavailable
    | missingParent =>
      simp only [afterCombined]
      split
      · next hone =>
        refine executed_replicate hall fun j hj => .alone ?_
        obtain ⟨k, rfl⟩ := List.length_eq_one_iff.1 hone
        rw [mem_singleton.1 hj]
        exact mem_append_left _ (h.traces.took i _ hleads)
      · exact ⟨List.length_pos_of_mem hmem, [], rfl, List.not_mem_nil, fun k j hk =>
          hall j (mem_of_getElem? hk)⟩
  | @resolveFails batch kind hphase =>
    obtain ⟨hother, hall⟩ := batch_history (h.traces.leader i _ hphase)
      (l := .failed batch) fun j => rfl
    exact h.stage hphase rfl hother (executed_none hall fun _ _ => .unrecorded kind)
  | @single batch results j hphase hj =>
    have hnodup := (h.places.batch i batch (by rw [hphase]; rfl)).1
    refine h.stage hphase rfl (fun k hk => if_neg fun heq => hk ?_)
      (Falls.single (h.traces.leader i _ hphase) hnodup hj _)
    rw [heq]
    exact mem_of_getElem? hj
  | @singled batch results j outcome hphase hj =>
    have hleads : (s.phase i).batch = some batch := by rw [hphase]; rfl
    have hnodup := (h.places.batch i batch hleads).1
    refine h.stage hphase (afterSingle_batch batch results outcome)
      (fun k hk => if_neg fun heq => hk ?_)
      (Falls.singled (h.traces.leader i _ hphase) hnodup hj (h.traces.took i batch hleads) outcome)
    rw [heq]
    exact mem_of_getElem? hj
  | @writeBack batch results hphase =>
    exact ⟨h.places.writeBack hphase (h.traces.leader i _ hphase).1,
      h.traces.writeBack h.places hphase⟩

theorem of_run (hrun : Run (Step parallel actors) State.initial ls s) : Inv parallel actors ls s :=
  hrun.history (I := Inv parallel actors) (fun _ _ _ _ h hstep => h.step hstep)
    ⟨Places.init, Traces.init⟩

end Inv

/-! ## Every run -/

theorem Answered.pinned {out : Bool} (h : Answered ls i es out) : Pinned es := by
  cases h <;> exact ⟨by simp, by simp, by simp⟩

theorem Pinned.concat (h : Pinned es) (out : Bool) : Pinned (es ++ [.returned out]) where
  combine := by simpa [List.count_append] using h.combine
  single := by simpa [List.count_append] using h.single
  missing := fun hmem => (h.missing (by simpa using hmem)).trans (List.prefix_append _ _)

theorem Falls.pinned {results : List Bool} {started : Bool} (h : Falls ls b results started)
    (hi : i ∈ b) : Pinned (history ls i) := by
  obtain ⟨-, outcomes, -, -, hall⟩ := h
  obtain ⟨k, hk⟩ := getElem?_of_mem hi
  rw [hall k i hk]
  unfold fallbackHistory
  split
  · exact ⟨by simp, by simp, by simp⟩
  · split <;> exact ⟨by simp, by simp, by simp⟩

theorem StageTrace.pinned {st : Stage} (h : StageTrace ls st) (hi : i ∈ st.batch) :
    Pinned (history ls i) := by
  cases st with
  | fallback batch results => exact Falls.pinned h hi
  | pinning batch results => exact Falls.pinned h hi
  | executed batch results =>
    obtain ⟨k, hk⟩ := getElem?_of_mem hi
    exact (h.2 k i hk).pinned
  | _ =>
    rw [h i hi]
    exact ⟨by simp, by simp, by simp⟩

theorem Inv.pinned (h : Inv parallel actors ls s) (i : ℕ) : Pinned (history ls i) := by
  have hinside : (s.phase i).inside = true → Pinned (history ls i) := by
    intro hin
    cases hdone : (s.nodes i).done with
    | true => exact ((h.traces.caller i).done hin hdone).pinned
    | false =>
      cases htaken : (s.nodes i).taken with
      | false =>
        rw [(h.traces.caller i).queued hin hdone htaken]
        exact ⟨by simp, by simp, by simp⟩
      | true =>
        obtain ⟨l, b, hl, hi⟩ := h.places.owned i ⟨hin, hdone⟩ htaken
        cases hp : s.phase l with
        | leading st =>
          rw [hp] at hl
          cases hl
          exact (h.traces.leader l st hp).pinned hi
        | _ =>
          rw [hp] at hl
          cases hl
  cases hp : s.phase i with
  | idle =>
    rw [(h.traces.caller i).idle hp]
    exact ⟨by simp, by simp, by simp⟩
  | finished out =>
    rcases (h.traces.caller i).finished out hp with ⟨hhistory, -⟩ | ⟨es, hhistory, hanswered⟩
    · rw [hhistory]
      exact ⟨by simp, by simp, by simp⟩
    · rw [hhistory]
      exact hanswered.pinned.concat out
  | _ => exact hinside (by rw [hp]; rfl)

theorem subset_combinedActors (actors : ℕ → Finset ℕ) (acc : Finset ℕ) (batch : List ℕ) :
    acc ⊆ batch.foldl (fun combined i => combined ∪ actors i) acc ∧
      ∀ i ∈ batch, actors i ⊆ batch.foldl (fun combined i => combined ∪ actors i) acc := by
  induction batch generalizing acc with
  | nil => exact ⟨Finset.Subset.refl _, by simp⟩
  | cons j batch ih =>
    obtain ⟨hacc, hall⟩ := ih (acc ∪ actors j)
    refine ⟨Finset.subset_union_left.trans hacc, fun i hi => ?_⟩
    rcases mem_cons.1 hi with rfl | hi
    · exact Finset.subset_union_right.trans hacc
    · exact hall i hi

theorem carries_of_step (hstep : Step parallel actors s l s') : l.Carries actors := by
  obtain ⟨i, hact⟩ := hstep
  cases hact with
  | combine => exact (subset_combinedActors actors ∅ _).2
  | single => rfl
  | _ => trivial

/-- In every run the calls of `pin` for a caller are as they should be, and what it returns follows from
how they ended; there are at most `parallel` leaders, `pending` counts the callers without a result, at
most 64, and a caller sleeps with its input not taken only while `parallel` callers lead. -/
theorem reference_batches (hrun : Run (Step parallel actors) State.initial ls s) :
    (∀ i, Pinned (history ls i)) ∧ (∀ l ∈ ls, l.Carries actors) ∧
    (∀ i out, s.phase i = .finished out → Returned actors ls i out) ∧
    ((∃ T : Finset ℕ, (∀ i, i ∈ T ↔ (s.phase i).batch.isSome) ∧ T.card = s.running) ∧
      s.running ≤ parallel) ∧
    ((∃ T : Finset ℕ, (∀ i, i ∈ T ↔ s.Undone i) ∧ T.card = s.pending) ∧ s.pending ≤ 64) ∧
    (∀ i, s.phase i = .asleep → s.running < parallel →
      ∃ l b, (s.phase l).batch = some b ∧ i ∈ b) := by
  have h := Inv.of_run hrun
  refine ⟨h.pinned, ?_, fun i out hp => (h.traces.caller i).finished out hp,
    ⟨h.places.leaders, h.places.running_le⟩, ⟨h.places.undone, h.places.pending_le⟩,
    fun i hp hlt => ?_⟩
  · exact ((Run.and_labels_iff (P := fun l => l.Carries actors)).1
      (hrun.imp fun _ _ _ hstep => ⟨hstep, carries_of_step hstep⟩)).2
  · obtain ⟨hdone, hwait⟩ := h.places.asleep i hp
    have htaken := hwait.resolve_right (by omega)
    exact h.places.owned i ⟨by rw [hp]; rfl, hdone⟩ htaken

/-- Two callers of one batch, of which the second one's call of `pin` throws. -/
def sampleLabels : List Label :=
  [.admitted 0, .admitted 1, .took [0, 1], .combine [0, 1] {1, 2},
    .combined [0, 1] (some .missingParent), .silent, .single 0 {1}, .singled 0 (some .stored),
    .single 1 {2}, .singled 1 none, .silent, .returned 0 false]

def sampleActors (i : ℕ) : Finset ℕ := {i + 1}

theorem sample_run : ∃ s, Run (Step 1 sampleActors) State.initial sampleLabels s ∧
    s.phase 0 = .finished false := by
  refine ⟨_, .cons ⟨0, .admitted rfl (by simp [Admissible, sampleActors]) (by decide)⟩ <|
    .cons ⟨1, .admitted rfl (by simp [Admissible, sampleActors]) (by decide)⟩ <|
    .cons ⟨0, .lead rfl rfl rfl (by decide)⟩ <| .cons ⟨0, .combine rfl⟩ <|
    .cons ⟨0, .combined .missingParent rfl⟩ <| .cons ⟨0, .resolve rfl⟩ <|
    .cons ⟨0, .single rfl rfl⟩ <| .cons ⟨0, .singled (some .stored) rfl rfl⟩ <|
    .cons ⟨0, .single rfl rfl⟩ <| .cons ⟨0, .singled none rfl rfl⟩ <|
    .cons ⟨0, .writeBack rfl⟩ <| .single ⟨0, .finish rfl rfl⟩, rfl⟩

theorem reference_batches_sample : ∃ s, Run (Step 1 sampleActors) State.initial sampleLabels s ∧
    Returned sampleActors sampleLabels 0 false ∧ s.pending ≤ 64 := by
  obtain ⟨s, hrun, hphase⟩ := sample_run
  obtain ⟨-, -, hreturned, -, hpending, -⟩ := reference_batches hrun
  exact ⟨s, hrun, hreturned 0 false hphase, hpending.2⟩

/-- A caller whose own call stored its actors can return `false`, and one without actors returns `true`
with no call at all. -/
theorem stored_denied :
    (¬ ∀ (parallel : ℕ) (actors : ℕ → Finset ℕ) (ls : List Label) (s : State) (i : ℕ),
      Run (Step parallel actors) State.initial ls s → .singled (some .stored) ∈ history ls i →
        s.phase i ≠ .finished false) ∧
    ¬ ∀ (parallel : ℕ) (actors : ℕ → Finset ℕ) (ls : List Label) (s : State) (i : ℕ),
      Run (Step parallel actors) State.initial ls s → s.phase i = .finished true →
        .combined (some .stored) ∈ history ls i ∨ .singled (some .stored) ∈ history ls i := by
  constructor
  · intro hall
    obtain ⟨s, hrun, hphase⟩ := sample_run
    exact hall _ _ _ s 0 hrun (by decide) hphase
  · intro hall
    have hrun : Run (Step 1 fun _ => ∅) State.initial [.returned 0 true]
        (State.initial.setPhase 0 (.finished true)) := .single ⟨0, .empty rfl rfl⟩
    exact absurd (hall _ _ _ _ 0 hrun rfl) (by decide)

end TinyImx.Message.ReferenceBatch
