import Mathlib.Algebra.Order.BigOperators.Group.Finset
import TinyImx.Runtime.WriteGroup

/-!
# Each write once

Every caller's input is in one call of `execute` at most, a call of `Run` returns as that call did,
and the callers in a batch are in the order in which they joined.  A caller that waits is either in
the queue, in the batch of the one leader, or done; what the calls of `execute` have done with its
input so far is fixed by which of these it is.
-/

namespace TinyImx.Runtime.WriteGroup

open Function (update_of_ne update_self)

variable {Error : Type} {o : Limits} {bytes : ℕ → ℕ} {s s' : State Error} {l : Label Error}
  {ls : List (Label Error)} {i j : ℕ} {p : Phase Error}

/-! ## The byte budget -/

theorem sizeSub_of_le {a b : ℕ} (hb : b ≤ a) (ha : a ≤ 64 * 1024 * 1024) : sizeSub a b = a - b := by
  unfold sizeSub
  omega

def weight (bytes : ℕ → ℕ) (s : State Error) (i : ℕ) : ℕ := if (s.phase i).holds then bytes i else 0

structure Budget (o : Limits) (bytes : ℕ → ℕ) (s : State Error) : Prop where
  read : ∀ i held, s.phase i = .reserving held → held ≤ o.serializedInputBytes
  total : ∃ T : Finset ℕ, (∀ i ∉ T, weight bytes s i = 0) ∧ ∑ i ∈ T, weight bytes s i = s.heldBytes
  le : s.heldBytes ≤ o.serializedInputBytes

namespace Budget

theorem init : Budget o bytes (State.initial : State Error) where
  read := by simp [State.initial]
  total := ⟨∅, by simp [weight, State.initial, Phase.holds], rfl⟩
  le := Nat.zero_le _

theorem sum_le (h : Budget o bytes s) (T : Finset ℕ) : ∑ i ∈ T, weight bytes s i ≤ s.heldBytes := by
  obtain ⟨U, hU, hsum⟩ := h.total
  rw [← hsum]
  calc ∑ i ∈ T, weight bytes s i ≤ ∑ i ∈ T ∪ U, weight bytes s i :=
        Finset.sum_le_sum_of_subset Finset.subset_union_left
    _ = ∑ i ∈ U, weight bytes s i :=
        (Finset.sum_subset Finset.subset_union_right fun i _ hi => hU i hi).symm

theorem weight_le (h : Budget o bytes s) (i : ℕ) : weight bytes s i ≤ s.heldBytes := by
  simpa using h.sum_le {i}

theorem move (h : Budget o bytes s) (hphase : s'.phase = Function.update s.phase i p)
    (hheld : s'.heldBytes + weight bytes s i = s.heldBytes + if p.holds then bytes i else 0)
    (hle : s'.heldBytes ≤ o.serializedInputBytes)
    (hread : ∀ held, p = .reserving held → held ≤ o.serializedInputBytes) : Budget o bytes s' := by
  have hself : weight bytes s' i = if p.holds then bytes i else 0 := by
    simp [weight, hphase]
  have hother : ∀ j, j ≠ i → weight bytes s' j = weight bytes s j := fun j hj => by
    simp [weight, hphase, update_of_ne hj]
  refine ⟨fun j held hj => ?_, ?_, hle⟩
  · rw [hphase] at hj
    by_cases hji : j = i
    · subst hji
      exact hread held (by simpa using hj)
    · rw [update_of_ne hji] at hj
      exact h.read j held hj
  · obtain ⟨T, hT, hsum⟩ := h.total
    refine ⟨insert i T, fun j hj => ?_, ?_⟩
    · rw [Finset.mem_insert, not_or] at hj
      simp_all
    · have hold : ∑ j ∈ insert i T, weight bytes s j = s.heldBytes := by
        rw [← hsum]
        exact (Finset.sum_subset (Finset.subset_insert i T) fun j _ hj => hT j hj).symm
      have hrest : ∑ j ∈ (insert i T).erase i, weight bytes s' j =
          ∑ j ∈ (insert i T).erase i, weight bytes s j :=
        Finset.sum_congr rfl fun j hj => hother j (Finset.ne_of_mem_erase hj)
      have hadd := fun t : State Error =>
        Finset.add_sum_erase _ (weight bytes t) (Finset.mem_insert_self i T)
      rw [← hadd s']
      rw [← hadd s] at hold
      omega

theorem keep (h : Budget o bytes s) (hphase : s'.phase = Function.update s.phase i p)
    (hheld : s'.heldBytes = s.heldBytes) (hholds : p.holds = (s.phase i).holds)
    (hread : ∀ held, p = .reserving held → held ≤ o.serializedInputBytes) : Budget o bytes s' := by
  refine h.move hphase ?_ (hheld.le.trans h.le) hread
  rw [hheld, hholds]
  rfl

theorem holds_next (r : Completion Error) : r.next.holds = true := by
  unfold Completion.next
  split <;> rfl

theorem next_ne_reserving (r : Completion Error) (held : ℕ) : r.next ≠ .reserving held := by
  unfold Completion.next
  split <;> simp

theorem step (h : Budget o bytes s) (hact : Act o bytes i s l s') : Budget o bytes s' := by
  have hlimit := o.bytes_bounds.2
  cases hact with
  | refuse hp => exact h.keep rfl rfl (by rw [hp]; rfl) (by simp)
  | load hp => exact h.keep rfl rfl (by rw [hp]; rfl) fun held hheld => by cases hheld; exact h.le
  | deny hp => exact h.keep rfl rfl (by rw [hp]; rfl) (by simp)
  | @reserve held hp hle hheld =>
    have hread := h.read i held hp
    rw [sizeSub_of_le hread hlimit] at hle
    have hweight : weight bytes s i = 0 := by simp [weight, hp, Phase.holds]
    refine h.move rfl ?_ ?_ (by simp)
    · rw [hweight, hheld]
      rfl
    · show held + bytes i ≤ o.serializedInputBytes
      omega
  | retry hp => exact h.keep rfl rfl (by rw [hp]; rfl) fun held hheld => by cases hheld; exact h.le
  | invokeDirect hp => exact h.keep rfl rfl (by rw [hp]; rfl) (by simp)
  | invokeFallback hp => exact h.keep rfl rfl (by rw [hp]; rfl) (by simp)
  | @invoked reserved error hp =>
    cases reserved with
    | false => exact h.keep rfl rfl (by rw [hp]; rfl) (by simp)
    | true => exact h.keep rfl rfl (by rw [hp]; rfl) (by simp)
  | throws error hp => exact h.keep rfl rfl (by rw [hp]; rfl) (by simp)
  | full hp => exact h.keep rfl rfl (by rw [hp]; rfl) fun held hheld => absurd hheld (next_ne_reserving _ held)
  | join hp => exact h.keep rfl rfl (by rw [hp]; rfl) (by simp)
  | collect hp =>
    exact h.keep rfl rfl (by rw [hp, holds_next]; rfl) fun held hheld => absurd hheld (next_ne_reserving _ held)
  | lead hp => exact h.keep rfl rfl (by rw [hp]; rfl) (by simp)
  | assemble hp => exact h.keep rfl rfl (by rw [hp]; rfl) (by simp)
  | assembleFails hp =>
    exact h.keep rfl rfl (by rw [hp, holds_next]; rfl) fun held hheld => absurd hheld (next_ne_reserving _ held)
  | allocateFails hp => exact h.keep rfl rfl (by rw [hp]; rfl) (by simp)
  | write hp => exact h.keep rfl rfl (by rw [hp]; rfl) (by simp)
  | wrote error hp => exact h.keep rfl rfl (by rw [hp]; rfl) (by simp)
  | writeBack hp => exact h.keep rfl rfl (by rw [hp]; rfl) (by simp)
  | release hp =>
    have hweight : weight bytes s i = bytes i := by simp [weight, hp, Phase.holds]
    have hle := h.weight_le i
    rw [hweight] at hle
    have hsub := sizeSub_of_le hle (h.le.trans hlimit)
    refine h.move rfl ?_ ?_ (by simp)
    · show sizeSub s.heldBytes (bytes i) + weight bytes s i = s.heldBytes + 0
      omega
    · show sizeSub s.heldBytes (bytes i) ≤ o.serializedInputBytes
      have := h.le
      omega

end Budget

/-! ## Writing results back -/

theorem assign_map (nodes : ℕ → Node Error) (batch : List ℕ) (r : ℕ → Completion Error) (j : ℕ) :
    assign nodes (batch.map fun i => (i, r i)) j = if j ∈ batch then ⟨r j, true⟩ else nodes j := by
  induction batch generalizing nodes with
  | nil => rfl
  | cons i batch ih =>
    rw [List.map_cons, assign, ih]
    grind

theorem writeBack_none (nodes : ℕ → Node Error) (batch : List ℕ) (j : ℕ) :
    writeBack nodes batch none j = if j ∈ batch then ⟨(nodes j).result, true⟩ else nodes j :=
  assign_map nodes batch (fun i => (nodes i).result) j

theorem zip_replicate (batch : List ℕ) (r : Completion Error) :
    batch.zip (List.replicate batch.length r) = batch.map fun i => (i, r) := by
  induction batch with
  | nil => rfl
  | cons i batch ih => simp [List.replicate_succ, ih]

theorem writeBack_replicate (nodes : ℕ → Node Error) (batch : List ℕ) (r : Completion Error) (j : ℕ) :
    writeBack nodes batch (some (List.replicate batch.length r)) j =
      if j ∈ batch then ⟨r, true⟩ else nodes j := by
  simp only [writeBack, List.length_replicate, if_true, zip_replicate]
  exact assign_map nodes batch (fun _ => r) j

theorem assign_zip (nodes : ℕ → Node Error) {batch : List ℕ} {results : List (Completion Error)}
    (hlen : results.length = batch.length) (j : ℕ) :
    (j ∈ batch → (assign nodes (batch.zip results) j).done = true) ∧
      (j ∉ batch → assign nodes (batch.zip results) j = nodes j) := by
  induction batch generalizing nodes results with
  | nil => exact ⟨by simp, fun _ => rfl⟩
  | cons i batch ih =>
    cases results with
    | nil => cases hlen
    | cons r results =>
      obtain ⟨hin, hout⟩ := ih (Function.update nodes i ⟨r, true⟩) (Nat.succ.inj hlen)
      rw [List.zip_cons_cons, assign]
      refine ⟨fun hj => ?_, fun hj => ?_⟩
      · by_cases hjb : j ∈ batch
        · exact hin hjb
        · rw [hout hjb, (List.mem_cons.1 hj).resolve_right hjb, update_self]
      · rw [List.mem_cons, not_or] at hj
        rw [hout hj.2, update_of_ne hj.1]

theorem writeBack_done (nodes : ℕ → Node Error) {batch : List ℕ}
    (results : Option (List (Completion Error))) (hj : j ∈ batch) :
    (writeBack nodes batch results j).done = true := by
  unfold writeBack
  split
  · split
    · next hlen => exact (assign_zip nodes hlen j).1 hj
    · rw [assign_map, if_pos hj]
  · rw [assign_map, if_pos hj]

theorem writeBack_of_notMem (nodes : ℕ → Node Error) {batch : List ℕ}
    (results : Option (List (Completion Error))) (hj : j ∉ batch) :
    writeBack nodes batch results j = nodes j := by
  unfold writeBack
  split
  · split
    · next hlen => exact (assign_zip nodes hlen j).2 hj
    · rw [assign_map, if_neg hj]
  · rw [assign_map, if_neg hj]

/-! ## The queue and the leader -/

def Stage.batch : Stage Error → List ℕ
  | .collecting => []
  | .assembled batch | .writing batch | .executed batch _ => batch

def Phase.inside : Phase Error → Bool
  | .waiting | .leading _ => true
  | _ => false

/-- At most one caller leads, and each caller inside that is not done is in the queue or its batch;
`order` are the callers that joined. -/
structure Batcher (o : Limits) (order : List ℕ) (s : State Error) : Prop where
  running_iff : s.running = true ↔ ∃ i st, s.phase i = .leading st
  single : ∀ i j st st', s.phase i = .leading st → s.phase j = .leading st' → i = j
  queue_nodup : s.queue.Nodup
  queue_suffix : s.queue <:+ order
  queued : ∀ i ∈ s.queue, (s.phase i).inside = true ∧ s.nodes i = .joined
  batch_order : ∀ i st, s.phase i = .leading st →
    st.batch.Nodup ∧ st.batch.Sublist order ∧ st.batch.length ≤ o.batch
  batched : ∀ i st, s.phase i = .leading st →
    ∀ j ∈ st.batch, j ∉ s.queue ∧ (s.phase j).inside = true ∧ s.nodes j = .joined
  undone : ∀ i, (s.phase i).inside = true → (s.nodes i).done = false →
    i ∈ s.queue ∨ ∃ l st, s.phase l = .leading st ∧ i ∈ st.batch
  leader_undone : ∀ i st, s.phase i = .leading st → (s.nodes i).done = false

namespace Batcher

variable {order : List ℕ} {st st' : Stage Error}

theorem init : Batcher o [] (State.initial : State Error) where
  running_iff := by simp [State.initial]
  single := by simp [State.initial]
  queue_nodup := List.nodup_nil
  queue_suffix := List.nil_suffix
  queued := by simp [State.initial]
  batch_order := by simp [State.initial]
  batched := by simp [State.initial]
  undone := by simp [State.initial, Phase.inside]
  leader_undone := by simp [State.initial]

theorem inside_of_leading (h : s.phase i = .leading st) : (s.phase i).inside = true := by
  rw [h]
  rfl

theorem eq_leader (h : Batcher o order s) (hi : s.phase i = .leading st)
    (hj : s.phase j = .leading st') : j = i ∧ st' = st := by
  obtain rfl := h.single i j st st' hi hj
  simp_all

theorem outside (h : Batcher o order s) (hi : (s.phase i).inside = false) (hp : p.inside = false)
    (hphase : s'.phase = Function.update s.phase i p) (hqueue : s'.queue = s.queue)
    (hnodes : s'.nodes = s.nodes) (hrunning : s'.running = s.running) : Batcher o order s' := by
  have hlead : ∀ j st, s'.phase j = .leading st ↔ s.phase j = .leading st := fun j st => by
    rw [hphase]
    by_cases hj : j = i
    · subst hj
      rw [update_self]
      constructor
      · rintro rfl
        cases hp
      · intro hlead
        rw [hlead] at hi
        cases hi
    · rw [update_of_ne hj]
  have hinside : ∀ j, (s'.phase j).inside = (s.phase j).inside := fun j => by
    rw [hphase]
    grind
  obtain ⟨h₁, h₂, h₃, h₄, h₅, h₆, h₇, h₈, h₉⟩ := h
  constructor
  all_goals simpa only [hlead, hinside, hqueue, hnodes, hrunning]

/-- The leader goes on with what it took, and at most takes more from the head of the queue. -/
theorem advance {xs : List ℕ} (h : Batcher o order s) (hi : s.phase i = .leading st)
    (hphase : s'.phase = Function.update s.phase i (.leading st'))
    (hqueue : s.queue = xs ++ s'.queue) (hbatch : st'.batch = st.batch ++ xs)
    (horder : st'.batch.Sublist order) (hlen : st'.batch.length ≤ o.batch)
    (hnodes : s'.nodes = s.nodes) (hrunning : s'.running = s.running) : Batcher o order s' := by
  have hlead : ∀ j stj, s'.phase j = .leading stj → j = i ∧ stj = st' := fun j stj hj => by
    rw [hphase] at hj
    by_cases hji : j = i
    · subst hji
      rw [update_self] at hj
      cases hj
      exact ⟨rfl, rfl⟩
    · rw [update_of_ne hji] at hj
      exact absurd (h.eq_leader hi hj).1 hji
  have hself : s'.phase i = .leading st' := by rw [hphase, update_self]
  have hinside : ∀ j, (s'.phase j).inside = (s.phase j).inside := fun j => by
    rw [hphase]
    by_cases hj : j = i
    · subst hj
      rw [update_self, hi]
      rfl
    · rw [update_of_ne hj]
  have hnodup := h.queue_nodup
  rw [hqueue, List.nodup_append] at hnodup
  obtain ⟨hxs, hrest, hdisj⟩ := hnodup
  have hmem : ∀ j, j ∈ s.queue ↔ j ∈ xs ∨ j ∈ s'.queue := fun j => by rw [hqueue, List.mem_append]
  constructor
  · rw [hrunning, h.running_iff]
    exact ⟨fun _ => ⟨i, st', hself⟩, fun _ => ⟨i, st, hi⟩⟩
  · intro a b sta stb ha hb
    rw [(hlead a sta ha).1, (hlead b stb hb).1]
  · exact hrest
  · exact (List.suffix_append xs s'.queue).trans (hqueue ▸ h.queue_suffix)
  · intro j hj
    rw [hinside, hnodes]
    exact h.queued j ((hmem j).2 (.inr hj))
  · intro j stj hj
    obtain ⟨rfl, rfl⟩ := hlead j stj hj
    refine ⟨?_, horder, hlen⟩
    rw [hbatch]
    refine List.nodup_append.2 ⟨(h.batch_order j st hi).1, hxs, ?_⟩
    rintro a ha b hb rfl
    exact (h.batched j st hi a ha).1 ((hmem a).2 (.inl hb))
  · intro j stj hj k hk
    obtain ⟨rfl, rfl⟩ := hlead j stj hj
    rw [hinside, hnodes]
    rw [hbatch] at hk
    rcases List.mem_append.1 hk with hk | hk
    · obtain ⟨hnot, hrest⟩ := h.batched j st hi k hk
      exact ⟨fun hq => hnot ((hmem k).2 (.inr hq)), hrest⟩
    · exact ⟨fun hq => hdisj k hk k hq rfl, h.queued k ((hmem k).2 (.inl hk))⟩
  · intro j hj hdone
    rw [hinside] at hj
    rw [hnodes] at hdone
    rcases h.undone j hj hdone with hq | ⟨l, stl, hl, hjl⟩
    · rcases (hmem j).1 hq with hx | hq
      · refine .inr ⟨i, st', hself, ?_⟩
        rw [hbatch]
        exact List.mem_append_right _ hx
      · exact .inl hq
    · obtain ⟨rfl, rfl⟩ := h.eq_leader hi hl
      refine .inr ⟨l, st', hself, ?_⟩
      rw [hbatch]
      exact List.mem_append_left _ hjl
  · intro j stj hj
    obtain ⟨rfl, rfl⟩ := hlead j stj hj
    rw [hnodes]
    exact h.leader_undone j st hi

theorem join (h : Batcher o order s) (hi : s.phase i = .admitted) :
    Batcher o (order ++ [i])
      ({ s with
        queue := s.queue ++ [i]
        nodes := Function.update s.nodes i .joined }.setPhase i .waiting) := by
  have hnot : i ∉ s.queue := fun hq => by
    have hin := (h.queued i hq).1
    rw [hi] at hin
    cases hin
  have hlead : ∀ {j stj}, Function.update s.phase i .waiting j = .leading stj →
      j ≠ i ∧ s.phase j = .leading stj := fun {j stj} hj => by
    by_cases hji : j = i
    · simp_all
    · simp_all
  have hlead' : ∀ {j stj}, s.phase j = .leading stj →
      Function.update s.phase i .waiting j = .leading stj := fun {j stj} hj => by
    rw [update_of_ne]
    · exact hj
    · grind
  have hkeep : ∀ j, (s.phase j).inside = true ∧ s.nodes j = .joined →
      (Function.update s.phase i .waiting j).inside = true ∧
        Function.update s.nodes i Node.joined j = .joined := fun j hj => by
    by_cases hji : j = i
    · subst hji
      rw [update_self, update_self]
      exact ⟨rfl, rfl⟩
    · rw [update_of_ne hji, update_of_ne hji]
      exact hj
  constructor
  · refine h.running_iff.trans ⟨?_, ?_⟩
    · rintro ⟨j, stj, hj⟩
      exact ⟨j, stj, hlead' hj⟩
    · rintro ⟨j, stj, hj⟩
      exact ⟨j, stj, (hlead hj).2⟩
  · intro a b sta stb ha hb
    exact h.single a b sta stb (hlead ha).2 (hlead hb).2
  · refine List.nodup_append.2 ⟨h.queue_nodup, by simp, ?_⟩
    rintro a ha b hb rfl
    rw [List.mem_singleton.1 hb] at ha
    exact hnot ha
  · obtain ⟨xs, hxs⟩ := h.queue_suffix
    exact ⟨xs, by rw [← hxs]; exact (List.append_assoc _ _ _).symm⟩
  · intro j hj
    rcases List.mem_append.1 hj with hj | hj
    · exact hkeep j (h.queued j hj)
    · rw [List.mem_singleton.1 hj]
      refine ⟨?_, update_self _ _ _⟩
      show (Function.update s.phase i Phase.waiting i).inside = true
      rw [update_self]
      rfl
  · intro j stj hj
    obtain ⟨hnodup, hsub, hlen⟩ := h.batch_order j stj (hlead hj).2
    exact ⟨hnodup, hsub.trans (List.sublist_append_left _ _), hlen⟩
  · intro j stj hj k hk
    obtain ⟨hq, hin⟩ := h.batched j stj (hlead hj).2 k hk
    refine ⟨fun hmem => ?_, hkeep k hin⟩
    rcases List.mem_append.1 hmem with hmem | hmem
    · exact hq hmem
    · rw [List.mem_singleton.1 hmem, hi] at hin
      cases hin.1
  · intro j hj hdone
    by_cases hji : j = i
    · exact .inl (List.mem_append_right _ (by simp [hji]))
    · simp only [State.setPhase, update_of_ne hji] at hj hdone
      rcases h.undone j hj hdone with hq | ⟨l, stl, hl, hjl⟩
      · exact .inl (List.mem_append_left _ hq)
      · exact .inr ⟨l, stl, hlead' hl, hjl⟩
  · intro j stj hj
    obtain ⟨hji, hj⟩ := hlead hj
    show (Function.update s.nodes i Node.joined j).done = false
    rw [update_of_ne hji]
    exact h.leader_undone j stj hj

theorem leave (h : Batcher o order s) (hi : s.phase i = .waiting) (hdone : (s.nodes i).done = true)
    (hp : p.inside = false) : Batcher o order (s.setPhase i p) := by
  have hlead : ∀ j stj, Function.update s.phase i p j = .leading stj ↔ s.phase j = .leading stj :=
    fun j stj => by
      by_cases hji : j = i
      · subst hji
        rw [update_self, hi]
        constructor
        · rintro rfl
          cases hp
        · simp
      · rw [update_of_ne hji]
  have hkeep : ∀ j, (s.phase j).inside = true ∧ s.nodes j = .joined →
      (Function.update s.phase i p j).inside = true ∧ s.nodes j = .joined := fun j hj => by
    by_cases hji : j = i
    · subst hji
      rw [hj.2] at hdone
      cases hdone
    · grind
  constructor
  · simpa only [State.setPhase, hlead] using h.running_iff
  · simpa only [State.setPhase, hlead] using h.single
  · exact h.queue_nodup
  · exact h.queue_suffix
  · exact fun j hj => hkeep j (h.queued j hj)
  · simpa only [State.setPhase, hlead] using h.batch_order
  · intro j stj hj k hk
    obtain ⟨hq, hin⟩ := h.batched j stj ((hlead j stj).1 hj) k hk
    exact ⟨hq, hkeep k hin⟩
  · intro j hj hundone
    have hji : j ≠ i := by
      rintro rfl
      rw [show (s.setPhase j p).nodes j = s.nodes j from rfl, hdone] at hundone
      cases hundone
    simp only [State.setPhase, update_of_ne hji] at hj
    simp only [State.setPhase, hlead]
    exact h.undone j hj hundone
  · simpa only [State.setPhase, hlead] using h.leader_undone

theorem lead (h : Batcher o order s) (hi : s.phase i = .waiting) (hundone : (s.nodes i).done = false)
    (hrunning : s.running = false) :
    Batcher o order ({ s with running := true }.setPhase i (.leading .collecting)) := by
  have hnone : ∀ j stj, s.phase j ≠ .leading stj := fun j stj hj => by
    have := h.running_iff.2 ⟨j, stj, hj⟩
    rw [hrunning] at this
    cases this
  have hlead : ∀ {j stj}, Function.update s.phase i (.leading .collecting) j = .leading stj →
      j = i ∧ stj = .collecting := fun {j stj} hj => by
    grind
  have hinside : ∀ j, (Function.update s.phase i (.leading .collecting) j).inside =
      (s.phase j).inside := fun j => by
    by_cases hji : j = i
    · subst hji
      rw [update_self, hi]
      rfl
    · rw [update_of_ne hji]
  constructor
  · exact ⟨fun _ => ⟨i, .collecting, update_self _ _ _⟩, fun _ => rfl⟩
  · intro a b sta stb ha hb
    rw [(hlead ha).1, (hlead hb).1]
  · exact h.queue_nodup
  · exact h.queue_suffix
  · intro j hj
    simp only [State.setPhase, hinside]
    exact h.queued j hj
  · intro j stj hj
    obtain ⟨-, rfl⟩ := hlead hj
    exact ⟨List.nodup_nil, List.nil_sublist _, Nat.zero_le _⟩
  · intro j stj hj k hk
    obtain ⟨-, rfl⟩ := hlead hj
    cases hk
  · intro j hj hdone
    simp only [State.setPhase, hinside] at hj
    rcases h.undone j hj hdone with hq | ⟨l, stl, hl, -⟩
    · exact .inl hq
    · exact absurd hl (hnone l stl)
  · intro j stj hj
    obtain ⟨rfl, -⟩ := hlead hj
    exact hundone

/-- A round ends: the batch of the leader is done, the queue is as it was or done as well. -/
theorem finish {nodes : ℕ → Node Error} {queue : List ℕ} (h : Batcher o order s)
    (hi : s.phase i = .leading st) (hp : ∀ stj, p ≠ .leading stj)
    (hqueue : queue = s.queue ∨ queue = [] ∧ ∀ j ∈ s.queue, (nodes j).done = true)
    (hdone : ∀ j ∈ st.batch, (nodes j).done = true)
    (hkeep : ∀ j, j ∉ st.batch → (j ∈ queue ∨ j ∉ s.queue) → nodes j = s.nodes j)
    (hpi : p.inside = true ∨ (nodes i).done = true) :
    Batcher o order ({ s with running := false, nodes, queue }.setPhase i p) := by
  have hnone : ∀ j stj, Function.update s.phase i p j ≠ .leading stj := fun j stj hj => by
    by_cases hji : j = i
    · subst hji
      grind
    · rw [update_of_ne hji] at hj
      exact hji (h.eq_leader hi hj).1
  have hsub : ∀ j ∈ queue, j ∈ s.queue := fun j hj => by
    rcases hqueue with rfl | ⟨rfl, -⟩
    · exact hj
    · cases hj
  have hfree : ∀ j ∈ s.queue, j ∉ st.batch := fun j hj hb => (h.batched i st hi j hb).1 hj
  constructor
  · constructor
    · intro hr
      cases hr
    · rintro ⟨j, stj, hj⟩
      exact absurd hj (hnone j stj)
  · exact fun a b sta stb ha => absurd ha (hnone a sta)
  · rcases hqueue with rfl | ⟨rfl, -⟩
    · exact h.queue_nodup
    · exact List.nodup_nil
  · rcases hqueue with rfl | ⟨rfl, -⟩
    · exact h.queue_suffix
    · exact List.nil_suffix
  · intro j hj
    have hnode := hkeep j (hfree j (hsub j hj)) (.inl hj)
    obtain ⟨hin, hjoined⟩ := h.queued j (hsub j hj)
    refine ⟨?_, hnode.trans hjoined⟩
    by_cases hji : j = i
    · subst hji
      simp only [State.setPhase, update_self]
      refine hpi.resolve_right fun hd => ?_
      rw [hnode, hjoined] at hd
      cases hd
    · simp only [State.setPhase, update_of_ne hji]
      exact hin
  · exact fun j stj hj => absurd hj (hnone j stj)
  · exact fun j stj hj => absurd hj (hnone j stj)
  · intro j hj hundone
    have hundone' : (nodes j).done = false := hundone
    have hb : j ∉ st.batch := fun hb => by
      grind
    have hq : j ∈ queue ∨ j ∉ s.queue := by
      rcases hqueue with rfl | ⟨-, hall⟩
      · exact em _
      · refine .inr fun hq => ?_
        rw [hall j hq] at hundone'
        cases hundone'
    have hnode := hkeep j hb hq
    have hin : (s.phase j).inside = true := by
      by_cases hji : j = i
      · subst hji
        exact inside_of_leading hi
      · simpa only [State.setPhase, update_of_ne hji] using hj
    rw [hnode] at hundone'
    rcases h.undone j hin hundone' with hold | ⟨l, stl, hl, hjl⟩
    · exact .inl (hq.resolve_right (fun hnot => hnot hold))
    · obtain ⟨rfl, rfl⟩ := h.eq_leader hi hl
      exact absurd hjl hb
  · exact fun j stj hj => absurd hj (hnone j stj)

theorem inside_next (r : Completion Error) : r.next.inside = false := by
  unfold Completion.next
  split <;> rfl

theorem next_ne_leading (r : Completion Error) (st : Stage Error) : r.next ≠ .leading st := by
  unfold Completion.next
  split <;> simp

theorem mem_queue (h : Batcher o order s) (hi : s.phase i = .leading .collecting) : i ∈ s.queue := by
  rcases h.undone i (inside_of_leading hi) (h.leader_undone i _ hi) with hq | ⟨l, st, hl, hmem⟩
  · exact hq
  · obtain ⟨-, rfl⟩ := h.eq_leader hi hl
    cases hmem

theorem unjoined (h : Batcher o order s) : Batcher o (order ++ []) s := by
  rwa [List.append_nil]

theorem step (h : Batcher o order s) (hact : Act o bytes i s l s') :
    Batcher o (order ++ l.joined) s' := by
  have hout : ∀ {q p : Phase Error}, s.phase i = q → q.inside = false → p.inside = false →
      Batcher o order (s.setPhase i p) := fun hq hin hp =>
    h.outside (by rw [hq, hin]) hp rfl rfl rfl rfl
  have hcounter : ∀ {q p : Phase Error} {heldBytes : ℕ}, s.phase i = q → q.inside = false →
      p.inside = false → Batcher o order ({ s with heldBytes }.setPhase i p) := fun hq hin hp =>
    h.outside (by rw [hq, hin]) hp rfl rfl rfl rfl
  cases hact with
  | refuse hp => exact unjoined (hout hp rfl rfl)
  | load hp => exact unjoined (hout hp rfl rfl)
  | deny hp => exact unjoined (hout hp rfl rfl)
  | reserve hp => exact unjoined (hcounter hp rfl rfl)
  | retry hp => exact unjoined (hout hp rfl rfl)
  | invokeDirect hp => exact unjoined (hout hp rfl rfl)
  | invokeFallback hp => exact unjoined (hout hp rfl rfl)
  | @invoked reserved error hp =>
    refine unjoined (hout hp rfl ?_)
    cases reserved <;> rfl
  | throws error hp => exact unjoined (hout hp rfl rfl)
  | full hp => exact unjoined (hout hp rfl rfl)
  | join hp => exact h.join hp
  | collect hp hdone => exact unjoined (h.leave hp hdone (inside_next _))
  | lead hp hundone hrunning => exact unjoined (h.lead hp hundone hrunning)
  | assemble hp =>
    refine unjoined (h.advance hp rfl (List.take_append_drop o.batch s.queue).symm rfl ?_ ?_ rfl rfl)
    · exact (List.take_sublist _ _).trans h.queue_suffix.sublist
    · rw [Stage.batch, List.length_take]
      exact Nat.min_le_left _ _
  | assembleFails hp =>
    have hassign := assign_map s.nodes s.queue fun j => (s.nodes j).result
    refine unjoined (h.finish hp (next_ne_leading _) (.inr ⟨rfl, fun j hj => ?_⟩) (by simp [Stage.batch])
      (fun j _ hj => ?_) (.inr ?_))
    · rw [hassign, if_pos hj]
    · rw [hassign, if_neg (hj.resolve_left (by simp))]
    · rw [hassign, if_pos (h.mem_queue hp)]
  | allocateFails hp =>
    obtain ⟨-, hsub, hlen⟩ := h.batch_order i _ hp
    exact unjoined (h.advance hp rfl rfl (List.append_nil _).symm hsub hlen rfl rfl)
  | write hp =>
    obtain ⟨-, hsub, hlen⟩ := h.batch_order i _ hp
    exact unjoined (h.advance hp rfl rfl (List.append_nil _).symm hsub hlen rfl rfl)
  | wrote error hp =>
    obtain ⟨-, hsub, hlen⟩ := h.batch_order i _ hp
    exact unjoined (h.advance hp rfl rfl (List.append_nil _).symm hsub hlen rfl rfl)
  | @writeBack batch results hp =>
    refine unjoined (h.finish hp (by simp) (.inl rfl) (fun j hj => ?_) (fun j hj _ => ?_) (.inl rfl))
    · exact writeBack_done s.nodes results hj
    · exact writeBack_of_notMem s.nodes results hj
  | release hp => exact unjoined (hcounter hp rfl rfl)

end Batcher

/-! ## What was done with each input -/

/-- The calls of `execute` with the input of `i`: how many began, and how those over ended. -/
abbrev mark (ls : List (Label Error)) (i : ℕ) : ℕ × List (Option Error) := (starts ls i, ends ls i)

theorem mark_snoc (ls : List (Label Error)) (l : Label Error) (i : ℕ) :
    mark (ls ++ [l]) i = (starts ls i + l.started.count i, ends ls i ++ l.ended i) := by
  simp [mark, starts, ends, List.count_append]

theorem mark_snoc_same (hstarted : i ∉ l.started) (hended : l.ended i = []) :
    mark (ls ++ [l]) i = mark ls i := by
  rw [mark_snoc, List.count_eq_zero_of_not_mem hstarted, hended, List.append_nil, Nat.add_zero]

theorem mark_execute {batch : List ℕ} {k : ℕ} (hnodup : batch.Nodup) (hi : i ∈ batch)
    (h : mark ls i = (k, [])) : mark (ls ++ [.execute batch]) i = (k + 1, []) := by
  rw [Prod.mk.injEq] at h
  rw [mark_snoc, h.1, h.2]
  show (k + batch.count i, []) = (k + 1, [])
  rw [List.count_eq_one_of_mem hnodup hi]

theorem mark_returned {batch : List ℕ} {k : ℕ} {error : Option Error} (hi : i ∈ batch)
    (h : mark ls i = (k, [])) : mark (ls ++ [.returned batch error]) i = (k, [error]) := by
  rw [Prod.mk.injEq] at h
  rw [mark_snoc, h.1, h.2]
  show (k, [] ++ if i ∈ batch then [error] else []) = (k, [error])
  rw [if_pos hi, List.nil_append]

def Stage.Fits : Stage Error → ℕ × List (Option Error) → Prop
  | .collecting, m | .assembled _, m | .executed _ none, m => m = (0, [])
  | .writing _, m => m = (1, [])
  | .executed batch (some results), m =>
    ∃ error, results = List.replicate batch.length ⟨true, error⟩ ∧ m = (1, [error])

def Completion.Fits (r : Completion Error) (m : ℕ × List (Option Error)) : Prop :=
  m = if r.attempted then (1, [r.error]) else (0, [])

def Phase.Fits : Phase Error → ℕ × List (Option Error) → Prop
  | .idle, m | .reserving _, m | .direct, m | .admitted, m | .fallback, m => m = (0, [])
  | .invoking _, m => m = (1, [])
  | .finishing out, m | .finished out, m => m = (1, [out]) ∨ m = (0, []) ∧ out ≠ none
  | .waiting, _ | .leading _, _ => True

/-- What was done with the input of `i`, by where `i` is. -/
structure Fits (s : State Error) (i : ℕ) (m : ℕ × List (Option Error)) : Prop where
  outside : (s.phase i).Fits m
  done : (s.phase i).inside = true → (s.nodes i).done = true → (s.nodes i).result.Fits m
  queued : (s.phase i).inside = true → i ∈ s.queue → m = (0, [])
  batched : ∀ l st, s.phase l = .leading st → i ∈ st.batch → st.Fits m

section Fits

variable {m : ℕ × List (Option Error)} {order : List ℕ}

theorem Fits.frame (h : Fits s i m) (hphase : s'.phase i = s.phase i)
    (hnodes : s'.nodes i = s.nodes i) (hqueue : i ∈ s'.queue → i ∈ s.queue)
    (hlead : ∀ l st, s'.phase l = .leading st → i ∈ st.batch → s.phase l = .leading st) :
    Fits s' i m where
  outside := by
    rw [hphase]
    exact h.outside
  done := by
    rw [hphase, hnodes]
    exact h.done
  queued := by
    rw [hphase]
    exact fun hin hq => h.queued hin (hqueue hq)
  batched := fun l st hl hi => h.batched l st (hlead l st hl hi) hi

theorem Completion.Fits.next {r : Completion Error} (h : r.Fits m) : r.next.Fits m := by
  unfold Completion.next
  unfold Completion.Fits at h
  split at h
  · next hattempted =>
    rw [if_pos hattempted]
    exact .inl h
  · next hattempted =>
    rw [if_neg hattempted]
    exact h

theorem Fits.of_outside (hb : Batcher o order s) (hp : s.phase i = p) (hin : p.inside = false)
    (h : p.Fits m) : Fits s i m where
  outside := by rwa [hp]
  done := fun hin' => by
    rw [hp, hin] at hin'
    cases hin'
  queued := fun hin' => by
    rw [hp, hin] at hin'
    cases hin'
  batched := fun l st hl hi => by
    have hin' := (hb.batched l st hl i hi).2.1
    rw [hp, hin] at hin'
    cases hin'

theorem fits_outside (hb' : Batcher o order s') (h : ∀ i, Fits s i (mark ls i))
    (hphase : s'.phase = Function.update s.phase i p) (hp : p.inside = false)
    (hnodes : s'.nodes = s.nodes) (hqueue : s'.queue = s.queue)
    (hmark : ∀ j, j ≠ i → j ∉ l.started ∧ l.ended j = []) (hself : p.Fits (mark (ls ++ [l]) i)) :
    ∀ j, Fits s' j (mark (ls ++ [l]) j) := by
  intro j
  by_cases hj : j = i
  · subst hj
    exact .of_outside hb' (by rw [hphase, update_self]) hp hself
  · rw [mark_snoc_same (hmark j hj).1 (hmark j hj).2]
    refine (h j).frame ?_ (by rw [hnodes]) (by rw [hqueue]; exact id) fun k st hk _ => ?_
    · rw [hphase, update_of_ne hj]
    · rw [hphase] at hk
      by_cases hki : k = i
      · subst hki
        rw [update_self] at hk
        rw [hk] at hp
        cases hp
      · rwa [update_of_ne hki] at hk

theorem fits_advance {st st' : Stage Error} (hb' : Batcher o order s')
    (h : ∀ i, Fits s i (mark ls i)) (hi : s.phase i = .leading st)
    (hphase : s'.phase = Function.update s.phase i (.leading st')) (hnodes : s'.nodes = s.nodes)
    (hqueue : ∀ j ∈ s'.queue, j ∈ s.queue) (hstay : ∀ j, j ∉ st'.batch → j ∉ l.started ∧ l.ended j = [])
    (hbatch : ∀ j ∈ st'.batch, st'.Fits (mark (ls ++ [l]) j)) :
    ∀ j, Fits s' j (mark (ls ++ [l]) j) := by
  intro j
  have hself : s'.phase i = .leading st' := by rw [hphase, update_self]
  have hleader : ∀ k stk, s'.phase k = .leading stk → j ∈ stk.batch → stk.Fits (mark (ls ++ [l]) j) := by
    intro k stk hk hjk
    obtain ⟨-, rfl⟩ := hb'.eq_leader hself hk
    exact hbatch j hjk
  by_cases hj : j ∈ st'.batch
  · obtain ⟨hq, hin, hnode⟩ := hb'.batched i st' hself j hj
    refine ⟨?_, fun _ hdone => ?_, fun _ hmem => absurd hmem hq, hleader⟩
    · cases hp : s'.phase j with
      | waiting => trivial
      | leading st => trivial
      | _ =>
        rw [hp] at hin
        cases hin
    · rw [hnode] at hdone
      cases hdone
  · rw [mark_snoc_same (hstay j hj).1 (hstay j hj).2] at hleader ⊢
    by_cases hji : j = i
    · subst hji
      have hin := Batcher.inside_of_leading hi
      refine ⟨by rw [hself]; trivial, fun _ hdone => ?_, fun _ hq => ?_, hleader⟩
      · rw [hnodes] at hdone ⊢
        exact (h j).done hin hdone
      · exact (h j).queued hin (hqueue j hq)
    · refine (h j).frame ?_ (by rw [hnodes]) (hqueue j) fun k stk hk hjk => ?_
      · rw [hphase, update_of_ne hji]
      · obtain ⟨-, rfl⟩ := hb'.eq_leader hself hk
        exact absurd hjk hj

end Fits

theorem writeBack_fits {nodes : ℕ → Node Error} {batch : List ℕ}
    {results : Option (List (Completion Error))} {m : ℕ × List (Option Error)} (hj : j ∈ batch)
    (hnode : nodes j = .joined) (h : (Stage.executed batch results).Fits m) :
    (writeBack nodes batch results j).result.Fits m := by
  cases results with
  | none =>
    rw [writeBack_none, if_pos hj, hnode]
    exact h
  | some results =>
    obtain ⟨error, rfl, hm⟩ := h
    rw [writeBack_replicate, if_pos hj]
    exact hm

/-- What a step does with the input of each caller fits where it leaves it. -/
theorem fits_step {order : List ℕ} (hb : Batcher o order s) (h : ∀ i, Fits s i (mark ls i))
    (hact : Act o bytes i s l s') : ∀ j, Fits s' j (mark (ls ++ [l]) j) := by
  have hb' := hb.step hact
  have hidle : ∀ j, j ∉ (Label.silent : Label Error).started ∧ (Label.silent : Label Error).ended j = [] :=
    fun j => ⟨by simp [Label.started], rfl⟩
  have hsilent : ∀ j, mark (ls ++ [.silent]) j = mark ls j := fun j => mark_snoc_same (hidle j).1 (hidle j).2
  have hsingle : ∀ {l : Label Error}, l = .execute [i] ∨ (∃ e, l = .returned [i] e) → ∀ j, j ≠ i →
      j ∉ l.started ∧ l.ended j = [] := by
    rintro l (rfl | ⟨e, rfl⟩) j hj
    · exact ⟨by simpa [Label.started] using hj, rfl⟩
    · exact ⟨by simp [Label.started], by simpa [Label.ended] using hj⟩
  have hnow : ∀ {q : Phase Error}, s.phase i = q → q.Fits (mark ls i) := fun hq => hq ▸ (h i).outside
  have hmove : ∀ {q p : Phase Error}, s.phase i = q → (q.Fits (mark ls i) → p.Fits (mark ls i)) →
      p.Fits (mark (ls ++ [.silent]) i) := fun hq himp => by
    rw [hsilent]
    exact himp (hnow hq)
  have hcounter : ∀ {q p : Phase Error} {heldBytes : ℕ},
      Batcher o (order ++ []) ({ s with heldBytes }.setPhase i p) → s.phase i = q →
      (q.Fits (mark ls i) → p.Fits (mark ls i)) → p.inside = false →
      ∀ j, Fits ({ s with heldBytes }.setPhase i p) j (mark (ls ++ [.silent]) j) :=
    fun hb' hq himp hp => fits_outside hb' h rfl hp rfl rfl (fun j _ => hidle j) (hmove hq himp)
  cases hact with
  | refuse hp => exact fits_outside hb' h rfl rfl rfl rfl (fun j _ => hidle j) (hmove hp id)
  | load hp => exact fits_outside hb' h rfl rfl rfl rfl (fun j _ => hidle j) (hmove hp id)
  | deny hp => exact fits_outside hb' h rfl rfl rfl rfl (fun j _ => hidle j) (hmove hp id)
  | reserve hp => exact hcounter hb' hp id rfl
  | retry hp => exact fits_outside hb' h rfl rfl rfl rfl (fun j _ => hidle j) (hmove hp id)
  | invokeDirect hp =>
    exact fits_outside hb' h rfl rfl rfl rfl (hsingle (.inl rfl))
      (mark_execute (List.nodup_singleton i) (List.mem_singleton_self i) (hnow hp))
  | invokeFallback hp =>
    exact fits_outside hb' h rfl rfl rfl rfl (hsingle (.inl rfl))
      (mark_execute (List.nodup_singleton i) (List.mem_singleton_self i) (hnow hp))
  | @invoked reserved error hp =>
    have hm : mark (ls ++ [.returned [i] error]) i = (1, [error]) :=
      mark_returned (List.mem_singleton_self i) (hnow hp)
    cases reserved with
    | false => exact fits_outside hb' h rfl rfl rfl rfl (hsingle (.inr ⟨error, rfl⟩)) (.inl hm)
    | true => exact fits_outside hb' h rfl rfl rfl rfl (hsingle (.inr ⟨error, rfl⟩)) (.inl hm)
  | throws error hp =>
    exact fits_outside hb' h rfl rfl rfl rfl (fun j _ => hidle j)
      (.inr ⟨hsilent i ▸ hnow hp, by simp⟩)
  | full hp => exact fits_outside hb' h rfl rfl rfl rfl (fun j _ => hidle j) (hmove hp id)
  | join hp =>
    have hmark : ∀ j, mark (ls ++ [.join i]) j = mark ls j := fun j =>
      mark_snoc_same (by simp [Label.started]) rfl
    intro j
    rw [hmark j]
    by_cases hj : j = i
    · subst hj
      have hm := hnow hp
      refine ⟨?_, fun _ hdone => ?_, fun _ _ => hm, fun k st hk hjk => ?_⟩
      · show (Function.update s.phase j Phase.waiting j).Fits _
        rw [update_self]
        trivial
      · simp [State.setPhase, Node.joined] at hdone
      · have hkj : k ≠ j := by
          rintro rfl
          simp [State.setPhase] at hk
        have hk' : s.phase k = .leading st := by simpa [State.setPhase, update_of_ne hkj] using hk
        have hin := (hb.batched k st hk' j hjk).2.1
        rw [hp] at hin
        cases hin
    · refine (h j).frame (update_of_ne hj _ _) (update_of_ne hj _ _) (fun hq => ?_)
        fun k st hk _ => ?_
      · exact (List.mem_append.1 hq).resolve_right (by simpa using hj)
      · by_cases hki : k = i
        · subst hki
          simp [State.setPhase] at hk
        · simpa [State.setPhase, update_of_ne hki] using hk
  | collect hp hdone =>
    refine fits_outside hb' h rfl (Batcher.inside_next _) rfl rfl (fun j _ => hidle j) ?_
    rw [hsilent]
    exact ((h i).done (by rw [hp]; rfl) hdone).next
  | lead hp hundone hrunning =>
    intro j
    rw [hsilent]
    have hlead : ∀ k st, Function.update s.phase i (.leading .collecting) k = .leading st →
        j ∈ st.batch → s.phase k = .leading st := fun k st hk hjk => by
      by_cases hki : k = i
      · subst hki
        rw [update_self] at hk
        cases hk
        cases hjk
      · rwa [update_of_ne hki] at hk
    by_cases hj : j = i
    · subst hj
      have hin : (s.phase j).inside = true := by rw [hp]; rfl
      refine ⟨?_, fun _ hdone => (h j).done hin hdone, fun _ hq => (h j).queued hin hq,
        fun k st hk hjk => (h j).batched k st (hlead k st hk hjk) hjk⟩
      show (Function.update s.phase j (Phase.leading Stage.collecting) j).Fits _
      rw [update_self]
      trivial
    · exact (h j).frame (update_of_ne hj _ _) rfl id hlead
  | assemble hp =>
    refine fits_advance hb' h hp rfl rfl (fun j hj => List.mem_of_mem_drop hj) (fun j _ => hidle j)
      fun j hj => ?_
    have hq := List.mem_of_mem_take hj
    rw [hsilent]
    exact (h j).queued (hb.queued j hq).1 hq
  | assembleFails hp =>
    have hnone : ∀ k st, Function.update s.phase i (s.nodes i).result.next k ≠ .leading st := by
      intro k st hk
      by_cases hki : k = i
      · subst hki
        rw [update_self] at hk
        exact Batcher.next_ne_leading _ st hk
      · rw [update_of_ne hki] at hk
        exact hki (hb.eq_leader hp hk).1
    have hqueued : ∀ j ∈ s.queue, (s.nodes j).result.Fits (mark ls j) := fun j hj => by
      obtain ⟨hin, hnode⟩ := hb.queued j hj
      rw [hnode]
      exact (h j).queued hin hj
    intro j
    rw [hsilent]
    by_cases hj : j = i
    · subst hj
      refine .of_outside hb' (update_self _ _ _) (Batcher.inside_next _) ?_
      exact (hqueued j (hb.mem_queue hp)).next
    · have hnode := assign_map s.nodes s.queue (fun j => (s.nodes j).result) j
      by_cases hq : j ∈ s.queue
      · rw [if_pos hq] at hnode
        refine ⟨?_, fun _ _ => ?_, fun _ hmem => (by cases hmem), fun k st hk => absurd hk (hnone k st)⟩
        · show (Function.update s.phase i (s.nodes i).result.next j).Fits _
          rw [update_of_ne hj]
          exact (h j).outside
        · show (assign s.nodes (s.queue.map fun j => (j, (s.nodes j).result)) j).result.Fits _
          rw [hnode]
          exact hqueued j hq
      · rw [if_neg hq] at hnode
        exact (h j).frame (update_of_ne hj _ _) hnode (fun hmem => by cases hmem)
          fun k st hk => absurd hk (hnone k st)
  | @allocateFails batch hp =>
    refine fits_advance hb' h hp rfl rfl (fun j hj => hj) (fun j _ => hidle j) fun j hj => ?_
    rw [hsilent]
    have hfits := (h j).batched i _ hp hj
    exact hfits
  | @write batch hp =>
    refine fits_advance hb' h hp rfl rfl (fun j hj => hj) (fun j hj => ⟨hj, rfl⟩) fun j hj => ?_
    exact mark_execute (hb.batch_order i _ hp).1 hj ((h j).batched i _ hp hj)
  | @wrote batch error hp =>
    refine fits_advance hb' h hp rfl rfl (fun j hj => hj)
      (fun j hj => ⟨by simp [Label.started], if_neg hj⟩) fun j hj => ?_
    exact ⟨error, rfl, mark_returned hj ((h j).batched i _ hp hj)⟩
  | @writeBack batch results hp =>
    have hnone : ∀ k st, Function.update s.phase i .waiting k ≠ .leading st := by
      intro k st hk
      by_cases hki : k = i
      · grind
      · rw [update_of_ne hki] at hk
        exact hki (hb.eq_leader hp hk).1
    intro j
    rw [hsilent]
    have hout : (Function.update s.phase i .waiting j).Fits (mark ls j) := by
      by_cases hj : j = i
      · subst hj
        rw [update_self]
        trivial
      · rw [update_of_ne hj]
        exact (h j).outside
    have hin : (Function.update s.phase i .waiting j).inside = true → (s.phase j).inside = true := by
      intro hj'
      by_cases hj : j = i
      · subst hj
        exact Batcher.inside_of_leading hp
      · rwa [update_of_ne hj] at hj'
    refine ⟨hout, fun hj' hdone => ?_, fun hj' hq => (h j).queued (hin hj') hq,
      fun k st hk => absurd hk (hnone k st)⟩
    by_cases hjb : j ∈ batch
    · exact writeBack_fits hjb (hb.batched i _ hp j hjb).2.2 ((h j).batched i _ hp hjb)
    · have hnode := writeBack_of_notMem s.nodes results hjb
      simp only [State.setPhase, hnode] at hdone ⊢
      exact (h j).done (hin hj') hdone
  | release hp => exact hcounter hb' hp id rfl

theorem Stage.Fits.cases {st : Stage Error} {m : ℕ × List (Option Error)} (h : st.Fits m) :
    m = (0, []) ∨ m = (1, []) ∨ ∃ error, m = (1, [error]) := by
  cases st with
  | collecting => exact .inl h
  | assembled batch => exact .inl h
  | writing batch => exact .inr (.inl h)
  | executed batch results =>
    cases results with
    | none => exact .inl h
    | some results =>
      obtain ⟨error, -, hm⟩ := h
      exact .inr (.inr ⟨error, hm⟩)

theorem Fits.cases {m : ℕ × List (Option Error)} {order : List ℕ} (hb : Batcher o order s)
    (h : Fits s i m) : m = (0, []) ∨ m = (1, []) ∨ ∃ error, m = (1, [error]) := by
  by_cases hin : (s.phase i).inside = true
  · by_cases hdone : (s.nodes i).done = true
    · have hfits := h.done hin hdone
      unfold Completion.Fits at hfits
      grind
    · rcases hb.undone i hin (by simpa using hdone) with hq | ⟨k, st, hk, hik⟩
      · exact .inl (h.queued hin hq)
      · exact (h.batched k st hk hik).cases
  · have hout := h.outside
    cases hp : s.phase i with
    | invoking reserved =>
      rw [hp] at hout
      exact .inr (.inl hout)
    | finishing out =>
      rw [hp] at hout
      exact hout.elim (fun hm => .inr (.inr ⟨out, hm⟩)) fun hm => .inl hm.1
    | finished out =>
      rw [hp] at hout
      exact hout.elim (fun hm => .inr (.inr ⟨out, hm⟩)) fun hm => .inl hm.1
    | waiting => simp [hp, Phase.inside] at hin
    | leading st => simp [hp, Phase.inside] at hin
    | _ =>
      rw [hp] at hout
      exact .inl hout

/-! ## Runs -/

theorem joined_snoc (ls : List (Label Error)) (l : Label Error) :
    joined (ls ++ [l]) = joined ls ++ l.joined := by
  simp [joined]

/-- A call of `execute` has one input, or the callers of a batch in the order in which they joined. -/
def Grouped (o : Limits) (ls : List (Label Error)) : Prop :=
  ∀ batch, .execute batch ∈ ls →
    (∃ i, batch = [i]) ∨ batch.Nodup ∧ batch.Sublist (joined ls) ∧ batch.length ≤ o.batch

theorem Grouped.step (hb : Batcher o (joined ls) s) (h : Grouped o ls) (hact : Act o bytes i s l s') :
    Grouped o (ls ++ [l]) := by
  intro batch hmem
  have hgrow : (joined ls).Sublist (joined (ls ++ [l])) := by
    rw [joined_snoc]
    exact List.sublist_append_left _ _
  rcases List.mem_append.1 hmem with hmem | hmem
  · exact (h batch hmem).imp_right fun ⟨hnodup, hsub, hlen⟩ => ⟨hnodup, hsub.trans hgrow, hlen⟩
  · obtain rfl := List.mem_singleton.1 hmem
    cases hact with
    | invokeDirect => exact .inl ⟨i, rfl⟩
    | invokeFallback => exact .inl ⟨i, rfl⟩
    | write hp =>
      obtain ⟨hnodup, hsub, hlen⟩ := hb.batch_order i _ hp
      exact .inr ⟨hnodup, hsub.trans hgrow, hlen⟩

structure Inv (o : Limits) (bytes : ℕ → ℕ) (ls : List (Label Error)) (s : State Error) : Prop where
  budget : Budget o bytes s
  batcher : Batcher o (joined ls) s
  fits : ∀ i, Fits s i (mark ls i)
  grouped : Grouped o ls

namespace Inv

theorem init : Inv o bytes [] (State.initial : State Error) where
  budget := .init
  batcher := .init
  fits := fun i => .of_outside (o := o) .init rfl rfl rfl
  grouped := fun batch hmem => by cases hmem

theorem step (h : Inv o bytes ls s) (hs : Step o bytes s l s') : Inv o bytes (ls ++ [l]) s' := by
  obtain ⟨i, hact⟩ := hs
  refine ⟨h.budget.step hact, ?_, fits_step h.batcher h.fits hact, h.grouped.step h.batcher hact⟩
  rw [joined_snoc]
  exact h.batcher.step hact

theorem of_run (hrun : Run (Step o bytes) (State.initial : State Error) ls s) : Inv o bytes ls s :=
  hrun.history (fun _ _ _ _ h hs => h.step hs) .init

theorem progress (h : Inv o bytes ls s) (hi : (s.phase i).unfinished = true) :
    ∃ j l s', (s.phase j).unfinished = true ∧ Act o bytes j s l s' := by
  have hleader : ∀ {j st}, s.phase j = .leading st →
      ∃ j l s', (s.phase j).unfinished = true ∧ Act o bytes j s l s' := fun {j st} hj => by
    have hun : (s.phase j).unfinished = true := by
      rw [hj]
      rfl
    cases st with
    | collecting => exact ⟨j, _, _, hun, .assemble hj⟩
    | assembled batch => exact ⟨j, _, _, hun, .write hj⟩
    | writing batch => exact ⟨j, _, _, hun, .wrote none hj⟩
    | executed batch results => exact ⟨j, _, _, hun, .writeBack hj⟩
  cases hp : s.phase i with
  | idle => simp [hp, Phase.unfinished] at hi
  | reserving held =>
    rcases Nat.lt_or_ge (sizeSub o.serializedInputBytes held) (bytes i) with hlt | hle
    · exact ⟨i, _, _, hi, .deny hp hlt⟩
    · by_cases heq : s.heldBytes = held
      · exact ⟨i, _, _, hi, .reserve hp hle heq⟩
      · exact ⟨i, _, _, hi, .retry hp hle⟩
  | direct => exact ⟨i, _, _, hi, .invokeDirect hp⟩
  | invoking reserved => exact ⟨i, _, _, hi, .invoked none hp⟩
  | admitted =>
    rcases Nat.lt_or_ge s.queue.length o.queued with hlt | hle
    · exact ⟨i, _, _, hi, .join hp hlt⟩
    · exact ⟨i, _, _, hi, .full hp hle⟩
  | waiting =>
    cases hdone : (s.nodes i).done with
    | true => exact ⟨i, _, _, hi, .collect hp hdone⟩
    | false =>
      cases hrunning : s.running with
      | false => exact ⟨i, _, _, hi, .lead hp hdone hrunning⟩
      | true =>
        obtain ⟨j, st, hj⟩ := h.batcher.running_iff.1 hrunning
        exact hleader hj
  | leading st => exact hleader hp
  | fallback => exact ⟨i, _, _, hi, .invokeFallback hp⟩
  | finishing out => exact ⟨i, _, _, hi, .release hp⟩
  | finished out => simp [hp, Phase.unfinished] at hi

end Inv

theorem mem_ends {batch : List ℕ} {error : Option Error} (h : .returned batch error ∈ ls)
    (hi : i ∈ batch) : error ∈ ends ls i :=
  List.mem_flatMap.2 ⟨_, h, by simp [Label.ended, hi]⟩

/-- In every run each input is in one call of `execute` at most.  A call of `Run` returns normally
exactly if its input was in one call that did not throw; if that call threw, each caller of the group
throws its error.  A call of `execute` has its inputs in the order of the queue, the bytes of admitted
unfinished calls are within the limit, and while a call is not over one can go on. -/
theorem writes_exactly_once (hrun : Run (Step o bytes) (State.initial : State Error) ls s) :
    (∀ i, starts ls i ≤ 1) ∧
    (∀ i out, s.phase i = .finished out → (out = none ↔ starts ls i = 1 ∧ ends ls i = [none])) ∧
    (∀ batch error, .returned batch error ∈ ls → ∀ i ∈ batch, starts ls i = 1 ∧ ends ls i = [error] ∧
      ∀ out, s.phase i = .finished out → out = error) ∧
    (∀ batch, .execute batch ∈ ls →
      (∃ i, batch = [i]) ∨ batch.Nodup ∧ batch.Sublist (joined ls) ∧ batch.length ≤ o.batch) ∧
    (∀ T : Finset ℕ, ∑ i ∈ T.filter (fun i => (s.phase i).holds = true), bytes i ≤
      o.serializedInputBytes) ∧
    (∀ i, (s.phase i).unfinished = true →
      ∃ j l s', (s.phase j).unfinished = true ∧ Act o bytes j s l s') := by
  have h := Inv.of_run hrun
  have hfinished : ∀ i out, s.phase i = .finished out →
      mark ls i = (1, [out]) ∨ mark ls i = (0, []) ∧ out ≠ none := fun i out hp => by
    have hout := (h.fits i).outside
    rw [hp] at hout
    exact hout
  refine ⟨fun i => ?_, fun i out hp => ?_, fun batch error hmem i hi => ?_, h.grouped, fun T => ?_,
    fun i hi => h.progress hi⟩
  · rcases (h.fits i).cases h.batcher with hm | hm | ⟨error, hm⟩
    · rw [(Prod.mk.inj hm).1]
      exact Nat.zero_le _
    · exact (congrArg Prod.fst hm).le
    · exact (congrArg Prod.fst hm).le
  · rcases hfinished i out hp with hm | ⟨hm, hout⟩
    · obtain ⟨hstarts, hends⟩ := Prod.mk.inj hm
      rw [hstarts, hends]
      simp
    · obtain ⟨hstarts, -⟩ := Prod.mk.inj hm
      rw [hstarts]
      simp [hout]
  · have hend := mem_ends hmem hi
    rcases (h.fits i).cases h.batcher with hm | hm | ⟨error', hm⟩
    · rw [(Prod.mk.inj hm).2] at hend
      cases hend
    · rw [(Prod.mk.inj hm).2] at hend
      cases hend
    · obtain ⟨hstarts, hends⟩ := Prod.mk.inj hm
      rw [hends] at hend
      obtain rfl := List.mem_singleton.1 hend
      refine ⟨hstarts, hends, fun out hp => ?_⟩
      rcases hfinished i out hp with hm' | ⟨hm', -⟩
      · rw [hm] at hm'
        simpa using hm'.symm
      · rw [hm] at hm'
        simp at hm'
  · rw [Finset.sum_filter]
    exact (h.budget.sum_le T).trans h.budget.le

def Limits.pair : Limits := ⟨2, 2, 2, by decide, by decide, by decide⟩

/-- Two callers whose inputs are written as one group. -/
theorem writes_exactly_once_pair :
    ∃ ls, ∃ s : State String, Run (Step .pair fun _ => 1) .initial ls s ∧ .execute [0, 1] ∈ ls ∧
      s.phase 0 = .finished none ∧ s.phase 1 = .finished none ∧
      (starts ls 0 = 1 ∧ ends ls 0 = [none]) ∧ starts ls 1 = 1 ∧ ends ls 1 = [none] := by
  have hrun : ∃ s : State String, Run (Step .pair fun _ => 1) .initial
      [.silent, .silent, .join 0, .silent, .silent, .join 1, .silent, .silent, .execute [0, 1],
        .returned [0, 1] none, .silent, .silent, .silent, .silent, .silent] s ∧
      s.phase 0 = .finished none ∧ s.phase 1 = .finished none := by
    refine ⟨_, .cons ⟨0, .load rfl (by decide) (by decide)⟩ <|
      .cons ⟨0, .reserve rfl (by decide) rfl⟩ <| .cons ⟨0, .join rfl (by decide)⟩ <|
      .cons ⟨1, .load rfl (by decide) (by decide)⟩ <| .cons ⟨1, .reserve rfl (by decide) rfl⟩ <|
      .cons ⟨1, .join rfl (by decide)⟩ <| .cons ⟨0, .lead rfl rfl rfl⟩ <|
      .cons ⟨0, .assemble rfl⟩ <| .cons ⟨0, .write rfl⟩ <| .cons ⟨0, .wrote none rfl⟩ <|
      .cons ⟨0, .writeBack rfl⟩ <| .cons ⟨0, .collect rfl rfl⟩ <| .cons ⟨0, .release rfl⟩ <|
      .cons ⟨1, .collect rfl rfl⟩ <| .single ⟨1, .release rfl⟩, rfl, rfl⟩
  obtain ⟨s, hrun, h₀, h₁⟩ := hrun
  obtain ⟨-, hfinished, -⟩ := writes_exactly_once hrun
  exact ⟨_, s, hrun, by simp, h₀, h₁, (hfinished 0 none h₀).1 rfl, (hfinished 1 none h₁).1 rfl⟩

end TinyImx.Runtime.WriteGroup
