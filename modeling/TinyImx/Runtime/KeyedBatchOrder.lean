import TinyImx.Runtime.KeyedBatch

/-!
# Order and accounting of keyed ready batches

The ring holds the keys of exactly the inactive lanes, each of which has an input, and the active
lanes are those of the inputs the workers have.  So every key in the ring stands for an input that is
pending and not taken, and the ring has room for them all.
-/

namespace TinyImx.Runtime.KeyedBatch

open List (append_assoc append_nil length_append mem_append mem_cons_self mem_map mem_singleton
  nodup_append nodup_cons)
open Multiset (card_cons card_le_card coe_add coe_card coe_le coe_nodup cons_add cons_bind map_coe
  mem_add mem_bind mem_cons mem_map_of_mem mem_replicate)

variable {Input Result : Type} {o : Options} {c c' : Core Input o} {A : Multiset UInt64} {k : UInt64}
  {n : Node Input} {nodes : List (Node Input)}

@[simp] theorem ofKey_nil : ofKey k ([] : List (Node Input)) = [] := rfl

@[simp] theorem ofKey_append (xs ys : List (Node Input)) : ofKey k (xs ++ ys) = ofKey k xs ++ ofKey k ys :=
  List.filter_append xs ys

theorem ofKey_cons (n : Node Input) (ns : List (Node Input)) :
    ofKey k (n :: ns) = ofKey k [n] ++ ofKey k ns := ofKey_append [n] ns

theorem ofKey_self (n : Node Input) : ofKey n.key [n] = [n] := by
  simp [ofKey]

theorem ofKey_of_ne (h : k ≠ n.key) : ofKey k [n] = [] := by
  simp [ofKey, Ne.symm h]

theorem mem_ofKey : n ∈ ofKey k nodes ↔ n ∈ nodes ∧ n.key = k := by
  simp [ofKey]

theorem le_of_ofKey {xs ys : List (Node Input)} {q : UInt64 → List (Node Input)}
    (h : ∀ k, ofKey k xs = ofKey k ys ++ q k) : (ys : Multiset (Node Input)) ≤ xs := by
  classical
  refine Multiset.le_iff_count.2 fun n => ?_
  have hk := congrArg (List.count n) (h n.key)
  rw [List.count_append] at hk
  have hfilter : ∀ xs : List (Node Input), (ofKey n.key xs).count n = xs.count n := fun xs =>
    List.count_filter (by simp)
  rw [hfilter, hfilter] at hk
  simp_all

/-! ## The shared state -/

namespace Core

def queueOf (c : Core Input o) (k : UInt64) : List (Node Input) := (c.lanes.lookup k).elim [] Lane.queue

theorem queueOf_of_lookup {l : Lane Input} (h : c.lanes.lookup k = some l) : c.queueOf k = l.queue := by
  simp [queueOf, h]

theorem queueOf_of_none (h : c.lanes.lookup k = none) : c.queueOf k = [] := by
  simp [queueOf, h]

/-- The lanes, the ring, and the keys `A` the workers have inputs of fit together. -/
structure Ok (c : Core Input o) (A : Multiset UInt64) : Prop where
  active_nodup : A.Nodup
  active_iff : ∀ k, k ∈ A ↔ ∃ q, c.lanes.lookup k = some ⟨q, true⟩
  ready_nodup : c.ready.toList.Nodup
  ready_iff : ∀ k, k ∈ c.ready.toList ↔ ∃ q, c.lanes.lookup k = some ⟨q, false⟩
  queued : ∀ k q, c.lanes.lookup k = some ⟨q, false⟩ → q ≠ []
  keyed : ∀ k l, c.lanes.lookup k = some l → ∀ n ∈ l.queue, n.key = k

structure Untouched (c c' : Core Input o) : Prop where
  accepting : c'.accepting = c.accepting
  stopping : c'.stopping = c.stopping
  pending : c'.pending = c.pending
  accepted : c'.accepted = c.accepted
  completed : c'.completed = c.completed

theorem Untouched.refl (c : Core Input o) : c.Untouched c := ⟨rfl, rfl, rfl, rfl, rfl⟩

theorem Untouched.trans {c₁ c₂ c₃ : Core Input o} (h₁ : c₁.Untouched c₂) (h₂ : c₂.Untouched c₃) :
    c₁.Untouched c₃ :=
  ⟨h₂.accepting.trans h₁.accepting, h₂.stopping.trans h₁.stopping, h₂.pending.trans h₁.pending,
    h₂.accepted.trans h₁.accepted, h₂.completed.trans h₁.completed⟩

theorem ok_empty : (empty : Core Input o).Ok 0 where
  active_nodup := Multiset.nodup_zero
  active_iff := by simp [empty]
  ready_nodup := by simp [empty, BoundedRing.toList]
  ready_iff := by simp [empty, BoundedRing.toList]
  queued := by simp [empty]
  keyed := by simp [empty]

/-! ### Taking -/

theorem popReady_cases (h : c.popReady = some (n, c')) :
    ∃ k q r, c.ready.pop = some (k, r) ∧ c.lanes.lookup k = some ⟨n :: q, false⟩ ∧
      c' = { c with ready := r, lanes := c.lanes.insert k ⟨q, true⟩ } := by
  unfold popReady at h
  grind

/-- What taking an input does: its lane becomes active and loses its first input. -/
theorem popReady_spec (hok : c.Ok A) (h : c.popReady = some (n, c')) :
    c'.Ok (n.key ::ₘ A) ∧ (∀ k, c.queueOf k = ofKey k [n] ++ c'.queueOf k) ∧
      c'.ready.count + 1 = c.ready.count ∧ c.Untouched c' := by
  obtain ⟨k, q, r, hpop, hlane, rfl⟩ := popReady_cases h
  have hkey : n.key = k := hok.keyed k _ hlane n mem_cons_self
  subst hkey
  have hlist := BoundedRing.toList_pop hpop
  have hnodup := hok.ready_nodup
  rw [hlist, nodup_cons] at hnodup
  have hnotA : n.key ∉ A := fun hA => by
    obtain ⟨q', hq'⟩ := (hok.active_iff n.key).1 hA
    rw [hlane] at hq'
    cases hq'
  refine ⟨⟨?_, ?_, hnodup.2, ?_, ?_, ?_⟩, ?_, ?_, ⟨rfl, rfl, rfl, rfl, rfl⟩⟩
  · exact Multiset.nodup_cons.2 ⟨hnotA, hok.active_nodup⟩
  · intro k
    rw [mem_cons]
    by_cases hk : k = n.key
    · subst hk
      simp
    · rw [AList.lookup_insert_ne hk, ← hok.active_iff k]
      simp [hk]
  · intro k
    by_cases hk : k = n.key
    · subst hk
      simp [hnodup.1]
    · rw [AList.lookup_insert_ne hk, ← hok.ready_iff k, hlist]
      simp [hk]
  · intro k q' hq'
    by_cases hk : k = n.key
    · subst hk
      simp_all
    · rw [AList.lookup_insert_ne hk] at hq'
      exact hok.queued k q' hq'
  · intro k l hl m hm
    by_cases hk : k = n.key
    · subst hk
      rw [AList.lookup_insert] at hl
      cases hl
      exact hok.keyed _ _ hlane m (List.mem_cons_of_mem _ hm)
    · rw [AList.lookup_insert_ne hk] at hl
      exact hok.keyed k l hl m hm
  · intro k
    by_cases hk : k = n.key
    · subst hk
      rw [queueOf_of_lookup hlane, queueOf_of_lookup (AList.lookup_insert _), ofKey_self]
      rfl
    · rw [ofKey_of_ne hk]
      simp [queueOf, AList.lookup_insert_ne hk]
  · have hlen := congrArg List.length hlist
    simpa using hlen.symm

theorem popReady_isSome (hok : c.Ok A) (hpos : 0 < c.ready.count) :
    ∃ n c', c.popReady = some (n, c') := by
  obtain ⟨k, r, hpop⟩ := BoundedRing.pop_isSome hpos
  have hmem : k ∈ c.ready.toList := by
    rw [BoundedRing.toList_pop hpop]
    exact mem_cons_self
  obtain ⟨q, hq⟩ := (hok.ready_iff k).1 hmem
  obtain ⟨n, q', rfl⟩ := List.exists_cons_of_ne_nil (hok.queued k q hq)
  refine ⟨n, { c with ready := r, lanes := c.lanes.insert k ⟨q', true⟩ }, ?_⟩
  simp only [popReady, hpop, hq]

theorem popMany_spec {count : ℕ} (hok : c.Ok A) (h : c.popMany count = some (nodes, c')) :
    c'.Ok (↑(nodes.map Node.key) + A) ∧ (∀ k, c.queueOf k = ofKey k nodes ++ c'.queueOf k) ∧
      nodes.length = count ∧ c.Untouched c' := by
  induction count generalizing c A nodes with
  | zero =>
    cases h
    exact ⟨by simpa using hok, fun k => rfl, rfl, .refl _⟩
  | succ count ih =>
    unfold popMany at h
    split at h
    · cases h
    · next n c₁ hpop =>
      obtain ⟨⟨ns, c₂⟩, hmany, heq⟩ := Option.map_eq_some_iff.1 h
      cases heq
      obtain ⟨hok₁, hqueue₁, -, hsame₁⟩ := popReady_spec hok hpop
      obtain ⟨hok₂, hqueue₂, hlen, hsame₂⟩ := ih hok₁ hmany
      refine ⟨?_, fun k => ?_, by simp [hlen], hsame₁.trans hsame₂⟩
      · rw [List.map_cons, ← Multiset.cons_coe, cons_add, ← Multiset.add_cons]
        exact hok₂
      · rw [hqueue₁, hqueue₂, ofKey_cons n ns, append_assoc]

theorem popMany_isSome {count : ℕ} (hok : c.Ok A) (hle : count ≤ c.ready.count) :
    ∃ ns c', c.popMany count = some (ns, c') := by
  induction count generalizing c A with
  | zero => exact ⟨[], c, rfl⟩
  | succ count ih =>
    obtain ⟨n, c₁, hpop⟩ := popReady_isSome hok (by omega)
    obtain ⟨hok₁, -, hcount, -⟩ := popReady_spec hok hpop
    obtain ⟨ns, c₂, hmany⟩ := ih hok₁ (by omega)
    exact ⟨n :: ns, c₂, by simp only [popMany, hpop, hmany, Option.map_some]⟩

/-! ### Submitting -/

theorem pushReady_cases (h : c.pushReady k = some c') :
    ∃ r, c.ready.push k = some r ∧ c' = { c with ready := r } := by
  obtain ⟨r, hr, rfl⟩ := Option.map_eq_some_iff.1 h
  exact ⟨r, hr, rfl⟩

theorem submit_cases {a : Admission} (h : c.submit n = some (a, c')) :
    (a ≠ .accepted ∧ c'.lanes = c.lanes ∧ c'.ready = c.ready ∧ c.Untouched c') ∨
      (a = .accepted ∧ c.accepting = true ∧ c.pending < o.capacity ∧
        ∃ lane ready,
          (c.lanes.lookup n.key = some lane ∧ ready = c.ready ∨
            c.lanes.lookup n.key = none ∧ lane = ⟨[], false⟩ ∧ c.ready.push n.key = some ready) ∧
          c' = { c with
            lanes := c.lanes.insert n.key { lane with queue := lane.queue ++ [n] }
            ready
            pending := c.pending + 1
            peak := max c.peak (c.pending + 1)
            accepted := c.accepted + 1 }) := by
  unfold submit at h
  split at h
  · cases h
    exact .inl ⟨by simp, rfl, rfl, ⟨rfl, rfl, rfl, rfl, rfl⟩⟩
  · next hacc =>
    split at h
    · cases h
      exact .inl ⟨by simp, rfl, rfl, ⟨rfl, rfl, rfl, rfl, rfl⟩⟩
    · next hcap =>
      have hacc' : c.accepting = true := by simpa using hacc
      cases hlane : c.lanes.lookup n.key with
      | some lane =>
        simp only [tryEmplace, hlane, Bool.false_eq_true, if_false, Option.map_some] at h
        grind
      | none =>
        simp only [tryEmplace, hlane, if_true] at h
        obtain ⟨c₁, hpush, heq⟩ := Option.map_eq_some_iff.1 h
        obtain ⟨r, hr, rfl⟩ := pushReady_cases hpush
        cases heq
        exact .inr ⟨rfl, hacc', by omega, _, r, .inr ⟨rfl, rfl, hr⟩, rfl⟩

theorem submit_isSome (h : c.lanes.lookup n.key = none → c.pending < o.capacity →
    c.ready.count < o.capacity) : c.submit n ≠ none := by
  unfold submit
  split
  · simp
  · split
    · simp
    · next hcap =>
      cases hlane : c.lanes.lookup n.key with
      | some lane => simp [tryEmplace, hlane]
      | none =>
        obtain ⟨r, hr⟩ := BoundedRing.push_isSome (h hlane (by omega)) n.key
        simp [tryEmplace, hlane, pushReady, hr]

/-- What accepting an input does: it is the last of its lane, which is ready if it was not active. -/
theorem submit_spec (c' : Core Input o) {lane : Lane Input}
    {ready : BoundedRing UInt64 o.capacity} (hok : c.Ok A)
    (h : c.lanes.lookup n.key = some lane ∧ ready = c.ready ∨
      c.lanes.lookup n.key = none ∧ lane = ⟨[], false⟩ ∧ c.ready.push n.key = some ready)
    (hlanes : c'.lanes = c.lanes.insert n.key { lane with queue := lane.queue ++ [n] })
    (hready : c'.ready = ready) :
    c'.Ok A ∧ ∀ k, c'.queueOf k = c.queueOf k ++ ofKey k [n] := by
  have hqueue : lane.queue = c.queueOf n.key := by
    rcases h with ⟨hl, -⟩ | ⟨hl, rfl, -⟩
    · exact (queueOf_of_lookup hl).symm
    · exact (queueOf_of_none hl).symm
  have hself : c'.lanes.lookup n.key = some { lane with queue := lane.queue ++ [n] } := by
    rw [hlanes, AList.lookup_insert]
  have hother : ∀ k, k ≠ n.key → c'.lanes.lookup k = c.lanes.lookup k := fun k hk => by
    rw [hlanes, AList.lookup_insert_ne hk]
  have hmem : ∀ k, k ∈ ready.toList ↔ k ∈ c.ready.toList ∨ (k = n.key ∧ lane.active = false) := by
    intro k
    rcases h with ⟨hl, rfl⟩ | ⟨hl, rfl, hpush⟩
    · refine ⟨.inl, fun hk => hk.elim id ?_⟩
      rintro ⟨rfl, hactive⟩
      exact (hok.ready_iff _).2 ⟨lane.queue, hl.trans (by rw [← hactive])⟩
    · rw [BoundedRing.toList_push hpush]
      simp
  refine ⟨⟨hok.active_nodup, ?_, ?_, ?_, ?_, ?_⟩, ?_⟩
  · intro k
    by_cases hk : k = n.key
    · subst hk
      rw [hself, hok.active_iff]
      rcases h with ⟨hl, -⟩ | ⟨hl, rfl, -⟩
      · rw [hl]
        obtain ⟨q, b⟩ := lane
        simp
      · rw [hl]
        simp
    · rw [hother k hk, hok.active_iff]
  · rw [hready]
    rcases h with ⟨-, rfl⟩ | ⟨hl, -, hpush⟩
    · exact hok.ready_nodup
    · rw [BoundedRing.toList_push hpush]
      refine nodup_append.2 ⟨hok.ready_nodup, by simp, ?_⟩
      intro k hk k' hk' hkk'
      obtain ⟨q, hq⟩ := (hok.ready_iff k).1 hk
      rw [hkk', mem_singleton.1 hk', hl] at hq
      cases hq
  · intro k
    rw [hready, hmem k]
    by_cases hk : k = n.key
    · subst hk
      rw [hself]
      constructor
      · rintro (hmem' | ⟨-, hactive⟩)
        · obtain ⟨q, hq⟩ := (hok.ready_iff _).1 hmem'
          rcases h with ⟨hl, -⟩ | ⟨hl, rfl, -⟩
          · simp_all
          · exact ⟨_, rfl⟩
        · exact ⟨lane.queue ++ [n], by rw [← hactive]⟩
      · rintro ⟨q, hq⟩
        exact .inr ⟨rfl, congrArg Lane.active (Option.some.inj hq)⟩
    · rw [hother k hk, ← hok.ready_iff k]
      simp [hk]
  · intro k q hq
    by_cases hk : k = n.key
    · subst hk
      rw [hself] at hq
      have hlast : lane.queue ++ [n] = q := congrArg Lane.queue (Option.some.inj hq)
      simp [← hlast]
    · rw [hother k hk] at hq
      exact hok.queued k q hq
  · intro k l hl m hm
    by_cases hk : k = n.key
    · subst hk
      rw [hself] at hl
      cases hl
      rcases mem_append.1 hm with hm | hm
      · rcases h with ⟨hlane, -⟩ | ⟨-, rfl, -⟩
        · exact hok.keyed _ _ hlane m hm
        · cases hm
      · rw [mem_singleton.1 hm]
    · rw [hother k hk] at hl
      exact hok.keyed k l hl m hm
  · intro k
    by_cases hk : k = n.key
    · subst hk
      rw [queueOf_of_lookup hself, ofKey_self, hqueue]
    · rw [ofKey_of_ne hk, append_nil, queueOf, queueOf, hother k hk]

/-! ### Completing -/

theorem complete_cases (h : c.complete k = some c') :
    ∃ q r, c.lanes.lookup k = some ⟨q, true⟩ ∧
      (q = [] ∧ r = c.ready ∧ c'.lanes = c.lanes.erase k ∨
        q ≠ [] ∧ c.ready.push k = some r ∧ c'.lanes = c.lanes.insert k ⟨q, false⟩) ∧
      c' = { c with
        lanes := c'.lanes
        ready := r
        completed := c.completed + 1
        pending := c.pending - 1 } := by
  unfold complete at h
  split at h
  · next q hlane =>
    obtain ⟨c₁, hc₁, rfl⟩ := Option.map_eq_some_iff.1 h
    split at hc₁
    · next hempty =>
      cases hc₁
      exact ⟨q, c.ready, hlane, .inl ⟨by simpa using hempty, rfl, rfl⟩, rfl⟩
    · next hempty =>
      obtain ⟨r, hr, rfl⟩ := pushReady_cases hc₁
      exact ⟨q, r, hlane, .inr ⟨by simpa using hempty, hr, rfl⟩, rfl⟩
  · cases h

theorem complete_isSome {q : List (Node Input)} (hlane : c.lanes.lookup k = some ⟨q, true⟩)
    (h : q ≠ [] → c.ready.count < o.capacity) : c.complete k ≠ none := by
  unfold complete
  rw [hlane]
  cases q with
  | nil => simp
  | cons m q =>
    obtain ⟨r, hr⟩ := BoundedRing.push_isSome (h (by simp)) k
    simp [pushReady, hr]

/-- What completing does: the lane goes, or is ready again with what waits in it. -/
theorem complete_spec (hok : c.Ok (k ::ₘ A)) (h : c.complete k = some c') :
    c'.Ok A ∧ (∀ k', c'.queueOf k' = c.queueOf k') ∧ c'.accepting = c.accepting ∧
      c'.stopping = c.stopping ∧ c'.pending = c.pending - 1 ∧ c'.accepted = c.accepted ∧
      c'.completed = c.completed + 1 := by
  obtain ⟨q, r, hlane, hcase, heq⟩ := complete_cases h
  have hready : c'.ready = r := by rw [heq]
  obtain ⟨hnotA, hnodup⟩ := Multiset.nodup_cons.1 hok.active_nodup
  have hnotready : k ∉ c.ready.toList := fun hk => by
    obtain ⟨q', hq'⟩ := (hok.ready_iff k).1 hk
    rw [hlane] at hq'
    cases hq'
  have hself : c'.lanes.lookup k = if q = [] then none else some ⟨q, false⟩ := by
    rcases hcase with ⟨hq, -, hl⟩ | ⟨hq, -, hl⟩
    · rw [hl, AList.lookup_erase, if_pos hq]
    · rw [hl, AList.lookup_insert, if_neg hq]
  have hother : ∀ k', k' ≠ k → c'.lanes.lookup k' = c.lanes.lookup k' := fun k' hk' => by
    rcases hcase with ⟨-, -, hl⟩ | ⟨-, -, hl⟩
    · rw [hl, AList.lookup_erase_ne hk']
    · rw [hl, AList.lookup_insert_ne hk']
  have hmem : ∀ k', k' ∈ r.toList ↔ k' ∈ c.ready.toList ∨ (k' = k ∧ q ≠ []) := by
    intro k'
    rcases hcase with ⟨hq, rfl, -⟩ | ⟨hq, hpush, -⟩
    · simp [hq]
    · rw [BoundedRing.toList_push hpush]
      simp [hq]
  refine ⟨⟨hnodup, ?_, ?_, ?_, ?_, ?_⟩, ?_, ?_⟩
  · intro k'
    by_cases hk : k' = k
    · grind
    · rw [hother k' hk, ← hok.active_iff k', mem_cons]
      simp [hk]
  · rw [hready]
    rcases hcase with ⟨-, rfl, -⟩ | ⟨-, hpush, -⟩
    · exact hok.ready_nodup
    · rw [BoundedRing.toList_push hpush]
      refine nodup_append.2 ⟨hok.ready_nodup, by simp, ?_⟩
      grind
  · intro k'
    rw [hready, hmem k']
    by_cases hk : k' = k
    · subst hk
      rw [hself]
      by_cases hq : q = []
      · simp [hq, hnotready]
      · simp [hq]
    · rw [hother k' hk, ← hok.ready_iff k']
      simp [hk]
  · intro k' q' hq'
    by_cases hk : k' = k
    · subst hk
      rw [hself] at hq'
      split at hq'
      · cases hq'
      · next hne =>
        cases hq'
        exact hne
    · rw [hother k' hk] at hq'
      exact hok.queued k' q' hq'
  · intro k' l hl m hm
    by_cases hk : k' = k
    · subst hk
      rw [hself] at hl
      split at hl
      · cases hl
      · cases hl
        exact hok.keyed _ _ hlane m hm
    · rw [hother k' hk] at hl
      exact hok.keyed k' l hl m hm
  · intro k'
    by_cases hk : k' = k
    · subst hk
      rw [queueOf_of_lookup hlane, queueOf, hself]
      split
      · next hq => exact hq.symm
      · rfl
    · rw [queueOf, queueOf, hother k' hk]
  · rw [heq]
    exact ⟨rfl, rfl, rfl, rfl, rfl⟩

end Core

/-! ## Runs -/

variable {failure : Result} {s s' : State Input Result o} {ls : List (Label Input Result)}
  {l : Label Input Result} {w w' : Worker Input Result} {ws : Multiset (Worker Input Result)}

theorem map_fst_settle (nodes : List (Node Input)) (results : Option (List Result)) :
    (settle failure nodes results).map Prod.fst = nodes := by
  have hfail : (nodes.map fun node => (node, failure)).map Prod.fst = nodes := by
    simp [Function.comp_def]
  cases results with
  | none => exact hfail
  | some results =>
    simp only [settle]
    by_cases hlen : results.length = nodes.length
    · rw [if_pos hlen]
      exact List.map_fst_zip (le_of_eq hlen.symm)
    · rw [if_neg hlen]
      exact hfail

theorem across_of_workers (h : s.workers = w ::ₘ ws) (f : Worker Input Result → List (Node Input)) :
    s.across f = (f w : Multiset (Node Input)) + ws.bind fun w => (f w : Multiset (Node Input)) := by
  rw [State.across, h, cons_bind]

variable {f : Worker Input Result → List (Node Input)}

theorem across_initial (hf : f .starting = []) :
    (State.initial : State Input Result o).across f = 0 := by
  refine Multiset.eq_zero_of_forall_notMem fun n hn => ?_
  obtain ⟨w, hw, hn⟩ := mem_bind.1 hn
  rw [Multiset.eq_of_mem_replicate hw, hf] at hn
  simp at hn

abbrev along (f : Label Input Result → List (Node Input)) (ls : List (Label Input Result)) :
    List (Node Input) := ls.flatMap f

theorem along_snoc (f : Label Input Result → List (Node Input)) (ls : List (Label Input Result))
    (l : Label Input Result) : along f (ls ++ [l]) = along f ls ++ f l := by
  simp [along]

theorem flow_step (s' : State Input Result o) {g g' : Label Input Result → List (Node Input)}
    (h : (along g ls : Multiset (Node Input)) = along g' ls + s.across f)
    (hl : (g l : Multiset (Node Input)) + f w = g' l + f w') (hw : s.workers = w ::ₘ ws)
    (hw' : s'.workers = w' ::ₘ ws) :
    (along g (ls ++ [l]) : Multiset (Node Input)) = along g' (ls ++ [l]) + s'.across f := by
  rw [across_of_workers hw] at h
  rw [along_snoc, along_snoc, ← coe_add, ← coe_add, h, across_of_workers hw']
  generalize (ws.bind fun w => (f w : Multiset (Node Input))) = rest
  calc (along g' ls : Multiset (Node Input)) + (f w + rest) + g l
      = along g' ls + (g l + f w) + rest := by ac_rfl
    _ = along g' ls + g' l + (f w' + rest) := by
      rw [hl]
      ac_rfl

structure Inv (ls : List (Label Input Result)) (s : State Input Result o) : Prop where
  ok : s.core.Ok (s.held.map Node.key)
  lanes : ∀ k, ofKey k (along Label.accepted ls) = ofKey k (along Label.taken ls) ++ s.core.queueOf k
  ids : (along Label.accepted ls).Pairwise fun m n => m.id < n.id
  ids_lt : ∀ n ∈ along Label.accepted ls, n.id < s.calls
  custody : (along Label.taken ls : Multiset (Node Input)) = along Label.completed ls + s.held
  accepted : s.core.accepted = (along Label.accepted ls).length
  completed : s.core.completed = (along Label.completed ls).length
  pending : s.core.pending + s.core.completed = s.core.accepted
  capacity : s.core.pending ≤ o.capacity
  stopping : s.core.stopping = true → s.core.accepting = false
  exited : .exited ∈ s.workers → s.core.stopping = true ∧ s.core.pending = 0
  card : s.workers.card = o.shards
  running : s.terminated = false

theorem Inv.init : Inv [] (State.initial : State Input Result o) where
  ok := by
    rw [State.held, across_initial rfl]
    exact Core.ok_empty
  lanes := fun k => by simp [State.initial, Core.queueOf, Core.empty]
  ids := by simp
  ids_lt := by simp
  custody := by
    rw [State.held, across_initial rfl]
    rfl
  accepted := rfl
  completed := rfl
  pending := rfl
  capacity := Nat.zero_le _
  stopping := by simp [State.initial, Core.empty]
  exited := by simp [State.initial, mem_replicate]
  card := by simp [State.initial]
  running := rfl

namespace Inv

theorem nodup_accepted (h : Inv ls s) : (along Label.accepted ls).Nodup :=
  h.ids.imp fun hlt heq => by simp [heq] at hlt

theorem taken_le (h : Inv ls s) :
    (along Label.taken ls : Multiset (Node Input)) ≤ along Label.accepted ls := le_of_ofKey h.lanes

theorem nodup_taken (h : Inv ls s) : (along Label.taken ls).Nodup :=
  coe_nodup.1 (Multiset.nodup_of_le h.taken_le (coe_nodup.2 h.nodup_accepted))

theorem taken_length (h : Inv ls s) :
    (along Label.taken ls).length = s.core.completed + s.held.card := by
  have := congrArg Multiset.card h.custody
  simpa [h.completed] using this

theorem waiting_le (h : Inv ls s) {ks : List UInt64} (hnodup : ks.Nodup)
    (hks : ∀ k ∈ ks, s.core.queueOf k ≠ []) :
    ks.length + (along Label.taken ls).length ≤ (along Label.accepted ls).length := by
  classical
  have hhead : ∀ k ∈ ks, ∃ n, n ∈ s.core.queueOf k ∧ n.key = k := fun k hk => by
    obtain ⟨n, q, hq⟩ := List.exists_cons_of_ne_nil (hks k hk)
    have hmem : n ∈ ofKey k (along Label.accepted ls) := by
      rw [h.lanes k, hq]
      simp
    exact ⟨n, by simp [hq], (mem_ofKey.1 hmem).2⟩
  choose head hhead using hhead
  have hheads : (ks.attach.map fun k => head k.1 k.2).Nodup :=
    (List.nodup_attach.2 hnodup).map fun a b hab => Subtype.ext <| by
      grind
  have hwait : ∀ k n, n ∈ s.core.queueOf k → n ∉ along Label.taken ls := fun k n hn htaken => by
    have hacc : n ∈ ofKey k (along Label.accepted ls) := by
      rw [h.lanes k]
      exact List.mem_append_right _ hn
    have hmem : n ∈ ofKey k (along Label.taken ls) := mem_ofKey.2 ⟨htaken, (mem_ofKey.1 hacc).2⟩
    have hnd : (ofKey k (along Label.accepted ls)).Nodup := h.nodup_accepted.filter _
    rw [h.lanes k] at hnd
    exact (nodup_append.1 hnd).2.2 n hmem n hn rfl
  have hall : ((ks.attach.map fun k => head k.1 k.2) ++ along Label.taken ls).Nodup := by
    refine nodup_append.2 ⟨hheads, h.nodup_taken, ?_⟩
    rintro a ha b hb rfl
    obtain ⟨k, -, rfl⟩ := mem_map.1 ha
    exact hwait k.1 _ (hhead k.1 k.2).1 hb
  have hsub : (ks.attach.map fun k => head k.1 k.2) ++ along Label.taken ls ⊆
      along Label.accepted ls := by
    intro n hn
    rcases mem_append.1 hn with hn | hn
    · obtain ⟨k, -, rfl⟩ := mem_map.1 hn
      have hmem : head k.1 k.2 ∈ ofKey k.1 (along Label.accepted ls) := by
        rw [h.lanes k.1]
        exact List.mem_append_right _ (hhead k.1 k.2).1
      exact (mem_ofKey.1 hmem).1
    · exact Multiset.mem_of_le h.taken_le hn
  simpa using (List.subperm_of_subset hall hsub).length_le

end Inv

/-! ## One step -/

theorem Act.flow (h : Act failure c w l c' w') :
    (l.taken : Multiset (Node Input)) + w.held = l.completed + w'.held := by
  cases h with
  | start => rfl
  | take => simp [Label.taken, Label.completed, Worker.held]
  | takeFailed => simp [Label.taken, Label.completed, Worker.held]
  | exit => rfl
  | skip => simp [Label.taken, Label.completed, Worker.held, map_fst_settle]
  | execute => rfl
  | returned => simp [Label.taken, Label.completed, Worker.held, map_fst_settle]
  | call => rfl
  | complete => simp [Label.taken, Label.completed, Worker.held]

theorem Act.accepted_eq (h : Act failure c w l c' w') : l.accepted = [] := by
  cases h <;> rfl

/-- What a step of a worker does to the shared state; `A` are the keys of the other workers. -/
structure Effect (c c' : Core Input o) (l : Label Input Result) (w' : Worker Input Result)
    (A : Multiset UInt64) : Prop where
  ok : c'.Ok (↑(w'.held.map Node.key) + A)
  queue : ∀ k, c.queueOf k = ofKey k l.taken ++ c'.queueOf k
  accepting : c'.accepting = c.accepting
  stopping : c'.stopping = c.stopping
  accepted : c'.accepted = c.accepted
  completed : c'.completed = c.completed + l.completed.length
  pending : c'.pending = c.pending - l.completed.length
  exited : w' = .exited → c.Quiet

theorem Effect.of_same (hok : c.Ok (↑(w.held.map Node.key) + A)) (hheld : w'.held = w.held)
    (htaken : l.taken = []) (hcompleted : l.completed = []) (hexit : w' = .exited → c.Quiet) :
    Effect c c l w' A where
  ok := by rwa [hheld]
  queue := fun k => by rw [htaken, ofKey_nil, List.nil_append]
  accepting := rfl
  stopping := rfl
  accepted := rfl
  completed := by simp [hcompleted]
  pending := by simp [hcompleted]
  exited := hexit

theorem Act.effect (hok : c.Ok (↑(w.held.map Node.key) + A)) (h : Act failure c w l c' w') :
    Effect c c' l w' A := by
  cases h with
  | start => exact .of_same hok rfl rfl rfl (by simp)
  | take _ htake =>
    obtain ⟨hok', hqueue, -, hsame⟩ := Core.popMany_spec hok htake
    refine ⟨by simpa [Worker.held] using hok', hqueue, hsame.accepting, hsame.stopping,
      hsame.accepted, hsame.completed, hsame.pending, by simp⟩
  | takeFailed _ hpop =>
    obtain ⟨hok', hqueue, -, hsame⟩ := Core.popReady_spec hok hpop
    refine ⟨by simpa [Worker.held] using hok', hqueue, hsame.accepting, hsame.stopping,
      hsame.accepted, hsame.completed, hsame.pending, by simp⟩
  | exit hquiet => exact .of_same hok rfl rfl rfl fun _ => hquiet
  | skip => exact .of_same hok (map_fst_settle _ _) rfl rfl (by simp)
  | execute => exact .of_same hok rfl rfl rfl (by simp)
  | returned results => exact .of_same hok (map_fst_settle _ _) rfl rfl (by simp)
  | call => exact .of_same hok rfl rfl rfl (by simp)
  | @complete _ n rest failed hcomplete =>
    have hok₁ : c.Ok (n.key ::ₘ (↑((rest.map Prod.fst).map Node.key) + A)) := by
      rw [← cons_add]
      exact hok
    obtain ⟨hok', hqueue, haccepting, hstopping, hpending, haccepted, hcompleted⟩ :=
      Core.complete_spec hok₁ hcomplete
    exact ⟨hok', fun k => (hqueue k).symm, haccepting, hstopping, haccepted, hcompleted, hpending,
      by simp⟩

namespace Inv

/-- A step that leaves the lanes, the ring and the counts alone, and at most stops admission. -/
theorem idle {calls : ℕ} (h : Inv ls s) (hl : l.accepted = [] ∧ l.taken = [] ∧ l.completed = [])
    (hlanes : c.lanes = s.core.lanes) (hready : c.ready = s.core.ready)
    (hcounts : c.pending = s.core.pending ∧ c.accepted = s.core.accepted ∧
      c.completed = s.core.completed)
    (hstop : s.core.stopping = true → c.stopping = true)
    (haccepting : c.stopping = true → c.accepting = false) (hcalls : s.calls ≤ calls) :
    Inv (ls ++ [l]) { s with core := c, calls } := by
  obtain ⟨hpending, haccepted, hcompleted⟩ := hcounts
  have hlog : ∀ f : Label Input Result → List (Node Input), f l = [] →
      along f (ls ++ [l]) = along f ls := fun f hf => by
    rw [along_snoc, hf, append_nil]
  have haccepted' := hlog Label.accepted hl.1
  have htaken' := hlog Label.taken hl.2.1
  have hcompleted' := hlog Label.completed hl.2.2
  have hok : c.Ok (s.held.map Node.key) := by
    obtain ⟨h₁, h₂, h₃, h₄, h₅, h₆⟩ := h.ok
    rw [← hlanes] at h₂ h₄ h₅ h₆
    rw [← hready] at h₃ h₄
    exact ⟨h₁, h₂, h₃, h₄, h₅, h₆⟩
  exact {
    ok := hok
    lanes := fun k => by
      rw [haccepted', htaken', h.lanes k, Core.queueOf, Core.queueOf, hlanes]
    ids := by
      rw [haccepted']
      exact h.ids
    ids_lt := fun n hn => by
      rw [haccepted'] at hn
      exact (h.ids_lt n hn).trans_le hcalls
    custody := by
      rw [htaken', hcompleted']
      exact h.custody
    accepted := by
      rw [haccepted']
      exact haccepted.trans h.accepted
    completed := by
      rw [hcompleted']
      exact hcompleted.trans h.completed
    pending := by
      show c.pending + c.completed = c.accepted
      rw [hpending, hcompleted, haccepted]
      exact h.pending
    capacity := hpending.le.trans h.capacity
    stopping := haccepting
    exited := fun hw => ⟨hstop (h.exited hw).1, hpending.trans (h.exited hw).2⟩
    card := h.card
    running := h.running }

theorem submit {a : Admission} {key : UInt64} {input : Input} (h : Inv ls s)
    (hs : s.core.submit ⟨s.calls, key, input⟩ = some (a, c)) :
    Inv (ls ++ [.submit ⟨s.calls, key, input⟩ a]) { s with core := c, calls := s.calls + 1 } := by
  rcases Core.submit_cases hs with ⟨ha, hlanes, hready, hsame⟩ |
    ⟨rfl, haccepting, hpending, lane, ready, hlane, rfl⟩
  · refine h.idle ⟨?_, rfl, rfl⟩ hlanes hready ⟨hsame.pending, hsame.accepted, hsame.completed⟩
      (hsame.stopping.trans ·) (fun hstop => ?_) (Nat.le_succ _)
    · cases a with
      | accepted => exact absurd rfl ha
      | overloaded => rfl
      | stopped => rfl
    · rw [hsame.accepting]
      exact h.stopping (hsame.stopping.symm.trans hstop)
  · have haccepted : along Label.accepted (ls ++ [.submit ⟨s.calls, key, input⟩ .accepted]) =
        along Label.accepted ls ++ [⟨s.calls, key, input⟩] := along_snoc _ _ _
    have htaken : along Label.taken (ls ++ [.submit ⟨s.calls, key, input⟩ .accepted]) =
        along Label.taken ls := (along_snoc _ _ _).trans (append_nil _)
    have hcompleted : along Label.completed (ls ++ [.submit ⟨s.calls, key, input⟩ .accepted]) =
        along Label.completed ls := (along_snoc _ _ _).trans (append_nil _)
    obtain ⟨hok, hqueue⟩ := Core.submit_spec { s.core with
      lanes := s.core.lanes.insert key { lane with queue := lane.queue ++ [⟨s.calls, key, input⟩] }
      ready
      pending := s.core.pending + 1
      peak := max s.core.peak (s.core.pending + 1)
      accepted := s.core.accepted + 1 } h.ok hlane rfl rfl
    exact {
      ok := hok
      lanes := fun k => by
        rw [haccepted, htaken, ofKey_append, hqueue, h.lanes k, append_assoc]
      ids := by
        rw [haccepted]
        refine List.pairwise_append.2 ⟨h.ids, List.pairwise_singleton _ _, fun m hm n hn => ?_⟩
        rw [mem_singleton.1 hn]
        exact h.ids_lt m hm
      ids_lt := fun n hn => by
        rw [haccepted] at hn
        rcases mem_append.1 hn with hn | hn
        · exact Nat.lt_succ_of_lt (h.ids_lt n hn)
        · rw [mem_singleton.1 hn]
          exact Nat.lt_succ_self _
      custody := by
        rw [htaken, hcompleted]
        exact h.custody
      accepted := by
        rw [haccepted, length_append, List.length_singleton]
        exact congrArg (· + 1) h.accepted
      completed := by
        rw [hcompleted]
        exact h.completed
      pending := by
        have := h.pending
        show s.core.pending + 1 + s.core.completed = s.core.accepted + 1
        omega
      capacity := hpending
      stopping := h.stopping
      exited := fun hw => by
        have hstop := h.stopping (h.exited hw).1
        simp_all
      card := h.card
      running := h.running }

theorem worker (h : Inv ls s) (hw : s.workers = w ::ₘ ws) (hact : Act failure s.core w l c w') :
    Inv (ls ++ [l]) { s with core := c, workers := w' ::ₘ ws } := by
  have hok := h.ok
  rw [State.held, across_of_workers hw, Multiset.map_add, map_coe] at hok
  have heff := hact.effect hok
  have haccepted : along Label.accepted (ls ++ [l]) = along Label.accepted ls := by
    rw [along_snoc, hact.accepted_eq, append_nil]
  have hlanes : ∀ k, ofKey k (along Label.accepted ls) =
      ofKey k (along Label.taken (ls ++ [l])) ++ c.queueOf k := fun k => by
    rw [along_snoc, ofKey_append, h.lanes k, heff.queue k, append_assoc]
  have hcustody := flow_step { s with core := c, workers := w' ::ₘ ws } h.custody hact.flow hw rfl
  have hle : (along Label.completed (ls ++ [l])).length ≤ (along Label.accepted ls).length := by
    have hcard := congrArg Multiset.card hcustody
    have htaken := card_le_card (le_of_ofKey hlanes)
    simp only [Multiset.card_add, coe_card] at hcard htaken
    omega
  rw [along_snoc, length_append, ← h.completed, ← h.accepted] at hle
  exact {
    ok := by
      rw [State.held, across_of_workers rfl, Multiset.map_add, map_coe]
      exact heff.ok
    lanes := fun k => by
      rw [haccepted]
      exact hlanes k
    ids := by
      rw [haccepted]
      exact h.ids
    ids_lt := by
      rw [haccepted]
      exact h.ids_lt
    custody := hcustody
    accepted := by
      rw [haccepted]
      exact heff.accepted.trans h.accepted
    completed := by
      rw [along_snoc, length_append, ← h.completed]
      exact heff.completed
    pending := by
      have hpending := h.pending
      show c.pending + c.completed = c.accepted
      rw [heff.pending, heff.completed, heff.accepted]
      omega
    capacity := by
      show c.pending ≤ o.capacity
      rw [heff.pending]
      exact (Nat.sub_le _ _).trans h.capacity
    stopping := by
      show c.stopping = true → c.accepting = false
      rw [heff.stopping, heff.accepting]
      exact h.stopping
    exited := fun hmem => by
      show c.stopping = true ∧ c.pending = 0
      rw [heff.stopping, heff.pending]
      rcases mem_cons.1 hmem with hself | hrest
      · have hquiet := heff.exited hself.symm
        exact ⟨hquiet.2.1, by rw [hquiet.2.2, Nat.zero_sub]⟩
      · have hold := h.exited (by simp_all)
        exact ⟨hold.1, by rw [hold.2, Nat.zero_sub]⟩
    card := by
      have := h.card
      rw [hw, card_cons] at this
      rw [card_cons]
      exact this
    running := h.running }

end Inv

/-! ## No call of `std::terminate` -/

namespace Inv

theorem count_add_le (h : Inv ls s) : s.core.ready.count + (along Label.taken ls).length ≤
    (along Label.accepted ls).length := by
  have hle := h.waiting_le h.ok.ready_nodup fun k hk => by
    obtain ⟨q, hq⟩ := (h.ok.ready_iff k).1 hk
    rw [Core.queueOf_of_lookup hq]
    exact h.ok.queued k q hq
  rwa [BoundedRing.length_toList] at hle

theorem submit_isSome (h : Inv ls s) (n : Node Input) : s.core.submit n ≠ none := by
  refine Core.submit_isSome fun _ hpending => ?_
  have hle := h.count_add_le
  have htaken := h.taken_length
  have hcount := h.pending
  rw [← h.accepted] at hle
  omega

theorem complete_isSome (h : Inv ls s) (hn : n ∈ s.held) : s.core.complete n.key ≠ none := by
  obtain ⟨q, hq⟩ := (h.ok.active_iff n.key).1 (mem_map_of_mem _ hn)
  refine Core.complete_isSome hq fun hne => ?_
  have hnot : n.key ∉ s.core.ready.toList := fun hmem => by
    obtain ⟨q', hq'⟩ := (h.ok.ready_iff n.key).1 hmem
    rw [hq] at hq'
    cases hq'
  have hle := h.waiting_le (nodup_cons.2 ⟨hnot, h.ok.ready_nodup⟩) fun k hk => by
    rcases List.mem_cons.1 hk with rfl | hk
    · rwa [Core.queueOf_of_lookup hq]
    · obtain ⟨q', hq'⟩ := (h.ok.ready_iff k).1 hk
      rw [Core.queueOf_of_lookup hq']
      exact h.ok.queued k q' hq'
  have htaken := h.taken_length
  have hcount := h.pending
  have hcapacity := h.capacity
  rw [List.length_cons, BoundedRing.length_toList, ← h.accepted] at hle
  omega

theorem mem_held (hw : w ∈ s.workers) (hn : n ∈ w.held) : n ∈ s.held :=
  mem_bind.2 ⟨w, hw, hn⟩

theorem take_isSome (h : Inv ls s) : ∃ ns c, s.core.take = some (ns, c) :=
  Core.popMany_isSome h.ok (Nat.min_le_right _ _)

theorem not_stuck (h : Inv ls s) (hw : w ∈ s.workers) : ¬ Stuck s.core w := by
  intro hstuck
  cases hstuck with
  | take _ htake =>
    obtain ⟨ns, c, hsome⟩ := h.take_isSome
    rw [htake] at hsome
    cases hsome
  | takeFailed hpos hpop =>
    obtain ⟨m, c, hsome⟩ := Core.popReady_isSome h.ok hpos
    rw [hpop] at hsome
    cases hsome
  | complete hcomplete =>
    exact h.complete_isSome (mem_held hw mem_cons_self) hcomplete

theorem step (h : Inv ls s) (hs : Step failure s l s') : Inv (ls ++ [l]) s' := by
  cases hs with
  | submit key input _ hsubmit => exact h.submit hsubmit
  | drain =>
    exact h.idle ⟨rfl, rfl, rfl⟩ rfl rfl ⟨rfl, rfl, rfl⟩ (fun _ => rfl) (fun _ => rfl) le_rfl
  | worker _ hw hact => exact h.worker hw hact
  | submitTerminates key input _ hsubmit => exact absurd hsubmit (h.submit_isSome _)
  | workerTerminates _ hw hstuck => exact absurd hstuck (h.not_stuck hw)

theorem can_act (h : Inv ls s) (failure : Result) (hw : w ∈ s.workers) (hexit : w ≠ .exited)
    (hwait : ∀ failed, w = .running [] failed → 0 < s.core.ready.count) :
    ∃ l c w', Act failure s.core w l c w' := by
  cases w with
  | starting => exact ⟨_, _, _, .start false⟩
  | running rest failed =>
    cases rest with
    | nil =>
      have hpos := hwait failed rfl
      cases failed with
      | false =>
        obtain ⟨ns, c, htake⟩ := h.take_isSome
        exact ⟨_, _, _, .take hpos htake⟩
      | true =>
        obtain ⟨m, c, hpop⟩ := Core.popReady_isSome h.ok hpos
        exact ⟨_, _, _, .takeFailed hpos hpop⟩
    | cons p rest => exact ⟨_, _, _, .call⟩
  | taken nodes => exact ⟨_, _, _, .execute⟩
  | executing nodes => exact ⟨_, _, _, .returned none⟩
  | called m rest failed =>
    obtain ⟨c, hc⟩ := Option.ne_none_iff_exists'.1
      (h.complete_isSome (mem_held hw mem_cons_self))
    exact ⟨_, _, _, .complete hc⟩
  | exited => exact absurd rfl hexit

theorem held_ne_zero (h : Inv ls s) (hready : s.core.ready.count = 0)
    (hpending : s.core.pending ≠ 0) : s.held ≠ 0 := by
  intro hzero
  have hnone : ∀ k, s.core.queueOf k = [] := fun k => by
    cases hlane : s.core.lanes.lookup k with
    | none => exact Core.queueOf_of_none hlane
    | some lane =>
      obtain ⟨q, active⟩ := lane
      cases active with
      | false =>
        have hmem := (h.ok.ready_iff k).2 ⟨q, hlane⟩
        rw [List.eq_nil_of_length_eq_zero (s.core.ready.length_toList.trans hready)] at hmem
        cases hmem
      | true =>
        have hmem := (h.ok.active_iff k).2 ⟨q, hlane⟩
        rw [hzero] at hmem
        cases hmem
  have hle : (along Label.accepted ls : Multiset (Node Input)) ≤ along Label.taken ls :=
    le_of_ofKey (q := fun _ => []) fun k => by simpa [hnone k] using (h.lanes k).symm
  have hcard := card_le_card hle
  have htaken := h.taken_length
  have hcount := h.pending
  rw [hzero, Multiset.card_zero] at htaken
  rw [coe_card, coe_card, ← h.accepted] at hcard
  omega

theorem progress (h : Inv ls s) (failure : Result) (hpending : s.core.pending ≠ 0) :
    ∃ w ∈ s.workers, ∃ l c w', Act failure s.core w l c w' := by
  have hlive : ∀ w ∈ s.workers, w ≠ .exited := by
    rintro w hw rfl
    exact hpending (h.exited hw).2
  by_cases hready : s.core.ready.count = 0
  · obtain ⟨n, hn⟩ := Multiset.exists_mem_of_ne_zero (h.held_ne_zero hready hpending)
    obtain ⟨w, hw, hmem⟩ := mem_bind.1 hn
    refine ⟨w, hw, h.can_act failure hw (hlive w hw) ?_⟩
    rintro failed rfl
    cases hmem
  · have hpos : 0 < s.workers.card := by
      rw [h.card]
      exact o.shards_bounds.1
    obtain ⟨w, hw⟩ := Multiset.card_pos_iff_exists_mem.1 hpos
    exact ⟨w, hw, h.can_act failure hw (hlive w hw) fun _ _ => Nat.pos_of_ne_zero hready⟩

end Inv

/-! ## Each input once, and the inputs of a key in order -/

theorem Act.flow_called (h : Act failure c w l c' w') :
    (l.taken : Multiset (Node Input)) + w.uncalled = l.called + w'.uncalled := by
  cases h with
  | skip => simp [Label.taken, Label.called, Worker.uncalled, Worker.held, map_fst_settle]
  | returned => simp [Label.taken, Label.called, Worker.uncalled, Worker.held, map_fst_settle]
  | _ => simp [Label.taken, Label.called, Worker.uncalled, Worker.held]

/-- The inputs of a label that are passed to `execute`, or completed without. -/
def Label.settled (l : Label Input Result) : List (Node Input) := l.executed ++ l.skipped

theorem Act.flow_executed (h : Act failure c w l c' w') :
    (l.taken : Multiset (Node Input)) + w.unexecuted = l.settled + w'.unexecuted := by
  cases h <;> simp [Label.taken, Label.settled, Label.executed, Label.skipped, Worker.unexecuted]

theorem Act.execute_cases (h : Act failure c w l c' w') :
    (∃ ns, l = .execute ns ∧ w = .taken ns ∧ w' = .executing ns) ∨
      (l.executed = [] ∧ (∀ ns, l ≠ .execute ns) ∧ w'.unexecuted ⊆ l.taken) := by
  cases h with
  | @execute ns => exact .inl ⟨ns, rfl, rfl, rfl⟩
  | take => exact .inr ⟨rfl, by simp, fun n hn => hn⟩
  | _ => exact .inr ⟨rfl, by simp, by simp [Worker.unexecuted]⟩

theorem ofKey_of_nodup (h : (nodes.map Node.key).Nodup) (k : UInt64) :
    ofKey k nodes = [] ∨ ∃ n ∈ nodes, n.key = k ∧ ofKey k nodes = [n] := by
  induction nodes with
  | nil => exact .inl rfl
  | cons n ns ih =>
    obtain ⟨hn, hns⟩ := nodup_cons.1 h
    by_cases hk : k = n.key
    · refine .inr ⟨n, mem_cons_self, hk.symm, ?_⟩
      have hnone : ofKey k ns = [] := List.filter_eq_nil_iff.2 fun m hm hkey => by
        refine hn ?_
        rw [← hk, ← of_decide_eq_true hkey]
        exact List.mem_map_of_mem hm
      rw [ofKey_cons, hnone, hk, ofKey_self]
      rfl
    · rw [ofKey_cons, ofKey_of_ne hk, List.nil_append]
      rcases ih hns with hnil | ⟨m, hm, hmk, heq⟩
      · exact .inl hnil
      · exact .inr ⟨m, List.mem_cons_of_mem _ hm, hmk, heq⟩

structure Log (ls : List (Label Input Result)) (s : State Input Result o) : Prop where
  called : (along Label.taken ls : Multiset (Node Input)) =
    along Label.called ls + s.across Worker.uncalled
  executed : (along Label.taken ls : Multiset (Node Input)) =
    along Label.settled ls + s.across Worker.unexecuted
  order : ∀ k, (ofKey k (along Label.executed ls)).Sublist (ofKey k (along Label.taken ls))
  next : ∀ n ∈ s.across Worker.unexecuted,
    (ofKey n.key (along Label.executed ls) ++ [n]).Sublist (ofKey n.key (along Label.taken ls))
  batches : ∀ ns, .execute ns ∈ ls → (ns.map Node.key).Nodup ∧ ns.length ≤ o.batch
  sizes : ∀ ns, .taken ns ∈ s.workers → ns.length ≤ o.batch

namespace Log

theorem init : Log [] (State.initial : State Input Result o) where
  called := by
    rw [across_initial rfl]
    rfl
  executed := by
    rw [across_initial rfl]
    rfl
  order := fun k => List.Sublist.refl _
  next := fun n hn => by
    rw [across_initial rfl] at hn
    cases hn
  batches := by simp
  sizes := by simp [State.initial, mem_replicate]

theorem caller (h : Log ls s) (hworkers : s'.workers = s.workers) (htaken : l.taken = [])
    (hcalled : l.called = []) (hexecuted : l.executed = []) (hskipped : l.skipped = [])
    (hexec : ∀ ns, l ≠ .execute ns) : Log (ls ++ [l]) s' := by
  have hacross : ∀ f : Worker Input Result → List (Node Input), s'.across f = s.across f :=
    fun f => by rw [State.across, State.across, hworkers]
  have hlog : ∀ f : Label Input Result → List (Node Input), f l = [] →
      along f (ls ++ [l]) = along f ls := fun f hf => by
    rw [along_snoc, hf, append_nil]
  have hsettled : l.settled = [] := by
    rw [Label.settled, hexecuted, hskipped]
    rfl
  exact {
    called := by
      rw [hlog _ htaken, hlog _ hcalled, hacross]
      exact h.called
    executed := by
      rw [hlog _ htaken, hlog _ hsettled, hacross]
      exact h.executed
    order := by
      rw [hlog _ htaken, hlog _ hexecuted]
      exact h.order
    next := by
      rw [hlog _ htaken, hlog _ hexecuted, hacross]
      exact h.next
    batches := fun ns hns => by
      rcases mem_append.1 hns with hns | hns
      · exact h.batches ns hns
      · exact absurd (mem_singleton.1 hns).symm (hexec ns)
    sizes := by
      rw [hworkers]
      exact h.sizes }

theorem worker (hinv : Inv ls s) (h : Log ls s) (hw : s.workers = w ::ₘ ws)
    (hw' : s'.workers = w' ::ₘ ws) (hact : Act failure s.core w l c w') : Log (ls ++ [l]) s' := by
  have hcalled := flow_step s' h.called hact.flow_called hw hw'
  have hexecuted := flow_step s' h.executed hact.flow_executed hw hw'
  have hrest : ∀ n ∈ (ws.bind fun w => (w.unexecuted : Multiset (Node Input))),
      n ∈ s.across Worker.unexecuted := fun n hn => by
    rw [across_of_workers hw]
    exact mem_add.2 (.inr hn)
  rcases hact.execute_cases with ⟨ns, rfl, rfl, rfl⟩ | ⟨hnone, hexec, hnew⟩
  · have hlog : along Label.taken (ls ++ [.execute ns]) = along Label.taken ls :=
      (along_snoc _ _ _).trans (append_nil _)
    have hkeys := hinv.ok.active_nodup
    rw [State.held, across_of_workers hw, Multiset.map_add, map_coe] at hkeys
    obtain ⟨hns, -, hdisj⟩ := Multiset.nodup_add.1 hkeys
    have hns' : (ns.map Node.key).Nodup := coe_nodup.1 hns
    have hmine : ∀ n ∈ ns, n ∈ s.across Worker.unexecuted := fun n hn => by
      rw [across_of_workers hw]
      exact mem_add.2 (.inl hn)
    refine ⟨hcalled, hexecuted, fun k => ?_, fun n hn => ?_, fun ms hms => ?_, fun ms hms => ?_⟩
    · rw [hlog, along_snoc, ofKey_append]
      rcases ofKey_of_nodup hns' k with hnil | ⟨n, hn, rfl, heq⟩
      · rw [show ofKey k (Label.executed (.execute ns : Label Input Result)) = [] from hnil,
          append_nil]
        exact h.order k
      · rw [show ofKey n.key (Label.executed (.execute ns : Label Input Result)) = [n] from heq]
        exact h.next n (hmine n hn)
    · rw [across_of_workers hw'] at hn
      have hn' := (mem_add.1 hn).resolve_left (by simp [Worker.unexecuted])
      rcases ofKey_of_nodup hns' n.key with hnil | ⟨m, hm, hmk, -⟩
      · rw [hlog, along_snoc, ofKey_append,
          show ofKey n.key (Label.executed (.execute ns : Label Input Result)) = [] from hnil,
          append_nil]
        exact h.next n (hrest n hn')
      · -- the other workers have no input of a key of this batch
        obtain ⟨v, hv, hnv⟩ := mem_bind.1 hn'
        have hheld : n ∈ ws.bind fun w => (w.held : Multiset (Node Input)) := by
          refine mem_bind.2 ⟨v, hv, ?_⟩
          cases v with
          | taken nodes => exact hnv
          | _ => cases hnv
        have hleft : n.key ∈ ((Worker.taken ns : Worker Input Result).held.map Node.key :
            Multiset UInt64) := by
          rw [← hmk]
          exact List.mem_map_of_mem hm
        exact absurd (mem_map_of_mem Node.key hheld)
          (Multiset.disjoint_left.1 hdisj hleft)
    · rcases mem_append.1 hms with hms | hms
      · exact h.batches ms hms
      · cases mem_singleton.1 hms
        refine ⟨hns', h.sizes ns ?_⟩
        rw [hw]
        exact Multiset.mem_cons_self _ _
    · rw [hw'] at hms
      refine h.sizes ms ?_
      simp_all
  · have hlog : along Label.executed (ls ++ [l]) = along Label.executed ls := by
      rw [along_snoc, hnone, append_nil]
    have hgrow : ∀ {xs : List (Node Input)} {k : UInt64}, xs.Sublist (ofKey k (along Label.taken ls)) →
        xs.Sublist (ofKey k (along Label.taken (ls ++ [l]))) := fun {xs k} hsub => by
      rw [along_snoc, ofKey_append]
      exact hsub.trans (List.sublist_append_left _ _)
    refine ⟨hcalled, hexecuted, fun k => ?_, fun n hn => ?_, fun ms hms => ?_, fun ms hms => ?_⟩
    · rw [hlog]
      exact hgrow (h.order k)
    · rw [across_of_workers hw'] at hn
      rcases mem_add.1 hn with hn | hn
      · rw [hlog, along_snoc, ofKey_append]
        refine (h.order n.key).append (List.singleton_sublist.2 ?_)
        exact mem_ofKey.2 ⟨hnew hn, rfl⟩
      · rw [hlog]
        exact hgrow (h.next n (hrest n hn))
    · rcases mem_append.1 hms with hms | hms
      · exact h.batches ms hms
      · exact absurd (mem_singleton.1 hms).symm (hexec ms)
    · rw [hw'] at hms
      rcases mem_cons.1 hms with hms | hms
      · cases hact with
        | take _ htake =>
          cases hms
          obtain ⟨-, -, hlen, -⟩ := Core.popMany_spec hinv.ok htake
          rw [hlen]
          exact Nat.min_le_left _ _
        | _ => cases hms
      · refine h.sizes ms ?_
        rw [hw]
        exact Multiset.mem_cons_of_mem hms

theorem step (hinv : Inv ls s) (h : Log ls s) (hs : Step failure s l s') : Log (ls ++ [l]) s' := by
  cases hs with
  | submit key input => exact h.caller rfl rfl rfl rfl rfl (by simp)
  | drain => exact h.caller rfl rfl rfl rfl rfl (by simp)
  | worker _ hw hact => exact h.worker hinv hw rfl hact
  | submitTerminates key input => exact h.caller rfl rfl rfl rfl rfl (by simp)
  | workerTerminates => exact h.caller rfl rfl rfl rfl rfl (by simp)

end Log

/-- No buffer or copy of a worker fails to allocate, so that no input is completed unexecuted. -/
def Faultless (ls : List (Label Input Result)) : Prop := ∀ l ∈ ls, l.skipped = []

theorem settled_of_faultless (h : Faultless ls) : along Label.settled ls = along Label.executed ls := by
  refine List.flatMap_congr fun l hl => ?_
  rw [Label.settled, h l hl, append_nil]

theorem executed_le_settled :
    (along Label.executed ls : Multiset (Node Input)) ≤ along Label.settled ls := by
  refine coe_le.2 (List.Sublist.subperm ?_)
  induction ls with
  | nil => exact List.Sublist.refl _
  | cons l ls ih =>
    rw [along, along, List.flatMap_cons, List.flatMap_cons]
    exact (List.sublist_append_left _ _).append ih

theorem uncalled_le_held (w : Worker Input Result) :
    (w.uncalled : Multiset (Node Input)) ≤ w.held := by
  cases w with
  | called n rest failed => exact coe_le.2 (List.sublist_cons_self _ _).subperm
  | _ => exact le_rfl

theorem unexecuted_le_uncalled (w : Worker Input Result) :
    (w.unexecuted : Multiset (Node Input)) ≤ w.uncalled := by
  cases w with
  | taken ns => exact le_rfl
  | _ => exact Multiset.zero_le _

theorem across_mono {g : Worker Input Result → List (Node Input)}
    (h : ∀ w, (f w : Multiset (Node Input)) ≤ g w) : s.across f ≤ s.across g := by
  unfold State.across
  induction s.workers using Multiset.induction with
  | empty => exact le_rfl
  | cons w ws ih =>
    rw [cons_bind, cons_bind]
    exact add_le_add (h w) ih

theorem le_of_account {X Y a b : Multiset (Node Input)} (h : X + a = Y + b) (hab : a ≤ b) : Y ≤ X :=
  le_of_add_le_add_right ((add_le_add_right hab Y).trans h.ge)

/-- In every run no call ends in `std::terminate`.  Each accepted input is executed and completed at
most once, a completed one has been executed, and when nothing is pending, as when `Drain` has
returned, each has been completed, and executed unless a worker's own allocation failed.  The
workers have at most one input of a key, and execute those of a key in the order of submission. -/
theorem keyed_batches (failure : Result)
    (hrun : Run (Step failure) (State.initial : State Input Result o) ls s) :
    s.terminated = false ∧
    (along Label.accepted ls).Nodup ∧
    ((along Label.executed ls).Nodup ∧ along Label.executed ls ⊆ along Label.accepted ls) ∧
    ((along Label.called ls).Nodup ∧ along Label.called ls ⊆ along Label.accepted ls) ∧
    ((along Label.completed ls).Nodup ∧ along Label.completed ls ⊆ along Label.called ls) ∧
    (Faultless ls → along Label.called ls ⊆ along Label.executed ls) ∧
    (s.held.map Node.key).Nodup ∧
    (∀ k, (ofKey k (along Label.executed ls)).Sublist (ofKey k (along Label.accepted ls))) ∧
    (∀ ns, .execute ns ∈ ls → (ns.map Node.key).Nodup ∧ ns.length ≤ o.batch) ∧
    (s.core.accepted = (along Label.accepted ls).length ∧
      s.core.completed = (along Label.completed ls).length ∧
      s.core.pending = s.core.accepted - s.core.completed ∧ s.core.completed ≤ s.core.accepted ∧
      s.core.pending ≤ o.capacity) ∧
    (s.core.pending ≠ 0 → ∃ w ∈ s.workers, ∃ l c w', Act failure s.core w l c w') ∧
    (s.core.pending = 0 → (along Label.called ls).Perm (along Label.accepted ls) ∧
      (along Label.completed ls).Perm (along Label.accepted ls) ∧
      (Faultless ls → (along Label.executed ls).Perm (along Label.accepted ls))) ∧
    (s.Drained → s.core.pending = 0) := by
  obtain ⟨hinv, hlog⟩ : Inv ls s ∧ Log ls s :=
    hrun.history (I := fun ls s => Inv ls s ∧ Log ls s)
      (fun _ _ _ _ h hs => ⟨h.1.step hs, h.2.step h.1 hs⟩) ⟨.init, .init⟩
  have htaken : (along Label.taken ls : Multiset (Node Input)).Nodup :=
    Multiset.coe_nodup.2 hinv.nodup_taken
  have hcompleted : (along Label.completed ls : Multiset (Node Input)) ≤ along Label.taken ls := by
    rw [hinv.custody]
    exact Multiset.le_add_right _ _
  have hcalled : (along Label.called ls : Multiset (Node Input)) ≤ along Label.taken ls := by
    rw [hlog.called]
    exact Multiset.le_add_right _ _
  have hexecuted : (along Label.executed ls : Multiset (Node Input)) ≤ along Label.taken ls := by
    rw [hlog.executed]
    exact executed_le_settled.trans (Multiset.le_add_right _ _)
  have hcompleted_called : (along Label.completed ls : Multiset (Node Input)) ≤ along Label.called ls :=
    le_of_account (hlog.called.symm.trans hinv.custody) (across_mono uncalled_le_held)
  have hcalled_executed : Faultless ls →
      (along Label.called ls : Multiset (Node Input)) ≤ along Label.executed ls := fun hfaultless => by
    rw [← settled_of_faultless hfaultless]
    exact le_of_account (hlog.executed.symm.trans hlog.called) (across_mono unexecuted_le_uncalled)
  refine ⟨hinv.running, hinv.nodup_accepted, ⟨?_, ?_⟩, ⟨?_, ?_⟩, ⟨?_, ?_⟩, fun hfaultless => ?_,
    hinv.ok.active_nodup, fun k => ?_, hlog.batches,
    ⟨hinv.accepted, hinv.completed, ?_, ?_, hinv.capacity⟩, hinv.progress failure, fun hzero => ?_,
    fun hdrained => ?_⟩
  · exact Multiset.coe_nodup.1 (Multiset.nodup_of_le hexecuted htaken)
  · exact fun n hn => Multiset.mem_of_le (hexecuted.trans hinv.taken_le) hn
  · exact Multiset.coe_nodup.1 (Multiset.nodup_of_le hcalled htaken)
  · exact fun n hn => Multiset.mem_of_le (hcalled.trans hinv.taken_le) hn
  · exact Multiset.coe_nodup.1 (Multiset.nodup_of_le hcompleted htaken)
  · exact fun n hn => Multiset.mem_of_le hcompleted_called hn
  · exact fun n hn => Multiset.mem_of_le (hcalled_executed hfaultless) hn
  · rw [hinv.lanes k]
    exact (hlog.order k).trans (List.sublist_append_left _ _)
  · have := hinv.pending
    omega
  · have := hinv.pending
    omega
  · -- all that was accepted is completed, and lies below what was called back and executed
    have hcard : (along Label.accepted ls : Multiset (Node Input)).card ≤
        (along Label.completed ls : Multiset (Node Input)).card := by
      have hpending := hinv.pending
      rw [Multiset.coe_card, Multiset.coe_card, ← hinv.accepted, ← hinv.completed]
      omega
    have hall := Multiset.eq_of_le_of_card_le (hcompleted.trans hinv.taken_le) hcard
    have hall' := le_antisymm (hcalled.trans hinv.taken_le) (hall.ge.trans hcompleted_called)
    refine ⟨Multiset.coe_eq_coe.1 hall', Multiset.coe_eq_coe.1 hall, fun hfaultless => ?_⟩
    exact Multiset.coe_eq_coe.1 (le_antisymm (hexecuted.trans hinv.taken_le)
      (hall'.ge.trans (hcalled_executed hfaultless)))
  · have hpos : 0 < s.workers.card := by
      rw [hinv.card]
      exact o.shards_bounds.1
    obtain ⟨w, hw⟩ := Multiset.card_pos_iff_exists_mem.1 hpos
    obtain rfl := hdrained.2 w hw
    exact (hinv.exited hw).2

def Options.single : Options := ⟨1, 1, 1, by decide, by decide, by decide⟩

/-- One input goes through a queue that is then drained. -/
theorem keyed_batches_single :
    ∃ ls, ∃ s : State ℕ ℕ .single, Run (Step 0) .initial ls s ∧ s.Drained ∧ Faultless ls ∧
      along Label.accepted ls = [⟨0, 5, 7⟩] ∧
      (along Label.executed ls).Perm (along Label.accepted ls) := by
  have hrun : ∃ s : State ℕ ℕ .single, Run (Step 0) .initial
      [.submit ⟨0, 5, 7⟩ .accepted, .drain, .start false, .take [⟨0, 5, 7⟩], .execute [⟨0, 5, 7⟩],
        .returned (some [8]), .call ⟨0, 5, 7⟩ 8, .complete ⟨0, 5, 7⟩, .exit] s ∧
      s.core.stopping = true ∧ s.workers = {.exited} := by
    refine ⟨_, .cons (.submit 5 7 rfl rfl) <| .cons (.drain rfl) <|
      .cons (.worker rfl rfl (.start false)) <| .cons (.worker rfl rfl (.take (by decide) rfl)) <|
      .cons (.worker rfl rfl .execute) <| .cons (.worker rfl rfl (.returned (some [8]))) <|
      .cons (.worker rfl rfl .call) <| .cons (.worker rfl rfl (.complete rfl)) <|
      .single (.worker rfl rfl (.exit ⟨rfl, rfl, rfl⟩)), rfl, rfl⟩
  obtain ⟨s, hrun, hstop, hworkers⟩ := hrun
  have hdrained : s.Drained := ⟨hstop, by simp [hworkers]⟩
  have hfaultless : Faultless [Label.submit ⟨0, 5, 7⟩ .accepted, .drain, .start false,
      .take [⟨0, 5, 7⟩], .execute [⟨0, 5, 7⟩], .returned (some [8]), .call (⟨0, 5, 7⟩ : Node ℕ) 8,
      .complete ⟨0, 5, 7⟩, .exit] := by
    simp [Faultless, Label.skipped]
  obtain ⟨-, -, -, -, -, -, -, -, -, -, -, hzero, hpending⟩ := keyed_batches 0 hrun
  exact ⟨_, s, hrun, hdrained, hfaultless, rfl, (hzero (hpending hdrained)).2.2 hfaultless⟩

end TinyImx.Runtime.KeyedBatch
