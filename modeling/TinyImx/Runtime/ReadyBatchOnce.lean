import Mathlib
import TinyImx.Runtime.ReadyBatch

/-!
# Each input once, and in order

What a shard was given is, in this order, what its worker has settled, what it is executing, and its
queue; what is settled is what was completed and what is still to be completed.  These are equations
between lists, which every step of the worker keeps; order and uniqueness are read off them.
-/

namespace TinyImx.Runtime.ReadyBatch

open Finset
open List (append_assoc append_nil flatMap_cons length_append map_flatMap mem_append mem_flatMap
  mem_map)
open Function (comp_def update_of_ne update_self)

variable {Input Result : Type} {o : Options} {failure : Result} {s s' : State Input Result}
  {l : Label Input Result} {ls : List (Label Input Result)} {i j : ℕ} {n : Node Input}
  {sh sh' : Shard Input Result} {e : Event Input Result} {es : List (Event Input Result)}
  {given : List (Node Input)}

theorem map_fst_settle (failure : Result) (nodes : List (Node Input)) (results : Option (List Result)) :
    (settle failure nodes results).map Prod.fst = nodes := by
  unfold settle
  split
  · split
    · next hlen => exact List.map_fst_zip hlen.ge
    · simp [comp_def]
  · simp [comp_def]

theorem length_settle (failure : Result) (nodes : List (Node Input)) (results : Option (List Result)) :
    (settle failure nodes results).length = nodes.length := by
  rw [← List.length_map Prod.fst, map_fst_settle]

/-! ## One shard -/

namespace Worker

def unsettled : Worker Input Result → List (Node Input)
  | taken nodes | executing nodes => nodes
  | _ => []

def underway : Worker Input Result → List (Node Input)
  | executing nodes => nodes
  | _ => []

def rest : Worker Input Result → List (Node Input × Result)
  | running rest _ | called rest _ | counted rest _ => rest
  | _ => []

end Worker

structure Lane (failure : Result) (given : List (Node Input)) (es : List (Event Input Result))
    (sh : Shard Input Result) : Prop where
  given_eq : given =
    (es.flatMap (Event.settled failure)).map Prod.fst ++ (sh.worker.unsettled ++ sh.queue)
  begun_eq : es.flatMap Event.begun =
    (es.flatMap (Event.settled failure)).map Prod.fst ++ sh.worker.underway
  settled_eq : es.flatMap (Event.settled failure) = es.flatMap Event.completed ++ sh.worker.rest

namespace Lane

theorem init : Lane failure [] [] (⟨[], false, .starting⟩ : Shard Input Result) :=
  ⟨rfl, rfl, rfl⟩

theorem push (h : Lane failure given es sh) (n : Node Input) :
    Lane failure (given ++ [n]) es (sh.push n) where
  given_eq := by simp [Shard.push, h.given_eq]
  begun_eq := h.begun_eq
  settled_eq := h.settled_eq

theorem act (h : Lane failure given es sh) (hact : Act o failure sh e sh') :
    Lane failure given (es ++ [e]) sh' := by
  have hgiven := h.given_eq
  have hbegun := h.begun_eq
  have hsettled := h.settled_eq
  cases hact with
  | take =>
    refine ⟨?_, ?_, ?_⟩
    · simpa [Event.settled, Worker.unsettled] using hgiven
    · simpa [Event.begun, Event.settled, Worker.underway] using hbegun
    · simpa [Event.settled, Event.completed, Worker.rest] using hsettled
  | skip | returned =>
    refine ⟨?_, ?_, ?_⟩
    · simpa [Event.settled, Worker.unsettled, map_fst_settle] using hgiven
    · simpa [Event.begun, Event.settled, Worker.underway, map_fst_settle] using hbegun
    · simpa [Event.settled, Event.completed, Worker.rest] using hsettled
  | _ =>
    refine ⟨?_, ?_, ?_⟩
    · simpa [Event.settled, Worker.unsettled] using hgiven
    · simpa [Event.begun, Event.settled, Worker.underway] using hbegun
    · simpa [Event.settled, Event.completed, Worker.rest] using hsettled

theorem completed_le (h : Lane failure given es sh) :
    ((es.flatMap Event.completed).map Prod.fst) <+: given := by
  rw [h.given_eq, h.settled_eq, List.map_append, append_assoc]
  exact List.prefix_append _ _

theorem settled_le (h : Lane failure given es sh) :
    ((es.flatMap (Event.settled failure)).map Prod.fst) <+: given := by
  rw [h.given_eq]
  exact List.prefix_append _ _

theorem executed_sublist_begun (es : List (Event Input Result)) :
    (es.flatMap Event.executed).Sublist (es.flatMap Event.begun) := by
  induction es with
  | nil => exact List.Sublist.refl _
  | cons e es ih =>
    rw [flatMap_cons, flatMap_cons]
    refine List.Sublist.append ?_ ih
    cases e with
    | execute nodes => exact List.Sublist.refl _
    | _ => exact List.nil_sublist _

theorem executed_sublist (h : Lane failure given es sh) : (es.flatMap Event.executed).Sublist given := by
  refine (executed_sublist_begun es).trans ?_
  rw [h.begun_eq, h.given_eq]
  refine (List.Sublist.refl _).append (List.Sublist.trans ?_ (List.sublist_append_left _ _))
  cases sh.worker with
  | executing nodes => exact List.Sublist.refl _
  | _ => exact List.nil_sublist _

end Lane

/-! ## All shards -/

def Label.eventsOf (i : ℕ) : Label Input Result → List (Event Input Result)
  | worker j e => if j = i then [e] else []
  | _ => []

theorem accepted_worker (i : ℕ) (e : Event Input Result) :
    (Label.worker i e : Label Input Result).accepted = [] :=
  rfl

theorem accepted_submit (n : Node Input) :
    (Label.submit n .accepted : Label Input Result).accepted = [n] :=
  rfl

theorem eventsOf_submit (i : ℕ) (n : Node Input) (a : Admission) :
    (Label.submit n a : Label Input Result).eventsOf i = [] :=
  rfl

theorem eventsOf_worker (i j : ℕ) (e : Event Input Result) :
    (Label.worker j e : Label Input Result).eventsOf i = if j = i then [e] else [] :=
  rfl

def ofShard (o : Options) (i : ℕ) (nodes : List (Node Input)) : List (Node Input) :=
  nodes.filter fun n => o.shardOf n = i

theorem along_snoc {β : Type} (f : Label Input Result → List β) (ls : List (Label Input Result))
    (l : Label Input Result) : along f (ls ++ [l]) = along f ls ++ f l := by
  simp [along]

theorem ofShard_append (i : ℕ) (xs ys : List (Node Input)) :
    ofShard o i (xs ++ ys) = ofShard o i xs ++ ofShard o i ys :=
  List.filter_append xs ys

@[simp] theorem setShard_shards (s : State Input Result) (i : ℕ) (sh : Shard Input Result) :
    (s.setShard i sh).shards = Function.update s.shards i sh :=
  rfl

def Lanes (o : Options) (failure : Result) (ls : List (Label Input Result)) (s : State Input Result) :
    Prop :=
  ∀ i, Lane failure (ofShard o i (along Label.accepted ls)) (along (Label.eventsOf i) ls) (s.shards i)

namespace Lanes

theorem init : Lanes o failure [] (State.initial : State Input Result) := fun _ => Lane.init

theorem still (h : Lanes o failure ls s) (haccepted : l.accepted = [])
    (hevents : ∀ i, l.eventsOf i = [])
    (hqueue : ∀ i, (s'.shards i).queue = (s.shards i).queue)
    (hworker : ∀ i, (s'.shards i).worker = (s.shards i).worker) : Lanes o failure (ls ++ [l]) s' := by
  intro i
  obtain ⟨hgiven, hbegun, hsettled⟩ := h i
  rw [along_snoc, along_snoc, haccepted, hevents i, append_nil, append_nil]
  refine ⟨?_, ?_, ?_⟩
  · rw [hworker, hqueue]
    exact hgiven
  · rw [hworker]
    exact hbegun
  · rw [hworker]
    exact hsettled

theorem step (h : Lanes o failure ls s) (hstep : Step o failure s l s') :
    Lanes o failure (ls ++ [l]) s' := by
  cases hstep with
  | @push node hadmitter =>
    intro i
    rw [along_snoc, along_snoc, ofShard_append, accepted_submit, eventsOf_submit, append_nil,
      setShard_shards]
    by_cases hi : i = o.shardOf node
    · subst hi
      rw [update_self]
      simpa [ofShard] using (h (o.shardOf node)).push node
    · rw [update_of_ne hi]
      simpa [ofShard, Ne.symm hi] using h i
  | @stop i hadmitter hi =>
    refine h.still rfl (fun _ => rfl) (fun j => ?_) fun j => ?_
    all_goals
      rw [setShard_shards]
      by_cases hj : j = i
      · simp_all
      · rw [update_of_ne hj]
  | @worker i event sh hi hlock hact =>
    intro j
    rw [along_snoc, along_snoc, accepted_worker, append_nil, setShard_shards]
    by_cases hj : j = i
    · subst hj
      rw [update_self, eventsOf_worker, if_pos rfl]
      exact (h j).act hact
    · rw [update_of_ne hj, eventsOf_worker, if_neg (Ne.symm hj), append_nil]
      exact h j
  | _ => exact h.still rfl (fun _ => rfl) (fun _ => rfl) fun _ => rfl

end Lanes

/-! ## The locks and the end -/

def Admitter.submits : Admitter Input → Prop
  | .checked _ | .pushed _ | .reserved _ => True
  | _ => False

/-- While anything is accepted no shard is stopping; once `Drain` has unlocked every shard is; and a
worker that has exited leaves nothing behind. -/
structure Flags (o : Options) (s : State Input Result) : Prop where
  submits : s.admitter.submits → s.accepting = true
  accepting : s.accepting = true → ∀ i, (s.shards i).stopping = false
  draining : ∀ k, s.admitter = .draining k →
    s.accepting = false ∧ k ≤ o.shards ∧ ∀ i < k, (s.shards i).stopping = true
  drained : s.accepting = false → s.admitter = .idle → ∀ i < o.shards, (s.shards i).stopping = true
  exited : ∀ i, (s.shards i).worker = .exited →
    (s.shards i).queue = [] ∧ (s.shards i).stopping = true

namespace Flags

theorem init : Flags o (State.initial : State Input Result) where
  submits := fun _ => rfl
  accepting := fun _ _ => rfl
  draining := by simp [State.initial]
  drained := by simp [State.initial]
  exited := by simp [State.initial]

theorem act_exited (hact : Act o failure sh e sh') (h : sh'.worker = .exited) :
    sh'.queue = [] ∧ sh'.stopping = true := by
  cases hact with
  | exit => exact ⟨rfl, rfl⟩
  | _ => cases h

theorem act_stopping (hact : Act o failure sh e sh') : sh'.stopping = sh.stopping := by
  cases hact <;> rfl

theorem caller (h : Flags o s) (hshards : s'.shards = s.shards)
    (haccepting : s'.accepting = s.accepting) (hsubmits : s'.admitter.submits → s.accepting = true)
    (hidle : s'.admitter = .idle → s.admitter = .idle ∨ s.accepting = true)
    (hdraining : ∀ k, s'.admitter ≠ .draining k) : Flags o s' where
  submits := fun hs => haccepting.trans (hsubmits hs)
  accepting := by
    rw [haccepting, hshards]
    exact h.accepting
  draining := fun k hk => absurd hk (hdraining k)
  drained := fun hfalse hadmitter => by
    rw [hshards]
    rw [haccepting] at hfalse
    rcases hidle hadmitter with hadmitter | htrue
    · exact h.drained hfalse hadmitter
    · rw [hfalse] at htrue
      cases htrue
  exited := by
    rw [hshards]
    exact h.exited

theorem step (h : Flags o s) (hstep : Step o failure s l s') : Flags o s' := by
  cases hstep with
  | stopped key input hidle =>
    exact h.caller rfl rfl (by simp [hidle, Admitter.submits]) (fun h => .inl h) (by simp [hidle])
  | overloaded key input hidle =>
    exact h.caller rfl rfl (by simp [hidle, Admitter.submits]) (fun h => .inl h) (by simp [hidle])
  | check key input hidle haccepting =>
    exact h.caller rfl rfl (fun _ => haccepting) (by simp) (by simp)
  | pushFails hadmitter =>
    have haccepting := h.submits (by simp [hadmitter, Admitter.submits])
    exact h.caller rfl rfl (by simp [Admitter.submits]) (fun _ => .inr haccepting) (by simp)
  | @push node hadmitter =>
    have haccepting := h.submits (by simp [hadmitter, Admitter.submits])
    have hstopping := h.accepting haccepting
    refine ⟨fun _ => haccepting, fun _ i => ?_, by simp [State.setShard], by simp [State.setShard],
      fun i hexited => ?_⟩
    · rw [setShard_shards]
      by_cases hi : i = o.shardOf node
      · subst hi
        rw [update_self]
        exact hstopping _
      · simp_all
    · -- no worker has exited while inputs are accepted
      have hworker : (s.shards i).worker = .exited := by
        rw [setShard_shards] at hexited
        by_cases hi : i = o.shardOf node
        · subst hi
          rwa [update_self] at hexited
        · rwa [update_of_ne hi] at hexited
      have hstop := (h.exited i hworker).2
      simp_all
  | reserve hadmitter =>
    have haccepting := h.submits (by simp [hadmitter, Admitter.submits])
    exact h.caller rfl rfl (fun _ => haccepting) (by simp) (by simp)
  | accept hadmitter =>
    have haccepting := h.submits (by simp [hadmitter, Admitter.submits])
    exact h.caller rfl rfl (by simp [Admitter.submits]) (fun _ => .inr haccepting) (by simp)
  | drain hidle haccepting =>
    refine ⟨by simp [Admitter.submits], by simp, fun k hk => ?_, by simp, h.exited⟩
    cases hk
    exact ⟨rfl, Nat.zero_le _, fun i hi => absurd hi (Nat.not_lt_zero i)⟩
  | @stop i hadmitter hi =>
    obtain ⟨haccepting, hle, hstopped⟩ := h.draining i hadmitter
    refine ⟨by simp [State.setShard, Admitter.submits], ?_, fun k hk => ?_, by simp [State.setShard],
      fun j hexited => ?_⟩
    · intro htrue
      rw [show s.accepting = true from htrue] at haccepting
      cases haccepting
    · cases hk
      refine ⟨haccepting, hi, fun j hj => ?_⟩
      rw [setShard_shards]
      grind
    · rw [setShard_shards] at hexited ⊢
      by_cases hji : j = i
      · subst hji
        rw [update_self] at hexited ⊢
        exact ⟨(h.exited j hexited).1, rfl⟩
      · rw [update_of_ne hji] at hexited ⊢
        exact h.exited j hexited
  | unlock hadmitter =>
    obtain ⟨haccepting, -, hstopped⟩ := h.draining _ hadmitter
    exact ⟨by simp [Admitter.submits], h.accepting, by simp, fun _ _ => hstopped, h.exited⟩
  | @worker i event sh hi hlock hact =>
    have hstopping : ∀ j, (Function.update s.shards i sh j).stopping = (s.shards j).stopping := by
      intro j
      by_cases hj : j = i
      · subst hj
        rw [update_self]
        exact act_stopping hact
      · rw [update_of_ne hj]
    refine ⟨h.submits, ?_, ?_, ?_, fun j hexited => ?_⟩
    · simpa [State.setShard, hstopping] using h.accepting
    · simpa [State.setShard, hstopping] using h.draining
    · simpa [State.setShard, hstopping] using h.drained
    · rw [setShard_shards] at hexited ⊢
      by_cases hj : j = i
      · subst hj
        rw [update_self] at hexited ⊢
        exact act_exited hact hexited
      · rw [update_of_ne hj] at hexited ⊢
        exact h.exited j hexited

end Flags

/-! ## Calls of `Submit` -/

def State.undecided (s : State Input Result) : ℕ :=
  match s.admitter with
  | .checked n => n.id
  | _ => s.calls

structure Ids (ls : List (Label Input Result)) (s : State Input Result) : Prop where
  fresh : ∀ n ∈ along Label.accepted ls ++ along Label.rejected ls, n.id < s.undecided
  undecided_le : s.undecided ≤ s.calls
  checked : ∀ n, s.admitter = .checked n → n.id < s.calls
  nodup : (along Label.accepted ls).Nodup
  disjoint : ∀ n ∈ along Label.rejected ls, n ∉ along Label.accepted ls

namespace Ids

theorem init : Ids [] (State.initial : State Input Result) where
  fresh := by simp [along]
  undecided_le := Nat.le_refl _
  checked := by simp [State.initial]
  nodup := List.nodup_nil
  disjoint := by simp [along]

theorem still (h : Ids ls s) (haccepted : l.accepted = []) (hrejected : l.rejected = [])
    (hle : s.undecided ≤ s'.undecided) (hcalls : s'.undecided ≤ s'.calls)
    (hchecked : ∀ n, s'.admitter = .checked n → n.id < s'.calls) : Ids (ls ++ [l]) s' where
  fresh := fun n hn => by
    rw [along_snoc, along_snoc, haccepted, hrejected, append_nil, append_nil] at hn
    exact (h.fresh n hn).trans_le hle
  undecided_le := hcalls
  checked := hchecked
  nodup := by
    rw [along_snoc, haccepted, append_nil]
    exact h.nodup
  disjoint := by
    rw [along_snoc, along_snoc, haccepted, hrejected, append_nil, append_nil]
    exact h.disjoint

theorem reject (h : Ids ls s) (hidle : s.admitter = .idle) (hn : n.id = s.calls)
    (haccepted : l.accepted = []) (hrejected : l.rejected = [n]) (hadmitter : s'.admitter = .idle)
    (hcalls : s'.calls = s.calls + 1) : Ids (ls ++ [l]) s' := by
  have hundecided : s.undecided = s.calls := by rw [State.undecided, hidle]
  have hundecided' : s'.undecided = s.calls + 1 := by rw [State.undecided, hadmitter, hcalls]
  refine ⟨fun m hm => ?_, by rw [hundecided', hcalls], by simp [hadmitter], ?_, fun m hm => ?_⟩
  · rw [along_snoc, along_snoc, haccepted, hrejected, append_nil, ← append_assoc] at hm
    rw [hundecided']
    rcases mem_append.1 hm with hm | hm
    · have := h.fresh m hm
      omega
    · simp_all
  · rw [along_snoc, haccepted, append_nil]
    exact h.nodup
  · rw [along_snoc, hrejected] at hm
    rw [along_snoc, haccepted, append_nil]
    rcases mem_append.1 hm with hm | hm
    · exact h.disjoint m hm
    · intro hmem
      have hlt := h.fresh m (List.mem_append_left _ hmem)
      simp_all

theorem accept (h : Ids ls s) (hadmitter : s.admitter = .checked n)
    (hadmitter' : s'.admitter = .pushed n) (hcalls : s'.calls = s.calls) :
    Ids (ls ++ [.submit n .accepted]) s' := by
  have hundecided : s.undecided = n.id := by rw [State.undecided, hadmitter]
  have hundecided' : s'.undecided = s.calls := by rw [State.undecided, hadmitter', hcalls]
  have hlt := h.checked n hadmitter
  have hnew : ∀ m ∈ along Label.accepted ls ++ along Label.rejected ls, m ≠ n := by
    rintro m hm rfl
    have := h.fresh m hm
    omega
  refine ⟨fun m hm => ?_, by rw [hundecided', hcalls], by simp [hadmitter'], ?_, fun m hm => ?_⟩
  · rw [along_snoc, along_snoc, accepted_submit, show (Label.submit n .accepted :
      Label Input Result).rejected = [] from rfl, append_nil] at hm
    rw [hundecided']
    simp only [append_assoc, mem_append, List.mem_singleton] at hm
    rcases hm with hm | rfl | hm
    · have := h.fresh m (List.mem_append_left _ hm)
      omega
    · exact hlt
    · have := h.fresh m (List.mem_append_right _ hm)
      omega
  · rw [along_snoc, accepted_submit]
    refine List.nodup_append.2 ⟨h.nodup, List.nodup_singleton n, fun m hm m' hm' => ?_⟩
    simp_all
  · rw [along_snoc, show (Label.submit n .accepted : Label Input Result).rejected = [] from rfl,
      append_nil] at hm
    rw [along_snoc, accepted_submit, mem_append, not_or, List.mem_singleton]
    exact ⟨h.disjoint m hm, hnew m (List.mem_append_right _ hm)⟩

theorem step (h : Ids ls s) (hstep : Step o failure s l s') : Ids (ls ++ [l]) s' := by
  cases hstep with
  | stopped key input hidle => exact h.reject hidle rfl rfl rfl hidle rfl
  | overloaded key input hidle => exact h.reject hidle rfl rfl rfl hidle rfl
  | check key input hidle =>
    refine h.still rfl rfl ?_ (Nat.le_succ _) fun n hn => ?_
    · rw [State.undecided, hidle]
      exact Nat.le_refl _
    · cases hn
      exact Nat.lt_succ_self _
  | pushFails hadmitter => exact h.still rfl rfl h.undecided_le (Nat.le_refl _) (by simp)
  | push hadmitter => exact h.accept hadmitter rfl rfl
  | reserve hadmitter => exact h.still rfl rfl h.undecided_le (Nat.le_refl _) (by simp)
  | accept hadmitter => exact h.still rfl rfl h.undecided_le (Nat.le_refl _) (by simp)
  | drain hidle => exact h.still rfl rfl h.undecided_le (Nat.le_refl _) (by simp)
  | stop hadmitter =>
    exact h.still rfl rfl h.undecided_le (Nat.le_refl _) (by simp [State.setShard])
  | unlock hadmitter => exact h.still rfl rfl h.undecided_le (Nat.le_refl _) (by simp)
  | worker => exact h.still rfl rfl (Nat.le_refl _) h.undecided_le h.checked

end Ids

/-! ## The counters -/

def Worker.uncounted : Worker Input Result → ℕ
  | taken nodes | executing nodes => nodes.length
  | running rest _ | counted rest _ => rest.length
  | called rest _ => rest.length + 1
  | _ => 0

def Worker.updating : Worker Input Result → ℕ
  | counted _ _ => 1
  | _ => 0

def Admitter.updating : Admitter Input → ℕ
  | .reserved _ => 1
  | _ => 0

/-- `Submit` has put an input in a queue that `pending` does not count. -/
def Admitter.unreserved : Admitter Input → ℕ
  | .pushed _ => 1
  | _ => 0

def Shard.uncounted (sh : Shard Input Result) : ℕ := sh.queue.length + sh.worker.uncounted

def Shard.unreleased (sh : Shard Input Result) : ℕ := sh.uncounted + sh.worker.updating

theorem uncounted_push (sh : Shard Input Result) (n : Node Input) :
    (sh.push n).uncounted = sh.uncounted + 1 := by
  simp only [Shard.push, Shard.uncounted, length_append, List.length_singleton]
  omega

theorem unreleased_push (sh : Shard Input Result) (n : Node Input) :
    (sh.push n).unreleased = sh.unreleased + 1 := by
  rw [Shard.unreleased, uncounted_push, Shard.unreleased]
  exact Nat.add_right_comm _ _ _

def State.total (o : Options) (s : State Input Result) (f : Shard Input Result → ℕ) : ℕ :=
  ∑ i ∈ range o.shards, f (s.shards i)

def State.updating (o : Options) (s : State Input Result) : ℕ :=
  s.admitter.updating + s.total o fun sh => sh.worker.updating

theorem total_unreleased (s : State Input Result) : s.total o Shard.unreleased =
    s.total o Shard.uncounted + s.total o fun sh => sh.worker.updating :=
  sum_add_distrib

theorem total_update {t : State Input Result} (hi : i < o.shards)
    (hshards : t.shards = Function.update s.shards i sh) (f : Shard Input Result → ℕ) :
    t.total o f + f (s.shards i) = s.total o f + f sh := by
  have hmem := mem_range.2 hi
  have hrest : ∑ j ∈ (range o.shards).erase i, f (t.shards j) =
      ∑ j ∈ (range o.shards).erase i, f (s.shards j) :=
    sum_congr rfl fun j hj => by rw [hshards, update_of_ne (ne_of_mem_erase hj)]
  have hs := add_sum_erase _ (fun j => f (s.shards j)) hmem
  have hs' := add_sum_erase _ (fun j => f (t.shards j)) hmem
  rw [hshards, update_self, ← hshards, hrest] at hs'
  unfold State.total
  omega

theorem le_total (hi : i < o.shards) (f : Shard Input Result → ℕ) : f (s.shards i) ≤ s.total o f :=
  single_le_sum (f := fun j => f (s.shards j)) (fun _ _ => Nat.zero_le _) (mem_range.2 hi)

theorem add_le_total (hi : i < o.shards) (hj : j < o.shards) (hij : i ≠ j)
    (f : Shard Input Result → ℕ) : f (s.shards i) + f (s.shards j) ≤ s.total o f := by
  rw [← sum_pair (f := fun j => f (s.shards j)) hij]
  refine sum_le_sum_of_subset fun k hk => ?_
  rcases mem_insert.1 hk with rfl | hk
  · exact mem_range.2 hi
  · simp_all

theorem shardOf_lt (n : Node Input) : o.shardOf n < o.shards :=
  Nat.mod_lt _ o.shards_bounds.1

def Event.counted : Event Input Result → ℕ
  | count => 1
  | _ => 0

def Event.released : Event Input Result → ℕ
  | release => 1
  | _ => 0

theorem counters_completed (c : Counters) (e : Event Input Result) :
    (e.counters c).completed = c.completed + e.counted := by
  cases e <;> simp [Event.counters, Event.counted]

theorem counters_accepted (c : Counters) (e : Event Input Result) :
    (e.counters c).accepted = c.accepted := by
  cases e <;> simp [Event.counters]

theorem counters_pending {c : Counters} (hpos : e.released ≤ c.pending) :
    (e.counters c).pending + e.released = c.pending := by
  cases e with
  | release =>
    simp only [Event.released] at hpos
    have hne : c.pending ≠ 0 := by omega
    simp only [Event.counters, Event.released, decrement, if_neg hne]
    omega
  | _ => rfl

theorem act_uncounted (hact : Act o failure sh e sh') : sh'.uncounted + e.counted = sh.uncounted := by
  cases hact with
  | take =>
    simp only [Shard.uncounted, Worker.uncounted, Event.counted, List.length_drop, List.length_take,
      List.length_nil]
    omega
  | skip | returned =>
    simp only [Shard.uncounted, Worker.uncounted, Event.counted, length_settle, Nat.add_zero]
  | takeFailed =>
    simp only [Shard.uncounted, Worker.uncounted, Event.counted, List.length_cons, List.length_nil]
  | _ => rfl

theorem act_updating (hact : Act o failure sh e sh') :
    sh'.worker.updating + e.released = sh.worker.updating + e.counted := by
  cases hact <;> rfl

theorem act_unreleased (hact : Act o failure sh e sh') :
    sh'.unreleased + e.released = sh.unreleased := by
  have huncounted := act_uncounted hact
  have hupdating := act_updating hact
  unfold Shard.unreleased
  omega

theorem act_released (hact : Act o failure sh e sh') :
    sh.queue.length + e.released ≤ sh.unreleased := by
  cases hact with
  | release =>
    simp only [Event.released, Shard.unreleased, Shard.uncounted, Worker.updating]
    omega
  | _ =>
    simp only [Event.released, Shard.unreleased, Shard.uncounted]
    omega

theorem act_queue (hact : Act o failure sh e sh') (hlocks : e.locks = false) :
    sh'.queue = sh.queue := by
  cases hact with
  | take | takeFailed | exit => cases hlocks
  | _ => rfl

structure Accounts (o : Options) (s : State Input Result) : Prop where
  pending : s.counters.pending + s.admitter.unreserved = s.total o Shard.unreleased
  accepted : s.counters.accepted + (s.admitter.unreserved + s.admitter.updating) =
    s.counters.completed + s.total o Shard.uncounted
  capacity : s.counters.pending ≤ o.capacity
  room : ∀ n, s.admitter = .checked n ∨ s.admitter = .pushed n → s.counters.pending < o.capacity
  pushed : ∀ n, s.admitter = .pushed n ∨ s.admitter = .reserved n →
    (s.shards (o.shardOf n)).queue ≠ []

namespace Accounts

theorem init : Accounts o (State.initial : State Input Result) where
  pending := by simp [State.initial, State.total, Admitter.unreserved, Shard.unreleased,
    Shard.uncounted, Worker.uncounted, Worker.updating]
  accepted := by simp [State.initial, State.total, Admitter.unreserved, Admitter.updating,
    Shard.uncounted, Worker.uncounted]
  capacity := Nat.zero_le _
  room := by simp [State.initial]
  pushed := by simp [State.initial]

theorem still (h : Accounts o s)
    (hshards : ∀ i, (s'.shards i).queue = (s.shards i).queue ∧
      (s'.shards i).worker = (s.shards i).worker)
    (hpending : s'.counters.pending + s'.admitter.unreserved =
      s.counters.pending + s.admitter.unreserved)
    (haccepted : s'.counters.accepted + (s'.admitter.unreserved + s'.admitter.updating) =
      s.counters.accepted + (s.admitter.unreserved + s.admitter.updating))
    (hcompleted : s'.counters.completed = s.counters.completed)
    (hcapacity : s'.counters.pending ≤ o.capacity)
    (hroom : ∀ n, s'.admitter = .checked n → s'.counters.pending < o.capacity)
    (hpushed : ∀ n, s'.admitter ≠ .pushed n)
    (hreserved : ∀ n, s'.admitter = .reserved n → s.admitter = .pushed n) : Accounts o s' := by
  have huncounted : ∀ i, (s'.shards i).uncounted = (s.shards i).uncounted := fun i => by
    rw [Shard.uncounted, (hshards i).1, (hshards i).2]
    rfl
  have hunreleased : ∀ i, (s'.shards i).unreleased = (s.shards i).unreleased := fun i => by
    rw [Shard.unreleased, huncounted, (hshards i).2]
    rfl
  have htotal : ∀ f : Shard Input Result → ℕ, (∀ i, f (s'.shards i) = f (s.shards i)) →
      s'.total o f = s.total o f := fun f hf => sum_congr rfl fun i _ => hf i
  refine ⟨?_, ?_, hcapacity, fun n hn => ?_, fun n hn => ?_⟩
  · rw [hpending, htotal _ hunreleased]
    exact h.pending
  · rw [haccepted, hcompleted, htotal _ huncounted]
    exact h.accepted
  · exact hroom n (hn.resolve_right (hpushed n))
  · rw [(hshards _).1]
    exact h.pushed n (.inl (hreserved n (hn.resolve_left (hpushed n))))

theorem released_le (h : Accounts o s) (hi : i < o.shards) (hact : Act o failure (s.shards i) e sh) :
    e.released ≤ s.counters.pending := by
  have hpending := h.pending
  have hreleased := act_released hact
  have hle := le_total (s := s) hi Shard.unreleased
  cases hadmitter : s.admitter with
  | pushed n =>
    simp only [hadmitter, Admitter.unreserved] at hpending
    have hqueue := List.length_pos_iff.2 (h.pushed n (.inl hadmitter))
    by_cases hn : i = o.shardOf n
    · -- the shard has the new input beside the one that its worker counts
      rw [← hn] at hqueue
      omega
    · have hother : (s.shards (o.shardOf n)).queue.length ≤ (s.shards (o.shardOf n)).unreleased := by
        simp only [Shard.unreleased, Shard.uncounted]
        omega
      have hadd := add_le_total (s := s) hi (shardOf_lt n) hn Shard.unreleased
      omega
  | _ =>
    simp only [hadmitter, Admitter.unreserved] at hpending
    omega

theorem step (h : Accounts o s) (hstep : Step o failure s l s') : Accounts o s' := by
  cases hstep with
  | stopped key input hidle =>
    exact h.still (fun _ => ⟨rfl, rfl⟩) rfl rfl rfl h.capacity (by simp [hidle])
      (by simp [hidle]) (by simp [hidle])
  | overloaded key input hidle =>
    exact h.still (fun _ => ⟨rfl, rfl⟩) rfl rfl rfl h.capacity (by simp [hidle])
      (by simp [hidle]) (by simp [hidle])
  | check key input hidle haccepting hlt =>
    exact h.still (fun _ => ⟨rfl, rfl⟩) (by simp [hidle, Admitter.unreserved])
      (by simp [hidle, Admitter.unreserved, Admitter.updating]) rfl h.capacity (fun _ _ => hlt)
      (by simp) (by simp)
  | pushFails hadmitter =>
    exact h.still (fun _ => ⟨rfl, rfl⟩) (by simp [hadmitter, Admitter.unreserved])
      (by simp [hadmitter, Admitter.unreserved, Admitter.updating]) rfl h.capacity (by simp)
      (by simp) (by simp)
  | @push node hadmitter =>
    have hlt := h.room node (.inl hadmitter)
    have hpending := h.pending
    have haccepted := h.accepted
    rw [hadmitter] at hpending haccepted
    have htotal := fun f : Shard Input Result → ℕ =>
      total_update (s := s) (t := { s with admitter := .pushed node }.setShard (o.shardOf node)
        ((s.shards (o.shardOf node)).push node)) (shardOf_lt node) rfl f
    have hunreleased := htotal Shard.unreleased
    have huncounted := htotal Shard.uncounted
    have hpush := uncounted_push (s.shards (o.shardOf node)) node
    have hpush' := unreleased_push (s.shards (o.shardOf node)) node
    refine ⟨?_, ?_, h.capacity, fun _ _ => hlt, fun n hn => ?_⟩
    · change s.counters.pending + 1 = _
      change s.counters.pending + 0 = _ at hpending
      omega
    · change s.counters.accepted + (1 + 0) = s.counters.completed + _
      change s.counters.accepted + (0 + 0) = _ at haccepted
      omega
    · rcases hn with hn | hn
      · cases hn
        rw [setShard_shards, update_self]
        simp [Shard.push]
      · cases hn
  | @reserve node hadmitter =>
    have hlt := h.room node (.inr hadmitter)
    exact h.still (fun _ => ⟨rfl, rfl⟩) (by simp [hadmitter, Admitter.unreserved])
      (by simp [hadmitter, Admitter.unreserved, Admitter.updating]) rfl hlt (by simp) (by simp)
      (by simp [hadmitter])
  | accept hadmitter =>
    exact h.still (fun _ => ⟨rfl, rfl⟩) (by simp [hadmitter, Admitter.unreserved])
      (by simp [hadmitter, Admitter.unreserved, Admitter.updating]) rfl h.capacity (by simp)
      (by simp) (by simp)
  | drain hidle =>
    exact h.still (fun _ => ⟨rfl, rfl⟩) (by simp [hidle, Admitter.unreserved])
      (by simp [hidle, Admitter.unreserved, Admitter.updating]) rfl h.capacity (by simp) (by simp)
      (by simp)
  | @stop i hadmitter hi =>
    refine h.still (fun j => ?_) (by simp [hadmitter, Admitter.unreserved, State.setShard])
      (by simp [hadmitter, Admitter.unreserved, Admitter.updating, State.setShard]) rfl h.capacity
      (by simp [State.setShard]) (by simp [State.setShard]) (by simp [State.setShard])
    rw [setShard_shards]
    grind
  | unlock hadmitter =>
    exact h.still (fun _ => ⟨rfl, rfl⟩) (by simp [hadmitter, Admitter.unreserved])
      (by simp [hadmitter, Admitter.unreserved, Admitter.updating]) rfl h.capacity (by simp)
      (by simp) (by simp)
  | @worker i event sh hi hlock hact =>
    have hcapacity := h.capacity
    have hpending := counters_pending (h.released_le hi hact)
    have hcompleted := counters_completed s.counters event
    have haccepted := counters_accepted s.counters event
    have htotal := fun f : Shard Input Result → ℕ =>
      total_update (s := s) (t := { s with counters := event.counters s.counters }.setShard i sh) hi
        rfl f
    have hunreleased := htotal Shard.unreleased
    have huncounted := htotal Shard.uncounted
    have hactUnreleased := act_unreleased hact
    have hactUncounted := act_uncounted hact
    have htotals := h.pending
    have haccounts := h.accepted
    refine ⟨?_, ?_, ?_, fun n hn => ?_, fun n hn => ?_⟩
    · change (event.counters s.counters).pending + s.admitter.unreserved = _
      omega
    · change (event.counters s.counters).accepted + _ = (event.counters s.counters).completed + _
      change _ + (s.admitter.unreserved + s.admitter.updating) = _
      omega
    · change (event.counters s.counters).pending ≤ o.capacity
      omega
    · have hroom := h.room n hn
      change (event.counters s.counters).pending < o.capacity
      omega
    · -- the lock keeps the worker from taking the new input
      have hqueue := h.pushed n hn
      rw [setShard_shards]
      by_cases hni : o.shardOf n = i
      · subst hni
        rw [update_self]
        have hfree : event.locks = false := by
          by_contra hlocks
          refine hlock (by simpa using hlocks) ?_
          unfold State.locked
          rcases hn with hn | hn <;> rw [show s.admitter = _ from hn]
        exact act_queue hact hfree ▸ hqueue
      · grind

end Accounts

/-! ## What a run did, key by key -/

theorem mem_eventsOf : e ∈ along (Label.eventsOf i) ls ↔ Label.worker i e ∈ ls := by
  rw [along, mem_flatMap]
  constructor
  · rintro ⟨l, hl, he⟩
    cases l with
    | worker j e' =>
      rw [eventsOf_worker] at he
      simp_all
    | _ => cases he
  · intro h
    exact ⟨_, h, by simp [eventsOf_worker]⟩

theorem mem_event {β : Type} {f : Event Input Result → List β} {b : β} :
    b ∈ along (Label.event f) ls ↔ ∃ i e, Label.worker i e ∈ ls ∧ b ∈ f e := by
  rw [along, mem_flatMap]
  constructor
  · rintro ⟨l, hl, hb⟩
    cases l with
    | worker i e => exact ⟨i, e, hl, hb⟩
    | _ => cases hb
  · rintro ⟨i, e, he, hb⟩
    exact ⟨_, he, hb⟩

theorem mem_ofShard {nodes : List (Node Input)} : n ∈ ofShard o i nodes ↔ n ∈ nodes ∧ o.shardOf n = i := by
  simp [ofShard]

theorem ofKey_append (k : ℕ) (xs ys : List (Node Input)) : ofKey k (xs ++ ys) = ofKey k xs ++ ofKey k ys :=
  List.filter_append xs ys

theorem ofKey_ofShard (k : ℕ) (nodes : List (Node Input)) :
    ofKey k (ofShard o (k % o.shards) nodes) = ofKey k nodes := by
  rw [ofKey, ofKey, ofShard, List.filter_filter]
  refine List.filter_congr fun n _ => ?_
  by_cases hk : n.key = k
  · simp [hk, Options.shardOf]
  · simp [hk]

theorem ofKey_along {f : Event Input Result → List (Node Input)}
    (hhome : ∀ j e, Label.worker j e ∈ ls → ∀ n ∈ f e, o.shardOf n = j) (k : ℕ) :
    ofKey k (along (Label.event f) ls) =
      ofKey k ((along (Label.eventsOf (k % o.shards)) ls).flatMap f) := by
  induction ls with
  | nil => rfl
  | cons l ls ih =>
    have hrest := ih fun j e he => hhome j e (List.mem_cons_of_mem _ he)
    simp only [along, flatMap_cons, List.flatMap_append, ofKey_append] at hrest ⊢
    rw [hrest]
    congr 1
    cases l with
    | worker j e =>
      rw [eventsOf_worker]
      split
      · rw [List.flatMap_singleton]
        rfl
      · next hj =>
        rw [List.flatMap_nil]
        refine List.filter_eq_nil_iff.2 fun n hn hkey => hj ?_
        rw [← hhome j e List.mem_cons_self n hn, Options.shardOf, of_decide_eq_true hkey]
    | _ => rfl

theorem nodup_of_ofKey {nodes : List (Node Input)} (h : ∀ k, (ofKey k nodes).Nodup) : nodes.Nodup := by
  rw [List.nodup_iff_sublist]
  intro n hn
  have hkey : ofKey n.key [n, n] = [n, n] := by simp [ofKey]
  refine List.nodup_iff_sublist.1 (h n.key) n ?_
  rw [← hkey]
  exact hn.filter _

/-- Each accepted input is executed and completed at most once, those of a key in the order of
submission; it is completed with its own result if and only if there is one for each input that it was
executed with; and a rejected input is neither executed nor completed. -/
structure Once (failure : Result) (ls : List (Label Input Result)) : Prop where
  distinct : (along Label.accepted ls).Nodup
  executed_once : (executed ls).Nodup ∧ executed ls ⊆ along Label.accepted ls
  completed_once : ((completed ls).map Prod.fst).Nodup ∧
    (completed ls).map Prod.fst ⊆ along Label.accepted ls
  executed_order : ∀ k, (ofKey k (executed ls)).Sublist (ofKey k (along Label.accepted ls))
  completed_order : ∀ k, ofKey k ((completed ls).map Prod.fst) <+: ofKey k (along Label.accepted ls)
  result : ∀ n r, (n, r) ∈ completed ls →
    Answered ls n r ∨ (r = failure ∧ ∀ r', ¬ Answered ls n r')
  rejected : ∀ n ∈ along Label.rejected ls, n ∉ executed ls ∧ n ∉ (completed ls).map Prod.fst

namespace Lanes

variable (h : Lanes o failure ls s)

include h

theorem home_executed {e : Event Input Result} (he : .worker i e ∈ ls) (hn : n ∈ e.executed) :
    n ∈ along Label.accepted ls ∧ o.shardOf n = i :=
  mem_ofShard.1 ((h i).executed_sublist.subset (mem_flatMap.2 ⟨e, mem_eventsOf.2 he, hn⟩))

theorem home_settled {e : Event Input Result} {r : Result} (he : .worker i e ∈ ls)
    (hn : (n, r) ∈ e.settled failure) : n ∈ along Label.accepted ls ∧ o.shardOf n = i :=
  mem_ofShard.1 ((h i).settled_le.subset
    (mem_map.2 ⟨(n, r), mem_flatMap.2 ⟨e, mem_eventsOf.2 he, hn⟩, rfl⟩))

theorem settled_unique (hnodup : (along Label.accepted ls).Nodup) {e e' : Event Input Result}
    {r r' : Result} (he : .worker i e ∈ ls) (hn : (n, r) ∈ e.settled failure)
    (he' : .worker j e' ∈ ls) (hn' : (n, r') ∈ e'.settled failure) : r = r' := by
  obtain ⟨-, rfl⟩ := h.home_settled he hn
  obtain ⟨-, rfl⟩ := h.home_settled he' hn'
  have hsettled := (h (o.shardOf n)).settled_le.sublist.nodup (hnodup.filter _)
  have hr := mem_flatMap.2 ⟨e, mem_eventsOf.2 he, hn⟩
  have hr' := mem_flatMap.2 ⟨e', mem_eventsOf.2 he', hn'⟩
  exact congrArg Prod.snd (List.inj_on_of_nodup_map hsettled hr hr' rfl)

theorem settled_of_completed {r : Result} (hn : (n, r) ∈ completed ls) :
    ∃ i e, .worker i e ∈ ls ∧ (n, r) ∈ e.settled failure := by
  obtain ⟨i, e, he, hn⟩ := mem_event.1 hn
  have hmem : (n, r) ∈ (along (Label.eventsOf i) ls).flatMap Event.completed :=
    mem_flatMap.2 ⟨e, mem_eventsOf.2 he, hn⟩
  have hsettled := List.mem_append_left (s.shards i).worker.rest hmem
  rw [← (h i).settled_eq] at hsettled
  obtain ⟨e', he', hn'⟩ := mem_flatMap.1 hsettled
  exact ⟨i, e', mem_eventsOf.1 he', hn'⟩

end Lanes

theorem completed_map_fst (ls : List (Label Input Result)) : (completed ls).map Prod.fst =
    along (Label.event fun e => e.completed.map Prod.fst) ls := by
  rw [completed, along, along, map_flatMap]
  refine List.flatMap_congr fun l _ => ?_
  cases l <;> rfl

theorem settled_cases {r : Result} (he : .worker i e ∈ ls) (hn : (n, r) ∈ e.settled failure) :
    Answered ls n r ∨ r = failure := by
  have hfailure : ∀ nodes : List (Node Input), (n, r) ∈ nodes.map (fun node => (node, failure)) →
      r = failure := by
    grind
  cases e with
  | returned nodes results =>
    cases results with
    | none => exact .inr (hfailure nodes hn)
    | some results =>
      rw [Event.settled, settle] at hn
      split at hn
      · next hlen => exact .inl ⟨i, nodes, results, he, hlen, hn⟩
      · exact .inr (hfailure nodes hn)
  | skip nodes => exact .inr (hfailure nodes hn)
  | takeFailed node => exact .inr (congrArg Prod.snd (List.mem_singleton.1 hn))
  | _ => cases hn

theorem once (h : Lanes o failure ls s) (hids : Ids ls s) : Once failure ls := by
  have hexecuted : ∀ j e, Label.worker j e ∈ ls → ∀ n ∈ e.executed, o.shardOf n = j :=
    fun j e he n hn => (h.home_executed he hn).2
  have hcompleted : ∀ j e, Label.worker j e ∈ ls → ∀ n ∈ e.completed.map Prod.fst,
      n ∈ along Label.accepted ls ∧ o.shardOf n = j := by
    intro j e he n hn
    refine mem_ofShard.1 ((h j).completed_le.subset ?_)
    rw [map_flatMap]
    exact mem_flatMap.2 ⟨e, mem_eventsOf.2 he, hn⟩
  have hexecutedOrder : ∀ k, (ofKey k (executed ls)).Sublist (ofKey k (along Label.accepted ls)) := by
    intro k
    rw [executed, ofKey_along hexecuted, ← ofKey_ofShard (o := o) k (along Label.accepted ls)]
    exact (h (k % o.shards)).executed_sublist.filter _
  have hcompletedOrder : ∀ k,
      ofKey k ((completed ls).map Prod.fst) <+: ofKey k (along Label.accepted ls) := by
    intro k
    rw [completed_map_fst, ofKey_along (o := o) fun j e he n hn => (hcompleted j e he n hn).2,
      ← ofKey_ofShard (o := o) k (along Label.accepted ls), ← map_flatMap]
    exact (h (k % o.shards)).completed_le.filter _
  have hexecutedSubset : executed ls ⊆ along Label.accepted ls := by
    intro n hn
    obtain ⟨i, e, he, hn⟩ := mem_event.1 hn
    exact (h.home_executed he hn).1
  have hcompletedSubset : (completed ls).map Prod.fst ⊆ along Label.accepted ls := by
    intro n hn
    rw [completed_map_fst] at hn
    obtain ⟨i, e, he, hn⟩ := mem_event.1 hn
    exact (hcompleted i e he n hn).1
  have hnodup : ∀ k, (ofKey k (along Label.accepted ls)).Nodup := fun k => hids.nodup.filter _
  refine ⟨hids.nodup, ⟨nodup_of_ofKey fun k => (hexecutedOrder k).nodup (hnodup k), hexecutedSubset⟩,
    ⟨nodup_of_ofKey fun k => (hcompletedOrder k).sublist.nodup (hnodup k), hcompletedSubset⟩,
    hexecutedOrder, hcompletedOrder, fun n r hn => ?_, fun n hn => ?_⟩
  · obtain ⟨i, e, he, hsettled⟩ := h.settled_of_completed hn
    by_cases hanswered : ∃ r', Answered ls n r'
    · obtain ⟨r', j, nodes, results, he', hlen, hzip⟩ := hanswered
      have hsettled' : (n, r') ∈ (Event.returned nodes (some results)).settled failure := by
        rw [Event.settled, settle, if_pos hlen]
        exact hzip
      rw [h.settled_unique hids.nodup he hsettled he' hsettled']
      exact .inl ⟨j, nodes, results, he', hlen, hzip⟩
    · exact .inr ⟨(settled_cases he hsettled).resolve_left fun ha => hanswered ⟨r, ha⟩,
        fun r' ha => hanswered ⟨r', ha⟩⟩
  · exact ⟨fun hmem => hids.disjoint n hn (hexecutedSubset hmem),
      fun hmem => hids.disjoint n hn (hcompletedSubset hmem)⟩

/-! ## Counting what happened -/

/-- The worker has called a completion that `completed` does not count. -/
def Worker.uncredited : Worker Input Result → ℕ
  | called _ _ => 1
  | _ => 0

theorem act_uncredited (hact : Act o failure sh e sh') :
    sh'.worker.uncredited + e.counted = sh.worker.uncredited + e.completed.length := by
  cases hact <;> rfl

structure Tally (o : Options) (ls : List (Label Input Result)) (s : State Input Result) : Prop where
  accepted : s.counters.accepted + (s.admitter.unreserved + s.admitter.updating) =
    (along Label.accepted ls).length
  completed : s.counters.completed + s.total o (fun sh => sh.worker.uncredited) =
    (completed ls).length

namespace Tally

theorem init : Tally o [] (State.initial : State Input Result) where
  accepted := rfl
  completed := by simp [State.initial, State.total, Worker.uncredited, ReadyBatch.completed, along]

theorem caller (h : Tally o ls s) (hevent : ∀ f : Event Input Result → List (Node Input × Result),
      l.event f = [])
    (hworker : ∀ i, (s'.shards i).worker = (s.shards i).worker)
    (haccepted : s'.counters.accepted + (s'.admitter.unreserved + s'.admitter.updating) =
      s.counters.accepted + (s.admitter.unreserved + s.admitter.updating) + l.accepted.length)
    (hcompleted : s'.counters.completed = s.counters.completed) : Tally o (ls ++ [l]) s' where
  accepted := by
    rw [along_snoc, length_append, haccepted, h.accepted]
  completed := by
    have htotal : s'.total o (fun sh => sh.worker.uncredited) =
        s.total o fun sh => sh.worker.uncredited :=
      sum_congr rfl fun i _ => congrArg Worker.uncredited (hworker i)
    rw [ReadyBatch.completed, along_snoc, hevent, append_nil, hcompleted, htotal]
    exact h.completed

theorem step (h : Tally o ls s) (hstep : Step o failure s l s') : Tally o (ls ++ [l]) s' := by
  cases hstep with
  | @push node hadmitter =>
    refine h.caller (fun _ => rfl) (fun i => ?_) ?_ rfl
    · rw [setShard_shards]
      by_cases hi : i = o.shardOf node
      · subst hi
        rw [update_self]
        rfl
      · rw [update_of_ne hi]
    · rw [hadmitter]
      rfl
  | @stop i hadmitter hi =>
    refine h.caller (fun _ => rfl) (fun j => ?_) ?_ rfl
    · rw [setShard_shards]
      by_cases hj : j = i
      · simp_all
      · rw [update_of_ne hj]
    · rw [hadmitter]
      rfl
  | @worker i event sh hi hlock hact =>
    have haccepted := h.accepted
    have hcompleted := h.completed
    have htotal := total_update (s := s) (t := { s with
      counters := event.counters s.counters }.setShard i sh) hi rfl fun sh => sh.worker.uncredited
    have hone := act_uncredited hact
    constructor
    · rw [along_snoc, accepted_worker, append_nil, ← haccepted]
      exact congrArg (· + _) (counters_accepted s.counters event)
    · rw [ReadyBatch.completed, along_snoc, length_append, Label.event]
      change (event.counters s.counters).completed + _ = _
      rw [counters_completed]
      change _ = (ReadyBatch.completed ls).length + _
      omega
  | reserve hadmitter =>
    refine h.caller (fun _ => rfl) (fun _ => rfl) ?_ rfl
    rw [hadmitter]
    rfl
  | accept hadmitter =>
    refine h.caller (fun _ => rfl) (fun _ => rfl) ?_ rfl
    rw [hadmitter]
    rfl
  | stopped key input hidle | overloaded key input hidle => exact h.caller (fun _ => rfl) (fun _ => rfl) rfl rfl
  | check key input hidle | drain hidle =>
    refine h.caller (fun _ => rfl) (fun _ => rfl) ?_ rfl
    rw [hidle]
    rfl
  | pushFails hadmitter | unlock hadmitter =>
    refine h.caller (fun _ => rfl) (fun _ => rfl) ?_ rfl
    rw [hadmitter]
    rfl

end Tally

structure Inv (o : Options) (failure : Result) (ls : List (Label Input Result))
    (s : State Input Result) : Prop where
  lanes : Lanes o failure ls s
  flags : Flags o s
  ids : Ids ls s
  accounts : Accounts o s
  tally : Tally o ls s

theorem inv_of_run (hrun : Run (Step o failure) State.initial ls s) : Inv o failure ls s :=
  hrun.history (I := Inv o failure)
    (fun _ _ _ _ h hs => ⟨h.lanes.step hs, h.flags.step hs, h.ids.step hs, h.accounts.step hs,
      h.tally.step hs⟩) ⟨Lanes.init, .init, .init, .init, .init⟩

/-! ## No input is left behind -/

def Label.goesOn : Label Input Result → Prop
  | submit _ .accepted | caller | worker _ _ => True
  | _ => False

def State.Enabled (o : Options) (failure : Result) (s : State Input Result) : Prop :=
  ∃ l s', Step o failure s l s' ∧ l.goesOn

theorem worker_cases (hidle : s.admitter = .idle) (hi : i < o.shards) :
    s.Enabled o failure ∨ (s.shards i).worker = .exited ∨
      ((s.shards i).queue = [] ∧ (s.shards i).stopping = false ∧
        ∃ failed, (s.shards i).worker = .running [] failed) := by
  have hunlocked : ¬ s.locked o i := by
    unfold State.locked
    rw [hidle]
    exact not_false
  have hgo : ∀ e sh, Act o failure (s.shards i) e sh → s.Enabled o failure := fun e sh hact =>
    ⟨_, _, .worker hi (fun _ => hunlocked) hact, trivial⟩
  cases hsh : s.shards i with
  | mk q stopping w =>
    rw [hsh] at hgo
    cases w with
    | starting => exact .inl (hgo _ _ (.start false))
    | running rest failed =>
      cases rest with
      | cons p rest => exact .inl (hgo _ _ .call)
      | nil =>
        cases q with
        | cons n q =>
          cases failed with
          | false => exact .inl (hgo _ _ (.take (List.cons_ne_nil _ _)))
          | true => exact .inl (hgo _ _ .takeFailed)
        | nil =>
          cases stopping with
          | true => exact .inl (hgo _ _ .exit)
          | false => exact .inr (.inr ⟨rfl, rfl, failed, rfl⟩)
    | taken nodes => exact .inl (hgo _ _ .execute)
    | executing nodes => exact .inl (hgo _ _ (.returned none))
    | called rest failed => exact .inl (hgo _ _ .count)
    | counted rest failed => exact .inl (hgo _ _ .release)
    | exited => exact .inr (.inl rfl)

namespace Inv

variable (h : Inv o failure ls s)

include h

theorem completed_of_empty (hqueue : (s.shards i).queue = [])
    (hworker : (s.shards i).worker = .exited ∨ ∃ failed, (s.shards i).worker = .running [] failed) :
    ∀ n ∈ along Label.accepted ls, o.shardOf n = i → n ∈ (completed ls).map Prod.fst := by
  intro n hn hi
  obtain ⟨hgiven, -, hsettled⟩ := h.lanes i
  have hunsettled : (s.shards i).worker.unsettled = [] := by
    rcases hworker with hw | ⟨failed, hw⟩ <;> rw [hw] <;> rfl
  have hrest : (s.shards i).worker.rest = [] := by
    rcases hworker with hw | ⟨failed, hw⟩ <;> rw [hw] <;> rfl
  rw [hqueue, hunsettled, hsettled, hrest, append_nil, append_nil, append_nil] at hgiven
  have hmem := mem_ofShard.2 ⟨hn, hi⟩
  rw [hgiven] at hmem
  obtain ⟨p, hp, rfl⟩ := mem_map.1 hmem
  obtain ⟨e, he, hp⟩ := mem_flatMap.1 hp
  exact List.mem_map_of_mem (mem_event.2 ⟨i, e, mem_eventsOf.1 he, hp⟩)

theorem progress : s.Enabled o failure ∨
    ((∀ n ∈ along Label.accepted ls, n ∈ (completed ls).map Prod.fst) ∧
      (s.accepting = true ∨ s.Drained o)) := by
  cases hadmitter : s.admitter with
  | checked n => exact .inl ⟨_, _, .push hadmitter, trivial⟩
  | pushed n => exact .inl ⟨_, _, .reserve hadmitter, trivial⟩
  | reserved n => exact .inl ⟨_, _, .accept hadmitter, trivial⟩
  | draining k =>
    obtain ⟨-, hk, -⟩ := h.flags.draining k hadmitter
    rcases Nat.lt_or_eq_of_le hk with hlt | rfl
    · exact .inl ⟨_, _, .stop hadmitter hlt, trivial⟩
    · exact .inl ⟨_, _, .unlock hadmitter, trivial⟩
  | idle =>
    by_cases hgo : s.Enabled o failure
    · exact .inl hgo
    have hworkers := fun i (hi : i < o.shards) =>
      (worker_cases hadmitter hi : s.Enabled o failure ∨ _).resolve_left hgo
    refine .inr ⟨fun n hn => ?_, ?_⟩
    · rcases hworkers (o.shardOf n) (shardOf_lt n) with hexited | ⟨hqueue, -, hrunning⟩
      · exact h.completed_of_empty (h.flags.exited _ hexited).1 (.inl hexited) n hn rfl
      · exact h.completed_of_empty hqueue (.inr hrunning) n hn rfl
    · cases haccepting : s.accepting with
      | true => exact .inl rfl
      | false =>
        refine .inr ⟨haccepting, hadmitter, fun i hi => ?_⟩
        rcases hworkers i hi with hexited | ⟨-, hstopping, -⟩
        · exact hexited
        · rw [h.flags.drained haccepting hadmitter i hi] at hstopping
          cases hstopping

theorem counters_eq : s.counters.pending + s.counters.completed = s.counters.accepted + s.updating o := by
  have hpending := h.accounts.pending
  have haccepted := h.accounts.accepted
  have htotal := total_unreleased (o := o) s
  unfold State.updating
  omega

theorem completed_le : s.counters.completed ≤ s.counters.accepted := by
  have haccepted := h.accounts.accepted
  have hqueued : ∀ n, s.admitter = .pushed n ∨ s.admitter = .reserved n →
      1 ≤ s.total o Shard.uncounted := by
    intro n hn
    have hqueue := List.length_pos_iff.2 (h.accounts.pushed n hn)
    have hle := le_total (s := s) (shardOf_lt (o := o) n) Shard.uncounted
    rw [Shard.uncounted] at hle
    omega
  cases hadmitter : s.admitter with
  | pushed n =>
    have hone := hqueued n (.inl hadmitter)
    simp only [hadmitter, Admitter.unreserved, Admitter.updating] at haccepted
    omega
  | reserved n =>
    have hone := hqueued n (.inr hadmitter)
    simp only [hadmitter, Admitter.unreserved, Admitter.updating] at haccepted
    omega
  | _ =>
    simp only [hadmitter, Admitter.unreserved, Admitter.updating] at haccepted
    omega

theorem drained (hdrained : s.Drained o) : s.counters.accepted = s.counters.completed ∧
    s.counters.pending = 0 ∧ s.counters.accepted = (along Label.accepted ls).length ∧
    s.counters.completed = (completed ls).length := by
  obtain ⟨-, hidle, hexited⟩ := hdrained
  have hzero : ∀ f : Shard Input Result → ℕ, (∀ stopping, f ⟨[], stopping, .exited⟩ = 0) →
      s.total o f = 0 := by
    intro f hf
    refine sum_eq_zero fun i hi => ?_
    have hworker := hexited i (mem_range.1 hi)
    have hqueue := (h.flags.exited i hworker).1
    rw [show s.shards i = ⟨[], (s.shards i).stopping, .exited⟩ by rw [← hqueue, ← hworker]]
    exact hf _
  have hpending := h.accounts.pending
  have haccepted := h.accounts.accepted
  have htally := h.tally.accepted
  have hcompleted := h.tally.completed
  rw [hidle, hzero _ fun _ => rfl] at hpending haccepted
  rw [hidle] at htally
  rw [hzero _ fun _ => rfl] at hcompleted
  simp only [Admitter.unreserved, Admitter.updating, Nat.add_zero] at hpending haccepted htally
  exact ⟨haccepted, hpending, htally, hcompleted⟩

end Inv

theorem drained_accepts (hdrained : s.Drained o) {ms : List (Label Input Result)}
    (hrun : Run (Step o failure) s ms s') : along Label.accepted ms = [] := by
  refine (hrun.history (I := fun ms t => along Label.accepted ms = [] ∧ t.accepting = false ∧
    t.admitter = .idle) (fun ms t l t' ht hstep => ?_) ⟨rfl, hdrained.1, hdrained.2.1⟩).1
  obtain ⟨hnone, haccepting, hidle⟩ := ht
  rw [along_snoc, hnone, List.nil_append]
  cases hstep with
  | stopped key input => exact ⟨rfl, haccepting, hidle⟩
  | worker => exact ⟨rfl, haccepting, hidle⟩
  | overloaded key input _ htrue | check key input _ htrue | drain _ htrue =>
    rw [haccepting] at htrue
    cases htrue
  | pushFails hadmitter | push hadmitter | reserve hadmitter | accept hadmitter | stop hadmitter
  | unlock hadmitter =>
    rw [hidle] at hadmitter
    cases hadmitter

/-! ## Every run -/

/-- In every run each accepted input is executed and completed at most once, in the order of its key
and with its own result where there is one, and none is left behind; `pending` and `completed` make up
`accepted` but for the updates of two counters that are halfway; and when `Drain` has returned all that
was accepted is completed, and nothing more is accepted. -/
theorem ready_batches (hrun : Run (Step o failure) State.initial ls s) :
    Once failure ls ∧
    (s.Enabled o failure ∨ ((∀ n ∈ along Label.accepted ls, n ∈ (completed ls).map Prod.fst) ∧
      (s.accepting = true ∨ s.Drained o))) ∧
    (s.counters.pending + s.counters.completed = s.counters.accepted + s.updating o ∧
      s.counters.completed ≤ s.counters.accepted ∧ s.counters.pending ≤ o.capacity) ∧
    (s.Drained o →
      (∀ n ∈ along Label.accepted ls, n ∈ (completed ls).map Prod.fst) ∧
      (s.counters.accepted = s.counters.completed ∧ s.counters.pending = 0 ∧
        s.counters.accepted = (along Label.accepted ls).length ∧
        s.counters.completed = (completed ls).length) ∧
      ∀ ms s', Run (Step o failure) s ms s' → along Label.accepted ms = []) := by
  have h := inv_of_run hrun
  refine ⟨once h.lanes h.ids, h.progress, ⟨h.counters_eq, ?_, h.accounts.capacity⟩,
    fun hdrained => ⟨fun n hn => ?_, h.drained hdrained, fun ms s' => drained_accepts hdrained⟩⟩
  · exact h.completed_le
  · have hexited := hdrained.2.2 (o.shardOf n) (shardOf_lt n)
    exact h.completed_of_empty (h.flags.exited _ hexited).1 (.inl hexited) n hn rfl

theorem one_shard : 1 ≤ 1 ∧ 1 ≤ 16 := by decide

theorem one_slot : 1 ≤ 1 ∧ 1 ≤ 512 := by decide

theorem one_node : 1 ≤ 1 ∧ 1 ≤ 64 := by decide

def Options.single : Options := ⟨1, 1, 1, one_shard, one_slot, one_node⟩

theorem single_counted : ∃ s : State ℕ ℕ, Run (Step .single 0) .initial
    [.entered, .submit ⟨0, 5, 7⟩ .accepted, .caller, .caller, .worker 0 (.start false),
      .worker 0 .take, .worker 0 (.execute [⟨0, 5, 7⟩]), .worker 0 (.returned [⟨0, 5, 7⟩] (some [8])),
      .worker 0 (.call ⟨0, 5, 7⟩ 8), .worker 0 .count] s ∧
    s.counters = ⟨1, 1, 1, 1, 0, 0⟩ ∧ s.accepting = true ∧ s.admitter = .idle ∧
    s.shards 0 = ⟨[], false, .counted [] false⟩ :=
  ⟨_, .cons (.check 5 7 rfl rfl (by decide)) <| .cons (.push rfl) <| .cons (.reserve rfl) <|
    .cons (.accept rfl) <| .cons (.worker (by decide) (by simp [Event.locks]) (.start false)) <|
    .cons (.worker (by decide) (fun _ => not_false) (.take (by simp))) <|
    .cons (.worker (by decide) (by simp [Event.locks]) .execute) <|
    .cons (.worker (by decide) (by simp [Event.locks]) (.returned (some [8]))) <|
    .cons (.worker (by decide) (by simp [Event.locks]) .call) <|
    .single (.worker (by decide) (by simp [Event.locks]) .count), rfl, rfl, rfl, rfl⟩

/-- Between the two counters `pending` is not what `accepted` and `completed` leave. -/
theorem pending_halfway : ¬ ∀ (o : Options) (failure : ℕ) (ls : List (Label ℕ ℕ)) (s : State ℕ ℕ),
    Run (Step o failure) .initial ls s →
      s.counters.pending = s.counters.accepted - s.counters.completed := by
  intro hall
  obtain ⟨s, hrun, hcounters, -⟩ := single_counted
  have hpending := hall _ _ _ s hrun
  rw [hcounters] at hpending
  exact absurd hpending (by decide)

/-- The input is counted down, and the batch is drained. -/
theorem ready_batches_single : ∃ ls, ∃ s : State ℕ ℕ, Run (Step .single 0) .initial ls s ∧
    s.Drained .single ∧ along Label.accepted ls = [⟨0, 5, 7⟩] ∧ completed ls = [(⟨0, 5, 7⟩, 8)] ∧
    s.counters.accepted = s.counters.completed ∧ s.counters.pending = 0 := by
  obtain ⟨s, hrun, -, haccepting, hidle, hshard⟩ := single_counted
  obtain ⟨t, hrest, hdrained⟩ : ∃ t : State ℕ ℕ, Run (Step .single 0) s
      [.worker 0 .release, .entered, .caller, .caller, .worker 0 .exit] t ∧ t.Drained .single := by
    have hrelease : Act .single 0 (s.shards 0) .release ⟨[], false, .running [] false⟩ :=
      hshard ▸ .release
    have hexit : Act .single 0 (⟨[], true, .running [] false⟩ : Shard ℕ ℕ) .exit ⟨[], true, .exited⟩ :=
      .exit
    refine ⟨_, .cons (.worker (by decide) (by simp [Event.locks]) hrelease) <|
      .cons (.drain hidle haccepting) <| .cons (.stop rfl (by decide)) <| .cons (.unlock rfl) <|
      .single (.worker (by decide) (fun _ => not_false) hexit), rfl, rfl, fun i hi => ?_⟩
    obtain rfl := Nat.lt_one_iff.1 hi
    rfl
  obtain ⟨-, -, -, hdone⟩ := ready_batches (hrun.append hrest)
  exact ⟨_, t, hrun.append hrest, hdrained, rfl, rfl, (hdone hdrained).2.1.1, (hdone hdrained).2.1.2.1⟩

end TinyImx.Runtime.ReadyBatch
