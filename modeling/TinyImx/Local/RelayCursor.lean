import TinyImx.Lib.Run
import TinyImx.Local.PendingExact
import TinyImx.Local.RelayOwnership

/-!
# The relay's cursor

The turns of `Poll` beside the threads of the store.  A turn holds the relay's mutex, so what it
guards stays as it is while the turn reads its page; the threads of the store go on, and the page is
read in several steps: the count of pending events, then either a snapshot of the store or the ready
entries of the index and a snapshot after them.  Between two turns the relay's other threads may
have changed the held events, the queue and the retries in any way.
-/

namespace TinyImx.Local.Relay

variable {Id : Type} [LinearOrder Id]

/-- The options of a relay as its constructor accepts them, with the store's switch
`EmptyEventScanGuardEnabled`. -/
structure PollOptions (Id : Type) extends Options Id where
  guard : Bool
  scanPage_pos : 0 < scanPage

structure Turn (Id : Type) where
  store : Pool (Pending.Book Id) (Pending.Worker Id)
  cursor : Option Id
  relay : State Id
  clock : Id → ℕ
  /-- the ids the page could not overlook: all of the snapshot, or the entries of the index that
  were ready when its mutex was taken -/
  listed : Finset Id
  snapshot : Finset Id
  relay' : State Id
  cursor' : Option Id

/-- The end of a turn, whose page goes through the ids `seen` and reads its events from the snapshot. -/
def finishTurn (o : Options Id) (store : Pool (Pending.Book Id) (Pending.Worker Id))
    (cursor : Option Id) (r : State Id) (clock : Id → ℕ) (listed seen snapshot : Finset Id) :
    Turn Id :=
  let relay := { r with pending := snapshot }
  let page := relay.scan o seen cursor
  let next := relay.poll o clock cursor page.1 page.2
  ⟨store, cursor, relay, clock, listed, snapshot, next.1, next.2⟩

inductive Poller (Id : Type) where
  | between (cursor : Option Id)
  | entered (cursor : Option Id) (r : State Id)
  /-- it has the mutex of the index, whose ready entries were `listed` when it took it -/
  | looking (store : Pool (Pending.Book Id) (Pending.Worker Id)) (cursor : Option Id) (r : State Id)
    (listed : Finset Id)
  | looked (store : Pool (Pending.Book Id) (Pending.Worker Id)) (cursor : Option Id) (r : State Id)
    (listed seen : Finset Id)
  | aborted

structure PollState (Id : Type) where
  store : Pool (Pending.Book Id) (Pending.Worker Id)
  poller : Poller Id

def ReadyIn (b : Pending.Book Id) (id : Id) : Prop := ∃ n ∈ b.ready, b.index id = some n

/-- The steps of the store and of the poller; a finished turn is the label of its last step. -/
inductive PollStep (o : PollOptions Id) (q : Pending.BookOptions Id) :
    PollState Id → Option (Turn Id) → PollState Id → Prop
  | store {p p' poller} : Pending.Step q p p' → PollStep o q ⟨p, poller⟩ none ⟨p', poller⟩
  | empty {p c} (r : State Id) (clock : Id → ℕ) : ¬r.stopping → r.held.card < o.maxHeld →
      o.guard = true → p.shared.pending = 0 → PollStep o q ⟨p, .between c⟩
        (some (finishTurn o.toOptions p c r clock p.shared.events ∅ p.shared.events))
        ⟨p, .between (finishTurn o.toOptions p c r clock p.shared.events ∅ p.shared.events).cursor'⟩
  | enter {p c} (r : State Id) : ¬r.stopping → r.held.card < o.maxHeld →
      (o.guard = true → p.shared.pending ≠ 0) →
      PollStep o q ⟨p, .between c⟩ none ⟨p, .entered c r⟩
  | scan {p c r} (clock : Id → ℕ) : q.indexed = false → PollStep o q ⟨p, .entered c r⟩
      (some (finishTurn o.toOptions p c r clock p.shared.events p.shared.events p.shared.events))
      ⟨p, .between
        (finishTurn o.toOptions p c r clock p.shared.events p.shared.events p.shared.events).cursor'⟩
  | look {p c r} (listed : Finset Id) : q.indexed = true →
      (∀ id, id ∈ listed ↔ ReadyIn p.shared id) →
      PollStep o q ⟨p, .entered c r⟩ none ⟨p, .looking p c r listed⟩
  | looked {p p₀ c r listed} (seen : Finset Id) : listed ⊆ seen →
      (∀ id ∈ seen, ReadyIn p.shared id) →
      PollStep o q ⟨p, .looking p₀ c r listed⟩ none ⟨p, .looked p₀ c r listed seen⟩
  | read {p p₀ c r listed seen} (clock : Id → ℕ) : PollStep o q ⟨p, .looked p₀ c r listed seen⟩
      (some (finishTurn o.toOptions p₀ c r clock listed seen p.shared.events))
      ⟨p, .between (finishTurn o.toOptions p₀ c r clock listed seen p.shared.events).cursor'⟩
  | fail {p poller} : PollStep o q ⟨p, poller⟩ none ⟨p, .aborted⟩

/-! ## The events of a page -/

variable {o : Options Id} {s : State Id} {clock : Id → ℕ} {cursor : Option Id} {id : Id}

inductive Handled (clock : Id → ℕ) (s s' : State Id) (id : Id) : Prop
  | enqueued : id ∉ s.held → id ∈ s'.held → id ∈ s'.queue → Handled clock s s' id
  | held : id ∈ s.held → Handled clock s s' id
  | waiting (retry : Retry) : s.retries.lookup id = some retry → clock id < retry.due →
      Handled clock s s' id

theorem Handled.mono {s s' t : State Id} (h : Handled clock s s' id) (hheld : s'.held ⊆ t.held)
    (hqueue : s'.queue ⊆ t.queue) : Handled clock s t id := by
  cases h with
  | enqueued hnew hin hq => exact .enqueued hnew (hheld hin) (hqueue hq)
  | held h => exact .held h
  | waiting retry hretry hdue => exact .waiting retry hretry hdue

/-- What the loop of `Poll` makes of a page whose first `k` events it visits. -/
structure Visits (o : Options Id) (clock : Id → ℕ) (events : List Id) (s : State Id)
    (cursor : Option Id) (k : ℕ) (s' : State Id) (cursor' : Option Id) (consumed : Bool) : Prop where
  le : k ≤ events.length
  handled : ∀ id ∈ events.take k, Handled clock s s' id
  all : consumed = true → k = events.length
  cursor : cursor' = (events.take k).getLast?.or cursor
  pos : s.held.card < o.maxHeld → events ≠ [] → 0 < k
  held : s.held ⊆ s'.held
  queue : s.queue ⊆ s'.queue

theorem Visits.visit {events : List Id} {s t s' : State Id} {cursor cursor' : Option Id} {k : ℕ}
    {consumed : Bool} (h : Visits o clock events t (some id) k s' cursor' consumed)
    (hid : Handled clock s t id) (hheld : s.held ⊆ t.held) (hqueue : s.queue ⊆ t.queue)
    (hback : ∀ i ≠ id, Handled clock t s' i → Handled clock s s' i) :
    Visits o clock (id :: events) s cursor (k + 1) s' cursor' consumed where
  le := Nat.succ_le_succ h.le
  handled i hi := by
    by_cases heq : i = id
    · rw [heq]
      exact hid.mono h.held h.queue
    · rw [List.take_succ_cons] at hi
      exact hback i heq (h.handled i ((List.mem_cons.1 hi).resolve_left heq))
  all hdone := congrArg Nat.succ (h.all hdone)
  cursor := by
    rw [h.cursor, List.take_succ_cons, List.getLast?_cons]
    cases (events.take k).getLast? <;> rfl
  pos _ _ := Nat.succ_pos k
  held := hheld.trans h.held
  queue := fun _ hq => h.queue (hqueue hq)

theorem State.admitPage_visits (o : Options Id) (clock : Id → ℕ) (events : List Id) (s : State Id)
    (cursor : Option Id) :
    ∃ k, Visits o clock events s cursor k (s.admitPage o clock events cursor).1
      (s.admitPage o clock events cursor).2.1 (s.admitPage o clock events cursor).2.2 := by
  induction events generalizing s cursor with
  | nil =>
    exact ⟨0, le_rfl, by simp, fun _ => rfl, rfl, fun _ h => absurd rfl h,
      Finset.Subset.refl _, List.Subset.refl _⟩
  | cons id events ih =>
    rw [State.admitPage]
    split
    · next hfull =>
      exact ⟨0, Nat.zero_le _, by simp, fun h => (by cases h), rfl,
        fun hroom => absurd hroom (not_lt.2 hfull), Finset.Subset.refl _, List.Subset.refl _⟩
    split
    · next hheld =>
      obtain ⟨k, hk⟩ := ih s (some id)
      exact ⟨k + 1, hk.visit (.held hheld) (Finset.Subset.refl _) (List.Subset.refl _)
        fun _ _ h => h⟩
    split
    · next hdue =>
      obtain ⟨k, hk⟩ := ih s (some id)
      refine ⟨k + 1, hk.visit ?_ (Finset.Subset.refl _) (List.Subset.refl _) fun _ _ h => h⟩
      cases hretry : s.retries.lookup id with
      | none =>
        rw [hretry] at hdue
        cases hdue
      | some retry =>
        rw [hretry] at hdue
        exact .waiting retry hretry (of_decide_eq_true hdue)
    · next hroom hheld _ =>
      obtain ⟨k, hk⟩ := ih { s with held := insert id s.held, queue := s.queue ++ [id] } (some id)
      refine ⟨k + 1, hk.visit (.enqueued hheld (Finset.mem_insert_self id s.held) (by simp))
        (Finset.subset_insert id s.held) (List.subset_append_left _ _) fun i hne h => ?_⟩
      cases h with
      | enqueued hnew hin hq => exact .enqueued (fun h => hnew (Finset.mem_insert_of_mem h)) hin hq
      | held h => exact .held ((Finset.mem_insert.1 h).resolve_left hne)
      | waiting retry hretry hdue => exact .waiting retry hretry hdue

/-! ## A turn -/

theorem mem_take_of_le {ids : List Id} (h : ids.Pairwise (· < ·)) {n : ℕ} {v : Id}
    (hv : v ∈ ids.take n) (hid : id ∈ ids) (hle : id ≤ v) : id ∈ ids.take n := by
  rw [← List.take_append_drop n ids] at h hid
  rcases List.mem_append.1 hid with hid | hid
  · exact hid
  · exact absurd ((List.pairwise_append.1 h).2.2 v hv id hid) (not_lt.2 hle)

/-- Every event behind the old cursor and up to the new one that the page could not overlook, and that
was pending in its snapshot, was handled. -/
def Turn.Covers (t : Turn Id) : Prop :=
  ∀ id ∈ t.snapshot, id ∈ t.listed → t.cursor.all (· < id) → t.cursor'.any (id ≤ ·) →
    Handled t.clock t.relay t.relay' id

/-- The cursor goes back to the start only if the page could overlook every pending event behind it. -/
def Turn.Resets (t : Turn Id) : Prop :=
  t.cursor' = none → ∀ id ∈ t.snapshot, id ∈ t.listed → ¬t.cursor.all (· < id)

omit [LinearOrder Id] in
theorem State.scan_limit_pos (s : State Id) (hroom : s.held.card < o.maxHeld) (hpos : 0 < o.scanPage) :
    0 < if o.demandPage then min o.scanPage (o.maxHeld - s.held.card) else o.scanPage := by
  split
  · exact lt_min hpos (Nat.sub_pos_of_lt hroom)
  · exact hpos

theorem State.poll_visits (o : Options Id) (clock : Id → ℕ) (s : State Id) (cursor : Option Id)
    {examined : List Id} (hne : examined ≠ []) (events : List Id)
    (hroom : s.held.card < o.maxHeld) :
    ∃ k v, (∀ id ∈ events.take k, Handled clock s (s.poll o clock cursor examined events).1 id) ∧
      (s.poll o clock cursor examined events).2 = some v ∧
      (events.take k = events ∧ v ∈ examined ∨ (events.take k).getLast? = some v) := by
  obtain ⟨k, hk⟩ := s.admitPage_visits o clock events cursor
  have hlast := List.getLast?_eq_some_getLast hne
  unfold State.poll
  rw [hlast]
  dsimp only
  cases hdone : (s.admitPage o clock events cursor).2.2 with
  | true =>
    refine ⟨k, examined.getLast hne, hk.handled, by simp, .inl ⟨?_, List.getLast_mem hne⟩⟩
    exact List.take_of_length_le (hk.all hdone).ge
  | false =>
    have hsome : events ≠ [] := by
      rintro rfl
      cases hdone
    have hvisited : events.take k ≠ [] := by
      rw [Ne, List.take_eq_nil_iff, not_or]
      exact ⟨(hk.pos hroom hsome).ne', hsome⟩
    have hcursor := hk.cursor
    rw [List.getLast?_eq_some_getLast hvisited] at hcursor
    exact ⟨k, (events.take k).getLast hvisited, hk.handled, by simpa using hcursor,
      .inr (List.getLast?_eq_some_getLast hvisited)⟩

/-- A turn that went through at least the ids it could not overlook. -/
theorem finishTurn_spec (p : Pool (Pending.Book Id) (Pending.Worker Id)) (cursor : Option Id)
    (clock : Id → ℕ) {r : State Id} {listed seen snapshot : Finset Id}
    (hroom : r.held.card < o.maxHeld) (hpos : 0 < o.scanPage) (hlisted : listed ⊆ seen) :
    (finishTurn o p cursor r clock listed seen snapshot).Covers ∧
      (finishTurn o p cursor r clock listed seen snapshot).Resets := by
  obtain ⟨s, hs⟩ : ∃ s : State Id, s = { r with pending := snapshot } := ⟨_, rfl⟩
  have hheld : s.held = r.held := by rw [hs]
  have hpending : s.pending = snapshot := by rw [hs]
  obtain ⟨ids, hids⟩ :
    ∃ ids, ids = (seen.filter fun id => cursor.all (· < id)).sort (· ≤ ·) := ⟨_, rfl⟩
  obtain ⟨n, hn⟩ : ∃ n, n =
    if o.demandPage then min o.scanPage (o.maxHeld - s.held.card) else o.scanPage := ⟨_, rfl⟩
  obtain ⟨events, hevents⟩ : ∃ events, events = (ids.take n).filter fun id =>
    id ∈ s.pending ∧ id ∉ if o.heldFilter then s.held else ∅ := ⟨_, rfl⟩
  have hpage : s.scan o seen cursor = (ids.take n, events) := by
    rw [hevents, hn, hids]
    rfl
  have hturn : finishTurn o p cursor r clock listed seen snapshot =
      ⟨p, cursor, s, clock, listed, snapshot, (s.poll o clock cursor (ids.take n) events).1,
        (s.poll o clock cursor (ids.take n) events).2⟩ := by
    rw [hs] at hpage ⊢
    simp only [finishTurn, hpage]
  have hn0 : 0 < n := by
    rw [hn]
    exact s.scan_limit_pos (hheld ▸ hroom) hpos
  have hmem : ∀ {id}, id ∈ listed → cursor.all (· < id) → id ∈ ids := by
    intro id hid hbehind
    rw [hids, Finset.mem_sort, Finset.mem_filter]
    exact ⟨hlisted hid, hbehind⟩
  have hsorted : ids.Pairwise (· < ·) := by
    rw [hids]
    exact (seen.filter fun id => cursor.all (· < id)).sortedLT_sort.pairwise
  have hfirst : events.Pairwise (· < ·) := by
    rw [hevents]
    exact (hsorted.sublist (List.take_sublist _ _)).sublist List.filter_sublist
  rw [hturn]
  by_cases hnone : ids.take n = []
  · have hempty : ids = [] := (List.take_eq_nil_iff.1 hnone).resolve_left hn0.ne'
    have hnot : ∀ {id}, id ∈ listed → ¬cursor.all (· < id) := by
      intro id hid hbehind
      have := hmem hid hbehind
      rw [hempty] at this
      cases this
    exact ⟨fun id _ hid hbehind => absurd hbehind (hnot hid), fun _ id _ hid => hnot hid⟩
  · obtain ⟨k, v, hhandled, hcursor, hv⟩ := s.poll_visits o clock cursor hnone events
      (hheld ▸ hroom)
    have hvmem : v ∈ ids.take n := by
      rcases hv with ⟨-, hv⟩ | hv
      · exact hv
      · have := List.mem_of_mem_take (List.mem_of_getLast? hv)
        rw [hevents] at this
        exact List.mem_of_mem_filter this
    refine ⟨fun id hsnap hid hbehind hle => ?_, fun hreset => ?_⟩
    · have hle : id ≤ v := by
        rw [hcursor] at hle
        exact of_decide_eq_true hle
      have hexamined := mem_take_of_le hsorted hvmem (hmem hid hbehind) hle
      by_cases hin : id ∈ s.held
      · exact .held hin
      have hevent : id ∈ events := by
        rw [hevents, List.mem_filter]
        refine ⟨hexamined, decide_eq_true ⟨hpending ▸ hsnap, ?_⟩⟩
        split
        · exact hin
        · exact Finset.notMem_empty id
      refine hhandled id ?_
      rcases hv with ⟨hall, -⟩ | hv
      · rw [hall]
        exact hevent
      · exact mem_take_of_le hfirst (List.mem_of_getLast? hv) hevent hle
    · rw [hcursor] at hreset
      cases hreset

/-! ## Runs -/

/-- An event that was pending when the page began, and whose write has been committed to the index,
could not be overlooked. -/
def Turn.Lists (t : Turn Id) : Prop :=
  ∀ id ∈ t.store.shared.events, (∀ w ∈ t.store.threads, ∀ n, ¬w.Readies id n) → id ∈ t.listed

structure Looking (o : Options Id) (q : Pending.BookOptions Id)
    (p : Pool (Pending.Book Id) (Pending.Worker Id)) (r : State Id) (listed : Finset Id) : Prop where
  indexed : q.indexed = true
  room : r.held.card < o.maxHeld
  lists : ∀ id ∈ p.shared.events, (∀ w ∈ p.threads, ∀ n, ¬w.Readies id n) → id ∈ listed

def Poller.Fine (o : Options Id) (q : Pending.BookOptions Id) : Poller Id → Prop
  | between _ | aborted => True
  | entered _ r => r.held.card < o.maxHeld
  | looking p _ r listed => Looking o q p r listed
  | looked p _ r listed seen => Looking o q p r listed ∧ listed ⊆ seen

/-- What a run of the poller keeps; `ls` are the turns so far. -/
structure Polled (o : Options Id) (q : Pending.BookOptions Id) (bound : ℕ)
    (ls : List (Option (Turn Id))) (st : PollState Id) : Prop where
  exact : Pending.Exact q bound st.store
  fine : st.poller.Fine o q
  turns : ∀ t, some t ∈ ls → t.Covers ∧ t.Resets ∧ t.Lists ∧
    (q.indexed = false → t.listed = t.snapshot)

theorem Polled.step {o : PollOptions Id} {q : Pending.BookOptions Id} {bound : ℕ}
    {ls : List (Option (Turn Id))} {st st' : PollState Id} {l : Option (Turn Id)}
    (h : Polled o.toOptions q bound ls st) (hs : PollStep o q st l st') :
    Polled o.toOptions q bound (ls ++ [l]) st' := by
  obtain ⟨hexact, hfine, hturns⟩ := h
  have hquiet : ∀ t, some t ∈ ls ++ [none] → t.Covers ∧ t.Resets ∧ t.Lists ∧
      (q.indexed = false → t.listed = t.snapshot) := by
    simp_all
  have hdone : ∀ {t : Turn Id}, t.Covers ∧ t.Resets → t.Lists →
      (q.indexed = false → t.listed = t.snapshot) → ∀ u, some u ∈ ls ++ [some t] →
        u.Covers ∧ u.Resets ∧ u.Lists ∧ (q.indexed = false → u.listed = u.snapshot) := by
    intro t hspec hlists hscan u hu
    rcases List.mem_append.1 hu with hu | hu
    · exact hturns u hu
    · simp_all
  cases hs with
  | store hstep => exact ⟨hexact.step hstep, hfine, hquiet⟩
  | @empty p c r clock _ hroom _ hzero =>
    have hnone : p.shared.events = ∅ := by
      have hcount : p.shared.pending = p.shared.events.card + _ := hexact.count
      exact Finset.card_eq_zero.1 (by omega)
    refine ⟨hexact, trivial, hdone (finishTurn_spec p c clock hroom o.scanPage_pos ?_) ?_ ?_⟩
    · rw [hnone]
    · exact fun id hid _ => hid
    · exact fun _ => rfl
  | enter r _ hroom _ => exact ⟨hexact, hroom, hquiet⟩
  | @scan p c r clock _ =>
    exact ⟨hexact, trivial, hdone (finishTurn_spec p c clock hfine o.scanPage_pos
      (Finset.Subset.refl _)) (fun id hid _ => hid) fun _ => rfl⟩
  | @look p c r listed hindexed hready =>
    refine ⟨hexact, ⟨hindexed, hfine, fun id hid hcommitted => (hready id).2 ?_⟩, hquiet⟩
    obtain ⟨n, hn, hr | ⟨w, hw, hr⟩⟩ := hexact.ready hindexed id hid
    · exact ⟨n, hr, hn⟩
    · exact absurd hr (hcommitted w hw n)
  | looked seen hlisted _ => exact ⟨hexact, ⟨hfine, hlisted⟩, hquiet⟩
  | @read p p₀ c r listed seen clock =>
    obtain ⟨hlooking, hlisted⟩ := hfine
    refine ⟨hexact, trivial, hdone
      (finishTurn_spec p₀ c clock hlooking.room o.scanPage_pos hlisted) hlooking.lists fun hscan => ?_⟩
    rw [hlooking.indexed] at hscan
    cases hscan
  | fail => exact ⟨hexact, trivial, hquiet⟩

def pollStart (limit : ℕ) (enabled : Bool) (keys : List Id) (failed : Finset Id) : PollState Id :=
  ⟨⟨Pending.recover limit enabled keys failed, 0⟩, .between none⟩

/-- In every run of the poller beside the store, a turn handles every event the cursor passes and
resets the cursor only when none is left behind it: every event of the snapshot where the page scans
the store, and every event the index had ready where it goes through the index, which is every
pending event that no write was still to commit. -/
theorem cursor_covers (o : PollOptions Id) (limit : ℕ) (enabled : Bool) (stripe : Id → ℕ)
    {keys : List Id} (hkeys : keys.Nodup) (failed : Finset Id) {ls : List (Option (Turn Id))}
    {st : PollState Id}
    (hrun : Run (PollStep o ⟨limit, (Pending.recoverScan limit enabled keys).2.1, stripe⟩)
      (pollStart limit enabled keys failed) ls st) :
    ∀ t, some t ∈ ls → t.Covers ∧ t.Resets ∧ t.Lists ∧
      ((Pending.recoverScan limit enabled keys).2.1 = false → t.listed = t.snapshot) := by
  have h := hrun.history (fun _ _ _ _ h hs => Polled.step h hs)
    ⟨Pending.recover_exact limit enabled stripe hkeys failed, trivial, by simp⟩
  exact h.turns

/-! ## An event on its way into the index -/

def samplePoll : PollOptions ℕ := { sampleOptions with guard := false, scanPage_pos := by decide }

def sampleIndexed : Pending.BookOptions ℕ :=
  ⟨2, (Pending.recoverScan 2 true [9]).2.1, fun _ => 0⟩

def sampleBook : Pending.Book ℕ :=
  { Pending.recover 2 true [9] ∅ with pending := 2 }.prepare sampleIndexed 7

/-- The store after the batch of the event 7 is written and before its slot is committed. -/
def sampleUncommitted : Pool (Pending.Book ℕ) (Pending.Worker ℕ) :=
  ⟨sampleBook.write false {7}, {.writer false ∅ {.written 7 (some 1)}}⟩

def sampleTurn : Turn ℕ :=
  finishTurn sampleOptions sampleUncommitted none (start ∅ ∅) (fun _ => 0) {9} {9}
    sampleUncommitted.shared.events

theorem sampleUncommitted_reachable : Run (PollStep samplePoll sampleIndexed)
    (pollStart 2 true [9] ∅) [none, none, none, none] ⟨sampleUncommitted, .between none⟩ := by
  have hspawn : Pending.Step sampleIndexed ⟨Pending.recover 2 true [9] ∅, 0⟩
      ⟨Pending.recover 2 true [9] ∅, .writer false ∅ 0 ::ₘ 0⟩ := .spawn .create
  have hreserve : Pending.Step sampleIndexed ⟨Pending.recover 2 true [9] ∅, .writer false ∅ 0 ::ₘ 0⟩
      ⟨{ Pending.recover 2 true [9] ∅ with pending := 2 },
        {.writer false ∅ (.reserved ::ₘ 0)} + 0⟩ := .act (.reserve (by decide))
  have hprepare : Pending.Step sampleIndexed
      ⟨{ Pending.recover 2 true [9] ∅ with pending := 2 }, .writer false ∅ (.reserved ::ₘ 0) ::ₘ 0⟩
      ⟨sampleBook, {.writer false ∅ (.prepared 7 (some 1) ::ₘ 0)} + 0⟩ :=
    .act (.prepare (show 7 ∉ ({9} ∪ ∅ : Finset ℕ) by decide) fun _ => rfl)
  have hwrite : Pending.Step sampleIndexed
      ⟨sampleBook, .writer false ∅ (.prepared 7 (some 1) ::ₘ 0) ::ₘ 0⟩
      ⟨sampleBook.write false {7}, {.writer false ∅ (.written 7 (some 1) ::ₘ 0)} + 0⟩ :=
    .act (.write (by simp [Pending.Slot.preparedId]))
  have hrun : Run (PollStep samplePoll sampleIndexed) (pollStart 2 true [9] ∅) []
      (pollStart 2 true [9] ∅) := .nil _
  exact (((hrun.snoc (.store hspawn)).snoc (.store hreserve)).snoc (.store hprepare)).snoc
    (.store hwrite)

theorem sampleReady (id : ℕ) : ReadyIn sampleUncommitted.shared id ↔ id = 9 := by
  constructor
  · rintro ⟨n, hn, hid⟩
    have hzero : n = 0 := Nat.lt_one_iff.1 (Finset.mem_range.1 hn)
    subst hzero
    have hid : Function.update (fun id => if id ∈ [9] then some ([9].idxOf id) else none) 7 (some 1)
      id = some 0 := hid
    by_cases h7 : id = 7
    · grind
    · rw [Function.update_of_ne h7] at hid
      simp_all
  · rintro rfl
    exact ⟨0, by decide, by decide⟩

theorem sampleTurn_reachable : ∃ ls st, some sampleTurn ∈ ls ∧
    Run (PollStep samplePoll sampleIndexed) (pollStart 2 true [9] ∅) ls st := by
  have henter : PollStep samplePoll sampleIndexed ⟨sampleUncommitted, .between none⟩ none
      ⟨sampleUncommitted, .entered none (start ∅ ∅)⟩ :=
    .enter (start ∅ ∅) (by decide) (by decide) fun h => by cases h
  have hlook : PollStep samplePoll sampleIndexed ⟨sampleUncommitted, .entered none (start ∅ ∅)⟩ none
      ⟨sampleUncommitted, .looking sampleUncommitted none (start ∅ ∅) {9}⟩ :=
    .look {9} rfl fun id => by rw [sampleReady, Finset.mem_singleton]
  have hlooked : PollStep samplePoll sampleIndexed
      ⟨sampleUncommitted, .looking sampleUncommitted none (start ∅ ∅) {9}⟩ none
      ⟨sampleUncommitted, .looked sampleUncommitted none (start ∅ ∅) {9} {9}⟩ :=
    .looked {9} (Finset.Subset.refl _) fun id hid => (sampleReady id).2 (Finset.mem_singleton.1 hid)
  have hrun := ((sampleUncommitted_reachable.snoc henter).snoc hlook).snoc hlooked
  exact ⟨_, _, List.mem_append_right _ (List.mem_singleton_self _), hrun.snoc (.read fun _ => 0)⟩

theorem sampleTurn_cursor : sampleTurn.cursor' = some 9 ∧ sampleTurn.relay'.held = {9} := by
  decide +kernel

theorem cursor_covers_sample : sampleTurn.Covers ∧ sampleTurn.cursor' = some 9 := by
  obtain ⟨ls, st, hmem, hrun⟩ := sampleTurn_reachable
  exact ⟨(cursor_covers samplePoll 2 true (fun _ => 0) (by decide) ∅ hrun sampleTurn hmem).1,
    sampleTurn_cursor.1⟩

/-- The event 7 is in the snapshot, and the cursor passes it: nothing enqueued it, nobody holds it,
and no retry is waiting for it. -/
theorem cursor_passes_uncommitted : (∃ ls st, some sampleTurn ∈ ls ∧
      Run (PollStep samplePoll sampleIndexed) (pollStart 2 true [9] ∅) ls st) ∧
    7 ∈ sampleTurn.snapshot ∧ sampleTurn.cursor = none ∧ sampleTurn.cursor' = some 9 ∧
    ¬Handled sampleTurn.clock sampleTurn.relay sampleTurn.relay' 7 := by
  refine ⟨sampleTurn_reachable, by decide, rfl, sampleTurn_cursor.1, fun h => ?_⟩
  cases h with
  | enqueued _ hin _ =>
    rw [sampleTurn_cursor.2] at hin
    cases Finset.mem_singleton.1 hin
  | held h => exact absurd h (Finset.notMem_empty 7)
  | waiting retry hretry _ => cases hretry

end TinyImx.Local.Relay
