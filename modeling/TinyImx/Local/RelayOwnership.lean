import Mathlib.Tactic.Abel
import TinyImx.Local.Relay

/-!
# The relay owns an event once

The queue, the workers, the completed events and the progress writer together own exactly the held
events, each of them once.  So while one thread publishes an event and marks it, no other thread can
submit it, and once it is marked the store has it neither pending nor quarantined.
-/

namespace TinyImx.Local.Relay

open Multiset (coe_add coe_nil cons_zero countP_eq_zero disjoint_left map_singleton mem_add
  mem_coe mem_cons_of_mem mem_of_le mem_singleton nodup_add notMem_zero sum_add sum_singleton)

variable {Id : Type} [LinearOrder Id] {o : Options Id} {s s' : State Id}

/-! ## What the log says -/

def Confirmed (log : List (Entry Id)) (id : Id) : Prop :=
  ∃ ids reply, .replied ids reply ∈ log ∧ reply.length = ids.length ∧
    (id, .published) ∈ ids.zip reply

def Marked (log : List (Entry Id)) (id : Id) : Prop :=
  ∃ ids removed, .marked ids removed ∈ log ∧ id ∈ removed

def Orderly : List (Entry Id) → Prop
  | [] => True
  | .submitted ids :: log => (∀ id ∈ ids, ¬Marked log id) ∧ Orderly log
  | .marked ids _ :: log => (∀ id ∈ ids, Confirmed log id) ∧ Orderly log
  | .replied .. :: log => Orderly log

section

variable {log log' : List (Entry Id)} {id : Id}

omit [LinearOrder Id]

theorem Confirmed.mono (h : Confirmed log id) (hlog : log ⊆ log') : Confirmed log' id := by
  obtain ⟨ids, reply, hmem, hrest⟩ := h
  exact ⟨ids, reply, hlog hmem, hrest⟩

@[simp] theorem marked_nil : ¬Marked ([] : List (Entry Id)) id := by
  rintro ⟨ids, removed, hmem, -⟩
  cases hmem

@[simp] theorem marked_submitted {ids : List Id} : Marked (.submitted ids :: log) id ↔ Marked log id := by
  simp [Marked]

@[simp] theorem marked_replied {ids : List Id} {reply : List PublishStatus} :
    Marked (.replied ids reply :: log) id ↔ Marked log id := by
  simp [Marked]

@[simp] theorem marked_marked {ids : List Id} {removed : Finset Id} :
    Marked (.marked ids removed :: log) id ↔ id ∈ removed ∨ Marked log id := by
  constructor
  · rintro ⟨ids', removed', hmem, hid⟩
    rcases List.mem_cons.1 hmem with heq | hmem
    · cases heq
      exact .inl hid
    · exact .inr ⟨ids', removed', hmem, hid⟩
  · rintro (hid | ⟨ids', removed', hmem, hid⟩)
    · exact ⟨ids, removed, List.mem_cons_self, hid⟩
    · exact ⟨ids', removed', List.mem_cons_of_mem _ hmem, hid⟩

theorem Orderly.tail {e : Entry Id} (h : Orderly (e :: log)) : Orderly log := by
  cases e with
  | submitted => exact h.2
  | replied => exact h
  | marked => exact h.2

theorem Orderly.drop {post : List (Entry Id)} (h : Orderly (post ++ log)) : Orderly log := by
  induction post with
  | nil => exact h
  | cons _ _ ih => exact ih h.tail

theorem Orderly.at_mark {post pre : List (Entry Id)} {ids : List Id} {removed : Finset Id}
    (h : Orderly (post ++ .marked ids removed :: pre)) :
    (∀ id ∈ ids, Confirmed pre id) ∧
      ∀ id ∈ removed, ∀ ids', .submitted ids' ∈ post → id ∉ ids' := by
  refine ⟨h.drop.1, fun id hid ids' hmem hid' => ?_⟩
  obtain ⟨post₁, post₂, rfl⟩ := List.append_of_mem hmem
  rw [List.append_assoc] at h
  exact h.drop.1 id hid' ⟨ids, removed, by simp, hid⟩

end

/-! ## What a thread owns and knows -/

def Todo.ids : Todo Id → List Id
  | gather rest selected => selected ++ rest
  | scalar rest => rest
  | send ids next | sent ids next => ids ++ next.ids
  | apply results next => results.map Prod.fst ++ next.ids
  | quarantine id next | settle id next => id :: next.ids
  | abort next => next.ids
  | _ => []

def Todo.unsent : Todo Id → List Id
  | gather rest selected => selected ++ rest
  | scalar rest => rest
  | send ids next => ids ++ next.unsent
  | sent _ next | apply _ next | quarantine _ next | settle _ next | abort next => next.unsent
  | _ => []

def Todo.results : Todo Id → List (Id × PublishStatus)
  | apply results next => results ++ next.results
  | send _ next | sent _ next | quarantine _ next | settle _ next | abort next => next.results
  | _ => []

def Drain.events : Drain Id → List Id
  | waiting => []
  | drained events | mark events | marked events | abort events | release events => events

def Thread.owned : Thread Id → Multiset Id
  | busy events _ _ => events
  | writer drain => drain.events
  | _ => 0

structure Working (log : List (Entry Id)) (ev pub : List Id) (todo : Todo Id) : Prop where
  ids : ∀ id ∈ todo.ids, id ∈ ev
  unsent : ∀ id ∈ todo.unsent, ¬Marked log id
  results : ∀ id, (id, .published) ∈ todo.results → Confirmed log id
  confirmed : ∀ id ∈ pub, Confirmed log id
  published : todo = .finish ∨ ∀ id ∈ pub, id ∈ ev

def Thread.Fine (s : State Id) : Thread Id → Prop
  | busy ev pub todo => Working s.log ev pub todo
  | writer drain => ∀ id ∈ drain.events, Confirmed s.log id
  | scanned _ _ events => s.scanning = true ∧ ∀ id ∈ events, id ∉ s.held → ¬Marked s.log id
  | _ => True

structure Sound (o : Options Id) (s : State Id) : Prop where
  bounded : s.held.card ≤ o.maxHeld
  pending : s.pending ⊆ s.taken
  quarantined : s.quarantined ⊆ s.taken
  apart : Disjoint s.pending s.quarantined
  marked : ∀ id, Marked s.log id → id ∈ s.taken ∧ id ∉ s.pending ∧ id ∉ s.quarantined
  queue : ∀ id ∈ s.queue, ¬Marked s.log id
  completed : ∀ id ∈ s.completed, Confirmed s.log id
  orderly : Orderly s.log

structure Owned (o : Options Id) (p : Pool (State Id) (Thread Id)) : Prop where
  sound : Sound o p.shared
  held : (p.shared.queue : Multiset Id) + (p.threads.map Thread.owned).sum + p.shared.completed =
    p.shared.held.val
  fine : ∀ t ∈ p.threads, t.Fine p.shared
  scanners : p.threads.countP (fun t => t.isScanner = true) ≤ 1

/-! ## What a step does to the log -/

@[simp] theorem State.abort_log : s.abort.log = s.log := rfl

@[simp] theorem State.forget_log (ids : List Id) : (s.forget ids).log = s.log := rfl

@[simp] theorem State.retry_log (now : ℕ) (id : Id) (next : Todo Id) :
    (s.retry o now id next).1.log = s.log := by
  unfold State.retry
  split <;> rfl

theorem State.admitPage_spec (clock : Id → ℕ) (events : List Id) (s : State Id) (cursor : Option Id) :
    ∃ ids : List Id, (s.admitPage o clock events cursor).1 =
        { s with held := s.held ∪ ids.toFinset, queue := s.queue ++ ids } ∧
      ids.Nodup ∧ (∀ id ∈ ids, id ∈ events ∧ id ∉ s.held) ∧
      (s.held.card ≤ o.maxHeld → s.held.card + ids.length ≤ o.maxHeld) := by
  induction events generalizing s cursor with
  | nil => exact ⟨[], by simp [State.admitPage]⟩
  | cons id events ih =>
    rw [State.admitPage]
    split
    · exact ⟨[], by simp⟩
    split
    · obtain ⟨ids, heq, hnodup, hmem, hcard⟩ := ih s (some id)
      exact ⟨ids, heq, hnodup, fun i hi => ⟨List.mem_cons_of_mem _ (hmem i hi).1, (hmem i hi).2⟩, hcard⟩
    split
    · obtain ⟨ids, heq, hnodup, hmem, hcard⟩ := ih s (some id)
      exact ⟨ids, heq, hnodup, fun i hi => ⟨List.mem_cons_of_mem _ (hmem i hi).1, (hmem i hi).2⟩, hcard⟩
    · next hroom hheld _ =>
      obtain ⟨ids, heq, hnodup, hmem, hcard⟩ :=
        ih { s with held := insert id s.held, queue := s.queue ++ [id] } (some id)
      have hnew : id ∉ ids := fun hid => (hmem id hid).2 (Finset.mem_insert_self id s.held)
      refine ⟨id :: ids, ?_, List.nodup_cons.2 ⟨hnew, hnodup⟩, fun i hi => ?_, fun _ => ?_⟩
      · rw [heq]
        simp [Finset.insert_union]
      · rcases List.mem_cons.1 hi with rfl | hi
        · exact ⟨List.mem_cons_self, hheld⟩
        · obtain ⟨hi₁, hi₂⟩ := hmem i hi
          exact ⟨List.mem_cons_of_mem _ hi₁, fun h => hi₂ (Finset.mem_insert_of_mem h)⟩
      · grind

theorem State.poll_spec (s : State Id) (clock : Id → ℕ) (cursor : Option Id)
    (examined events : List Id) :
    ∃ ids : List Id, (s.poll o clock cursor examined events).1 =
        { s with held := s.held ∪ ids.toFinset, queue := s.queue ++ ids } ∧
      ids.Nodup ∧ (∀ id ∈ ids, id ∈ events ∧ id ∉ s.held) ∧
      (s.held.card ≤ o.maxHeld → s.held.card + ids.length ≤ o.maxHeld) := by
  unfold State.poll
  split
  · exact ⟨[], by simp⟩
  · exact s.admitPage_spec clock events cursor

theorem State.markEventsPublished_log (ids : List Id) :
    s.log ⊆ (s.markEventsPublished ids).log ∧
      ∀ id, Marked (s.markEventsPublished ids).log id → Marked s.log id ∨ id ∈ ids := by
  refine ⟨List.subset_cons_self _ _, fun id hid => ?_⟩
  rcases marked_marked.1 hid with hid | hid
  · exact .inr (List.mem_toFinset.1 (Finset.mem_inter.1 hid).1)
  · exact .inl hid

theorem Work.log {ev pub ev' pub' : List Id} {todo todo' : Todo Id}
    (h : Work o s ev pub todo s' ev' pub' todo') :
    s.log ⊆ s'.log ∧ ∀ id, Marked s'.log id → Marked s.log id ∨ todo = .mark ∧ id ∈ pub := by
  cases h with
  | mark | markShort =>
    obtain ⟨hsub, hmarked⟩ := s.markEventsPublished_log pub
    exact ⟨hsub, fun id hid => (hmarked id hid).imp_right fun h => ⟨rfl, h⟩⟩
  | _ => simp +contextual

theorem Progress.log {d d' : Drain Id} (h : Progress s d s' d') :
    s.log ⊆ s'.log ∧ ∀ id, Marked s'.log id → Marked s.log id ∨ id ∈ d.events := by
  cases h with
  | mark | markShort => exact s.markEventsPublished_log _
  | _ => simp +contextual

variable {t : Thread Id} {rest new : Multiset (Thread Id)}

theorem Act.log (h : Act o s rest t s' new) (ht : t.Fine s) :
    s.log ⊆ s'.log ∧ ∀ id, Marked s'.log id → Marked s.log id ∨ id ∈ t.owned := by
  cases h with
  | work hw =>
    refine ⟨hw.log.1, fun id hid => (hw.log.2 id hid).imp_right ?_⟩
    rintro ⟨rfl, hpub⟩
    rcases ht.published with hfin | hev
    · cases hfin
    · exact mem_coe.2 (hev id hpub)
  | progress hp => exact ⟨hp.log.1, fun id hid => (hp.log.2 id hid).imp_right mem_coe.2⟩
  | @poll c examined events clock =>
    obtain ⟨ids, heq, -⟩ := s.poll_spec (o := o) clock c examined events
    simp_all
  | _ => exact ⟨List.Subset.refl _, fun id hid => .inl hid⟩

/-! ## Ownership -/

theorem sdiff_val {held : Finset Id} {ids : List Id} {rest : Multiset Id}
    (h : ↑ids + rest = held.val) : (held \ ids.toFinset).val = rest := by
  have hnodup : ids.Nodup := by
    have := held.nodup
    rw [← h] at this
    exact Multiset.coe_nodup.1 (Multiset.nodup_of_le (Multiset.le_add_right _ _) this)
  rw [Finset.sdiff_val, List.toFinset_val, hnodup.dedup, ← h, add_tsub_cancel_left]

theorem State.abort_held {rest : Multiset Id} (h : ↑s.queue + rest + ↑s.completed = s.held.val) :
    s.abort.held.val = rest := by
  have hqueue : (s.held \ s.queue.toFinset).val = rest + ↑s.completed :=
    sdiff_val (by rw [← add_assoc, h])
  exact sdiff_val (by rw [hqueue, add_comm])

theorem coe_filter_add (ev pub : List Id) :
    (↑(ev.filter (· ∈ pub)) + ↑(ev.filter (· ∉ pub)) : Multiset Id) = ↑ev := by
  rw [coe_add, Multiset.coe_eq_coe]
  simpa using List.filter_append_perm (· ∈ pub) ev

theorem Work.held {ev pub ev' pub' : List Id} {todo todo' : Todo Id}
    (h : Work o s ev pub todo s' ev' pub' todo') {rest : Multiset Id}
    (hheld : ↑s.queue + (↑ev + rest) + ↑s.completed = s.held.val) :
    ↑s'.queue + (↑ev' + rest) + ↑s'.completed = s'.held.val := by
  cases h with
  | retryable now =>
    unfold State.retry
    split <;> exact hheld
  | abort =>
    rw [State.abort_held hheld]
    simp [State.abort]
  | transfer _ =>
    rw [← hheld]
    simp only [← coe_add]
    rw [← coe_filter_add ev pub]
    abel
  | _ => exact hheld

theorem Progress.held {d d' : Drain Id} (h : Progress s d s' d') {rest : Multiset Id}
    (hheld : ↑s.queue + (↑d.events + rest) + ↑s.completed = s.held.val) :
    ↑s'.queue + (↑d'.events + rest) + ↑s'.completed = s'.held.val := by
  cases h with
  | drain _ _ =>
    rw [← hheld]
    simp only [Drain.events, coe_nil]
    abel
  | abort =>
    rw [State.abort_held hheld]
    simp [State.abort, Drain.events]
  | release =>
    refine (sdiff_val ?_).symm
    rw [← hheld]
    simp only [Drain.events, coe_nil]
    abel
  | _ => exact hheld

theorem Act.held (h : Act o s rest t s' new)
    {others : Multiset Id} (hheld : ↑s.queue + (t.owned + others) + ↑s.completed = s.held.val) :
    ↑s'.queue + ((new.map Thread.owned).sum + others) + ↑s'.completed = s'.held.val := by
  cases h with
  | work hw => simpa [Thread.owned] using hw.held hheld
  | progress hp => simpa [Thread.owned] using hp.held hheld
  | @poll c examined events clock =>
    obtain ⟨ids, heq, hnodup, hmem, -⟩ := s.poll_spec (o := o) clock c examined events
    simp only [heq, map_singleton, sum_singleton, Thread.owned] at hheld ⊢
    have hdis : Disjoint s.held ids.toFinset :=
      Finset.disjoint_right.2 fun id hid => (hmem id (List.mem_toFinset.1 hid)).2
    rw [← Finset.disjUnion_eq_union _ _ hdis, Finset.disjUnion_val, ← hheld, List.toFinset_val,
      hnodup.dedup, ← coe_add]
    abel
  | pollAbort =>
    rw [State.abort_held hheld]
    simp [State.abort, Thread.owned]
  | startFail =>
    rw [State.abort_held hheld]
    simp [State.abort, Thread.owned]
  | take capability capability' _ _ _ =>
    simp only [map_singleton, sum_singleton, Thread.owned] at hheld ⊢
    rw [← hheld]
    nth_rewrite 3 [← List.take_append_drop (o.take capability) s.queue]
    rw [← coe_add]
    abel
  | @finish ev pub =>
    refine (sdiff_val ?_).symm
    rw [← hheld]
    simp only [map_singleton, sum_singleton, Thread.owned]
    abel
  | stop =>
    refine (sdiff_val ?_).symm
    rw [← hheld]
    simp only [map_singleton, sum_singleton, Thread.owned, coe_nil]
    abel
  | writerStop => simpa [Thread.owned, Drain.events] using hheld
  | _ => simpa [Thread.owned] using hheld

/-! ## What the threads know -/

omit [LinearOrder Id] in
theorem Todo.ids_of_unsent {id : Id} {todo : Todo Id} (h : id ∈ todo.unsent) : id ∈ todo.ids := by
  induction todo with
  | gather | scalar => exact h
  | send ids next ih =>
    rcases List.mem_append.1 h with h | h
    · exact List.mem_append_left _ h
    · exact List.mem_append_right _ (ih h)
  | sent ids next ih => exact List.mem_append_right _ (ih h)
  | apply results next ih => exact List.mem_append_right _ (ih h)
  | quarantine id' next ih | settle id' next ih => exact List.mem_cons_of_mem _ (ih h)
  | abort next ih => exact ih h
  | _ => cases h

section

variable {log log' : List (Entry Id)} {ev pub : List Id} {todo todo' : Todo Id}

omit [LinearOrder Id]

theorem Working.frame (h : Working log ev pub todo) (hsub : log ⊆ log')
    (hmarked : ∀ id ∈ ev, Marked log' id → Marked log id) : Working log' ev pub todo where
  ids := h.ids
  unsent id hid hm := h.unsent id hid (hmarked id (h.ids id (Todo.ids_of_unsent hid)) hm)
  results id hid := (h.results id hid).mono hsub
  confirmed id hid := (h.confirmed id hid).mono hsub
  published := h.published

theorem Working.weaken (h : Working log ev pub todo) (hids : ∀ id ∈ todo'.ids, id ∈ todo.ids)
    (hunsent : ∀ id ∈ todo'.unsent, id ∈ todo.unsent)
    (hresults : ∀ x ∈ todo'.results, x ∈ todo.results) (hfinish : todo = .finish → todo' = .finish) :
    Working log ev pub todo' where
  ids id hid := h.ids id (hids id hid)
  unsent id hid := h.unsent id (hunsent id hid)
  results id hid := h.results id (hresults _ hid)
  confirmed := h.confirmed
  published := h.published.imp_left hfinish

theorem mem_results {ids : List Id} {reply : List PublishStatus} {x : Id × PublishStatus}
    (h : x ∈ results ids reply) : x.1 ∈ ids ∧
      (x.2 = .published → reply.length = ids.length ∧ x ∈ ids.zip reply) := by
  unfold results at h
  split at h
  · next hlen => exact ⟨(List.of_mem_zip h).1, fun _ => ⟨hlen, h⟩⟩
  · grind

end

theorem Work.working {ev pub ev' pub' : List Id} {todo todo' : Todo Id}
    (h : Work o s ev pub todo s' ev' pub' todo') (hw : Working s.log ev pub todo) :
    Working s'.log ev' pub' todo' := by
  cases h with
  | @send ids next =>
    refine (hw.frame (List.subset_cons_self _ _) (by simp)).weaken ?_ ?_ ?_ (by simp)
    · simp [Todo.ids]
    · simp +contextual [Todo.unsent]
    · simp [Todo.results]
  | @reply ids next reply =>
    have hw' := hw.frame (List.subset_cons_self (.replied ids reply) s.log) (by simp)
    refine ⟨fun id hid => ?_, hw'.unsent, fun id hid => ?_, hw'.confirmed, ?_⟩
    · refine hw.ids id ?_
      rcases List.mem_append.1 hid with hid | hid
      · obtain ⟨x, hx, rfl⟩ := List.mem_map.1 hid
        exact List.mem_append_left _ (mem_results hx).1
      · exact List.mem_append_right _ hid
    · rcases List.mem_append.1 hid with hid | hid
      · exact ⟨ids, reply, List.mem_cons_self, (mem_results hid).2 rfl⟩
      · exact hw'.results id hid
    · exact .inr (hw'.published.resolve_left (by simp))
  | @published id rs next =>
    have hid : id ∈ ev := hw.ids id (by simp [Todo.ids])
    have hconf : Confirmed s.log id := hw.results id (by simp [Todo.results])
    have hpub := hw.published.resolve_left (by simp)
    refine ⟨fun i hi => hw.ids i ?_, hw.unsent, fun i hi => hw.results i ?_, ?_, .inr ?_⟩
    · exact List.mem_cons_of_mem _ hi
    · exact List.mem_cons_of_mem _ hi
    · simpa [or_imp, forall_and, hconf] using hw.confirmed
    · simpa [or_imp, forall_and, hid] using hpub
  | @retryable id rs next now =>
    have hnext : Working s.log ev pub (.apply rs next) :=
      hw.weaken (by simp +contextual [Todo.ids]) (by simp [Todo.unsent])
        (by simp +contextual [Todo.results]) (by simp)
    have hid : id ∈ ev := hw.ids id (by simp [Todo.ids])
    unfold State.retry
    split
    · exact hnext.weaken (by simp [Todo.ids]) (by simp [Todo.unsent]) (by simp [Todo.results]) (by simp)
    · simp only
      split
      · exact ⟨List.forall_mem_cons.2 ⟨hid, hnext.ids⟩, hnext.unsent, hnext.results, hnext.confirmed,
          .inr (hnext.published.resolve_left (by simp))⟩
      · exact hnext
  | transfer _ =>
    exact ⟨by simp [Todo.ids], by simp [Todo.unsent], by simp [Todo.results], hw.confirmed, .inl rfl⟩
  | mark | markShort =>
    have hsub := (s.markEventsPublished_log pub).1
    exact ⟨by simp [Todo.ids], by simp [Todo.unsent], by simp [Todo.results],
      fun id hid => (hw.confirmed id hid).mono hsub, .inr (hw.published.resolve_left (by simp))⟩
  | markFail =>
    exact ⟨by simp [Todo.ids], by simp [Todo.unsent], by simp [Todo.results],
      fun id hid => (hw.confirmed id hid).mono (List.subset_cons_self _ _),
      .inr (hw.published.resolve_left (by simp))⟩
  | gatherReject _ _ =>
    exact hw.weaken (by grind [Todo.ids]) (by grind [Todo.unsent]) (by simp [Todo.results]) (by simp)
  | _ =>
    exact hw.weaken (by simp +contextual [Todo.ids]) (by simp +contextual [Todo.unsent])
      (by simp +contextual [Todo.results]) (by simp_all)

theorem Progress.confirmed {d d' : Drain Id} (h : Progress s d s' d')
    (hcompleted : ∀ id ∈ s.completed, Confirmed s.log id)
    (hd : ∀ id ∈ d.events, Confirmed s.log id) : ∀ id ∈ d'.events, Confirmed s'.log id := by
  have hsub := h.log.1
  cases h with
  | drain _ _ => exact hcompleted
  | release => simp [Drain.events]
  | _ => exact fun id hid => (hd id hid).mono hsub

omit [LinearOrder Id] in
theorem startTodo_ids (capability : ℕ) (events : List Id) :
    (startTodo capability events).ids = events ∧ (startTodo capability events).unsent = events ∧
      (startTodo capability events).results = [] := by
  unfold startTodo
  split
  · exact ⟨rfl, rfl, rfl⟩
  · exact ⟨rfl, rfl, rfl⟩

theorem State.scan_pending {ready : Finset Id} {cursor : Option Id} {id : Id}
    (h : id ∈ (s.scan o ready cursor).2) : id ∈ s.pending := by
  simp only [State.scan, pendingPage, List.mem_filter, decide_eq_true_eq] at h
  exact h.2.1

theorem Act.fine (h : Act o s rest t s' new)
    (hs : Sound o s) (ht : t.Fine s) : ∀ t' ∈ new, t'.Fine s' := by
  cases h with
  | work hw => simpa [Thread.Fine] using hw.working ht
  | progress hp => simpa [Thread.Fine] using hp.confirmed hs.completed ht
  | @scan c ready _ _ _ _ =>
    simp only [mem_singleton, forall_eq]
    exact ⟨rfl, fun id hid _ hm => (hs.marked id hm).2.1 (State.scan_pending hid)⟩
  | take capability capability' _ _ _ =>
    obtain ⟨hids, hunsent, hresults⟩ :=
      startTodo_ids capability' (s.queue.take (o.take capability))
    simp only [mem_singleton, forall_eq]
    refine ⟨?_, ?_, ?_, by simp, .inr (by simp)⟩
    · exact fun id hid => hids ▸ hid
    · exact fun id hid => hs.queue id (List.mem_of_mem_take (hunsent ▸ hid))
    · simp [hresults]
  | _ => simp [Thread.Fine]

theorem Act.scanning (h : Act o s rest t s' new)
    (ht : t.isScanner = false) (hs : s.scanning = true) : s'.scanning = true := by
  cases h with
  | work hw =>
    cases hw with
    | retryable now =>
      unfold State.retry
      split <;> exact hs
    | _ => exact hs
  | progress hp => cases hp <;> exact hs
  | poll => cases ht
  | scan => rfl
  | _ => exact hs

theorem Act.frame {u : Thread Id} (h : Act o s rest t s' new)
    (hmutex : Mutex s t s') (ht : t.Fine s) (hu : u.Fine s)
    (hscan : u.isScanner = true → t.isScanner = false)
    (hheld : ∀ id ∈ t.owned, id ∈ s.held) (hapart : ∀ id ∈ u.owned, id ∉ t.owned) : u.Fine s' := by
  obtain ⟨hsub, hmarked⟩ := h.log ht
  cases u with
  | busy ev pub todo =>
    exact Working.frame hu hsub fun id hid hm =>
      (hmarked id hm).resolve_right (hapart id (mem_coe.2 hid))
  | writer d => exact fun id hid => (hu id hid).mono hsub
  | scanned c examined events =>
    obtain ⟨hlock, hev⟩ := hu
    have hscanner := hscan rfl
    obtain ⟨-, -, hsame, -⟩ := hmutex hlock hscanner
    refine ⟨h.scanning hscanner hlock, fun id hid hnot hm => ?_⟩
    rw [hsame] at hnot
    rcases hmarked id hm with hm | hm
    · exact hev id hid hnot hm
    · exact hnot (hheld id hm)
  | _ => trivial

/-! ## What the shared state keeps -/

omit [LinearOrder Id] in
theorem Sound.shrink (hs : Sound o s) (hheld : s'.held ⊆ s.held) (hpending : s'.pending = s.pending)
    (hquarantined : s'.quarantined = s.quarantined) (htaken : s'.taken = s.taken)
    (hqueue : s'.queue ⊆ s.queue) (hcompleted : s'.completed ⊆ s.completed)
    (hlog : s'.log = s.log) : Sound o s' where
  bounded := (Finset.card_le_card hheld).trans hs.bounded
  pending := by rw [hpending, htaken]; exact hs.pending
  quarantined := by rw [hquarantined, htaken]; exact hs.quarantined
  apart := by rw [hpending, hquarantined]; exact hs.apart
  marked := by rw [hlog, htaken, hpending, hquarantined]; exact hs.marked
  queue := by rw [hlog]; exact fun id hid => hs.queue id (hqueue hid)
  completed := by rw [hlog]; exact fun id hid => hs.completed id (hcompleted hid)
  orderly := by rw [hlog]; exact hs.orderly

theorem Sound.abort (hs : Sound o s) : Sound o s.abort :=
  hs.shrink (Finset.sdiff_subset.trans Finset.sdiff_subset) rfl rfl rfl (List.nil_subset _)
    (List.nil_subset _) rfl

omit [LinearOrder Id] in
theorem Sound.note (hs : Sound o s) {e : Entry Id}
    (hmarked : ∀ id, Marked (e :: s.log) id → Marked s.log id) (horderly : Orderly (e :: s.log)) : Sound o { s with log := e :: s.log } where
  bounded := hs.bounded
  pending := hs.pending
  quarantined := hs.quarantined
  apart := hs.apart
  marked id hid := hs.marked id (hmarked id hid)
  queue id hid hm := hs.queue id hid (hmarked id hm)
  completed id hid := (hs.completed id hid).mono (List.subset_cons_self _ _)
  orderly := horderly

theorem Sound.markEventsPublished (hs : Sound o s) {ids : List Id}
    (hconfirmed : ∀ id ∈ ids, Confirmed s.log id) (hqueue : ∀ id ∈ ids, id ∉ s.queue) :
    Sound o (s.markEventsPublished ids) where
  bounded := hs.bounded
  pending := Finset.sdiff_subset.trans hs.pending
  quarantined := hs.quarantined
  apart := hs.apart.mono_left Finset.sdiff_subset
  marked id hid := by
    rcases marked_marked.1 hid with hid | hid
    · obtain ⟨hids, hpending⟩ := Finset.mem_inter.1 hid
      exact ⟨hs.pending hpending, fun h => (Finset.mem_sdiff.1 h).2 hids,
        Finset.disjoint_left.1 hs.apart hpending⟩
    · obtain ⟨htaken, hpending, hquarantined⟩ := hs.marked id hid
      exact ⟨htaken, fun h => hpending (Finset.mem_sdiff.1 h).1, hquarantined⟩
  queue id hid hm := by
    rcases marked_marked.1 hm with hm | hm
    · exact hqueue id (List.mem_toFinset.1 (Finset.mem_inter.1 hm).1) hid
    · exact hs.queue id hid hm
  completed id hid := (hs.completed id hid).mono (List.subset_cons_self _ _)
  orderly := ⟨hconfirmed, hs.orderly⟩

theorem Sound.quarantine (hs : Sound o s) {id : Id} (hid : id ∈ s.pending) :
    Sound o { s with pending := s.pending.erase id, quarantined := insert id s.quarantined } where
  bounded := hs.bounded
  pending := (Finset.erase_subset _ _).trans hs.pending
  quarantined := Finset.insert_subset (hs.pending hid) hs.quarantined
  apart := Finset.disjoint_insert_right.2 ⟨Finset.notMem_erase id _,
    hs.apart.mono_left (Finset.erase_subset _ _)⟩
  marked i hi := by
    obtain ⟨htaken, hpending, hquarantined⟩ := hs.marked i hi
    grind
  queue := hs.queue
  completed := hs.completed
  orderly := hs.orderly

theorem Work.sound {ev pub ev' pub' : List Id} {todo todo' : Todo Id}
    (h : Work o s ev pub todo s' ev' pub' todo') (hs : Sound o s) (hw : Working s.log ev pub todo)
    (hqueue : ∀ id ∈ ev, id ∉ s.queue) : Sound o s' := by
  cases h with
  | @send ids next =>
    refine hs.note (by simp) ⟨fun id hid => ?_, hs.orderly⟩
    exact hw.unsent id (List.mem_append_left _ hid)
  | reply _ => exact hs.note (by simp) hs.orderly
  | retryable now =>
    unfold State.retry
    split <;> exact hs.shrink (Finset.Subset.refl _) rfl rfl rfl (List.Subset.refl _)
      (List.Subset.refl _) rfl
  | quarantine hid => exact hs.quarantine hid
  | settle | marked =>
    exact hs.shrink (Finset.Subset.refl _) rfl rfl rfl (List.Subset.refl _) (List.Subset.refl _) rfl
  | abort => exact hs.abort
  | transfer _ =>
    exact ⟨hs.bounded, hs.pending, hs.quarantined, hs.apart, hs.marked, hs.queue,
      fun id hid => (List.mem_append.1 hid).elim (hs.completed id) fun h =>
        hw.confirmed id (by simpa using (List.mem_filter.1 h).2), hs.orderly⟩
  | mark | markShort =>
    have hpub := hw.published.resolve_left (by simp)
    exact hs.markEventsPublished hw.confirmed fun id hid => hqueue id (hpub id hid)
  | markFail => exact hs.note (by simp) ⟨hw.confirmed, hs.orderly⟩
  | _ => exact hs

theorem Progress.sound {d d' : Drain Id} (h : Progress s d s' d') (hs : Sound o s)
    (hd : ∀ id ∈ d.events, Confirmed s.log id) (hqueue : ∀ id ∈ d.events, id ∉ s.queue) :
    Sound o s' := by
  cases h with
  | drain _ _ =>
    exact hs.shrink (Finset.Subset.refl _) rfl rfl rfl (List.Subset.refl _) (List.nil_subset _) rfl
  | mark | markShort => exact hs.markEventsPublished hd hqueue
  | markFail => exact hs.note (by simp) ⟨hd, hs.orderly⟩
  | marked =>
    exact hs.shrink (Finset.Subset.refl _) rfl rfl rfl (List.Subset.refl _) (List.Subset.refl _) rfl
  | abort => exact hs.abort
  | release =>
    exact hs.shrink Finset.sdiff_subset rfl rfl rfl (List.Subset.refl _) (List.Subset.refl _) rfl
  | _ => exact hs

/-- A step keeps the shared state sound; what its thread owns is not in the queue. -/
theorem Act.sound (h : Act o s rest t s' new)
    (hs : Sound o s) (ht : t.Fine s) (hqueue : ∀ id ∈ t.owned, id ∉ s.queue) : Sound o s' := by
  cases h with
  | work hw => exact hw.sound hs ht hqueue
  | progress hp => exact hp.sound hs ht hqueue
  | @poll c examined events clock =>
    obtain ⟨ids, heq, hnodup, hmem, hcard⟩ := s.poll_spec (o := o) clock c examined events
    simp only [heq]
    refine ⟨?_, hs.pending, hs.quarantined, hs.apart, hs.marked, fun id hid => ?_, hs.completed,
      hs.orderly⟩
    · calc (s.held ∪ ids.toFinset).card ≤ s.held.card + ids.toFinset.card := Finset.card_union_le _ _
        _ ≤ s.held.card + ids.length := Nat.add_le_add_left (List.toFinset_card_le ids) _
        _ ≤ o.maxHeld := hcard hs.bounded
    · rcases List.mem_append.1 hid with hid | hid
      · exact hs.queue id hid
      · exact ht.2 id (hmem id hid).1 (hmem id hid).2
  | pollAbort => exact hs.abort
  | startFail => exact hs.abort
  | take capability _ _ _ _ =>
    exact hs.shrink (Finset.Subset.refl _) rfl rfl rfl (List.drop_subset _ _) (List.Subset.refl _) rfl
  | finish =>
    exact hs.shrink Finset.sdiff_subset rfl rfl rfl (List.Subset.refl _) (List.Subset.refl _) rfl
  | stop => exact hs.shrink Finset.sdiff_subset rfl rfl rfl (List.nil_subset _) (List.Subset.refl _) rfl
  | @create id hid =>
    refine ⟨hs.bounded, Finset.insert_subset_insert id hs.pending,
      hs.quarantined.trans (Finset.subset_insert _ _), ?_, fun i hi => ?_, hs.queue, hs.completed,
      hs.orderly⟩
    · exact Finset.disjoint_insert_left.2 ⟨fun h => hid (hs.quarantined h), hs.apart⟩
    · obtain ⟨htaken, hpending, hquarantined⟩ := hs.marked i hi
      grind
  | requeue ids hids hdis =>
    refine ⟨hs.bounded, Finset.union_subset hs.pending (hids.trans hs.quarantined),
      Finset.sdiff_subset.trans hs.quarantined, ?_, fun i hi => ?_, hs.queue, hs.completed, hs.orderly⟩
    · exact Finset.disjoint_union_left.2 ⟨hs.apart.mono_right Finset.sdiff_subset,
        Finset.disjoint_sdiff⟩
    · obtain ⟨htaken, hpending, hquarantined⟩ := hs.marked i hi
      grind
  | _ => exact hs.shrink (Finset.Subset.refl _) rfl rfl rfl (List.Subset.refl _) (List.Subset.refl _) rfl

/-! ## Runs -/

theorem Act.scanners (h : Act o s rest t s' new) :
    (∀ t' ∈ new, t'.isScanner = false) ∨ s.scanning = false ∧ new.card = 1 := by
  cases h with
  | scan ready hscan _ _ _ => exact .inr ⟨by simpa using hscan, rfl⟩
  | _ => exact .inl (by simp [Thread.isScanner])

omit [LinearOrder Id] in
theorem mem_sum_owned {ts : Multiset (Thread Id)} {id : Id} :
    id ∈ (ts.map Thread.owned).sum ↔ ∃ t ∈ ts, id ∈ t.owned :=
  Multiset.mem_bind

theorem Owned.step {p p' : Pool (State Id) (Thread Id)} (h : Owned o p) (hs : Step o p p') :
    Owned o p' := by
  cases hs with
  | spawn hfalse => exact hfalse.elim
  | @act s s' t rest new hstep =>
    obtain ⟨hact, hmutex⟩ := hstep
    have ht := h.fine t (Multiset.mem_cons_self t rest)
    have hheld := h.held
    rw [Multiset.map_cons, Multiset.sum_cons] at hheld
    have hnodup : (↑s.queue + (t.owned + (rest.map Thread.owned).sum)).Nodup := by
      have := s.held.nodup
      rw [← hheld] at this
      exact (nodup_add.1 this).1
    obtain ⟨-, hthreads, hqueue⟩ := nodup_add.1 hnodup
    obtain ⟨-, -, hothers⟩ := nodup_add.1 hthreads
    have hcount := h.scanners
    rw [Multiset.countP_cons] at hcount
    refine ⟨hact.sound h.sound ht fun id hid hq => ?_, ?_, fun u hu => ?_, ?_⟩
    · exact disjoint_left.1 hqueue (mem_coe.2 hq) (mem_add.2 (.inl hid))
    · rw [Multiset.map_add, sum_add]
      exact hact.held hheld
    · rcases mem_add.1 hu with hu | hu
      · exact hact.fine h.sound ht u hu
      · refine hact.frame hmutex ht (h.fine u (mem_cons_of_mem hu)) (fun hscan => ?_)
          (fun id hid => ?_) fun id hid hown => ?_
        · -- at most one thread scans, and it is the other one
          have hpos : 0 < rest.countP fun t => t.isScanner = true := Multiset.countP_pos.2 ⟨u, hu, hscan⟩
          by_contra hne
          rw [if_pos (by simpa using hne)] at hcount
          omega
        · rw [← Finset.mem_val, ← hheld]
          simp [hid]
        · exact disjoint_left.1 hothers hown
            (mem_sum_owned.2 ⟨u, hu, hid⟩)
    · simp only [Multiset.countP_add]
      rcases hact.scanners with hnone | ⟨hscan, hcard⟩
      · have hzero : new.countP (fun t => t.isScanner = true) = 0 :=
          countP_eq_zero.2 fun u hu => by simp [hnone u hu]
        omega
      · have hzero : rest.countP (fun t => t.isScanner = true) = 0 := by
          refine countP_eq_zero.2 fun u hu hu' => ?_
          have hfine := h.fine u (mem_cons_of_mem hu)
          cases u with
          | scanned => exact absurd (hscan.symm.trans hfine.1) (by decide)
          | _ => cases hu'
        have := Multiset.countP_le_card (fun t : Thread Id => t.isScanner = true) new
        omega

omit [LinearOrder Id] in
theorem mem_startThreads (h : t ∈ startThreads o) :
    t.owned = 0 ∧ t.isScanner = false ∧ ∀ s, t.Fine s := by
  unfold startThreads at h
  have hcases : t = .poller none ∨ t = .stopper ∨ t = .outside ∨ t = .idle ∨ t = .writer .waiting := by
    rcases mem_add.1 h with h | h
    · rcases mem_add.1 h with h | h
      · simpa [or_assoc] using Or.inl h
      · simp [Multiset.eq_of_mem_replicate h]
    · split at h
      · simp [mem_singleton.1 h]
      · cases notMem_zero t h
  rcases hcases with rfl | rfl | rfl | rfl | rfl <;>
    simp [Thread.owned, Thread.isScanner, Thread.Fine, Drain.events]

theorem start_owned {pending quarantined : Finset Id} (hapart : Disjoint pending quarantined)
    {ts : Multiset (Thread Id)} (hts : ts ≤ startThreads o) :
    Owned o ⟨start pending quarantined, ts⟩ where
  sound := ⟨Nat.zero_le _, Finset.subset_union_left, Finset.subset_union_right, hapart,
    by simp [start], by simp [start], by simp [start], trivial⟩
  held := by
    have hzero : (ts.map Thread.owned).sum = 0 := by
      refine Multiset.eq_zero_of_forall_notMem fun id hid => ?_
      obtain ⟨t, ht, hid⟩ := mem_sum_owned.1 hid
      rw [(mem_startThreads (mem_of_le hts ht)).1] at hid
      exact notMem_zero id hid
    simp [hzero, start]
  fine t ht := (mem_startThreads (mem_of_le hts ht)).2.2 _
  scanners := by
    have hzero : ts.countP (fun t => t.isScanner = true) = 0 :=
      countP_eq_zero.2 fun t ht => by
        simp [(mem_startThreads (mem_of_le hts ht)).2.1]
    simp [hzero]

/-- In every interleaving the queue, the workers, the completed events and the progress writer own
each held event exactly once, the relay holds no more events than it may, it marks only events that
the publisher confirmed before, and an event that is marked is not submitted again. -/
theorem relay_owns_each_event_once (o : Options Id) {pending quarantined : Finset Id}
    (hapart : Disjoint pending quarantined) {ts : Multiset (Thread Id)} (hts : ts ≤ startThreads o)
    {p : Pool (State Id) (Thread Id)}
    (hrun : Relation.ReflTransGen (Step o) ⟨start pending quarantined, ts⟩ p) :
    (↑p.shared.queue + (p.threads.map Thread.owned).sum + ↑p.shared.completed).Nodup ∧
      (∀ id, id ∈ p.shared.held ↔
        id ∈ p.shared.queue ∨ (∃ t ∈ p.threads, id ∈ t.owned) ∨ id ∈ p.shared.completed) ∧
      p.shared.held.card ≤ o.maxHeld ∧
      ∀ post ids removed pre, p.shared.log = post ++ .marked ids removed :: pre →
        (∀ id ∈ ids, Confirmed pre id) ∧
          ∀ id ∈ removed, ∀ ids', .submitted ids' ∈ post → id ∉ ids' := by
  have h : Owned o p := by
    induction hrun with
    | refl => exact start_owned hapart hts
    | tail _ hs ih => exact ih.step hs
  refine ⟨?_, fun id => ?_, h.sound.bounded, fun post ids removed pre hlog => ?_⟩
  · rw [h.held]
    exact p.shared.held.nodup
  · rw [← Finset.mem_val, ← h.held]
    simp [or_assoc, mem_sum_owned]
  · have horderly := h.sound.orderly
    rw [hlog] at horderly
    exact horderly.at_mark

/-! ## One event on its way -/

theorem Act.step {t' : Thread Id} (h : Act o s rest t s' {t'})
    (hmutex : Mutex s t s') : Step o ⟨s, t ::ₘ rest⟩ ⟨s', t' ::ₘ rest⟩ := by
  rw [← Multiset.singleton_add t' rest]
  exact .act ⟨h, hmutex⟩

def sampleOptions : Options ℕ where
  workers := 1
  maxHeld := 1
  scanPage := 1
  maxRetryEntries := 1
  progressBatchSize := 1
  maxAttempts := 2
  retryBase := 20
  retryMax := 5000
  heldFilter := true
  demandPage := true
  detachedProgress := false
  capabilityTake := false
  indexed := false
  supported := fun _ => true

def sampleState (queue : List ℕ) (held : Finset ℕ) (log : List (Entry ℕ)) : State ℕ :=
  { start {7} ∅ with queue := queue, held := held, log := log }

def sampleMarked : Pool (State ℕ) (Thread ℕ) where
  shared := (sampleState [] {7} [.replied [7] [.published], .submitted [7]]).markEventsPublished [7]
  threads := {.busy [7] [7] .marked, .poller (some 7)}

theorem sampleScan : (start {7} ∅ : State ℕ).scan sampleOptions {7} none = ([7], [7]) := by
  simp [State.scan, pendingPage, sampleOptions, start]

theorem sampleMarked_reachable : Relation.ReflTransGen (Step sampleOptions)
    ⟨start {7} ∅, {.poller none, .idle}⟩ sampleMarked := by
  have hfree : ∀ {s s' : State ℕ} {t : Thread ℕ}, s.scanning = false → Mutex s t s' := by
    intro s s' t hs hscan
    rw [hs] at hscan
    cases hscan
  have hscan : Step sampleOptions ⟨start {7} ∅, .poller none ::ₘ {.idle}⟩
      ⟨{ start {7} ∅ with scanning := true }, .scanned none [7] [7] ::ₘ {.idle}⟩ := by
    have hact : Act sampleOptions (start {7} ∅) {.idle} (.poller none) _ _ :=
      .scan {7} (by decide) (by decide) (by decide) fun _ => rfl
    rw [sampleScan] at hact
    exact hact.step (hfree rfl)
  have hpoll : Step sampleOptions
      ⟨{ start {7} ∅ with scanning := true }, .scanned none [7] [7] ::ₘ {.idle}⟩
      ⟨sampleState [7] {7} [], .poller (some 7) ::ₘ {.idle}⟩ :=
    Act.step (.poll fun _ => 0) fun _ h => by cases h
  have htake : Step sampleOptions ⟨sampleState [7] {7} [], .idle ::ₘ {.poller (some 7)}⟩
      ⟨sampleState [] {7} [], .busy [7] [] (.scalar [7]) ::ₘ {.poller (some 7)}⟩ :=
    Act.step (.take 1 1 (by decide) (by decide) fun _ => rfl) (hfree rfl)
  have hwork : ∀ {s s' : State ℕ} {pub pub' : List ℕ} {todo todo' : Todo ℕ}, s.scanning = false →
      Work sampleOptions s [7] pub todo s' [7] pub' todo' →
      Step sampleOptions ⟨s, .busy [7] pub todo ::ₘ {.poller (some 7)}⟩
        ⟨s', .busy [7] pub' todo' ::ₘ {.poller (some 7)}⟩ :=
    fun hs hw => Act.step (.work hw) (hfree hs)
  refine .head hscan (.head hpoll ?_)
  rw [← cons_zero, Multiset.cons_swap, cons_zero]
  refine .head htake (.head (hwork rfl (.scalarSend (by decide) rfl)) ?_)
  refine .head (hwork rfl .send) (.head (hwork rfl (.reply [.published])) ?_)
  refine .head (hwork rfl .published) (.head (hwork rfl .applied) ?_)
  refine .head (hwork rfl .scalarDone) (.head (hwork rfl (.closeMark (by decide) (by decide) rfl)) ?_)
  exact .single (hwork rfl (.mark (by decide)))

theorem relay_owns_each_event_once_marked :
    sampleMarked.shared.log = [] ++ .marked [7] {7} ::
        [.replied [7] [.published], .submitted [7]] ∧
      Confirmed [.replied [7] [.published], .submitted [7]] 7 := by
  have hthreads : ({.poller none, .idle} : Multiset (Thread ℕ)) ≤ startThreads sampleOptions :=
    Multiset.coe_le.2 (List.Sublist.subperm (.cons_cons _ (.cons _ (.cons _ (.refl _)))))
  refine ⟨rfl, ?_⟩
  exact ((relay_owns_each_event_once sampleOptions (Finset.disjoint_empty_right {7}) hthreads
    sampleMarked_reachable).2.2.2 [] [7] {7} _ rfl).1 7 (by simp)

end TinyImx.Local.Relay
