import Mathlib.Algebra.Order.Group.Multiset
import Mathlib.Data.Finset.Card
import Mathlib.Tactic.Abel
import TinyImx.Gateway.PeerTransport

/-!
# The ledger of a request table

What a transport does with its requests, whatever calls whom: a request waits until it is rejected or
listed under a sequence number; a listed one is completed by a response or a timeout, or is drained and
then completed.  The order of tables and queues is left out.
-/

namespace TinyImx.Gateway.PeerTransport

open Multiset (coe_add cons_add le_cons_self map_cons map_le_map mem_add mem_cons mem_cons_of_mem
  mem_cons_self mem_map mem_of_le nodup_cons nodup_of_le singleton_add)

variable {ρ : Type}

structure Entry where
  kind : Kind
  sequence : UInt32
  id : ℕ
  timer : Option ℕ

@[ext] structure Ledger (ρ : Type) where
  waiting : Multiset ℕ
  listed : Multiset Entry
  drained : Multiset Entry
  timers : List Timer
  nextTimer : ℕ
  nextId : ℕ
  events : List (Event ρ)

def Event.completedId : Event ρ → Option ℕ
  | .given _ _ _ => none
  | .completed id _ _ => some id

def Event.givenId : Event ρ → Option ℕ
  | .given id _ _ => some id
  | .completed _ _ _ => none

def completedIds (events : List (Event ρ)) : Multiset ℕ := ↑(events.filterMap Event.completedId)

def givenIds (events : List (Event ρ)) : Multiset ℕ := ↑(events.filterMap Event.givenId)

@[simp] theorem completedIds_given (events : List (Event ρ)) (id : ℕ) (kind : Kind)
    (sequence : UInt32) :
    completedIds (events ++ [.given id kind sequence]) = completedIds events := by
  rw [completedIds, List.filterMap_append]
  exact congrArg _ (List.append_nil _)

@[simp] theorem completedIds_completed (events : List (Event ρ)) (id : ℕ) (cause : Cause)
    (result : Result ρ) :
    completedIds (events ++ [.completed id cause result]) = id ::ₘ completedIds events := by
  rw [completedIds, List.filterMap_append, ← coe_add, add_comm]
  rfl

@[simp] theorem givenIds_given (events : List (Event ρ)) (id : ℕ) (kind : Kind) (sequence : UInt32) :
    givenIds (events ++ [.given id kind sequence]) = id ::ₘ givenIds events := by
  rw [givenIds, List.filterMap_append, ← coe_add, add_comm]
  rfl

@[simp] theorem givenIds_completed (events : List (Event ρ)) (id : ℕ) (cause : Cause)
    (result : Result ρ) :
    givenIds (events ++ [.completed id cause result]) = givenIds events := by
  rw [givenIds, List.filterMap_append]
  exact congrArg _ (List.append_nil _)

/-! ## Moves -/

def cancelled (timers : List Timer) (timer : Option ℕ) : List Timer :=
  timers.filter fun t => some t.id ≠ timer

inductive Move : Ledger ρ → Ledger ρ → Prop
  | stay (l : Ledger ρ) : Move l l
  | submit (l : Ledger ρ) :
      Move l { l with waiting := l.nextId ::ₘ l.waiting, nextId := l.nextId + 1 }
  | reject {l : Ledger ρ} {waiting : Multiset ℕ} {id : ℕ} (h : l.waiting = id ::ₘ waiting)
      (result : Result ρ) :
      Move l { l with
        waiting := waiting
        events := l.events ++ [.completed id .failure result] }
  | list {l : Ledger ρ} {waiting : Multiset ℕ} {entry : Entry} (h : l.waiting = entry.id ::ₘ waiting)
      (hne : entry.sequence ≠ 0) (hfree : ∀ e ∈ l.listed, e.sequence ≠ entry.sequence)
      (timers : List Timer) (htimers : timers = l.timers ∨ entry.timer = some l.nextTimer ∧
        timers = l.timers ++ [⟨l.nextTimer, entry.kind, entry.sequence, entry.id⟩]) :
      Move l { l with
        waiting := waiting
        listed := entry ::ₘ l.listed
        timers := timers
        nextTimer := l.nextTimer + 1
        events := l.events ++ [.given entry.id entry.kind entry.sequence] }
  | respond {l : Ledger ρ} {listed : Multiset Entry} {entry : Entry} (h : l.listed = entry ::ₘ listed)
      (result : Result ρ) :
      Move l { l with
        listed := listed
        timers := cancelled l.timers entry.timer
        events := l.events ++ [.completed entry.id (.response entry.kind entry.sequence) result] }
  | timeout {l : Ledger ρ} {listed : Multiset Entry} {entry : Entry} {timer : Timer}
      (h : l.listed = entry ::ₘ listed) (hidle : l.drained = 0) (htimer : timer ∈ l.timers)
      (hkind : entry.kind = timer.kind) (hsequence : entry.sequence = timer.sequence)
      (result : Result ρ) :
      Move l { l with
        listed := listed
        timers := cancelled l.timers (some timer.id)
        events := l.events ++ [.completed entry.id (.timeout timer) result] }
  | drain {l : Ledger ρ} {taken listed : Multiset Entry} (h : l.listed = taken + listed) :
      Move l { l with listed := listed, drained := taken + l.drained }
  | fail {l : Ledger ρ} {drained : Multiset Entry} {entry : Entry} (h : l.drained = entry ::ₘ drained)
      (result : Result ρ) :
      Move l { l with
        drained := drained
        timers := cancelled l.timers entry.timer
        events := l.events ++ [.completed entry.id .failure result] }

/-! ## The invariant -/

namespace Ledger

variable (l : Ledger ρ)

def held : Multiset Entry := l.listed + l.drained

def ids : Multiset ℕ := l.waiting + l.held.map Entry.id + completedIds l.events

end Ledger

def Timer.For (t : Timer) (entry : Entry) : Prop :=
  entry.timer = some t.id ∧ entry.kind = t.kind ∧ entry.sequence = t.sequence ∧ entry.id = t.owner

def Cause.Meant (events : List (Event ρ)) (id : ℕ) : Cause → Prop
  | .response kind sequence => .given id kind sequence ∈ events
  | .timeout timer => .given id timer.kind timer.sequence ∈ events ∧ timer.owner = id
  | .failure => True

structure Ledger.Inv (l : Ledger ρ) : Prop where
  sequences : (l.listed.map Entry.sequence).Nodup
  nonzero : ∀ entry ∈ l.listed, entry.sequence ≠ 0
  once : l.ids.Nodup
  fresh : ∀ id ∈ l.ids, id < l.nextId
  given : ∀ entry ∈ l.held, .given entry.id entry.kind entry.sequence ∈ l.events
  givenOnce : (l.waiting + givenIds l.events).Nodup
  givenFresh : ∀ id ∈ givenIds l.events, id < l.nextId
  givenNonzero : ∀ id kind sequence, .given id kind sequence ∈ l.events → sequence ≠ 0
  meant : ∀ id cause result, .completed id cause result ∈ l.events → cause.Meant l.events id
  armed : ∀ timer ∈ l.timers, ∃ entry ∈ l.held, timer.For entry
  timerOnce : (l.timers.map Timer.id).Nodup
  timerFresh : ∀ timer ∈ l.timers, timer.id < l.nextTimer

/-! ## The moves keep the invariant -/

variable {l l' : Ledger ρ} {events : List (Event ρ)}

theorem Cause.Meant.mono {id : ℕ} {cause : Cause} (h : cause.Meant events id) (event : Event ρ) :
    cause.Meant (events ++ [event]) id := by
  cases cause with
  | response kind sequence => exact List.mem_append_left _ h
  | timeout timer => exact ⟨List.mem_append_left _ h.1, h.2⟩
  | failure => trivial

theorem given_of_completed {id i : ℕ} {kind : Kind} {n : UInt32} {cause : Cause} {result : Result ρ}
    (h : .given i kind n ∈ events ++ [.completed id cause result]) : .given i kind n ∈ events := by
  rcases List.mem_append.1 h with h | h
  · exact h
  · cases List.mem_singleton.1 h

theorem mem_cancelled {timers : List Timer} {timer : Option ℕ} {t : Timer} :
    t ∈ cancelled timers timer ↔ t ∈ timers ∧ some t.id ≠ timer := by
  simp [cancelled]

namespace Ledger.Inv

theorem eq_of_sequence (h : l.Inv) {e e' : Entry} (he : e ∈ l.listed) (he' : e' ∈ l.listed)
    (heq : e.sequence = e'.sequence) : e = e' :=
  Multiset.inj_on_of_nodup_map h.sequences e he e' he' heq

theorem of_ids (h : l.Inv) {ids : Multiset ℕ} (hids : l.ids = ids) :
    ids.Nodup ∧ ∀ id ∈ ids, id < l.nextId :=
  hids ▸ ⟨h.once, h.fresh⟩

theorem finish (h : l.Inv) {entry : Entry} {listed drained : Multiset Entry} {cause : Cause}
    (hheld : l.held = entry ::ₘ (listed + drained)) (hlisted : listed ≤ l.listed)
    (hcause : cause.Meant l.events entry.id) (result : Result ρ) :
    Ledger.Inv { l with
      listed := listed
      drained := drained
      timers := cancelled l.timers entry.timer
      events := l.events ++ [.completed entry.id cause result] } := by
  have hids : l.ids = l.waiting + (listed + drained).map Entry.id +
      completedIds (l.events ++ [.completed entry.id cause result]) := by
    rw [Ledger.ids, hheld, map_cons, completedIds_completed, ← singleton_add,
      ← singleton_add]
    abel
  have hsub : ∀ e ∈ listed + drained, e ∈ l.held := fun e he => by
    rw [hheld]
    exact mem_cons_of_mem he
  obtain ⟨honce, hfresh⟩ := h.of_ids hids
  refine ⟨nodup_of_le (map_le_map hlisted) h.sequences,
    fun e he => h.nonzero e (mem_of_le hlisted he), honce, hfresh,
    fun e he => List.mem_append_left _ (h.given e (hsub e he)), ?_, ?_, fun id kind n hmem => ?_,
    fun id c r hmem => ?_, fun timer htimer => ?_, ?_,
    fun timer htimer => h.timerFresh timer (mem_cancelled.1 htimer).1⟩
  · rw [givenIds_completed]
    exact h.givenOnce
  · rw [givenIds_completed]
    exact h.givenFresh
  · exact h.givenNonzero id kind n (given_of_completed hmem)
  · rcases List.mem_append.1 hmem with hmem | hmem
    · exact (h.meant id c r hmem).mono _
    · cases List.mem_singleton.1 hmem
      exact hcause.mono _
  · obtain ⟨hmem, hne⟩ := mem_cancelled.1 htimer
    obtain ⟨e, he, hfor⟩ := h.armed timer hmem
    rw [hheld] at he
    rcases mem_cons.1 he with rfl | he
    · exact absurd hfor.1.symm hne
    · exact ⟨e, he, hfor⟩
  · exact (List.filter_sublist.map _).nodup h.timerOnce

theorem timer_for (h : l.Inv) {entry : Entry} {timer : Timer} (hentry : entry ∈ l.listed)
    (hidle : l.drained = 0) (htimer : timer ∈ l.timers) (hsequence : entry.sequence = timer.sequence) :
    timer.For entry := by
  obtain ⟨e, he, hfor⟩ := h.armed timer htimer
  rw [Ledger.held, hidle, add_zero] at he
  rwa [h.eq_of_sequence hentry he (hsequence.trans hfor.2.2.1.symm)]

theorem submit (h : l.Inv) : Ledger.Inv
    { l with waiting := l.nextId ::ₘ l.waiting, nextId := l.nextId + 1 } := by
  have hnew : l.nextId ∉ l.ids := fun hmem => Nat.lt_irrefl _ (h.fresh _ hmem)
  have hungiven : l.nextId ∉ l.waiting + givenIds l.events := by
    intro hmem
    rcases mem_add.1 hmem with hmem | hmem
    · exact hnew (mem_add.2 (.inl (mem_add.2 (.inl hmem))))
    · exact Nat.lt_irrefl _ (h.givenFresh _ hmem)
  have hids : Ledger.ids { l with waiting := l.nextId ::ₘ l.waiting, nextId := l.nextId + 1 } =
      l.nextId ::ₘ l.ids := by
    rw [Ledger.ids, Ledger.ids, cons_add, cons_add]
    rfl
  refine { h with
    once := ?_
    fresh := fun id hid => ?_
    givenOnce := ?_
    givenFresh := fun id hid => Nat.lt_succ_of_lt (h.givenFresh id hid) }
  · rw [hids]
    exact nodup_cons.2 ⟨hnew, h.once⟩
  · rw [hids] at hid
    rcases mem_cons.1 hid with rfl | hid
    · exact Nat.lt_succ_self _
    · exact Nat.lt_succ_of_lt (h.fresh id hid)
  · rw [cons_add]
    exact nodup_cons.2 ⟨hungiven, h.givenOnce⟩

theorem reject (h : l.Inv) {waiting : Multiset ℕ} {id : ℕ} (hwaiting : l.waiting = id ::ₘ waiting)
    (result : Result ρ) : Ledger.Inv { l with
      waiting := waiting
      events := l.events ++ [.completed id .failure result] } := by
  have hids : l.ids = waiting + l.held.map Entry.id +
      completedIds (l.events ++ [.completed id .failure result]) := by
    rw [Ledger.ids, hwaiting, completedIds_completed, ← singleton_add,
      ← singleton_add]
    abel
  have hgiven := h.givenOnce
  rw [hwaiting, cons_add] at hgiven
  obtain ⟨honce, hfresh⟩ := h.of_ids hids
  refine { h with
    once := honce
    fresh := hfresh
    given := fun e he => List.mem_append_left _ (h.given e he)
    givenOnce := ?_
    givenFresh := ?_
    givenNonzero := fun i kind n hmem => h.givenNonzero i kind n (given_of_completed hmem)
    meant := fun i c r hmem => ?_ }
  · simp_all
  · rw [givenIds_completed]
    exact h.givenFresh
  · rcases List.mem_append.1 hmem with hmem | hmem
    · exact (h.meant i c r hmem).mono _
    · cases List.mem_singleton.1 hmem
      trivial

theorem list (h : l.Inv) {waiting : Multiset ℕ} {entry : Entry}
    (hwaiting : l.waiting = entry.id ::ₘ waiting) (hne : entry.sequence ≠ 0)
    (hfree : ∀ e ∈ l.listed, e.sequence ≠ entry.sequence) {timers : List Timer}
    (htimers : timers = l.timers ∨ entry.timer = some l.nextTimer ∧
      timers = l.timers ++ [⟨l.nextTimer, entry.kind, entry.sequence, entry.id⟩]) :
    Ledger.Inv { l with
      waiting := waiting
      listed := entry ::ₘ l.listed
      timers := timers
      nextTimer := l.nextTimer + 1
      events := l.events ++ [.given entry.id entry.kind entry.sequence] } := by
  have hids : l.ids = waiting + (entry ::ₘ l.listed + l.drained).map Entry.id +
      completedIds (l.events ++ [.given entry.id entry.kind entry.sequence]) := by
    rw [Ledger.ids, hwaiting, Ledger.held, completedIds_given, cons_add entry,
      map_cons, ← singleton_add, ← singleton_add]
    abel
  have hgiven : (l.waiting + givenIds l.events) =
      waiting + givenIds (l.events ++ [.given entry.id entry.kind entry.sequence]) := by
    simp_all
  have hwaits : entry.id ∈ l.ids := by
    simp_all
  have harmed : ∀ timer ∈ l.timers, ∃ e ∈ entry ::ₘ l.listed + l.drained, timer.For e := by
    intro timer htimer
    obtain ⟨e, he, hfor⟩ := h.armed timer htimer
    exact ⟨e, by rw [cons_add]; exact mem_cons_of_mem he, hfor⟩
  obtain ⟨honce, hfresh⟩ := h.of_ids hids
  have hgivenOnce := h.givenOnce
  rw [hgiven] at hgivenOnce
  refine ⟨?_, fun e he => ?_, honce, hfresh, fun e he => ?_, hgivenOnce,
    fun id hid => ?_, fun id kind n hmem => ?_, fun id c r hmem => ?_, fun timer htimer => ?_, ?_,
    fun timer htimer => ?_⟩
  · rw [map_cons]
    refine nodup_cons.2 ⟨fun hmem => ?_, h.sequences⟩
    obtain ⟨e, he, heq⟩ := mem_map.1 hmem
    exact hfree e he heq
  · rcases mem_cons.1 he with rfl | he
    · exact hne
    · exact h.nonzero e he
  · change e ∈ entry ::ₘ l.listed + l.drained at he
    rw [cons_add] at he
    rcases mem_cons.1 he with rfl | he
    · exact List.mem_append_right _ (List.mem_singleton_self _)
    · exact List.mem_append_left _ (h.given e he)
  · rw [givenIds_given] at hid
    rcases mem_cons.1 hid with rfl | hid
    · exact h.fresh _ hwaits
    · exact h.givenFresh id hid
  · rcases List.mem_append.1 hmem with hmem | hmem
    · exact h.givenNonzero id kind n hmem
    · cases List.mem_singleton.1 hmem
      exact hne
  · rcases List.mem_append.1 hmem with hmem | hmem
    · exact (h.meant id c r hmem).mono _
    · cases List.mem_singleton.1 hmem
  · rcases htimers with rfl | ⟨hentry, rfl⟩
    · exact harmed timer htimer
    · rcases List.mem_append.1 htimer with htimer | htimer
      · exact harmed timer htimer
      · cases List.mem_singleton.1 htimer
        exact ⟨entry, mem_add.2 (.inl (mem_cons_self _ _)), hentry, rfl, rfl, rfl⟩
  · rcases htimers with rfl | ⟨-, rfl⟩
    · exact h.timerOnce
    · rw [List.map_append]
      refine h.timerOnce.append (List.nodup_singleton _) fun id hid hnew => ?_
      obtain ⟨timer, htimer, rfl⟩ := List.mem_map.1 hid
      have hlt := h.timerFresh timer htimer
      rw [List.mem_singleton.1 hnew] at hlt
      exact Nat.lt_irrefl _ hlt
  · rcases htimers with rfl | ⟨-, rfl⟩
    · exact Nat.lt_succ_of_lt (h.timerFresh timer htimer)
    · rcases List.mem_append.1 htimer with htimer | htimer
      · exact Nat.lt_succ_of_lt (h.timerFresh timer htimer)
      · obtain rfl := List.mem_singleton.1 htimer
        exact Nat.lt_succ_self _

theorem drain (h : l.Inv) {taken listed : Multiset Entry} (hlisted : l.listed = taken + listed) :
    Ledger.Inv { l with listed := listed, drained := taken + l.drained } := by
  have hle : listed ≤ l.listed := by
    rw [hlisted]
    exact Multiset.le_add_left _ _
  have hheld : l.held = listed + (taken + l.drained) := by
    rw [Ledger.held, hlisted]
    abel
  have hids : l.ids = l.waiting + (listed + (taken + l.drained)).map Entry.id +
      completedIds l.events := by
    rw [Ledger.ids, hheld]
  obtain ⟨honce, hfresh⟩ := h.of_ids hids
  refine { h with
    sequences := nodup_of_le (map_le_map hle) h.sequences
    nonzero := fun e he => h.nonzero e (mem_of_le hle he)
    once := honce
    fresh := hfresh
    given := fun e he => h.given e ?_
    armed := fun timer htimer => ?_ }
  · rw [hheld]
    exact he
  · obtain ⟨e, he, hfor⟩ := h.armed timer htimer
    rw [hheld] at he
    exact ⟨e, he, hfor⟩

theorem move (h : l.Inv) (hm : Move l l') : l'.Inv := by
  cases hm with
  | stay => exact h
  | submit => exact h.submit
  | reject hwaiting result => exact h.reject hwaiting result
  | list hwaiting hne hfree timers htimers => exact h.list hwaiting hne hfree htimers
  | @respond listed entry hlisted result =>
    have hheld : l.held = entry ::ₘ (listed + l.drained) := by
      rw [Ledger.held, hlisted, cons_add]
    have hgiven := h.given entry (hheld ▸ mem_cons_self _ _)
    have hmeant : Cause.Meant l.events entry.id (.response entry.kind entry.sequence) := hgiven
    exact h.finish hheld (hlisted ▸ le_cons_self _ _) hmeant result
  | @timeout listed entry timer hlisted hidle htimer hkind hsequence result =>
    have hheld : l.held = entry ::ₘ (listed + l.drained) := by
      rw [Ledger.held, hlisted, cons_add]
    have hfor := h.timer_for (hlisted ▸ mem_cons_self _ _) hidle htimer hsequence
    have hgiven := h.given entry (hheld ▸ mem_cons_self _ _)
    rw [hkind, hsequence] at hgiven
    have hmeant : Cause.Meant l.events entry.id (.timeout timer) := ⟨hgiven, hfor.2.2.2.symm⟩
    rw [← hfor.1]
    exact h.finish hheld (hlisted ▸ le_cons_self _ _) hmeant result
  | drain hlisted => exact h.drain hlisted
  | @fail drained entry hdrained result =>
    have hheld : l.held = entry ::ₘ (l.listed + drained) := by
      rw [Ledger.held, hdrained, Multiset.add_cons]
    have hmeant : Cause.Meant l.events entry.id .failure := trivial
    exact h.finish hheld le_rfl hmeant result

end Ledger.Inv

end TinyImx.Gateway.PeerTransport
