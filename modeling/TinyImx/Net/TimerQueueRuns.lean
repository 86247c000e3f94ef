import Mathlib.Data.Multiset.Bind
import TinyImx.Net.TimerQueue

/-!
# Cancellation and order of timers

The two tables always hold the same timers.  A timer that waits to be added is in neither of them, and
a cancel that was issued meanwhile is remembered until then; one that is in the batch of a
`HandleRead` is in neither either, and a cancel of it is remembered until the batch ends.
-/

namespace TinyImx.Net.TimerQueue

open List (map_cons mem_append mem_append_left mem_append_right mem_map mem_map_of_mem
  mem_singleton mem_singleton_self not_mem_nil suffix_refl)
open Multiset (add_bind coe_add coe_singleton cons_bind cons_coe mem_add mem_cons mem_cons_of_mem
  mem_cons_self nodup_cons singleton_bind)
open Function (update_of_ne update_self)
open Finset (erase_subset mem_erase mem_filter mem_insert mem_insert_of_mem mem_insert_self
  mem_sort subset_insert)

variable {q q' : Table} {t t' : Timer} {i : ℕ} {now : ℤ}

/-! ## The two tables -/

namespace Timer

theorem entry_inj : t.entry = t'.entry ↔ t.expiration = t'.expiration ∧ t.sequence = t'.sequence := by
  simp [entry]

@[simp] theorem sequence_restart (t : Timer) (now : ℤ) : (t.restart now).sequence = t.sequence := by
  unfold restart
  split <;> rfl

@[simp] theorem isRepeat_restart (t : Timer) (now : ℤ) : (t.restart now).isRepeat = t.isRepeat := by
  unfold restart
  split <;> rfl

end Timer

structure Sync (q : Table) : Prop where
  entries : ∀ e, e ∈ q.schedule ↔ ∃ t, q.timers t.sequence = some t ∧ t.entry = e
  sequence : ∀ i t, q.timers i = some t → t.sequence = i

namespace Sync

theorem empty : Sync Table.empty := ⟨by simp [Table.empty], by simp [Table.empty]⟩

theorem emplace_eq (h : Sync q) (hnone : q.timers t.sequence = none) :
    q.emplace t = ⟨insert t.entry q.schedule, Function.update q.timers t.sequence (some t)⟩ := by
  have hfree : t.entry ∉ q.schedule := fun hmem => by
    obtain ⟨t', ht', heq⟩ := (h.entries _).1 hmem
    rw [(Timer.entry_inj.1 heq).2, hnone] at ht'
    cases ht'
  rw [Table.emplace, if_neg (by simp [hnone]), if_neg hfree]

theorem emplace (h : Sync q) (hnone : q.timers t.sequence = none) : Sync (q.emplace t) := by
  rw [h.emplace_eq hnone]
  refine ⟨fun e => ?_, fun i t' ht' => ?_⟩
  · rw [mem_insert, h.entries]
    constructor
    · rintro (rfl | ⟨t', ht', rfl⟩)
      · exact ⟨t, update_self _ _ _, rfl⟩
      · refine ⟨t', ?_, rfl⟩
        show Function.update q.timers t.sequence (some t) t'.sequence = some t'
        rw [update_of_ne]
        · exact ht'
        · intro heq
          rw [heq, hnone] at ht'
          cases ht'
    · rintro ⟨t', ht', rfl⟩
      by_cases hseq : t'.sequence = t.sequence
      · simp only [hseq, update_self, Option.some.injEq] at ht'
        exact .inl (by rw [ht'])
      · simp only [update_of_ne hseq] at ht'
        exact .inr ⟨t', ht', rfl⟩
  · by_cases hi : i = t.sequence
    · subst hi
      simp only [update_self, Option.some.injEq] at ht'
      rw [ht']
    · simp only [update_of_ne hi] at ht'
      exact h.sequence i t' ht'

theorem erase (h : Sync q) (ht : q.timers t.sequence = some t) : Sync (q.erase t) := by
  refine ⟨fun e => ?_, fun i t' ht' => ?_⟩
  · simp only [Table.erase, mem_erase, h.entries]
    constructor
    · rintro ⟨hne, t', ht', rfl⟩
      refine ⟨t', ?_, rfl⟩
      rw [update_of_ne]
      · exact ht'
      · intro heq
        rw [heq, ht] at ht'
        exact hne (by rw [Option.some.inj ht'])
    · rintro ⟨t', ht', rfl⟩
      by_cases hseq : t'.sequence = t.sequence
      · simp [hseq] at ht'
      · rw [update_of_ne hseq] at ht'
        exact ⟨fun heq => hseq (Timer.entry_inj.1 heq).2, t', ht', rfl⟩
  · simp only [Table.erase] at ht'
    by_cases hi : i = t.sequence
    · simp [hi] at ht'
    · rw [update_of_ne hi] at ht'
      exact h.sequence i t' ht'

theorem pairwise_map_entry_expired (h : Sync q) (now : ℤ) :
    ((q.expired now).map Timer.entry).Pairwise (· < ·) := by
  have hlist : ∀ es : List Entry, (∀ e ∈ es, e ∈ q.schedule) →
      (es.filterMap fun e => q.timers (ofLex e).2).map Timer.entry = es := by
    intro es hes
    induction es with
    | nil => rfl
    | cons e es ih =>
      obtain ⟨t, ht, rfl⟩ := (h.entries e).1 (hes e List.mem_cons_self)
      have hfound : q.timers (ofLex t.entry).2 = some t := ht
      rw [List.filterMap_cons_some (f := fun e : Entry => q.timers (ofLex e).2) hfound, map_cons,
        ih fun e he => hes e (List.mem_cons_of_mem _ he)]
  rw [Table.expired, hlist]
  · exact (Finset.sortedLT_sort _).pairwise
  · intro e he
    rw [mem_sort] at he
    exact (mem_filter.1 he).1

theorem mem_expired (h : Sync q) :
    t ∈ q.expired now ↔ q.timers t.sequence = some t ∧ t.entry ≤ Table.upperBound now := by
  constructor
  · intro ht
    obtain ⟨e, he, hte⟩ := List.mem_filterMap.1 ht
    have hseq := h.sequence _ _ hte
    rw [mem_sort, mem_filter] at he
    have hentry : t.entry = e := by
      obtain ⟨t', ht', rfl⟩ := (h.entries e).1 he.1
      have heq : q.timers (ofLex t'.entry).2 = some t' := ht'
      rw [hte] at heq
      rw [Option.some.inj heq]
    rw [hseq, hentry]
    exact ⟨hte, he.2⟩
  · rintro ⟨ht, hle⟩
    refine List.mem_filterMap.2 ⟨t.entry, ?_, ht⟩
    rw [mem_sort, mem_filter]
    exact ⟨(h.entries _).2 ⟨t, ht, rfl⟩, hle⟩

theorem sorted_expired (h : Sync q) (now : ℤ) :
    (q.expired now).Pairwise fun a b => a.entry < b.entry := by
  exact List.pairwise_map.1 (h.pairwise_map_entry_expired now)

theorem nodup_expired (h : Sync q) (now : ℤ) : ((q.expired now).map Timer.sequence).Nodup := by
  refine List.pairwise_map.2 ?_
  have hmem := fun t (ht : t ∈ q.expired now) => (h.mem_expired.1 ht).1
  refine (h.sorted_expired now).imp_of_mem fun {a b} ha hb hlt heq => ?_
  have hab := hmem a ha
  rw [heq, hmem b hb] at hab
  rw [Option.some.inj hab] at hlt
  exact lt_irrefl _ hlt

theorem mem_sequence_expired (h : Sync q) :
    i ∈ (q.expired now).map Timer.sequence ↔ ∃ t, q.timers i = some t ∧ t.entry ≤ Table.upperBound now := by
  rw [mem_map]
  constructor
  · rintro ⟨t, ht, rfl⟩
    exact ⟨t, h.mem_expired.1 ht⟩
  · rintro ⟨t, ht, hle⟩
    have hseq := h.sequence i t ht
    exact ⟨t, h.mem_expired.2 ⟨hseq ▸ ht, hle⟩, hseq⟩

theorem extract (h : Sync q) (now : ℤ) : Sync (q.extract now) := by
  refine ⟨fun e => ?_, fun i t ht => ?_⟩
  · simp only [Table.extract, mem_filter, h.entries]
    constructor
    · rintro ⟨⟨t, ht, rfl⟩, hle⟩
      refine ⟨t, ?_, rfl⟩
      rw [if_neg]
      · exact ht
      · rw [h.mem_sequence_expired]
        rintro ⟨t', ht', hle'⟩
        rw [ht] at ht'
        rw [Option.some.inj ht'] at hle
        exact hle hle'
    · rintro ⟨t, ht, rfl⟩
      split at ht
      · cases ht
      · next hnot =>
        rw [h.mem_sequence_expired] at hnot
        exact ⟨⟨t, ht, rfl⟩, fun hle => hnot ⟨t, ht, hle⟩⟩
  · simp only [Table.extract] at ht
    split at ht
    · cases ht
    · exact h.sequence i t ht

/-- Rearming a batch whose timers are in neither table. -/
theorem rearm {batch : List Timer} (h : Sync q) (hnodup : (batch.map Timer.sequence).Nodup)
    (hnone : ∀ t ∈ batch, q.timers t.sequence = none) (now : ℤ) (canceling : Finset ℕ) :
    Sync (q.rearm now canceling batch) ∧
      (∀ i, i ∉ batch.map Timer.sequence → (q.rearm now canceling batch).timers i = q.timers i) ∧
      ∀ t ∈ batch, (q.rearm now canceling batch).timers t.sequence =
        if t.isRepeat ∧ t.sequence ∉ canceling then some (t.restart now) else none := by
  induction batch generalizing q with
  | nil => exact ⟨h, fun _ _ => rfl, by simp⟩
  | cons t batch ih =>
    rw [map_cons, List.nodup_cons] at hnodup
    have hne : ∀ t' ∈ batch, t'.sequence ≠ t.sequence := fun t' ht' heq =>
      hnodup.1 (heq ▸ mem_map_of_mem ht')
    have ht := hnone t List.mem_cons_self
    rw [Table.rearm]
    by_cases hcond : t.isRepeat ∧ t.sequence ∉ canceling
    · rw [if_pos hcond]
      have hnone' : q.timers (t.restart now).sequence = none := by rw [Timer.sequence_restart, ht]
      have heq := h.emplace_eq hnone'
      rw [Timer.sequence_restart] at heq
      obtain ⟨hsync, hout, hin⟩ := ih (h.emplace hnone') hnodup.2 fun t' ht' => by
        rw [heq]
        show Function.update q.timers t.sequence _ t'.sequence = none
        rw [update_of_ne (hne t' ht')]
        exact hnone t' (List.mem_cons_of_mem _ ht')
      refine ⟨hsync, fun i hi => ?_, fun t' ht' => ?_⟩
      · rw [map_cons, List.mem_cons, not_or] at hi
        rw [hout i hi.2, heq]
        exact update_of_ne hi.1 _ _
      · rcases List.mem_cons.1 ht' with rfl | ht'
        · rw [hout _ hnodup.1, heq, if_pos hcond]
          exact update_self _ _ _
        · exact hin t' ht'
    · rw [if_neg hcond]
      obtain ⟨hsync, hout, hin⟩ := ih h hnodup.2 fun t' ht' => hnone t' (List.mem_cons_of_mem _ ht')
      refine ⟨hsync, fun i hi => ?_, fun t' ht' => ?_⟩
      · rw [map_cons, List.mem_cons, not_or] at hi
        exact hout i hi.2
      · rcases List.mem_cons.1 ht' with rfl | ht'
        · rw [hout _ hnodup.1, ht, if_neg hcond]
        · exact hin t' ht'

end Sync

/-! ## The timers that wait to be added -/

def Call.adding : Call → Multiset ℕ
  | .fetched t | .marked t => {t.sequence}
  | .cancelling _ => 0

def Functor.adding : Functor → Multiset ℕ
  | .add t => {t.sequence}
  | .cancel _ => 0

def State.waiting (s : State) : Multiset ℕ :=
  s.calls.bind Call.adding + (↑s.functors : Multiset Functor).bind Functor.adding

variable {s s' : State} {ls : List Label} {l : Label}

def Requested (ls : List Label) (i : ℕ) : Prop := .requested i ∈ ls ∨ .cancelled i ∈ ls

structure Pending (ls : List Label) (s : State) : Prop where
  nodup : s.waiting.Nodup
  waiting_lt : ∀ i ∈ s.waiting, i < s.nextSequence
  known_lt : ∀ i ∈ s.known, i < s.nextSequence
  pending : ∀ i ∈ s.pendingAdd, i ∈ s.waiting
  marked : ∀ t, .marked t ∈ s.calls → t.sequence ∈ s.pendingAdd
  known_pending : ∀ i ∈ s.known, i ∈ s.waiting → i ∈ s.pendingAdd
  requested : ∀ i, Requested ls i → i ∈ s.known ∧ (i ∈ s.waiting → i ∈ s.pendingCancel)
  cancel_known : ∀ i ∈ s.pendingCancel, i ∈ s.known
  calls : ∀ i, .cancelling i ∈ s.calls → Requested ls i
  functors : ∀ i, .cancel i ∈ s.functors → Requested ls i

namespace Pending

theorem init : Pending [] State.initial where
  nodup := by simp [State.waiting, State.initial]
  waiting_lt := by simp [State.waiting, State.initial]
  known_lt := by simp [State.initial]
  pending := by simp [State.initial]
  marked := by simp [State.initial]
  known_pending := by simp [State.initial]
  requested := by simp [Requested]
  cancel_known := by simp [State.initial]
  calls := by simp [State.initial]
  functors := by simp [State.initial]

theorem requested_snoc (h : Requested (ls ++ [l]) i) : Requested ls i ∨ l = .requested i ∨ l = .cancelled i := by
  rcases h with h | h
  · rcases mem_append.1 h with h | h
    · exact .inl (.inl h)
    · exact .inr (.inl (mem_singleton.1 h).symm)
  · rcases mem_append.1 h with h | h
    · exact .inl (.inr h)
    · exact .inr (.inr (mem_singleton.1 h).symm)

theorem requested_mono (h : Requested ls i) (l : Label) : Requested (ls ++ [l]) i :=
  h.imp (mem_append_left _) (mem_append_left _)

theorem congr (h : Pending ls s)
    (hsame : s'.nextSequence = s.nextSequence ∧ s'.pendingAdd = s.pendingAdd ∧
      s'.pendingCancel = s.pendingCancel ∧ s'.functors = s.functors ∧ s'.calls = s.calls ∧
      s'.known = s.known) : Pending ls s' := by
  obtain ⟨table, mode, canceling, nextSequence, pendingAdd, pendingCancel, functors, calls, known⟩ := s'
  obtain ⟨rfl, rfl, rfl, rfl, rfl, rfl⟩ := hsame
  exact ⟨h.nodup, h.waiting_lt, h.known_lt, h.pending, h.marked, h.known_pending, h.requested,
    h.cancel_known, h.calls, h.functors⟩

theorem label (h : Pending ls s) (hl : ∀ i, l ≠ .requested i ∧ l ≠ .cancelled i) :
    Pending (ls ++ [l]) s := by
  refine ⟨h.nodup, h.waiting_lt, h.known_lt, h.pending, h.marked, h.known_pending, fun i hi => ?_,
    h.cancel_known, fun i hi => requested_mono (h.calls i hi) l,
    fun i hi => requested_mono (h.functors i hi) l⟩
  exact h.requested i ((requested_snoc hi).resolve_right (by simp [hl i]))

theorem fetch (h : Pending ls s) (ht : t.sequence = s.nextSequence) :
    Pending (ls ++ [.silent]) { s with
      nextSequence := s.nextSequence + 1
      calls := .fetched t ::ₘ s.calls } := by
  have hwaiting : State.waiting { s with
      nextSequence := s.nextSequence + 1
      calls := .fetched t ::ₘ s.calls } = t.sequence ::ₘ s.waiting := by
    simp [State.waiting, Call.adding, Multiset.singleton_add]
  have hfresh : t.sequence ∉ s.waiting := fun hmem => by
    have := h.waiting_lt _ hmem
    omega
  constructor
  · rw [hwaiting]
    exact nodup_cons.2 ⟨hfresh, h.nodup⟩
  · intro i hi
    rw [hwaiting] at hi
    show i < s.nextSequence + 1
    rcases mem_cons.1 hi with rfl | hi
    · omega
    · exact Nat.lt_succ_of_lt (h.waiting_lt i hi)
  · exact fun i hi => Nat.lt_succ_of_lt (h.known_lt i hi)
  · intro i hi
    rw [hwaiting]
    exact mem_cons_of_mem (h.pending i hi)
  · intro t' ht'
    exact h.marked t' ((mem_cons.1 ht').resolve_left (by simp))
  · intro i hi hmem
    rw [hwaiting] at hmem
    have hlt := h.known_lt i hi
    exact h.known_pending i hi ((mem_cons.1 hmem).resolve_left (by omega))
  · intro i hi
    rw [hwaiting]
    obtain ⟨hknown, hcancel⟩ := h.requested i ((requested_snoc hi).resolve_right (by simp))
    have hlt := h.known_lt i hknown
    exact ⟨hknown, fun hmem => hcancel ((mem_cons.1 hmem).resolve_left (by omega))⟩
  · exact h.cancel_known
  · intro i hi
    exact requested_mono (h.calls i ((mem_cons.1 hi).resolve_left (by simp))) _
  · exact fun i hi => requested_mono (h.functors i hi) _

theorem mark {calls : Multiset Call} (h : Pending ls s) (hc : s.calls = .fetched t ::ₘ calls) :
    Pending (ls ++ [.silent]) { s with
      pendingAdd := insert t.sequence s.pendingAdd
      calls := .marked t ::ₘ calls } := by
  have hwaiting : State.waiting { s with
      pendingAdd := insert t.sequence s.pendingAdd
      calls := .marked t ::ₘ calls } = s.waiting := by
    simp [State.waiting, Call.adding, hc]
  have hmem : t.sequence ∈ s.waiting := by
    simp [State.waiting, Call.adding, hc]
  constructor
  · rw [hwaiting]
    exact h.nodup
  · rw [hwaiting]
    exact h.waiting_lt
  · exact h.known_lt
  · intro i hi
    rw [hwaiting]
    rcases mem_insert.1 hi with rfl | hi
    · exact hmem
    · exact h.pending i hi
  · intro t' ht'
    rcases mem_cons.1 ht' with heq | ht'
    · cases heq
      exact mem_insert_self _ _
    · exact mem_insert_of_mem (h.marked t' (by rw [hc]; exact mem_cons_of_mem ht'))
  · intro i hi hwait
    rw [hwaiting] at hwait
    exact mem_insert_of_mem (h.known_pending i hi hwait)
  · intro i hi
    rw [hwaiting]
    exact h.requested i ((requested_snoc hi).resolve_right (by simp))
  · exact h.cancel_known
  · intro i hi
    have hi' := (mem_cons.1 hi).resolve_left (by simp)
    exact requested_mono (h.calls i (by rw [hc]; exact mem_cons_of_mem hi')) _
  · exact fun i hi => requested_mono (h.functors i hi) _

theorem queueAdd {calls : Multiset Call} (h : Pending ls s) (hc : s.calls = .marked t ::ₘ calls) :
    Pending (ls ++ [.silent]) { s with
      functors := s.functors ++ [.add t]
      known := insert t.sequence s.known
      calls } := by
  have hwaiting : State.waiting { s with
      functors := s.functors ++ [.add t]
      known := insert t.sequence s.known
      calls } = s.waiting := by
    simp only [State.waiting, hc, cons_bind, ← coe_add, add_bind,
      Call.adding, Functor.adding, coe_singleton, singleton_bind]
    ac_rfl
  have hpending := h.marked t (by rw [hc]; exact mem_cons_self _ _)
  have hmem := h.pending _ hpending
  constructor
  · rw [hwaiting]
    exact h.nodup
  · rw [hwaiting]
    exact h.waiting_lt
  · intro i hi
    rcases mem_insert.1 hi with rfl | hi
    · exact h.waiting_lt _ hmem
    · exact h.known_lt i hi
  · rw [hwaiting]
    exact h.pending
  · exact fun t' ht' => h.marked t' (by rw [hc]; exact mem_cons_of_mem ht')
  · intro i hi hwait
    rw [hwaiting] at hwait
    rcases mem_insert.1 hi with rfl | hi
    · exact hpending
    · exact h.known_pending i hi hwait
  · intro i hi
    rw [hwaiting]
    obtain ⟨hknown, hcancel⟩ := h.requested i ((requested_snoc hi).resolve_right (by simp))
    exact ⟨mem_insert_of_mem hknown, hcancel⟩
  · exact fun i hi => mem_insert_of_mem (h.cancel_known i hi)
  · intro i hi
    exact requested_mono (h.calls i (by rw [hc]; exact mem_cons_of_mem hi)) _
  · intro i hi
    exact requested_mono (h.functors i ((mem_append.1 hi).resolve_right (by simp))) _

@[simp] theorem waiting_markCancel (s : State) (i : ℕ) : (s.markCancel i).waiting = s.waiting := by
  unfold State.markCancel
  split <;> rfl

theorem markCancel_cases (s : State) (i : ℕ) :
    ∃ pendingCancel, s.markCancel i = { s with pendingCancel } ∧
      s.pendingCancel ⊆ pendingCancel ∧ pendingCancel ⊆ insert i s.pendingCancel ∧
      (i ∈ s.pendingAdd → i ∈ pendingCancel) := by
  unfold State.markCancel
  split
  · exact ⟨_, rfl, subset_insert _ _, Finset.Subset.refl _, fun _ => mem_insert_self _ _⟩
  · next hnot =>
    exact ⟨s.pendingCancel, rfl, Finset.Subset.refl _, subset_insert _ _,
      fun hmem => absurd hmem hnot⟩

theorem markCancel (h : Pending ls s) (hi : i ∈ s.known)
    (hl : l = .requested i ∨ l = .cancelled i) : Pending (ls ++ [l]) (s.markCancel i) := by
  have hwaiting := waiting_markCancel s i
  obtain ⟨pendingCancel, heq, hsub, hsup, hmark⟩ := markCancel_cases s i
  rw [heq] at hwaiting ⊢
  constructor
  · rw [hwaiting]
    exact h.nodup
  · rw [hwaiting]
    exact h.waiting_lt
  · exact h.known_lt
  · rw [hwaiting]
    exact h.pending
  · exact h.marked
  · rw [hwaiting]
    exact h.known_pending
  · intro j hj
    rw [hwaiting]
    have hcase : Requested ls j ∨ j = i := by
      rcases requested_snoc hj with hj | hj
      · exact .inl hj
      · rcases hl with rfl | rfl <;> simp_all
    rcases hcase with hj | rfl
    · obtain ⟨hknown, hcancel⟩ := h.requested j hj
      exact ⟨hknown, fun hmem => hsub (hcancel hmem)⟩
    · exact ⟨hi, fun hmem => hmark (h.known_pending j hi hmem)⟩
  · intro j hj
    rcases mem_insert.1 (hsup hj) with rfl | hj
    · exact hi
    · exact h.cancel_known j hj
  · exact fun j hj => requested_mono (h.calls j hj) _
  · exact fun j hj => requested_mono (h.functors j hj) _

theorem call (h : Pending ls s) (hi : Requested ls i) :
    Pending ls { s with calls := .cancelling i ::ₘ s.calls } := by
  have hwaiting : State.waiting { s with calls := .cancelling i ::ₘ s.calls } = s.waiting := by
    simp [State.waiting, Call.adding]
  constructor
  · rw [hwaiting]
    exact h.nodup
  · rw [hwaiting]
    exact h.waiting_lt
  · exact h.known_lt
  · rw [hwaiting]
    exact h.pending
  · exact fun t ht => h.marked t ((mem_cons.1 ht).resolve_left (by simp))
  · rw [hwaiting]
    exact h.known_pending
  · rw [hwaiting]
    exact h.requested
  · exact h.cancel_known
  · intro j hj
    rcases mem_cons.1 hj with heq | hj
    · cases heq
      exact hi
    · exact h.calls j hj
  · exact h.functors

theorem queueCancel {calls : Multiset Call} (h : Pending ls s)
    (hc : s.calls = .cancelling i ::ₘ calls) :
    Pending (ls ++ [.silent]) { s with functors := s.functors ++ [.cancel i], calls } := by
  have hwaiting : State.waiting { s with functors := s.functors ++ [.cancel i], calls } = s.waiting := by
    simp [State.waiting, hc, Call.adding, Functor.adding, ← coe_add]
  have hreq := h.calls i (by rw [hc]; exact mem_cons_self _ _)
  constructor
  · rw [hwaiting]
    exact h.nodup
  · rw [hwaiting]
    exact h.waiting_lt
  · exact h.known_lt
  · rw [hwaiting]
    exact h.pending
  · exact fun t ht => h.marked t (by rw [hc]; exact mem_cons_of_mem ht)
  · rw [hwaiting]
    exact h.known_pending
  · intro j hj
    rw [hwaiting]
    exact h.requested j ((requested_snoc hj).resolve_right (by simp))
  · exact h.cancel_known
  · intro j hj
    exact requested_mono (h.calls j (by rw [hc]; exact mem_cons_of_mem hj)) _
  · intro j hj
    rcases mem_append.1 hj with hj | hj
    · exact requested_mono (h.functors j hj) _
    · cases mem_singleton.1 hj
      exact requested_mono hreq _

theorem takeCancel {functors : List Functor} (h : Pending ls s)
    (hf : s.functors = .cancel i :: functors) : Pending ls { s with functors } := by
  have hwaiting : State.waiting { s with functors } = s.waiting := by
    simp [State.waiting, hf, Functor.adding, ← cons_coe]
  constructor
  · rw [hwaiting]
    exact h.nodup
  · rw [hwaiting]
    exact h.waiting_lt
  · exact h.known_lt
  · rw [hwaiting]
    exact h.pending
  · exact h.marked
  · rw [hwaiting]
    exact h.known_pending
  · rw [hwaiting]
    exact h.requested
  · exact h.cancel_known
  · exact h.calls
  · exact fun j hj => h.functors j (by rw [hf]; exact List.mem_cons_of_mem _ hj)

theorem cancelled (h : Pending ls s) (hi : Requested ls i) : Pending (ls ++ [.cancelled i]) s := by
  refine ⟨h.nodup, h.waiting_lt, h.known_lt, h.pending, h.marked, h.known_pending, fun j hj => ?_,
    h.cancel_known, fun j hj => requested_mono (h.calls j hj) _, fun j hj => requested_mono (h.functors j hj) _⟩
  rcases requested_snoc hj with hj | hj | hj
  · exact h.requested j hj
  · cases hj
  · cases hj
    exact h.requested i hi

/-- The loop takes up a timer that waited, and whether it was cancelled is settled by that. -/
theorem take (h : Pending ls s) (hw : s.waiting = i ::ₘ s'.waiting)
    (hl : (∀ j, l ≠ .requested j) ∧ ∀ j, l = .cancelled j → j = i ∧ i ∈ s.pendingCancel)
    (hadd : s'.pendingAdd = s.pendingAdd.erase i) (hsub : s'.pendingCancel ⊆ s.pendingCancel)
    (hsup : s.pendingCancel.erase i ⊆ s'.pendingCancel)
    (hmarked : ∀ t, .marked t ∈ s'.calls → .marked t ∈ s.calls)
    (hcalls : ∀ j, .cancelling j ∈ s'.calls → .cancelling j ∈ s.calls)
    (hfunctors : ∀ j, .cancel j ∈ s'.functors → .cancel j ∈ s.functors)
    (hmarks : ∀ t, .marked t ∈ s'.calls → t.sequence ∈ s'.waiting)
    (hsame : s'.nextSequence = s.nextSequence ∧ s'.known = s.known) : Pending (ls ++ [l]) s' := by
  obtain ⟨hnext, hknown⟩ := hsame
  obtain ⟨hnot, hnodup⟩ := nodup_cons.1 (hw ▸ h.nodup)
  have hmem : ∀ j, j ∈ s'.waiting → j ∈ s.waiting ∧ j ≠ i := fun j hj =>
    ⟨hw ▸ mem_cons_of_mem hj, fun heq => hnot (heq ▸ hj)⟩
  constructor
  · exact hnodup
  · exact fun j hj => hnext ▸ h.waiting_lt j (hmem j hj).1
  · rw [hknown, hnext]
    exact h.known_lt
  · intro j hj
    rw [hadd, mem_erase] at hj
    have hwait := h.pending j hj.2
    rw [hw] at hwait
    exact (mem_cons.1 hwait).resolve_left hj.1
  · intro t ht
    rw [hadd]
    exact mem_erase.2 ⟨(hmem _ (hmarks t ht)).2, h.marked t (hmarked t ht)⟩
  · intro j hj hwait
    rw [hknown] at hj
    rw [hadd]
    exact mem_erase.2 ⟨(hmem j hwait).2, h.known_pending j hj (hmem j hwait).1⟩
  · intro j hj
    have hold : j ∈ s.known ∧ (j ∈ s.waiting → j ≠ i → j ∈ s.pendingCancel) := by
      rcases requested_snoc hj with hj | hj | hj
      · exact ⟨(h.requested j hj).1, fun hwait _ => (h.requested j hj).2 hwait⟩
      · exact absurd hj (hl.1 j)
      · obtain ⟨rfl, hcancel⟩ := hl.2 j hj
        exact ⟨h.cancel_known j hcancel, fun _ _ => hcancel⟩
    refine ⟨hknown ▸ hold.1, fun hwait => hsup ?_⟩
    obtain ⟨hwait, hne⟩ := hmem j hwait
    exact mem_erase.2 ⟨hne, hold.2 hwait hne⟩
  · exact fun j hj => hknown ▸ h.cancel_known j (hsub hj)
  · exact fun j hj => requested_mono (h.calls j (hcalls j hj)) _
  · exact fun j hj => requested_mono (h.functors j (hfunctors j hj)) _

theorem addInLoop_eq (h : Pending ls s) (ht : t.sequence = s.nextSequence) :
    (s.reserve t.sequence).addTimerInLoop t =
      ({ s with nextSequence := s.nextSequence + 1, table := s.table.emplace t }, .added t) := by
  have hfresh : t.sequence ∉ s.pendingAdd := fun hmem => by
    have := h.waiting_lt _ (h.pending _ hmem)
    omega
  have hcancel : t.sequence ∉ s.pendingCancel := fun hmem => by
    have := h.known_lt _ (h.cancel_known _ hmem)
    omega
  simp only [State.addTimerInLoop, State.reserve, if_neg hcancel, Finset.erase_insert hfresh]

theorem addInLoop (h : Pending ls s) (ht : t.sequence = s.nextSequence) :
    Pending (ls ++ [.added t]) { s with
      nextSequence := s.nextSequence + 1
      table := s.table.emplace t
      known := insert t.sequence s.known } := by
  have hnot : t.sequence ∉ s.waiting := fun hmem => by
    have := h.waiting_lt _ hmem
    omega
  refine .label ?_ (by simp)
  constructor
  · exact h.nodup
  · exact fun i hi => Nat.lt_succ_of_lt (h.waiting_lt i hi)
  · intro i hi
    show i < s.nextSequence + 1
    rcases mem_insert.1 hi with rfl | hi
    · omega
    · exact Nat.lt_succ_of_lt (h.known_lt i hi)
  · exact h.pending
  · exact h.marked
  · intro i hi hwait
    rcases mem_insert.1 hi with rfl | hi
    · exact absurd hwait hnot
    · exact h.known_pending i hi hwait
  · exact fun i hi => ⟨mem_insert_of_mem (h.requested i hi).1, (h.requested i hi).2⟩
  · exact fun i hi => mem_insert_of_mem (h.cancel_known i hi)
  · exact h.calls
  · exact h.functors

theorem waiting_runAdd {functors : List Functor} (hf : s.functors = .add t :: functors) :
    s.waiting = t.sequence ::ₘ State.waiting { s with functors } := by
  simp [State.waiting, hf, Functor.adding, ← cons_coe]

theorem runAdd {functors : List Functor} (h : Pending ls s) (hf : s.functors = .add t :: functors)
    (hadd : State.addTimerInLoop { s with functors } t = (s', l)) : Pending (ls ++ [l]) s' := by
  have hw := waiting_runAdd hf
  have hmarks : ∀ t', .marked t' ∈ s.calls → t'.sequence ∈ State.waiting { s with functors } := by
    intro t' ht'
    refine mem_add.2 (.inl (Multiset.mem_bind.2 ⟨_, ht', ?_⟩))
    exact Multiset.mem_singleton_self _
  have hsub : ∀ j, .cancel j ∈ functors → .cancel j ∈ s.functors := fun j hj => by
    rw [hf]
    exact List.mem_cons_of_mem _ hj
  unfold State.addTimerInLoop at hadd
  split at hadd
  · next hcancel =>
    cases hadd
    refine h.take hw ⟨by simp, fun j hj => ?_⟩ rfl (erase_subset _ _) (Finset.Subset.refl _)
      (fun _ => id) (fun _ => id) hsub hmarks ⟨rfl, rfl⟩
    cases hj
    exact ⟨rfl, hcancel⟩
  · cases hadd
    exact h.take hw ⟨by simp, by simp⟩ rfl (Finset.Subset.refl _) (erase_subset _ _)
      (fun _ => id) (fun _ => id) hsub hmarks ⟨rfl, rfl⟩

theorem cancelInLoop_same (s : State) (i : ℕ) :
    (s.cancelInLoop i).nextSequence = s.nextSequence ∧ (s.cancelInLoop i).pendingAdd = s.pendingAdd ∧
      (s.cancelInLoop i).pendingCancel = s.pendingCancel ∧
      (s.cancelInLoop i).functors = s.functors ∧ (s.cancelInLoop i).calls = s.calls ∧
      (s.cancelInLoop i).known = s.known := by
  unfold State.cancelInLoop
  split
  · exact ⟨rfl, rfl, rfl, rfl, rfl, rfl⟩
  · split <;> exact ⟨rfl, rfl, rfl, rfl, rfl, rfl⟩

theorem step (h : Pending ls s) (hs : Step s l s') : Pending (ls ++ [l]) s' := by
  cases hs with
  | addInLoop _ ht hadd =>
    rw [h.addInLoop_eq ht] at hadd
    cases hadd
    exact h.addInLoop ht
  | fetch ht => exact h.fetch ht
  | mark hc => exact h.mark hc
  | queueAdd hc => exact h.queueAdd hc
  | cancelInLoop _ hi => exact (h.markCancel hi (.inr rfl)).congr (cancelInLoop_same _ _)
  | request hi =>
    have hcall := (h.markCancel hi (.inl rfl)).call (.inl (mem_append_right _ (mem_singleton_self _)))
    refine hcall.congr ⟨rfl, rfl, rfl, rfl, ?_, rfl⟩
    obtain ⟨_, heq, -⟩ := markCancel_cases s _
    rw [heq]
  | queueCancel hc => exact h.queueCancel hc
  | runAdd _ hf hadd => exact h.runAdd hf hadd
  | runCancel _ hf =>
    have hreq := h.functors _ (by rw [hf]; exact List.mem_cons_self)
    exact ((h.takeCancel hf).cancelled hreq).congr (cancelInLoop_same _ _)
  | beginRead now _ => exact .label (h.congr ⟨rfl, rfl, rfl, rfl, rfl, rfl⟩) (by simp)
  | skip _ _ => exact .label (h.congr ⟨rfl, rfl, rfl, rfl, rfl, rfl⟩) (by simp)
  | start _ _ => exact .label (h.congr ⟨rfl, rfl, rfl, rfl, rfl, rfl⟩) (by simp)
  | finish _ => exact .label (h.congr ⟨rfl, rfl, rfl, rfl, rfl, rfl⟩) (by simp)
  | endRead _ _ => exact .label (h.congr ⟨rfl, rfl, rfl, rfl, rfl, rfl⟩) (by simp)

end Pending

/-! ## The timers that were added -/

def Mode.batch : Mode → List Timer
  | .idle => []
  | .running batch _ _ => batch

def Mode.rest : Mode → List Timer
  | .idle => []
  | .running _ rest _ => rest

def State.live (s : State) (i : ℕ) : ℕ :=
  (if (s.table.timers i).isSome then 1 else 0) + (s.mode.rest.map Timer.sequence).count i

def Descends (ls : List Label) (t : Timer) : Prop :=
  ∃ t₀, .added t₀ ∈ ls ∧ t₀.sequence = t.sequence ∧ t₀.isRepeat = t.isRepeat

def Quiet (l : Label) : Prop := l = .silent ∨ ∃ i, l = .requested i

theorem Descends.mono (h : Descends ls t) (l : Label) : Descends (ls ++ [l]) t := by
  obtain ⟨t₀, hadd, heq⟩ := h
  exact ⟨t₀, mem_append_left _ hadd, heq⟩

theorem startsOfRead_snoc (ls : List Label) (l : Label) (acc : List Timer) :
    startsOfRead (ls ++ [l]) acc = startsOfRead [l] (startsOfRead ls acc) := by
  induction ls generalizing acc with
  | nil => rfl
  | cons l' ls ih =>
    cases l' with
    | read => exact ih []
    | start t => exact ih (acc ++ [t])
    | silent => exact ih acc
    | requested _ => exact ih acc
    | cancelled _ => exact ih acc
    | added _ => exact ih acc

theorem startCount_snoc (i : ℕ) (ls : List Label) (l : Label) :
    startCount i (ls ++ [l]) = startCount i ls + startCount i [l] := List.countP_append

theorem startCount_eq_zero (h : ∀ t, .start t ∈ ls → t.sequence ≠ i) : startCount i ls = 0 := by
  refine List.countP_eq_zero.2 fun l hl => ?_
  cases l with
  | start t => simpa using h t hl
  | _ => simp

structure Scheduling (ls : List Label) (s : State) : Prop where
  sync : Sync s.table
  nodup : (s.mode.batch.map Timer.sequence).Nodup
  out : ∀ t ∈ s.mode.batch, s.table.timers t.sequence = none
  sorted : s.mode.batch.Pairwise fun a b => a.entry < b.entry
  suffix : s.mode.rest <:+ s.mode.batch
  fresh : ∀ t, .added t ∈ ls → t.sequence < s.nextSequence ∧ t.sequence ∉ s.waiting
  unique : ∀ t t', .added t ∈ ls → .added t' ∈ ls → t.sequence = t'.sequence → t = t'
  table : ∀ i t, s.table.timers i = some t → Descends ls t
  batch : ∀ t ∈ s.mode.batch, Descends ls t
  starts : ∀ t, .start t ∈ ls → Descends ls t
  cancelled : ∀ i, .cancelled i ∈ ls →
    s.table.timers i = none ∧ (i ∈ s.mode.batch.map Timer.sequence → i ∈ s.canceling)
  canceling : ∀ i ∈ s.canceling, .cancelled i ∈ ls
  once : ∀ t, .added t ∈ ls → t.isRepeat = false → startCount t.sequence ls + s.live t.sequence ≤ 1
  kept : ∀ t, .added t ∈ ls → t.isRepeat = true → .cancelled t.sequence ∉ ls →
    (s.table.timers t.sequence).isSome ∨ t.sequence ∈ s.mode.batch.map Timer.sequence
  reading : s.calling = true → (startsOfRead ls [] ++ s.mode.rest).Sublist s.mode.batch
  ordered : (startsOfRead ls []).Pairwise fun a b => a.entry < b.entry
  safe : ls.Pairwise fun a b => ∀ i t, a = .cancelled i → b = .start t → t.sequence ≠ i

namespace Scheduling

theorem init : Scheduling [] State.initial where
  sync := .empty
  nodup := by simp [State.initial, Mode.batch]
  out := by simp [State.initial, Mode.batch]
  sorted := by simp [State.initial, Mode.batch]
  suffix := suffix_refl _
  fresh := by simp
  unique := by simp
  table := by simp [State.initial, Table.empty]
  batch := by simp [State.initial, Mode.batch]
  starts := by simp
  cancelled := by simp
  canceling := by simp [State.initial]
  once := by simp
  kept := by simp
  reading := by simp [State.initial, State.calling]
  ordered := .nil
  safe := .nil

theorem absent (h : Scheduling ls s) (hi : ∀ t, .added t ∈ ls → t.sequence ≠ i) :
    s.table.timers i = none ∧ i ∉ s.mode.batch.map Timer.sequence ∧ startCount i ls = 0 := by
  refine ⟨Option.eq_none_iff_forall_ne_some.2 fun t ht => ?_, fun hmem => ?_,
    startCount_eq_zero fun t ht heq => ?_⟩
  · obtain ⟨t₀, hadd, hseq, -⟩ := h.table i t ht
    exact hi t₀ hadd (hseq.trans (h.sync.sequence i t ht))
  · obtain ⟨t, ht, rfl⟩ := mem_map.1 hmem
    obtain ⟨t₀, hadd, hseq, -⟩ := h.batch t ht
    exact hi t₀ hadd hseq
  · obtain ⟨t₀, hadd, hseq, -⟩ := h.starts t ht
    exact hi t₀ hadd (hseq.trans heq)

theorem absent_of_waiting (h : Scheduling ls s) (hi : i ∈ s.waiting) :
    ∀ t, .added t ∈ ls → t.sequence ≠ i := fun t ht heq => (h.fresh t ht).2 (heq ▸ hi)

theorem absent_of_le (h : Scheduling ls s) (hi : s.nextSequence ≤ i) :
    ∀ t, .added t ∈ ls → t.sequence ≠ i := fun t ht heq => by
  have := (h.fresh t ht).1
  omega

theorem mem_snoc_of_ne {a : Label} (h : a ∈ ls ++ [l]) (hne : a ≠ l) : a ∈ ls :=
  (mem_append.1 h).resolve_right fun hmem => hne (mem_singleton.1 hmem)

theorem safe_snoc (h : Scheduling ls s) (hl : ∀ t, l = .start t → .cancelled t.sequence ∉ ls) :
    (ls ++ [l]).Pairwise fun a b => ∀ i t, a = .cancelled i → b = .start t → t.sequence ≠ i := by
  refine List.pairwise_append.2 ⟨h.safe, List.pairwise_singleton _ _, fun a ha b hb i t hai hbt heq => ?_⟩
  rw [mem_singleton.1 hb] at hbt
  exact hl t hbt (heq ▸ hai ▸ ha)

theorem congr (h : Scheduling ls s)
    (hsame : s'.table = s.table ∧ s'.mode = s.mode ∧ s'.canceling = s.canceling ∧
      s'.nextSequence = s.nextSequence) (hwaiting : ∀ i ∈ s'.waiting, i ∈ s.waiting) :
    Scheduling ls s' := by
  obtain ⟨table, mode, canceling, nextSequence, pendingAdd, pendingCancel, functors, calls, known⟩ := s'
  obtain ⟨rfl, rfl, rfl, rfl⟩ := hsame
  refine { h with fresh := fun t ht => ⟨(h.fresh t ht).1, fun hw => (h.fresh t ht).2 (hwaiting _ hw)⟩ }

theorem quiet_snoc (hl : Quiet l) : (∀ t, l ≠ .added t) ∧ (∀ t, l ≠ .start t) ∧ (∀ i, l ≠ .cancelled i) ∧
    (∀ i, startCount i [l] = 0) ∧ ∀ acc, startsOfRead [l] acc = acc := by
  rcases hl with rfl | ⟨i, rfl⟩ <;> simp [startCount, startsOfRead]

/-- A step that leaves the loop's timers alone. -/
theorem quiet (h : Scheduling ls s) (hl : Quiet l)
    (hsame : s'.table = s.table ∧ s'.mode = s.mode ∧ s'.canceling = s.canceling)
    (hnext : s.nextSequence ≤ s'.nextSequence)
    (hwaiting : ∀ i < s.nextSequence, i ∈ s'.waiting → i ∈ s.waiting) : Scheduling (ls ++ [l]) s' := by
  obtain ⟨htable, hmode, hcanceling⟩ := hsame
  obtain ⟨hadded, hstart, hcancelled, hcount, hread⟩ := quiet_snoc hl
  have hlive : ∀ i, s'.live i = s.live i := fun i => by rw [State.live, State.live, htable, hmode]
  have hmem : ∀ t, .added t ∈ ls ++ [l] → .added t ∈ ls := fun t ht =>
    mem_snoc_of_ne ht fun heq => hadded t heq.symm
  constructor
  · exact htable ▸ h.sync
  · exact hmode ▸ h.nodup
  · rw [htable, hmode]
    exact h.out
  · exact hmode ▸ h.sorted
  · exact hmode ▸ h.suffix
  · intro t ht
    obtain ⟨hlt, hnot⟩ := h.fresh t (hmem t ht)
    exact ⟨by omega, fun hwait => hnot (hwaiting _ hlt hwait)⟩
  · exact fun t t' ht ht' => h.unique t t' (hmem t ht) (hmem t' ht')
  · rw [htable]
    exact fun i t ht => (h.table i t ht).mono l
  · rw [hmode]
    exact fun t ht => (h.batch t ht).mono l
  · exact fun t ht => (h.starts t (mem_snoc_of_ne ht fun heq => hstart t heq.symm)).mono l
  · rw [htable, hmode, hcanceling]
    exact fun i hi => h.cancelled i (mem_snoc_of_ne hi fun heq => hcancelled i heq.symm)
  · rw [hcanceling]
    exact fun i hi => mem_append_left _ (h.canceling i hi)
  · intro t ht hrep
    rw [startCount_snoc, hcount, hlive]
    exact h.once t (hmem t ht) hrep
  · intro t ht hrep hnot
    rw [htable, hmode]
    exact h.kept t (hmem t ht) hrep fun hc => hnot (mem_append_left _ hc)
  · rw [State.calling, hmode, startsOfRead_snoc, hread]
    exact h.reading
  · rw [startsOfRead_snoc, hread]
    exact h.ordered
  · exact h.safe_snoc fun t ht => absurd ht (hstart t)

/-- The loop adds a timer with a sequence that is new to it and was not cancelled. -/
theorem add (h : Scheduling ls s) (hnew : ∀ t', .added t' ∈ ls → t'.sequence ≠ t.sequence)
    (hnc : .cancelled t.sequence ∉ ls) (htable : s'.table = s.table.emplace t)
    (hsame : s'.mode = s.mode ∧ s'.canceling = s.canceling)
    (hnext : s.nextSequence ≤ s'.nextSequence) (hlt : t.sequence < s'.nextSequence)
    (hsub : ∀ i ∈ s'.waiting, i ∈ s.waiting) (hnot : t.sequence ∉ s'.waiting) :
    Scheduling (ls ++ [.added t]) s' := by
  obtain ⟨hmode, hcanceling⟩ := hsame
  obtain ⟨hnone, hbatch, hcount⟩ := h.absent hnew
  rw [h.sync.emplace_eq hnone] at htable
  have htimer : s'.table.timers t.sequence = some t := by
    rw [htable]
    exact update_self _ _ _
  have hother : ∀ i, i ≠ t.sequence → s'.table.timers i = s.table.timers i := fun i hi => by
    rw [htable]
    exact update_of_ne hi _ _
  have hmem : ∀ t', .added t' ∈ ls ++ [.added t] → t' = t ∨ .added t' ∈ ls := fun t' ht' => by
    rcases mem_append.1 ht' with ht' | ht'
    · exact .inr ht'
    · cases mem_singleton.1 ht'
      exact .inl rfl
  have hrest : (s.mode.rest.map Timer.sequence).count t.sequence = 0 :=
    List.count_eq_zero.2 fun hr => hbatch (List.map_subset _ h.suffix.subset hr)
  constructor
  · rw [htable, ← h.sync.emplace_eq hnone]
    exact h.sync.emplace hnone
  · exact hmode ▸ h.nodup
  · intro t' ht'
    rw [hmode] at ht'
    rw [hother _ fun heq => hbatch (heq ▸ mem_map_of_mem ht')]
    exact h.out t' ht'
  · exact hmode ▸ h.sorted
  · exact hmode ▸ h.suffix
  · intro t' ht'
    rcases hmem t' ht' with rfl | ht'
    · exact ⟨hlt, hnot⟩
    · exact ⟨(h.fresh t' ht').1.trans_le hnext, fun hw => (h.fresh t' ht').2 (hsub _ hw)⟩
  · intro t₁ t₂ h₁ h₂ heq
    rcases hmem t₁ h₁ with rfl | hold₁ <;> rcases hmem t₂ h₂ with rfl | hold₂
    · rfl
    · exact absurd heq.symm (hnew t₂ hold₂)
    · exact absurd heq (hnew t₁ hold₁)
    · exact h.unique t₁ t₂ hold₁ hold₂ heq
  · intro i t' ht'
    by_cases hi : i = t.sequence
    · rw [hi, htimer] at ht'
      cases ht'
      exact ⟨t, mem_append_right _ (mem_singleton_self _), rfl, rfl⟩
    · rw [hother i hi] at ht'
      exact (h.table i t' ht').mono _
  · rw [hmode]
    exact fun t' ht' => (h.batch t' ht').mono _
  · exact fun t' ht' => (h.starts t' (mem_snoc_of_ne ht' (by simp))).mono _
  · intro i hi
    have hi' : .cancelled i ∈ ls := mem_snoc_of_ne hi (by simp)
    rw [hmode, hcanceling, hother i fun heq => hnc (heq ▸ hi')]
    exact h.cancelled i hi'
  · rw [hcanceling]
    exact fun i hi => mem_append_left _ (h.canceling i hi)
  · intro t' ht' hrep
    have hzero : startCount t'.sequence [.added t] = 0 := rfl
    rw [startCount_snoc, hzero, State.live, hmode]
    rcases hmem t' ht' with rfl | ht'
    · rw [hcount, hrest, htimer]
      simp
    · rw [hother _ (hnew t' ht')]
      exact h.once t' ht' hrep
  · intro t' ht' hrep hc
    rcases hmem t' ht' with rfl | ht'
    · rw [htimer]
      exact .inl rfl
    · rw [hother _ (hnew t' ht'), hmode]
      exact h.kept t' ht' hrep fun hc' => hc (mem_append_left _ hc')
  · rw [State.calling, hmode, startsOfRead_snoc]
    exact h.reading
  · rw [startsOfRead_snoc]
    exact h.ordered
  · exact h.safe_snoc fun t ht => by cases ht

/-- The loop processes a cancel: the timer is in no table afterwards, and if it is in the batch it is
not rearmed. -/
theorem cancel (h : Scheduling ls s) (htimers : s'.table = s.table ∧ s.table.timers i = none ∨
      ∃ t, s.table.timers i = some t ∧ s'.table = s.table.erase t)
    (hcanceling : ∀ j ∈ s'.canceling, j ∈ s.canceling ∨ j = i) (hsub : s.canceling ⊆ s'.canceling)
    (hbatch : i ∈ s.mode.batch.map Timer.sequence → i ∈ s'.canceling)
    (hsame : s'.mode = s.mode ∧ s'.nextSequence = s.nextSequence)
    (hwaiting : ∀ i ∈ s'.waiting, i ∈ s.waiting) : Scheduling (ls ++ [.cancelled i]) s' := by
  obtain ⟨hmode, hnext⟩ := hsame
  have hsync : Sync s'.table := by
    rcases htimers with ⟨heq, -⟩ | ⟨t, ht, heq⟩
    · exact heq ▸ h.sync
    · rw [heq]
      refine h.sync.erase ?_
      rw [h.sync.sequence i t ht, ht]
  have hnone : s'.table.timers i = none := by
    rcases htimers with ⟨heq, hnone⟩ | ⟨t, ht, heq⟩
    · rw [heq, hnone]
    · rw [heq, Table.erase, h.sync.sequence i t ht]
      exact update_self _ _ _
  have hother : ∀ j, j ≠ i → s'.table.timers j = s.table.timers j := fun j hj => by
    rcases htimers with ⟨heq, -⟩ | ⟨t, ht, heq⟩
    · rw [heq]
    · rw [heq, Table.erase, h.sync.sequence i t ht]
      exact update_of_ne hj _ _
  have hsome : ∀ j t, s'.table.timers j = some t → s.table.timers j = some t := fun j t ht => by
    by_cases hj : j = i
    · rw [hj, hnone] at ht
      cases ht
    · rwa [hother j hj] at ht
  have hmem : ∀ t, .added t ∈ ls ++ [.cancelled i] → .added t ∈ ls := fun t ht =>
    mem_snoc_of_ne ht (by simp)
  constructor
  · exact hsync
  · exact hmode ▸ h.nodup
  · intro t ht
    rw [hmode] at ht
    refine Option.eq_none_iff_forall_ne_some.2 fun t' ht' => ?_
    have hold := hsome _ _ ht'
    rw [h.out t ht] at hold
    cases hold
  · exact hmode ▸ h.sorted
  · exact hmode ▸ h.suffix
  · rw [hnext]
    exact fun t ht => ⟨(h.fresh t (hmem t ht)).1, fun hw => (h.fresh t (hmem t ht)).2 (hwaiting _ hw)⟩
  · exact fun t t' ht ht' => h.unique t t' (hmem t ht) (hmem t' ht')
  · exact fun j t ht => (h.table j t (hsome j t ht)).mono _
  · rw [hmode]
    exact fun t ht => (h.batch t ht).mono _
  · exact fun t ht => (h.starts t (mem_snoc_of_ne ht (by simp))).mono _
  · intro j hj
    rw [hmode]
    by_cases hji : j = i
    · exact ⟨hji ▸ hnone, fun hb => hji ▸ hbatch (hji ▸ hb)⟩
    · rw [hother j hji]
      obtain ⟨hnone, hin⟩ := h.cancelled j (mem_snoc_of_ne hj (by simpa using hji))
      exact ⟨hnone, fun hb => hsub (hin hb)⟩
  · intro j hj
    rcases hcanceling j hj with hj | rfl
    · exact mem_append_left _ (h.canceling j hj)
    · exact mem_append_right _ (mem_singleton_self _)
  · intro t ht hrep
    have hzero : startCount t.sequence [.cancelled i] = 0 := rfl
    have honce := h.once t (hmem t ht) hrep
    rw [startCount_snoc, hzero]
    have hlive : s'.live t.sequence ≤ s.live t.sequence := by
      rw [State.live, State.live, hmode]
      refine Nat.add_le_add_right ?_ _
      by_cases hi : t.sequence = i
      · rw [hi, hnone]
        simp
      · rw [hother _ hi]
    omega
  · intro t ht hrep hnot
    have hne : t.sequence ≠ i := fun heq =>
      hnot (heq ▸ mem_append_right _ (mem_singleton_self _))
    rw [hother _ hne, hmode]
    exact h.kept t (hmem t ht) hrep fun hc => hnot (mem_append_left _ hc)
  · rw [State.calling, hmode, startsOfRead_snoc]
    exact h.reading
  · rw [startsOfRead_snoc]
    exact h.ordered
  · exact h.safe_snoc fun t ht => by cases ht

theorem cancelInLoop (h : Scheduling ls s) (i : ℕ) :
    Scheduling (ls ++ [.cancelled i]) (s.cancelInLoop i) := by
  unfold State.cancelInLoop
  split
  · next t ht =>
    refine h.cancel (.inr ⟨t, ht, rfl⟩) (fun j hj => .inl hj) (Finset.Subset.refl _) (fun hb => ?_)
      ⟨rfl, rfl⟩ (fun _ => id)
    obtain ⟨t', ht', rfl⟩ := mem_map.1 hb
    rw [h.out t' ht'] at ht
    cases ht
  · next hnone =>
    split
    · refine h.cancel (.inl ⟨rfl, hnone⟩) (fun j hj => ?_) (subset_insert _ _)
        (fun _ => mem_insert_self _ _) ⟨rfl, rfl⟩ (fun _ => id)
      exact (mem_insert.1 hj).symm
    · next hidle =>
      refine h.cancel (.inl ⟨rfl, hnone⟩) (fun j hj => .inl hj) (Finset.Subset.refl _) (fun hb => ?_)
        ⟨rfl, rfl⟩ (fun _ => id)
      unfold State.calling at hidle
      split at hidle
      · next hmode =>
        rw [hmode] at hb
        cases hb
      · exact absurd rfl hidle

/-- `HandleRead` goes on to the next timer of its batch, which it may start. -/
theorem advance {mode : Mode} (h : Scheduling ls s) (hcalling : s.calling = true)
    (hbatch : mode.batch = s.mode.batch)
    (hl : l = .silent ∧ mode.rest <:+ s.mode.rest ∨
      ∃ t, l = .start t ∧ s.mode.rest = t :: mode.rest ∧ .cancelled t.sequence ∉ ls) :
    Scheduling (ls ++ [l]) { s with mode } := by
  have hsuffix : mode.rest <:+ s.mode.rest := by
    rcases hl with ⟨-, hsuffix⟩ | ⟨t, -, hrest, -⟩
    · exact hsuffix
    · exact hrest ▸ List.suffix_cons _ _
  have hadded : ∀ t, .added t ∈ ls ++ [l] → .added t ∈ ls := fun t ht =>
    mem_snoc_of_ne ht (by rcases hl with ⟨rfl, -⟩ | ⟨_, rfl, -⟩ <;> simp)
  have hcancelled : ∀ i, .cancelled i ∈ ls ++ [l] → .cancelled i ∈ ls := fun i hi =>
    mem_snoc_of_ne hi (by rcases hl with ⟨rfl, -⟩ | ⟨_, rfl, -⟩ <;> simp)
  have hcount : ∀ i, startCount i [l] + (mode.rest.map Timer.sequence).count i ≤
      (s.mode.rest.map Timer.sequence).count i := fun i => by
    rcases hl with ⟨rfl, hsuffix⟩ | ⟨t, rfl, hrest, -⟩
    · have hzero : startCount i [.silent] = 0 := rfl
      rw [hzero, Nat.zero_add]
      exact (hsuffix.sublist.map _).count_le i
    · have hone : startCount i [.start t] = if t.sequence == i then 1 else 0 := by
        simp [startCount, List.countP_cons]
      rw [hrest, map_cons, List.count_cons, hone]
      omega
  have hreading : (startsOfRead (ls ++ [l]) [] ++ mode.rest).Sublist s.mode.batch := by
    have hold := h.reading hcalling
    rw [startsOfRead_snoc]
    rcases hl with ⟨rfl, hsuffix⟩ | ⟨t, rfl, hrest, -⟩
    · exact (hsuffix.sublist.append_left _).trans hold
    · rw [hrest] at hold
      simpa [startsOfRead] using hold
  constructor
  · exact h.sync
  · exact hbatch ▸ h.nodup
  · exact fun t ht => h.out t (hbatch ▸ ht)
  · exact hbatch ▸ h.sorted
  · exact hbatch ▸ hsuffix.trans h.suffix
  · exact fun t ht => h.fresh t (hadded t ht)
  · exact fun t t' ht ht' => h.unique t t' (hadded t ht) (hadded t' ht')
  · exact fun i t ht => (h.table i t ht).mono l
  · exact fun t ht => (h.batch t (hbatch ▸ ht)).mono l
  · intro t ht
    rcases mem_append.1 ht with ht | ht
    · exact (h.starts t ht).mono l
    · rcases hl with ⟨rfl, -⟩ | ⟨t', rfl, hrest, -⟩
      · cases mem_singleton.1 ht
      · cases mem_singleton.1 ht
        exact (h.batch t (h.suffix.subset (hrest ▸ List.mem_cons_self))).mono _
  · intro i hi
    rw [hbatch]
    exact h.cancelled i (hcancelled i hi)
  · exact fun i hi => mem_append_left _ (h.canceling i hi)
  · intro t ht hrep
    have honce := h.once t (hadded t ht) hrep
    have hle := hcount t.sequence
    rw [startCount_snoc]
    simp only [State.live] at honce ⊢
    omega
  · intro t ht hrep hnot
    rw [hbatch]
    exact h.kept t (hadded t ht) hrep fun hc => hnot (mem_append_left _ hc)
  · rw [hbatch]
    exact fun _ => hreading
  · exact h.sorted.sublist ((List.sublist_append_left _ _).trans hreading)
  · refine h.safe_snoc fun t ht => ?_
    rcases hl with ⟨rfl, -⟩ | ⟨t', rfl, -, hnot⟩
    · cases ht
    · cases ht
      exact hnot

theorem beginRead (h : Scheduling ls s) (hidle : s.mode = .idle) (now : ℤ) :
    Scheduling (ls ++ [.read]) (s.beginRead now) := by
  have hadded : ∀ t, .added t ∈ ls ++ [.read] → .added t ∈ ls := fun t ht => mem_snoc_of_ne ht (by simp)
  have hcancelled : ∀ i, .cancelled i ∈ ls ++ [.read] → .cancelled i ∈ ls := fun i hi =>
    mem_snoc_of_ne hi (by simp)
  have htimers : ∀ i, (s.table.extract now).timers i =
      if i ∈ (s.table.expired now).map Timer.sequence then none else s.table.timers i := fun _ => rfl
  constructor
  · exact h.sync.extract now
  · exact h.sync.nodup_expired now
  · intro t ht
    have hmem : t.sequence ∈ (s.table.expired now).map Timer.sequence := mem_map_of_mem ht
    exact if_pos hmem
  · exact h.sync.sorted_expired now
  · exact suffix_refl _
  · exact fun t ht => h.fresh t (hadded t ht)
  · exact fun t t' ht ht' => h.unique t t' (hadded t ht) (hadded t' ht')
  · intro i t ht
    have ht' : (s.table.extract now).timers i = some t := ht
    rw [htimers] at ht'
    split at ht'
    · cases ht'
    · exact (h.table i t ht').mono _
  · exact fun t ht => (h.table _ t (h.sync.mem_expired.1 ht).1).mono _
  · exact fun t ht => (h.starts t (mem_snoc_of_ne ht (by simp))).mono _
  · intro i hi
    have hnone := (h.cancelled i (hcancelled i hi)).1
    have hnot : i ∉ (s.table.expired now).map Timer.sequence := fun hmem => by
      obtain ⟨t, ht, -⟩ := h.sync.mem_sequence_expired.1 hmem
      rw [hnone] at ht
      cases ht
    exact ⟨(htimers i).trans ((if_neg hnot).trans hnone), fun hmem => absurd hmem hnot⟩
  · simp [State.beginRead]
  · intro t ht hrep
    have honce := h.once t (hadded t ht) hrep
    have hzero : startCount t.sequence [.read] = 0 := rfl
    rw [startCount_snoc, hzero]
    suffices hlive : (s.beginRead now).live t.sequence = s.live t.sequence by
      rw [hlive]
      exact honce
    show (if ((s.table.extract now).timers t.sequence).isSome then 1 else 0) +
      ((s.table.expired now).map Timer.sequence).count t.sequence = s.live t.sequence
    rw [State.live, hidle, htimers]
    by_cases hmem : t.sequence ∈ (s.table.expired now).map Timer.sequence
    · obtain ⟨t', ht', -⟩ := h.sync.mem_sequence_expired.1 hmem
      rw [if_pos hmem, List.count_eq_one_of_mem (h.sync.nodup_expired now) hmem, ht']
      rfl
    · rw [if_neg hmem, List.count_eq_zero.2 hmem]
      rfl
  · intro t ht hrep hnot
    have hkept := h.kept t (hadded t ht) hrep fun hc => hnot (mem_append_left _ hc)
    rw [hidle] at hkept
    have hsome := hkept.resolve_right (by simp [Mode.batch])
    by_cases hmem : t.sequence ∈ (s.table.expired now).map Timer.sequence
    · exact .inr hmem
    · refine .inl ?_
      show ((s.table.extract now).timers t.sequence).isSome = true
      rwa [htimers, if_neg hmem]
  · intro _
    rw [startsOfRead_snoc]
    exact List.Sublist.refl _
  · rw [startsOfRead_snoc]
    exact .nil
  · exact h.safe_snoc fun t ht => by cases ht

theorem endRead {batch : List Timer} (h : Scheduling ls s) (hmode : s.mode = .running batch [] none)
    (now : ℤ) : Scheduling (ls ++ [.silent]) (s.endRead now batch) := by
  have hadded : ∀ t, .added t ∈ ls ++ [.silent] → .added t ∈ ls := fun t ht =>
    mem_snoc_of_ne ht (by simp)
  have hbatch : s.mode.batch = batch := by rw [hmode, Mode.batch]
  have hrest : s.mode.rest = [] := by rw [hmode, Mode.rest]
  obtain ⟨hsync, hout, hin⟩ := h.sync.rearm (hbatch ▸ h.nodup) (hbatch ▸ h.out) now s.canceling
  have hread : startsOfRead (ls ++ [.silent]) [] = startsOfRead ls [] := startsOfRead_snoc _ _ _
  have hlive : ∀ i, (s.endRead now batch).live i =
      if ((s.table.rearm now s.canceling batch).timers i).isSome then 1 else 0 := fun i => rfl
  constructor
  · exact hsync
  · exact List.nodup_nil
  · exact fun t ht => absurd ht (not_mem_nil)
  · exact .nil
  · exact suffix_refl _
  · exact fun t ht => h.fresh t (hadded t ht)
  · exact fun t t' ht ht' => h.unique t t' (hadded t ht) (hadded t' ht')
  · intro i t ht
    have ht' : (s.table.rearm now s.canceling batch).timers i = some t := ht
    by_cases hi : i ∈ batch.map Timer.sequence
    · obtain ⟨t₀, ht₀, rfl⟩ := mem_map.1 hi
      rw [hin t₀ ht₀] at ht'
      split at ht'
      · cases ht'
        obtain ⟨t₁, hadd, hseq, hrep⟩ := h.batch t₀ (hbatch ▸ ht₀)
        refine ⟨t₁, mem_append_left _ hadd, ?_, ?_⟩
        · rw [hseq, Timer.sequence_restart]
        · rw [hrep, Timer.isRepeat_restart]
      · cases ht'
    · rw [hout i hi] at ht'
      exact (h.table i t ht').mono _
  · exact fun t ht => absurd ht (not_mem_nil)
  · exact fun t ht => (h.starts t (mem_snoc_of_ne ht (by simp))).mono _
  · intro i hi
    obtain ⟨hnone, hcanceling⟩ := h.cancelled i (mem_snoc_of_ne hi (by simp))
    refine ⟨?_, fun hmem => absurd hmem (not_mem_nil)⟩
    show (s.table.rearm now s.canceling batch).timers i = none
    by_cases hib : i ∈ batch.map Timer.sequence
    · have hc := hcanceling (hbatch ▸ hib)
      obtain ⟨t, ht, rfl⟩ := mem_map.1 hib
      rw [hin t ht, if_neg fun hcond => hcond.2 hc]
    · rw [hout i hib, hnone]
  · simp [State.endRead]
  · intro t ht hrep
    have honce := h.once t (hadded t ht) hrep
    have hzero : startCount t.sequence [.silent] = 0 := rfl
    rw [startCount_snoc, hzero, hlive]
    rw [State.live, hrest] at honce
    by_cases hib : t.sequence ∈ batch.map Timer.sequence
    · obtain ⟨t', ht', hseq⟩ := mem_map.1 hib
      obtain ⟨t₀, hadd, hseq₀, hrep₀⟩ := h.batch t' (hbatch ▸ ht')
      rw [h.unique t₀ t hadd (hadded t ht) (hseq₀.trans hseq), hrep] at hrep₀
      rw [← hseq, hin t' ht', if_neg fun hcond => by simp [← hrep₀] at hcond, hseq]
      exact (Nat.le_add_right _ _).trans honce
    · rw [hout _ hib]
      exact honce
  · intro t ht hrep hnot
    have hnot' : .cancelled t.sequence ∉ ls := fun hc => hnot (mem_append_left _ hc)
    refine .inl ?_
    show ((s.table.rearm now s.canceling batch).timers t.sequence).isSome = true
    by_cases hib : t.sequence ∈ batch.map Timer.sequence
    · obtain ⟨t', ht', hseq⟩ := mem_map.1 hib
      obtain ⟨t₀, hadd, hseq₀, hrep₀⟩ := h.batch t' (hbatch ▸ ht')
      rw [h.unique t₀ t hadd (hadded t ht) (hseq₀.trans hseq), hrep] at hrep₀
      rw [← hseq, hin t' ht', if_pos ⟨hrep₀.symm, fun hc => hnot' (hseq ▸ h.canceling _ hc)⟩]
      rfl
    · rw [hout _ hib]
      exact (h.kept t (hadded t ht) hrep hnot').resolve_right (hbatch ▸ hib)
  · intro hcalling
    cases hcalling
  · rw [hread]
    exact h.ordered
  · exact h.safe_snoc fun t ht => by cases ht

end Scheduling

/-! ## Whole runs -/

theorem Pending.added (h : Pending ls s) (hs : Step s (.added t) s') : ¬ Requested ls t.sequence := by
  intro hreq
  obtain ⟨hknown, hcancel⟩ := h.requested _ hreq
  generalize hl : Label.added t = l at hs
  cases hs with
  | addInLoop _ ht hadd =>
    subst hl
    rw [h.addInLoop_eq ht] at hadd
    cases hadd
    have := h.known_lt _ hknown
    omega
  | runAdd _ hf hadd =>
    subst hl
    unfold State.addTimerInLoop at hadd
    split at hadd
    · cases hadd
    · next hnot =>
      cases hadd
      exact hnot (hcancel (waiting_runAdd hf ▸ mem_cons_self _ _))
  | _ => cases hl

theorem Scheduling.step (hp : Pending ls s) (h : Scheduling ls s) (hs : Step s l s') :
    Scheduling (ls ++ [l]) s' := by
  have hnot := fun {t} (hl : l = .added t) => hp.added (hl ▸ hs)
  cases hs with
  | @addInLoop _ t _ _ ht hadd =>
    rw [hp.addInLoop_eq ht] at hadd
    cases hadd
    have hfresh : t.sequence ∉ s.waiting := fun hmem => by
      have := hp.waiting_lt _ hmem
      omega
    exact h.add (h.absent_of_le ht.ge) (fun hc => hnot rfl (.inr hc)) rfl ⟨rfl, rfl⟩
      (Nat.le_succ _) (Nat.lt_succ_of_le ht.le) (fun _ => id) hfresh
  | fetch ht =>
    refine h.quiet (.inl rfl) ⟨rfl, rfl, rfl⟩ (Nat.le_succ _) fun i hi hmem => ?_
    simp only [State.waiting, cons_bind, Call.adding, mem_add,
      Multiset.mem_singleton] at hmem ⊢
    rcases hmem with (rfl | hmem) | hmem
    · omega
    · exact .inl hmem
    · exact .inr hmem
  | mark hc =>
    refine h.quiet (.inl rfl) ⟨rfl, rfl, rfl⟩ le_rfl fun i _ hmem => ?_
    simpa [State.waiting, Call.adding, hc] using hmem
  | queueAdd hc =>
    refine h.quiet (.inl rfl) ⟨rfl, rfl, rfl⟩ le_rfl fun i _ hmem => ?_
    simp only [State.waiting, hc, ← coe_add, add_bind, cons_bind,
      Call.adding, Functor.adding, coe_singleton, singleton_bind,
      mem_add] at hmem ⊢
    tauto
  | @cancelInLoop i _ hi =>
    obtain ⟨pendingCancel, heq, -⟩ := Pending.markCancel_cases s i
    rw [heq]
    have hmark : Scheduling ls { s with pendingCancel } := h.congr ⟨rfl, rfl, rfl, rfl⟩ fun _ => id
    exact hmark.cancelInLoop i
  | @request i hi =>
    obtain ⟨pendingCancel, heq, -⟩ := Pending.markCancel_cases s i
    rw [heq]
    refine h.quiet (.inr ⟨i, rfl⟩) ⟨rfl, rfl, rfl⟩ le_rfl fun j _ hmem => ?_
    simpa [State.waiting, Call.adding] using hmem
  | queueCancel hc =>
    refine h.quiet (.inl rfl) ⟨rfl, rfl, rfl⟩ le_rfl fun i _ hmem => ?_
    simpa [State.waiting, Call.adding, Functor.adding, hc, ← coe_add] using hmem
  | @runAdd _ t functors _ _ hf hadd =>
    have hw := Pending.waiting_runAdd hf
    have hmem : t.sequence ∈ s.waiting := hw ▸ mem_cons_self _ _
    have hnew := h.absent_of_waiting hmem
    have hsub : ∀ i ∈ State.waiting { s with functors }, i ∈ s.waiting := fun i hi =>
      hw ▸ mem_cons_of_mem hi
    unfold State.addTimerInLoop at hadd
    split at hadd
    · cases hadd
      obtain ⟨hnone, hbatch, -⟩ := h.absent hnew
      exact h.cancel (.inl ⟨rfl, hnone⟩) (fun _ => .inl) (Finset.Subset.refl _)
        (fun hmem => absurd hmem hbatch) ⟨rfl, rfl⟩ hsub
    · cases hadd
      exact h.add hnew (fun hc => hnot rfl (.inr hc)) rfl ⟨rfl, rfl⟩ le_rfl (hp.waiting_lt _ hmem) hsub
        (nodup_cons.1 (hw ▸ hp.nodup)).1
  | @runCancel i functors _ hf =>
    have htake : Scheduling ls { s with functors } := h.congr ⟨rfl, rfl, rfl, rfl⟩ fun j hj => by
      simpa [State.waiting, hf, Functor.adding, ← cons_coe] using hj
    exact htake.cancelInLoop i
  | beginRead now hidle => exact h.beginRead hidle now
  | skip hmode _ =>
    refine h.advance (by rw [State.calling, hmode]) (by rw [hmode]; rfl) (.inl ⟨rfl, ?_⟩)
    rw [hmode]
    exact List.suffix_cons _ _
  | start hmode hnc =>
    refine h.advance (by rw [State.calling, hmode]) (by rw [hmode]; rfl)
      (.inr ⟨_, rfl, by rw [hmode]; rfl, fun hc => hnc ((h.cancelled _ hc).2 ?_)⟩)
    refine mem_map_of_mem (h.suffix.subset ?_)
    rw [hmode]
    exact List.mem_cons_self
  | finish hmode =>
    refine h.advance (by rw [State.calling, hmode]) (by rw [hmode]; rfl) (.inl ⟨rfl, ?_⟩)
    rw [hmode]
    exact suffix_refl _
  | endRead now hmode => exact h.endRead hmode now

def Late (a b : Label) : Prop := ∃ t, a = .requested t.sequence ∧ b = .added t

/-- In every run the schedule and the map hold the same timers; a one-shot timer starts at most once;
no timer starts after the loop has processed a cancel of it, and none is added after a cancel of it
was issued; between the reads every repeating timer that was not cancelled is scheduled; and a read
starts its timers in the order of expiration and sequence. -/
theorem timers_and_cancels (hrun : Run Step .initial ls s) :
    ((∀ e, e ∈ s.table.schedule ↔ ∃ t, s.table.timers t.sequence = some t ∧ t.entry = e) ∧
      ∀ i t, s.table.timers i = some t → t.sequence = i) ∧
    (∀ t, .start t ∈ ls → t.isRepeat = false → startCount t.sequence ls ≤ 1) ∧
    (ls.Pairwise fun a b => ∀ i t, a = .cancelled i → b = .start t → t.sequence ≠ i) ∧
    (ls.Pairwise fun a b => ¬ Late a b) ∧
    (s.mode = .idle → ∀ t, .added t ∈ ls → t.isRepeat = true → .cancelled t.sequence ∉ ls →
      ∃ t', s.table.timers t.sequence = some t' ∧ t'.entry ∈ s.table.schedule ∧ t'.isRepeat = true) ∧
    (startsOfRead ls []).Pairwise fun a b => a.entry < b.entry := by
  have hinv : Pending ls s ∧ Scheduling ls s ∧ ls.Pairwise fun a b => ¬ Late a b := by
    refine hrun.history (I := fun ls s => Pending ls s ∧ Scheduling ls s ∧ ls.Pairwise fun a b => ¬ Late a b)
      (fun ls s l s' h hs => ⟨h.1.step hs, h.2.1.step h.1 hs, ?_⟩) ⟨.init, .init, .nil⟩
    refine List.pairwise_append.2 ⟨h.2.2, List.pairwise_singleton _ _, fun a ha b hb hlate => ?_⟩
    obtain ⟨t, rfl, rfl⟩ := hlate
    obtain rfl := List.mem_singleton.1 hb
    exact h.1.added hs (.inl ha)
  obtain ⟨-, h, hlate⟩ := hinv
  refine ⟨⟨h.sync.entries, h.sync.sequence⟩, fun t ht hrep => ?_, h.safe, hlate,
    fun hidle t ht hrep hnot => ?_, h.ordered⟩
  · obtain ⟨t₀, hadd, hseq, hrep₀⟩ := h.starts t ht
    have honce := h.once t₀ hadd (hrep₀.trans hrep)
    rw [hseq] at honce
    omega
  · have hkept := h.kept t ht hrep hnot
    rw [hidle] at hkept
    obtain ⟨t', ht'⟩ := Option.isSome_iff_exists.1 (hkept.resolve_right (by simp [Mode.batch]))
    have hseq := h.sync.sequence _ _ ht'
    obtain ⟨t₀, hadd, hseq₀, hrep₀⟩ := h.table _ _ ht'
    rw [h.unique t₀ t hadd ht (hseq₀.trans hseq), hrep] at hrep₀
    exact ⟨t', ht', (h.sync.entries _).2 ⟨t', by rw [hseq, ht'], rfl⟩, hrep₀.symm⟩

def Timer.ticking : Timer := ⟨5, 3, 1⟩

theorem expired_ticking : (Table.empty.emplace .ticking).expired 5 = [Timer.ticking] := by
  have htable : Table.empty.emplace .ticking =
      ⟨{Timer.ticking.entry}, Function.update (fun _ => none) 1 (some .ticking)⟩ := rfl
  have hle : Timer.ticking.entry ≤ Table.upperBound 5 := by decide
  rw [htable, Table.expired, Finset.filter_singleton, if_pos hle, Finset.sort_singleton]
  rfl

/-- A repeating timer that has run once and is scheduled again. -/
theorem timers_and_cancels_ticking :
    ∃ ls s, Run Step .initial ls s ∧ .start .ticking ∈ ls ∧
      ∃ t, s.table.timers 1 = some t ∧ t.entry ∈ s.table.schedule ∧ t.isRepeat = true := by
  have hrun : ∃ s, s.mode = .idle ∧ Run Step .initial
      [.added .ticking, .read, .start .ticking, .silent, .silent] s := by
    have hadd : Step .initial (.added .ticking) { State.initial with
        nextSequence := 2
        table := Table.empty.emplace .ticking
        known := {1} } := Step.addInLoop (s := .initial) (t := .ticking) trivial rfl rfl
    have hbegin := (Run.single hadd).snoc (.beginRead 5 rfl)
    rw [State.beginRead, expired_ticking] at hbegin
    have hstart := hbegin.snoc (.start rfl (Finset.notMem_empty _))
    exact ⟨_, rfl, (hstart.snoc (.finish rfl)).snoc (.endRead 6 rfl)⟩
  obtain ⟨s, hidle, hrun⟩ := hrun
  obtain ⟨-, -, -, -, hkept, -⟩ := timers_and_cancels hrun
  exact ⟨_, s, hrun, by simp, hkept hidle .ticking (by simp) rfl (by simp)⟩

end TinyImx.Net.TimerQueue
