import Mathlib.Algebra.BigOperators.Group.Multiset.Basic
import Mathlib.Logic.Relation

/-!
# Threads on a shared state

A pool is a shared state and the threads that work on it.  A step lets one thread act, which may
depend on the other threads (who holds a lock), or starts a new thread.  `Pool.Good` is an invariant
in three parts: one on the shared state, one on each thread beside it, and a relation that holds
between any two threads; `Good.step` is the rule that shows it kept.
-/

structure Pool (σ τ : Type) where
  shared : σ
  threads : Multiset τ

namespace Pool

variable {σ τ : Type}

def Apart (R : τ → τ → Prop) (ts : Multiset τ) : Prop :=
  ∀ t rest, ts = t ::ₘ rest → ∀ u ∈ rest, R t u

theorem apart_zero (R : τ → τ → Prop) : Apart R (0 : Multiset τ) := by
  intro t rest h
  exact absurd h.symm (Multiset.cons_ne_zero)

theorem apart_cons {R : τ → τ → Prop} (hsymm : ∀ t u, R t u → R u t) {t : τ} {ts : Multiset τ} :
    Apart R (t ::ₘ ts) ↔ (∀ u ∈ ts, R t u) ∧ Apart R ts := by
  classical
  constructor
  · intro h
    refine ⟨h t ts rfl, fun u rest hts v hv => ?_⟩
    subst hts
    exact h u (t ::ₘ rest) (Multiset.cons_swap t u rest) v (Multiset.mem_cons_of_mem hv)
  · rintro ⟨ht, hts⟩ a rest hrest u hu
    rcases Multiset.cons_eq_cons.1 hrest with ⟨rfl, rfl⟩ | ⟨-, cs, rfl, rfl⟩
    · exact ht u hu
    · rcases Multiset.mem_cons.1 hu with rfl | hu
      · exact hsymm _ _ (ht a (Multiset.mem_cons_self a cs))
      · exact hts a cs rfl u hu

/-- The steps of a pool: `act s rest t s' new` is what the thread `t` may do beside `rest`, leaving
the threads `new` in its place, and `spawn s ts t` says when `t` may be started. -/
inductive Step (act : σ → Multiset τ → τ → σ → Multiset τ → Prop)
    (spawn : σ → Multiset τ → τ → Prop) : Pool σ τ → Pool σ τ → Prop
  | act {s s' : σ} {t : τ} {rest new : Multiset τ} : act s rest t s' new →
      Step act spawn ⟨s, t ::ₘ rest⟩ ⟨s', new + rest⟩
  | spawn {s : σ} {t : τ} {ts : Multiset τ} : spawn s ts t → Step act spawn ⟨s, ts⟩ ⟨s, t ::ₘ ts⟩

structure Good (J : σ → Prop) (L : σ → τ → Prop) (R : τ → τ → Prop) (p : Pool σ τ) : Prop where
  shared : J p.shared
  each : ∀ t ∈ p.threads, L p.shared t
  apart : Apart R p.threads

variable {act : σ → Multiset τ → τ → σ → Multiset τ → Prop} {spawn : σ → Multiset τ → τ → Prop}
  {J : σ → Prop} {L : σ → τ → Prop} {R : τ → τ → Prop}

theorem Good.step (hsymm : ∀ t u, R t u → R u t)
    (hact : ∀ s rest t s' new, J s → L s t → (∀ u ∈ rest, L s u) → (∀ u ∈ rest, R t u) →
      act s rest t s' new → J s' ∧ (∀ u ∈ rest, L s' u) ∧
        (new = 0 ∨ ∃ t', new = {t'} ∧ L s' t' ∧ ∀ u ∈ rest, R t' u))
    (hspawn : ∀ s ts t, J s → (∀ u ∈ ts, L s u) → spawn s ts t → L s t ∧ ∀ u ∈ ts, R t u)
    {p p' : Pool σ τ} (h : Good J L R p) (hs : Step act spawn p p') : Good J L R p' := by
  cases hs with
  | @act s s' t rest new ha =>
    obtain ⟨hR, hrest⟩ := (apart_cons hsymm).1 h.apart
    obtain ⟨hJ, hothers, hnew⟩ := hact s rest t s' new h.shared (h.each t (Multiset.mem_cons_self t rest))
      (fun u hu => h.each u (Multiset.mem_cons_of_mem hu)) hR ha
    rcases hnew with rfl | ⟨t', rfl, hL, hR'⟩
    · exact ⟨hJ, by simpa using hothers, by simpa using hrest⟩
    · refine ⟨hJ, fun u hu => ?_, ?_⟩
      · rcases Multiset.mem_cons.1 (by simpa using hu) with rfl | hu
        · exact hL
        · exact hothers u hu
      · exact (apart_cons hsymm).2 ⟨hR', hrest⟩
  | @spawn s t ts hsp =>
    obtain ⟨hL, hR⟩ := hspawn s ts t h.shared h.each hsp
    refine ⟨h.shared, fun u hu => ?_, (apart_cons hsymm).2 ⟨hR, h.apart⟩⟩
    rcases Multiset.mem_cons.1 hu with rfl | hu
    · exact hL
    · exact h.each u hu

end Pool
