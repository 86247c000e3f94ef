import Mathlib.Order.WellFounded
import TinyImx.Lib.Run

/-!
# Infinite runs of a labelled transition system

A trace is an infinite run that may pause.  `Trace.eventually` is the rule for what must happen at
some time: a measure falls with every helpful step, no other step raises it, and helpful steps keep
coming while it is not reached.
-/

structure Trace {σ ℓ : Type} (step : σ → ℓ → σ → Prop) where
  state : ℕ → σ
  label : ℕ → Option ℓ
  next : ∀ n, match label n with
    | none => state (n + 1) = state n
    | some l => step (state n) l (state (n + 1))

namespace Trace

variable {σ ℓ : Type} {step : σ → ℓ → σ → Prop}

def labels (t : Trace step) (n : ℕ) : List ℓ := (List.range n).filterMap t.label

theorem run (t : Trace step) (n : ℕ) : Run step (t.state 0) (t.labels n) (t.state n) := by
  induction n with
  | zero => exact .nil _
  | succ n ih =>
    have hnext := t.next n
    rw [labels, List.range_succ, List.filterMap_append]
    cases hlabel : t.label n with
    | none =>
      rw [hlabel] at hnext
      rw [hnext]
      simpa [labels, hlabel] using ih
    | some l =>
      rw [hlabel] at hnext
      have hrun := ih.snoc hnext
      simpa [labels, hlabel] using hrun

def ofList (f : σ → ℓ → σ) (s : σ) (ls : List ℓ)
    (h : ∀ n l, ls[n]? = some l → step ((ls.take n).foldl f s) l (f ((ls.take n).foldl f s) l)) :
    Trace step where
  state n := (ls.take n).foldl f s
  label n := ls[n]?
  next n := by
    rw [List.take_add_one, List.foldl_append]
    cases hl : ls[n]? with
    | none => rfl
    | some l => exact h n l hl

theorem always {I : σ → Prop} (hstep : ∀ s l s', I s → step s l s' → I s') (t : Trace step) {i : ℕ}
    (h : I (t.state i)) : ∀ j, i ≤ j → I (t.state j) := by
  intro j hj
  induction j, hj using Nat.le_induction with
  | base => exact h
  | succ j _ ih =>
    have hnext := t.next j
    cases hlabel : t.label j with
    | none =>
      rw [hlabel] at hnext
      rwa [hnext]
    | some l =>
      grind

section Eventually

variable {α : Type} [Preorder α] [WellFoundedLT α] {P Q : σ → Prop} {H : ℓ → Prop}

omit [WellFoundedLT α] in
theorem reach_or_le {μ : σ → α}
    (hstep : ∀ s l s', P s → step s l s' → Q s' ∨ P s' ∧ μ s' ≤ μ s) (t : Trace step) {i : ℕ}
    (h : P (t.state i)) : ∀ j, i ≤ j →
      (∃ k, i ≤ k ∧ Q (t.state k)) ∨ P (t.state j) ∧ μ (t.state j) ≤ μ (t.state i) := by
  intro j hj
  induction j, hj using Nat.le_induction with
  | base => exact .inr ⟨h, le_rfl⟩
  | succ j hij ih =>
    rcases ih with hq | ⟨hp, hle⟩
    · exact .inl hq
    · have hnext := t.next j
      cases hlabel : t.label j with
      | none =>
        rw [hlabel] at hnext
        rw [hnext]
        exact .inr ⟨hp, hle⟩
      | some l =>
        rw [hlabel] at hnext
        rcases hstep _ _ _ hp hnext with hq | ⟨hp', hle'⟩
        · exact .inl ⟨j + 1, by omega, hq⟩
        · exact .inr ⟨hp', hle'.trans hle⟩

theorem eventually {μ : σ → α} (hstep : ∀ s l s', P s → step s l s' → Q s' ∨ P s' ∧ μ s' ≤ μ s)
    (hhelpful : ∀ s l s', P s → H l → step s l s' → Q s' ∨ μ s' < μ s) (t : Trace step)
    (hfair : ∀ i, ∃ j, i ≤ j ∧
      (P (t.state j) → Q (t.state j) ∨ ∃ l, t.label j = some l ∧ H l)) {i : ℕ}
    (h : P (t.state i)) : ∃ j, i ≤ j ∧ Q (t.state j) := by
  induction hμ : μ (t.state i) using WellFoundedLT.induction generalizing i with
  | ind a ih =>
    obtain ⟨j, hij, hfair⟩ := hfair i
    rcases reach_or_le hstep t h j hij with hq | ⟨hp, hle⟩
    · exact hq
    · rcases hfair hp with hq | ⟨l, hlabel, hl⟩
      · exact ⟨j, hij, hq⟩
      · have hnext := t.next j
        rw [hlabel] at hnext
        grind

end Eventually

end Trace
