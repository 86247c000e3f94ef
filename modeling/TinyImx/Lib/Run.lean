import Mathlib.Logic.Relation

/-!
# Runs of a labelled transition system

A system is a step relation with labels.  `Run step s ls s'` is a finite run from `s` to `s'` with
the labels `ls`; `Run.invariant` is the induction every safety result here goes through, and
`Run.mono` says that a run moves along every preorder its steps move along.
-/

inductive Run {σ ℓ : Type} (step : σ → ℓ → σ → Prop) : σ → List ℓ → σ → Prop
  | nil (s : σ) : Run step s [] s
  | snoc {s t u : σ} {ls : List ℓ} {l : ℓ} : Run step s ls t → step t l u → Run step s (ls ++ [l]) u

namespace Run

variable {σ ℓ : Type} {step : σ → ℓ → σ → Prop}

theorem invariant {I : σ → Prop} (hstep : ∀ s l s', I s → step s l s' → I s') {s s' : σ}
    {ls : List ℓ} (hrun : Run step s ls s') (h : I s) : I s' := by
  induction hrun with
  | nil => exact h
  | snoc _ hs ih => exact hstep _ _ _ ih hs

theorem invariant_of_forall {I : σ → Prop} {P : ℓ → Prop}
    (hstep : ∀ s l s', I s → P l → step s l s' → I s') {s s' : σ} {ls : List ℓ}
    (hrun : Run step s ls s') (hP : ∀ l ∈ ls, P l) (h : I s) : I s' := by
  induction hrun with
  | nil => exact h
  | snoc _ hs ih =>
    refine hstep _ _ _ (ih ?_) (hP _ (by simp)) hs
    exact fun l hl => hP l (by simp [hl])

theorem history {I : List ℓ → σ → Prop}
    (hstep : ∀ ls s l s', I ls s → step s l s' → I (ls ++ [l]) s') {s s' : σ} {ls : List ℓ}
    (hrun : Run step s ls s') (h : I [] s) : I ls s' := by
  induction hrun with
  | nil => exact h
  | snoc _ hs ih => exact hstep _ _ _ _ ih hs

theorem imp {step' : σ → ℓ → σ → Prop} (hstep : ∀ s l s', step s l s' → step' s l s') {s s' : σ}
    {ls : List ℓ} (hrun : Run step s ls s') : Run step' s ls s' := by
  induction hrun with
  | nil => exact .nil _
  | snoc _ hs ih => exact ih.snoc (hstep _ _ _ hs)

theorem imp_of_invariant {I : σ → Prop} {step' : σ → ℓ → σ → Prop}
    (hI : ∀ s l s', I s → step s l s' → I s') (hstep : ∀ s l s', I s → step s l s' → step' s l s')
    {s s' : σ} {ls : List ℓ} (hrun : Run step s ls s') (h : I s) : Run step' s ls s' := by
  induction hrun with
  | nil => exact .nil _
  | snoc hrun hs ih => exact ih.snoc (hstep _ _ _ (hrun.invariant hI h) hs)

theorem and_labels_iff {P : ℓ → Prop} {s s' : σ} {ls : List ℓ} :
    Run (fun s l s' => step s l s' ∧ P l) s ls s' ↔ Run step s ls s' ∧ ∀ l ∈ ls, P l := by
  constructor
  · intro hrun
    refine ⟨hrun.imp fun _ _ _ hs => hs.1, ?_⟩
    induction hrun with
    | nil => exact fun l hl => by cases hl
    | snoc _ hs ih =>
      grind
  · rintro ⟨hrun, hP⟩
    induction hrun with
    | nil => exact .nil _
    | snoc _ hs ih =>
      exact (ih fun l hl => hP l (by simp [hl])).snoc ⟨hs, hP _ (by simp)⟩

theorem append {s t u : σ} {ls ms : List ℓ} (h₁ : Run step s ls t) (h₂ : Run step t ms u) :
    Run step s (ls ++ ms) u := by
  induction h₂ with
  | nil => simpa using h₁
  | snoc _ hs ih =>
    rw [← List.append_assoc]
    exact .snoc ih hs

theorem single {s t : σ} {l : ℓ} (h : step s l t) : Run step s [l] t :=
  .snoc (.nil s) h

theorem cons {s t u : σ} {l : ℓ} {ls : List ℓ} (h : step s l t) (hr : Run step t ls u) :
    Run step s (l :: ls) u := (single h).append hr

theorem exists_of_append {s u : σ} {ls ms : List ℓ} (h : Run step s (ls ++ ms) u) :
    ∃ t, Run step s ls t ∧ Run step t ms u := by
  generalize hks : ls ++ ms = ks at h
  induction h generalizing ms with
  | nil =>
    obtain ⟨rfl, rfl⟩ := List.append_eq_nil_iff.1 hks
    exact ⟨_, .nil _, .nil _⟩
  | snoc hrun hs ih =>
    rcases List.eq_nil_or_concat ms with rfl | ⟨ms, m, rfl⟩
    · rw [List.append_nil] at hks
      subst hks
      exact ⟨_, hrun.snoc hs, .nil _⟩
    · rw [List.concat_eq_append] at hks ⊢
      rw [← List.append_assoc] at hks
      obtain ⟨hpre, hl⟩ := List.append_inj' hks rfl
      cases hl
      obtain ⟨t, h₁, h₂⟩ := ih hpre
      exact ⟨t, h₁, h₂.snoc hs⟩

theorem exists_of_snoc {s u : σ} {ls : List ℓ} {l : ℓ} (h : Run step s (ls ++ [l]) u) :
    ∃ t, Run step s ls t ∧ step t l u := by
  generalize hks : ls ++ [l] = ks at h
  cases h with
  | nil => simp at hks
  | snoc hrun hs =>
    obtain ⟨rfl, hl⟩ := List.append_inj' hks rfl
    cases hl
    exact ⟨_, hrun, hs⟩

theorem exists_step {s u : σ} {ls ms : List ℓ} {l : ℓ} (h : Run step s (ls ++ l :: ms) u) :
    ∃ t t', Run step s ls t ∧ step t l t' ∧ Run step t' ms u := by
  rw [List.append_cons] at h
  obtain ⟨t', h₁, h₂⟩ := h.exists_of_append
  obtain ⟨t, h₁, hs⟩ := h₁.exists_of_snoc
  exact ⟨t, t', h₁, hs, h₂⟩

theorem eq_or_head {s t : σ} {ls : List ℓ} (h : Run step s ls t) :
    t = s ∨ ∃ l u ms, step s l u ∧ Run step u ms t := by
  induction h with
  | nil => exact .inl rfl
  | snoc _ hs ih =>
    rcases ih with rfl | ⟨l, u, ms, hfirst, hrest⟩
    · exact .inr ⟨_, _, _, hs, .nil _⟩
    · exact .inr ⟨l, u, _, hfirst, hrest.snoc hs⟩

theorem mono {I : σ → Prop} {R : σ → σ → Prop} (refl : ∀ s, R s s)
    (trans : ∀ {a b c}, R a b → R b c → R a c) (hstep : ∀ s l s', I s → step s l s' → I s' ∧ R s s')
    {s s' : σ} {ls : List ℓ} (hrun : Run step s ls s') (h : I s) : R s s' := by
  suffices hs : I s' ∧ R s s' from hs.2
  induction hrun with
  | nil => exact ⟨h, refl _⟩
  | snoc _ hs ih =>
    grind

def allowed (enabled : σ → ℓ → Bool) (apply : σ → ℓ → σ) : σ → List ℓ → Bool
  | _, [] => true
  | s, l :: ls => enabled s l && allowed enabled apply (apply s l) ls

theorem of_allowed {enabled : σ → ℓ → Bool} {apply : σ → ℓ → σ}
    (hstep : ∀ s l, enabled s l = true → step s l (apply s l)) {s : σ} {ls : List ℓ}
    (h : allowed enabled apply s ls = true) : Run step s ls (ls.foldl apply s) := by
  induction ls generalizing s with
  | nil => exact .nil s
  | cons l ls ih =>
    rw [allowed, Bool.and_eq_true] at h
    exact .cons (hstep s l h.1) (ih h.2)

end Run
