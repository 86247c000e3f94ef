import Mathlib.Data.List.Basic
import Mathlib.Tactic.Common

/-!
# Lists of ranges

Inclusive ranges of numbers in increasing order, with a gap between neighbours.  A range that begins
behind all others is put at the end, or joined with the last one where it follows that immediately.
-/

namespace Ranges

variable {rs : List (ℕ × ℕ)} {a b i : ℕ}

def Covers (rs : List (ℕ × ℕ)) (i : ℕ) : Prop := ∃ r ∈ rs, r.1 ≤ i ∧ i ≤ r.2

structure Separated (rs : List (ℕ × ℕ)) : Prop where
  inhabited : ∀ r ∈ rs, r.1 ≤ r.2
  gaps : rs.Pairwise fun r r' => r.2 + 1 < r'.1

def push (rs : List (ℕ × ℕ)) (a b : ℕ) : List (ℕ × ℕ) :=
  match rs.getLast? with
  | some last => if last.2 + 1 = a then rs.dropLast ++ [(last.1, b)] else rs ++ [(a, b)]
  | none => [(a, b)]

theorem push_concat (last : ℕ × ℕ) :
    push (rs ++ [last]) a b =
      if last.2 + 1 = a then rs ++ [(last.1, b)] else rs ++ [last] ++ [(a, b)] := by
  rw [push, List.getLast?_concat, List.dropLast_concat]

theorem separated_nil : Separated [] := ⟨fun _ h => absurd h List.not_mem_nil, List.Pairwise.nil⟩

theorem separated_concat {last : ℕ × ℕ} :
    Separated (rs ++ [last]) ↔ Separated rs ∧ last.1 ≤ last.2 ∧ ∀ r ∈ rs, r.2 + 1 < last.1 := by
  refine ⟨fun h => ⟨⟨fun r hr => h.inhabited r (by simp [hr]), (List.pairwise_append.1 h.gaps).1⟩,
    h.inhabited last (by simp), fun r hr => ?_⟩, fun h => ⟨fun r hr => ?_, ?_⟩⟩
  · exact (List.pairwise_append.1 h.gaps).2.2 r hr last (by simp)
  · rcases List.mem_append.1 hr with hr | hr
    · exact h.1.inhabited r hr
    · rw [List.mem_singleton.1 hr]
      exact h.2.1
  · refine List.pairwise_append.2 ⟨h.1.gaps, List.pairwise_singleton _ _, fun r hr r' hr' => ?_⟩
    rw [List.mem_singleton.1 hr']
    exact h.2.2 r hr

theorem covers_concat {last : ℕ × ℕ} :
    Covers (rs ++ [last]) i ↔ Covers rs i ∨ (last.1 ≤ i ∧ i ≤ last.2) := by
  simp only [Covers, List.mem_append, List.mem_singleton, or_and_right, exists_or, exists_eq_left]

theorem not_covers_nil : ¬ Covers [] i := by
  simp [Covers]

theorem separated_push (h : Separated rs) (hab : a ≤ b) (hlt : ∀ r ∈ rs, r.2 < a) :
    Separated (push rs a b) := by
  rcases List.eq_nil_or_concat rs with rfl | ⟨rs, last, rfl⟩
  · exact (@separated_concat [] _).2 ⟨separated_nil, hab, fun _ h => absurd h List.not_mem_nil⟩
  rw [List.concat_eq_append] at h hlt ⊢
  have hlast := hlt last (by simp)
  rw [push_concat]
  split
  · obtain ⟨hrs, hle, hgap⟩ := separated_concat.1 h
    exact separated_concat.2 ⟨hrs, by omega, hgap⟩
  · refine separated_concat.2 ⟨h, hab, fun r hr => ?_⟩
    rcases List.mem_append.1 hr with hr | hr
    · have := (separated_concat.1 h).2.2 r hr
      have := h.inhabited last (by simp)
      omega
    · rw [List.mem_singleton.1 hr]
      omega

theorem covers_push (h : Separated rs) (hab : a ≤ b) :
    Covers (push rs a b) i ↔ Covers rs i ∨ (a ≤ i ∧ i ≤ b) := by
  rcases List.eq_nil_or_concat rs with rfl | ⟨rs, last, rfl⟩
  · exact @covers_concat [] i (a, b)
  rw [List.concat_eq_append] at h ⊢
  have hle := h.inhabited last (by simp)
  rw [push_concat]
  split
  · rw [covers_concat, covers_concat, or_assoc]
    grind
  · rw [covers_concat]

theorem le_of_mem_push (hab : a ≤ b) (hlt : ∀ r ∈ rs, r.2 < a) : ∀ r ∈ push rs a b, r.2 ≤ b := by
  intro r hr
  rcases List.eq_nil_or_concat rs with rfl | ⟨rs, last, rfl⟩
  · obtain rfl := List.mem_singleton.1 (show r ∈ [(a, b)] from hr)
    exact Nat.le_refl b
  rw [List.concat_eq_append] at hr hlt
  rw [push_concat] at hr
  split at hr
  · grind
  · rcases List.mem_append.1 hr with hr | hr
    · have := hlt r hr
      omega
    · obtain rfl := List.mem_singleton.1 hr
      exact Nat.le_refl b

theorem eq_nil_iff (h : Separated rs) : rs = [] ↔ ∀ i, ¬ Covers rs i := by
  constructor
  · rintro rfl i
    exact not_covers_nil
  · intro hnone
    cases rs with
    | nil => rfl
    | cons r rs =>
      have hr : r ∈ r :: rs := List.mem_cons_self
      exact absurd ⟨r, hr, Nat.le_refl _, h.inhabited r hr⟩ (hnone r.1)

end Ranges
