import Mathlib.Data.List.Basic
import Mathlib.Data.List.Infix

/-!
# Searching a list

The first position at which a pattern occurs in a list.  More elements at the end leave a position
that was found, and bring a new one only where the pattern reaches into them.
-/

namespace Search

variable {α : Type} [DecidableEq α] {pattern s t : List α} {i : ℕ}

def find (pattern : List α) : List α → Option ℕ
  | [] => if pattern = [] then some 0 else none
  | a :: s => if pattern <+: a :: s then some 0 else (find pattern s).map (· + 1)

def findFrom (pattern s : List α) (pos : ℕ) : Option ℕ := (find pattern (s.drop pos)).map (pos + ·)

theorem find_eq_some_iff : find pattern s = some i ↔
    i ≤ s.length ∧ pattern <+: s.drop i ∧ ∀ j < i, ¬ pattern <+: s.drop j := by
  induction s generalizing i with
  | nil =>
    by_cases hp : pattern = []
    · simp only [find, hp, if_true, Option.some.injEq, List.length_nil, Nat.le_zero, eq_comm]
      grind
    · simp [find, hp]
  | cons a s ih =>
    rw [find]
    split
    · next hp =>
      constructor
      · rintro ⟨⟩
        exact ⟨Nat.zero_le _, hp, fun j hj => absurd hj (Nat.not_lt_zero j)⟩
      · rintro ⟨-, -, hfirst⟩
        cases i with
        | zero => rfl
        | succ i => exact absurd hp (hfirst 0 (Nat.succ_pos i))
    · next hp =>
      cases i with
      | zero => simp [hp]
      | succ i =>
        rw [Option.map_eq_some_iff]
        simp only [Nat.add_right_cancel_iff, exists_eq_right, ih, List.length_cons,
          Nat.add_le_add_iff_right, List.drop_succ_cons]
        refine and_congr_right fun _ => and_congr_right fun _ => ?_
        constructor
        · intro hfirst j hj
          cases j with
          | zero => exact hp
          | succ j => exact hfirst j (Nat.lt_of_succ_lt_succ hj)
        · exact fun hfirst j hj => hfirst (j + 1) (Nat.succ_lt_succ hj)

theorem find_eq_none_iff : find pattern s = none ↔ ∀ j ≤ s.length, ¬ pattern <+: s.drop j := by
  induction s with
  | nil =>
    by_cases hp : pattern = [] <;> simp [find, hp]
  | cons a s ih =>
    rw [find]
    split
    · next hp => simpa using ⟨0, Nat.zero_le _, hp⟩
    · next hp =>
      rw [Option.map_eq_none_iff, ih]
      constructor
      · intro hnone j hj
        cases j with
        | zero => exact hp
        | succ j => exact hnone j (Nat.le_of_succ_le_succ hj)
      · exact fun hnone j hj => hnone (j + 1) (Nat.succ_le_succ hj)

theorem length_le_of_find (h : find pattern s = some i) : i + pattern.length ≤ s.length := by
  obtain ⟨hle, hprefix, -⟩ := find_eq_some_iff.1 h
  grind

theorem find_append (h : find pattern s = some i) : find pattern (s ++ t) = some i := by
  have hlen := length_le_of_find h
  obtain ⟨hle, hprefix, hfirst⟩ := find_eq_some_iff.1 h
  refine find_eq_some_iff.2 ⟨by rw [List.length_append]; omega, ?_, fun j hj hp => ?_⟩
  · rw [List.drop_append_of_le_length hle]
    exact hprefix.trans (List.prefix_append _ _)
  · rw [List.drop_append_of_le_length (by omega)] at hp
    refine hfirst j hj (List.prefix_of_prefix_length_le hp (List.prefix_append _ _) ?_)
    rw [List.length_drop]
    omega

theorem lt_of_find_append (hnone : find pattern s = none) (h : find pattern (s ++ t) = some i) :
    s.length < i + pattern.length := by
  obtain ⟨hle, hprefix, -⟩ := find_eq_some_iff.1 h
  by_contra hlt
  have hi : i ≤ s.length := by omega
  rw [List.drop_append_of_le_length hi] at hprefix
  refine find_eq_none_iff.1 hnone i hi
    (List.prefix_of_prefix_length_le hprefix (List.prefix_append _ _) ?_)
  rw [List.length_drop]
  omega

theorem findFrom_eq_some_iff {pos : ℕ} : findFrom pattern s pos = some i ↔
    pos ≤ i ∧ find pattern (s.drop pos) = some (i - pos) := by
  rw [findFrom, Option.map_eq_some_iff]
  constructor
  · rintro ⟨j, hj, rfl⟩
    exact ⟨Nat.le_add_right _ _, by rwa [Nat.add_sub_cancel_left]⟩
  · simp_all

theorem length_le_of_findFrom {pos : ℕ} (hp : pattern ≠ []) (h : findFrom pattern s pos = some i) :
    pos ≤ i ∧ i + pattern.length ≤ s.length := by
  obtain ⟨hle, hfind⟩ := findFrom_eq_some_iff.1 h
  have hlen := length_le_of_find hfind
  have hpos := List.length_pos_of_ne_nil hp
  rw [List.length_drop] at hlen
  omega

theorem findFrom_append {pos : ℕ} (hp : pattern ≠ []) (h : findFrom pattern s pos = some i) :
    findFrom pattern (s ++ t) pos = some i := by
  have hlen := length_le_of_findFrom hp h
  obtain ⟨hle, hfind⟩ := findFrom_eq_some_iff.1 h
  refine findFrom_eq_some_iff.2 ⟨hle, ?_⟩
  rw [List.drop_append_of_le_length (by omega)]
  exact find_append hfind

end Search
