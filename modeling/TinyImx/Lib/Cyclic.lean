import Mathlib.Data.List.Rotate
import Mathlib.Data.List.Sort
import Mathlib.Tactic.Common

/-!
# Walks around a list

A walk visits the elements of a list in order, from a position on, and begins again behind the last.
A window of as many steps as the list has elements visits each of them once.
-/

namespace Cyclic

variable {α : Type} [Inhabited α]

def walk (l : List α) (p m : ℕ) : List α := (List.range m).map fun k => l.getD ((p + k) % l.length) default

theorem length_walk (l : List α) (p m : ℕ) : (walk l p m).length = m := by
  rw [walk, List.length_map, List.length_range]

theorem walk_append (l : List α) (p m m' : ℕ) :
    walk l p (m + m') = walk l p m ++ walk l (p + m) m' := by
  simp only [walk, List.range_add, List.map_append, List.map_map, Function.comp_def, Nat.add_assoc]

theorem walk_mod (l : List α) (p m : ℕ) : walk l (p % l.length) m = walk l p m := by
  simp only [walk, Nat.mod_add_mod]

theorem walk_congr {l : List α} {p q : ℕ} (h : p % l.length = q % l.length) (m : ℕ) :
    walk l p m = walk l q m := by
  rw [← walk_mod l p, h, walk_mod]

theorem walk_succ (l : List α) (p m : ℕ) :
    walk l p (m + 1) = l.getD (p % l.length) default :: walk l (p + 1) m := by
  rw [Nat.add_comm m 1, walk_append]
  rfl

theorem walk_round (l : List α) (p : ℕ) : walk l p l.length = l.rotate p := by
  refine List.ext_getElem (by rw [length_walk, List.length_rotate]) fun k hk hk' => ?_
  rw [length_walk] at hk
  rw [List.getElem_rotate]
  simp only [walk, List.getElem_map, List.getElem_range, Nat.add_comm p k]
  grind

theorem window_perm (l : List α) {p m i : ℕ} (h : i + l.length ≤ m) :
    (((walk l p m).drop i).take l.length).Perm l := by
  obtain ⟨rest, rfl⟩ := Nat.exists_eq_add_of_le h
  have hdrop : (walk l p (i + l.length + rest)).drop i =
      walk l (p + i) l.length ++ walk l (p + i + l.length) rest := by
    rw [Nat.add_assoc, walk_append, List.drop_left' (length_walk l p i), walk_append]
  rw [hdrop, List.take_left' (length_walk l _ _), walk_round]
  exact List.rotate_perm l _

theorem walk_take (l : List α) (p : ℕ) {m : ℕ} (h : m ≤ l.length) :
    walk l p m = (l.rotate p).take m := by
  obtain ⟨rest, hrest⟩ := Nat.exists_eq_add_of_le h
  rw [← walk_round, hrest, walk_append, List.take_left' (length_walk l p m)]

/-! ## Sorted lists -/

section Sorted

variable {β : Type} [LinearOrder β] {l : List β}

theorem mem_drop_findIdx (h : l.Pairwise (· < ·)) {c x : β} :
    x ∈ l.drop (l.findIdx (c < ·)) ↔ x ∈ l ∧ c < x := by
  induction l with
  | nil => simp
  | cons a l ih =>
    rw [List.pairwise_cons] at h
    rw [List.findIdx_cons]
    by_cases ha : c < a
    · simp only [ha, decide_true, cond_true, List.drop_zero]
      refine ⟨fun hx => ⟨hx, ?_⟩, fun hx => hx.1⟩
      grind
    · simp only [ha, decide_false, cond_false, List.drop_succ_cons, ih h.2, List.mem_cons]
      refine ⟨fun hx => ⟨.inr hx.1, hx.2⟩, fun hx => ⟨hx.1.resolve_left ?_, hx.2⟩⟩
      rintro rfl
      exact ha hx.2

theorem mem_take_findIdx (h : l.Pairwise (· < ·)) {c x : β} :
    x ∈ l.take (l.findIdx (c < ·)) ↔ x ∈ l ∧ x ≤ c := by
  induction l with
  | nil => simp
  | cons a l ih =>
    rw [List.pairwise_cons] at h
    rw [List.findIdx_cons]
    by_cases ha : c < a
    · simp only [ha, decide_true, cond_true, List.take_zero, List.not_mem_nil, false_iff]
      rintro ⟨hx, hle⟩
      rcases List.mem_cons.1 hx with rfl | hx
      · exact absurd hle (not_le.2 ha)
      · exact absurd hle (not_le.2 (ha.trans (h.1 x hx)))
    · grind

theorem findIdx_getElem (h : l.Pairwise (· < ·)) {i : ℕ} {x : β} (hi : l[i]? = some x) :
    l.findIdx (x < ·) = i + 1 := by
  induction l generalizing i with
  | nil => cases hi
  | cons a l ih =>
    rw [List.pairwise_cons] at h
    rw [List.findIdx_cons]
    cases i with
    | zero =>
      obtain rfl : a = x := by simpa using hi
      simp only [lt_irrefl, decide_false, cond_false]
      cases l with
      | nil => rfl
      | cons b l => simp [List.findIdx_cons, h.1 b List.mem_cons_self]
    | succ i =>
      have hx : l[i]? = some x := by simpa using hi
      have hnot : ¬ x < a := (h.1 x (List.mem_of_getElem? hx)).asymm
      simp only [hnot, decide_false, cond_false, ih h.2 hx]

end Sorted

end Cyclic
