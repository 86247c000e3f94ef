import Mathlib.Data.List.Basic
import Mathlib.Logic.Function.Basic

/-!
# A bounded ring

A ring keeps a queue in `size` slots: the first value is in the slot `head`, and the others follow
it around.  Pushing and popping a ring are appending to and taking the head of its list.
-/

/-- A ring of `size` slots. -/
structure BoundedRing (α : Type) (size : ℕ) where
  slots : ℕ → α
  head : ℕ
  count : ℕ
  head_lt : head < size
  count_le : count ≤ size

namespace BoundedRing

variable {α : Type} {size : ℕ} (r : BoundedRing α size)

def slot (i : ℕ) : ℕ := (r.head + i) % size

def toList : List α := (List.range r.count).map fun i => r.slots (r.slot i)

def push (a : α) : Option (BoundedRing α size) :=
  if h : r.count < size then
    some { r with
      slots := Function.update r.slots (r.slot r.count) a
      count := r.count + 1
      count_le := h }
  else none

def pop : Option (α × BoundedRing α size) :=
  if 0 < r.count then
    some (r.slots r.head,
      { r with
        head := (r.head + 1) % size
        count := r.count - 1
        head_lt := Nat.mod_lt _ (Nat.zero_lt_of_lt r.head_lt)
        count_le := Nat.le_trans (Nat.sub_le _ _) r.count_le })
  else none

@[simp] theorem length_toList : r.toList.length = r.count := by
  simp [toList]

theorem slot_ne {i j : ℕ} (hij : i < j) (hj : j < size) : r.slot i ≠ r.slot j := by
  have hhead := r.head_lt
  unfold slot
  rcases Nat.lt_or_ge (r.head + j) size with hj' | hj'
  · rw [Nat.mod_eq_of_lt hj', Nat.mod_eq_of_lt (by omega)]
    omega
  · rw [Nat.mod_eq_sub_mod hj', Nat.mod_eq_of_lt (by omega : r.head + j - size < size)]
    rcases Nat.lt_or_ge (r.head + i) size with hi' | hi'
    · rw [Nat.mod_eq_of_lt hi']
      omega
    · rw [Nat.mod_eq_sub_mod hi', Nat.mod_eq_of_lt (by omega : r.head + i - size < size)]
      omega

variable {r} {r' : BoundedRing α size} {a : α}

theorem toList_push (h : r.push a = some r') : r'.toList = r.toList ++ [a] := by
  unfold push at h
  split at h
  · next hlt =>
    cases h
    unfold toList
    rw [List.range_succ, List.map_append]
    congr 1
    · refine List.map_congr_left fun i hi => ?_
      exact Function.update_of_ne (r.slot_ne (List.mem_range.1 hi) hlt) _ _
    · exact congrArg (· :: []) (Function.update_self _ _ _)
  · cases h

theorem push_isSome (h : r.count < size) (a : α) : ∃ r', r.push a = some r' := by
  unfold push
  rw [dif_pos h]
  exact ⟨_, rfl⟩

theorem toList_pop (h : r.pop = some (a, r')) : r.toList = a :: r'.toList := by
  unfold pop at h
  split at h
  · next hpos =>
    cases h
    have hcount : r.count = r.count - 1 + 1 := by omega
    have hrange : List.range r.count = 0 :: (List.range (r.count - 1)).map Nat.succ := by
      conv_lhs => rw [hcount]
      exact List.range_succ_eq_map
    unfold toList
    rw [hrange, List.map_cons, List.map_map]
    congr 1
    · unfold slot
      rw [Nat.add_zero, Nat.mod_eq_of_lt r.head_lt]
    · refine List.map_congr_left fun i _ => ?_
      show r.slots ((r.head + (i + 1)) % size) = r.slots (((r.head + 1) % size + i) % size)
      rw [Nat.mod_add_mod, Nat.add_assoc, Nat.add_comm 1 i]
  · cases h

theorem pop_isSome (h : 0 < r.count) : ∃ a r', r.pop = some (a, r') := by
  unfold pop
  rw [if_pos h]
  exact ⟨_, _, rfl⟩

end BoundedRing
