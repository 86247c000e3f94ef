import Mathlib.Algebra.Ring.Nat
import TinyImx.Lib.BoundedRing

/-!
# The circular queue

`CircularQueue` keeps its items between two indices that go around a vector with one slot more than
the capacity, so that the queue is full when the next tail is the head.  Without a slot an index has
no successor: the remainder is undefined there, and so is the call.
-/

namespace TinyImx.Concurrency

structure CircularQueue (α : Type) where
  buffer : List α
  /-- `capacity_`, with the spare slot. -/
  slots : ℕ
  head : ℕ
  tail : ℕ
  overrunCounter : ℕ

namespace CircularQueue

variable {α : Type}

def make [Inhabited α] (capacity : UInt64) : CircularQueue α where
  buffer := List.replicate (capacity + 1).toNat default
  slots := (capacity + 1).toNat
  head := 0
  tail := 0
  overrunCounter := 0

def next (q : CircularQueue α) (index : ℕ) : Option ℕ :=
  if q.slots = 0 then none else some ((index + 1) % q.slots)

def empty (q : CircularQueue α) : Bool := q.head = q.tail

def full (q : CircularQueue α) : Option Bool := (q.next q.tail).map fun next => next = q.head

def size (q : CircularQueue α) : ℕ :=
  if q.head ≤ q.tail then q.tail - q.head else q.slots - q.head + q.tail

def pushBack (q : CircularQueue α) (item : α) : Option (Bool × CircularQueue α) := do
  if ← q.full then
    return (false, q)
  let tail ← q.next q.tail
  return (true, { q with buffer := q.buffer.set q.tail item, tail })

def shift [Inhabited α] (q : CircularQueue α) : Option (α × CircularQueue α) := do
  let item ← q.buffer[q.head]?
  let head ← q.next q.head
  return (item, { q with buffer := q.buffer.set q.head default, head })

/-- `PopFront`, with the item that it hands over; `target` is whether there is a place for it. -/
def popFront [Inhabited α] (q : CircularQueue α) (target : Bool) :
    Option (Option α × CircularQueue α) :=
  if !target || q.empty then some (none, q)
  else q.shift.map fun r => (some r.1, r.2)

def dropFront [Inhabited α] (q : CircularQueue α) : Option (Option α × CircularQueue α) :=
  if q.empty then some (none, q)
  else q.shift.map fun r =>
    (some r.1, { r.2 with overrunCounter := (r.2.overrunCounter + 1) % 2 ^ 64 })

def clearLoop [Inhabited α] (countOverrun : Bool) :
    ℕ → CircularQueue α → Option (CircularQueue α)
  | 0, q => if q.empty then some q else none
  | rounds + 1, q =>
    if q.empty then some q
    else if countOverrun then q.dropFront.bind fun r => clearLoop countOverrun rounds r.2
    else q.shift.bind fun r => clearLoop countOverrun rounds r.2

def clear [Inhabited α] (q : CircularQueue α) (countOverrun : Bool) : Option (CircularQueue α) :=
  clearLoop countOverrun q.slots q

/-! ## The items -/

structure Valid (q : CircularQueue α) : Prop where
  length : q.buffer.length = q.slots
  head_lt : q.head < q.slots
  tail_lt : q.tail < q.slots

def Valid.ring [Inhabited α] {q : CircularQueue α} (h : q.Valid) : BoundedRing α q.slots where
  slots i := q.buffer.getD i default
  head := q.head
  count := q.size
  head_lt := h.head_lt
  count_le := by
    have h₁ := h.head_lt
    have h₂ := h.tail_lt
    unfold size
    split <;> omega

def toList [Inhabited α] (q : CircularQueue α) : List α :=
  (List.range q.size).map fun i => q.buffer.getD ((q.head + i) % q.slots) default

variable {q q' : CircularQueue α} {item : α}

theorem succ_mod {i n : ℕ} (hi : i < n) : (i + 1) % n = if i + 1 = n then 0 else i + 1 := by
  split
  · next h => rw [h, Nat.mod_self]
  · next h => exact Nat.mod_eq_of_lt (by omega)

namespace Valid

theorem next (h : q.Valid) (i : ℕ) : q.next i = some ((i + 1) % q.slots) :=
  if_neg (by have := h.head_lt; omega)

theorem size_lt (h : q.Valid) : q.size < q.slots := by
  have h₂ := h.tail_lt
  unfold size
  split <;> omega

theorem empty_iff (h : q.Valid) : q.empty = true ↔ q.size = 0 := by
  have h₁ := h.head_lt
  rw [empty, decide_eq_true_eq, size]
  split <;> omega

theorem full (h : q.Valid) : q.full = some (decide (q.size + 1 = q.slots)) := by
  have h₁ := h.head_lt
  have h₂ := h.tail_lt
  rw [CircularQueue.full, h.next, Option.map_some, Option.some.injEq, decide_eq_decide, succ_mod h₂,
    size]
  split <;> split <;> omega

theorem slot_size (h : q.Valid) : (q.head + q.size) % q.slots = q.tail := by
  have h₁ := h.head_lt
  have h₂ := h.tail_lt
  unfold size
  split
  · next hle => rw [Nat.add_sub_cancel' hle, Nat.mod_eq_of_lt h₂]
  · next hlt =>
    rw [show q.head + (q.slots - q.head + q.tail) = q.tail + q.slots by omega, Nat.add_mod_right,
      Nat.mod_eq_of_lt h₂]

end Valid

def pushed (q : CircularQueue α) (item : α) : CircularQueue α :=
  { q with buffer := q.buffer.set q.tail item, tail := (q.tail + 1) % q.slots }

namespace Valid

theorem pushed (h : q.Valid) (item : α) : (q.pushed item).Valid where
  length := by rw [CircularQueue.pushed, List.length_set]; exact h.length
  head_lt := h.head_lt
  tail_lt := Nat.mod_lt _ (Nat.zero_lt_of_lt h.tail_lt)

theorem size_pushed (h : q.Valid) (hroom : q.size + 1 < q.slots) :
    (q.pushed item).size = q.size + 1 := by
  have h₁ := h.head_lt
  have h₂ := h.tail_lt
  unfold size at hroom
  simp only [size, CircularQueue.pushed, succ_mod h₂]
  split at hroom <;> split_ifs <;> omega

theorem pushBack (h : q.Valid) (item : α) :
    q.pushBack item =
      if q.size + 1 = q.slots then some (false, q) else some (true, q.pushed item) := by
  simp only [CircularQueue.pushBack, h.full, h.next, CircularQueue.pushed]
  simp_all

end Valid

variable [Inhabited α]

def shifted (q : CircularQueue α) : CircularQueue α :=
  { q with buffer := q.buffer.set q.head default, head := (q.head + 1) % q.slots }

def dropped (q : CircularQueue α) : CircularQueue α :=
  { q.shifted with overrunCounter := (q.overrunCounter + 1) % 2 ^ 64 }

theorem getD_set (l : List α) {i : ℕ} (hi : i < l.length) (j : ℕ) (a : α) :
    (l.set i a).getD j default = if i = j then a else l.getD j default := by
  rw [List.getD_eq_getElem?_getD, List.getElem?_set]
  grind

namespace Valid

theorem shifted (h : q.Valid) : q.shifted.Valid where
  length := by rw [CircularQueue.shifted, List.length_set]; exact h.length
  head_lt := Nat.mod_lt _ (Nat.zero_lt_of_lt h.head_lt)
  tail_lt := h.tail_lt

theorem size_shifted (h : q.Valid) (hpos : 0 < q.size) : q.shifted.size = q.size - 1 := by
  have h₁ := h.head_lt
  have h₂ := h.tail_lt
  unfold size at hpos
  simp only [size, CircularQueue.shifted, succ_mod h₁]
  split at hpos <;> split_ifs <;> omega

theorem toList_pushed (h : q.Valid) (hroom : q.size + 1 < q.slots) :
    (q.pushed item).toList = q.toList ++ [item] := by
  obtain ⟨r, hr⟩ := BoundedRing.push_isSome (r := h.ring) h.size_lt item
  rw [← show r.toList = q.toList ++ [item] from BoundedRing.toList_push hr]
  rw [BoundedRing.push, dif_pos (show h.ring.count < q.slots from h.size_lt)] at hr
  cases hr
  rw [toList, h.size_pushed hroom]
  refine List.map_congr_left fun i _ => ?_
  show (q.buffer.set q.tail item).getD ((q.head + i) % q.slots) default = _
  rw [getD_set _ (h.length ▸ h.tail_lt)]
  have hslot : h.ring.slot h.ring.count = q.tail := h.slot_size
  show _ = Function.update h.ring.slots (h.ring.slot h.ring.count) item ((q.head + i) % q.slots)
  rw [hslot, Function.update_apply]
  exact if_congr eq_comm rfl rfl

theorem toList_shifted (h : q.Valid) (hpos : 0 < q.size) :
    q.toList = q.buffer.getD q.head default :: q.shifted.toList := by
  obtain ⟨a, r, hr⟩ := BoundedRing.pop_isSome (r := h.ring) hpos
  rw [show q.toList = a :: r.toList from BoundedRing.toList_pop hr]
  rw [BoundedRing.pop, if_pos (show 0 < h.ring.count from hpos)] at hr
  cases hr
  congr 1
  rw [toList, h.size_shifted hpos]
  refine List.map_congr_left fun i hi => ?_
  show q.buffer.getD (((q.head + 1) % q.slots + i) % q.slots) default =
    (q.buffer.set q.head default).getD (((q.head + 1) % q.slots + i) % q.slots) default
  -- the slot that was left is none of the others
  have hne : q.head ≠ ((q.head + 1) % q.slots + i) % q.slots := by
    have hslot := h.ring.slot_ne (Nat.succ_pos i) (j := i + 1) (by
      have hi : i < q.size - 1 := List.mem_range.1 hi
      have := h.size_lt
      omega)
    rw [BoundedRing.slot, BoundedRing.slot, Nat.add_zero] at hslot
    rw [Nat.mod_add_mod, Nat.add_assoc, Nat.add_comm 1 i]
    rwa [show h.ring.head % q.slots = q.head from Nat.mod_eq_of_lt h.head_lt] at hslot
  rw [getD_set _ (h.length ▸ h.head_lt), if_neg hne]

end Valid

@[simp] theorem length_toList (q : CircularQueue α) : q.toList.length = q.size := by
  simp [toList]

theorem valid_make {capacity : UInt64} (h : (capacity + 1).toNat ≠ 0) :
    (make capacity : CircularQueue α).Valid where
  length := List.length_replicate
  head_lt := Nat.pos_of_ne_zero h
  tail_lt := Nat.pos_of_ne_zero h

/-! ## The calls -/

namespace Valid

theorem shift (h : q.Valid) : q.shift = some (q.buffer.getD q.head default, q.shifted) := by
  have hlt : q.head < q.buffer.length := h.length ▸ h.head_lt
  simp [CircularQueue.shift, h.next, CircularQueue.shifted, hlt]

theorem dropFront (h : q.Valid) (hpos : 0 < q.size) :
    q.dropFront = some (some (q.buffer.getD q.head default), q.dropped) := by
  rw [CircularQueue.dropFront, if_neg (by rw [h.empty_iff]; omega), h.shift]
  rfl

theorem dropped (h : q.Valid) : q.dropped.Valid :=
  ⟨h.shifted.length, h.shifted.head_lt, h.shifted.tail_lt⟩

theorem clearLoop (h : q.Valid) {rounds : ℕ} (hrounds : q.size ≤ rounds) :
    ∃ q', CircularQueue.clearLoop false rounds q = some q' ∧ q'.Valid ∧ q'.slots = q.slots ∧
      q'.overrunCounter = q.overrunCounter ∧ q'.toList = [] := by
  have hdone : q.size = 0 → q.toList = [] := fun hzero =>
    List.length_eq_zero_iff.1 ((length_toList q).trans hzero)
  induction rounds generalizing q with
  | zero =>
    have hzero := Nat.le_zero.1 hrounds
    exact ⟨q, if_pos (h.empty_iff.2 hzero), h, rfl, rfl, hdone hzero⟩
  | succ rounds ih =>
    rw [CircularQueue.clearLoop]
    split
    · next hempty => exact ⟨q, rfl, h, rfl, rfl, hdone (h.empty_iff.1 hempty)⟩
    · next hne =>
      rw [h.empty_iff] at hne
      have hsize := h.size_shifted (Nat.pos_of_ne_zero hne)
      rw [if_neg Bool.false_ne_true, h.shift]
      obtain ⟨q', hq', hvalid, hslots, hoverrun, hnil⟩ := ih h.shifted (by omega) fun hzero =>
        List.length_eq_zero_iff.1 ((length_toList _).trans hzero)
      exact ⟨q', hq', hvalid, hslots, hoverrun, hnil⟩

theorem clear (h : q.Valid) : ∃ q', q.clear false = some q' ∧ q'.Valid ∧ q'.slots = q.slots ∧
    q'.overrunCounter = q.overrunCounter ∧ q'.toList = [] :=
  h.clearLoop (Nat.le_of_lt h.size_lt)

end Valid

end CircularQueue

end TinyImx.Concurrency
