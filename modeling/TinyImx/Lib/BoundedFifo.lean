import Mathlib.Data.List.Basic
import Mathlib.Data.List.Flatten
import Mathlib.Tactic.Common
import TinyImx.Lib.Run

/-!
# Bounded first-in first-out queues

What a queue of at most `capacity` items may do to its list: a value is put behind the others, if
need be for the first one, the first is taken, or all are cleared.  What went in is what came out,
in order, followed by what is there.
-/

namespace BoundedFifo

inductive Event (α : Type) where
  | put (a : α) (displaced : Option α)
  | take (a : α)
  | clear (as : List α)
  | skip

inductive Step {α : Type} (capacity : ℕ) : List α → Event α → List α → Prop
  | put {l : List α} {a : α} : l.length < capacity → Step capacity l (.put a none) (l ++ [a])
  | displace {l : List α} {a b : α} : l.length + 1 = capacity →
      Step capacity (b :: l) (.put a (some b)) (l ++ [a])
  | take {l : List α} {a : α} : Step capacity (a :: l) (.take a) l
  | clear {l : List α} : Step capacity l (.clear l) []
  | skip {l : List α} : Step capacity l .skip l

variable {α : Type} {capacity : ℕ} {e : Event α} {es : List (Event α)} {l l' : List α}

/-! ## What went in and what came out -/

def Event.accepted : Event α → List α
  | .put a _ => [a]
  | _ => []

def Event.taken : Event α → List α
  | .take a => [a]
  | _ => []

def Event.displaced : Event α → List α
  | .put _ b => b.toList
  | _ => []

def Event.cleared : Event α → List α
  | .clear as => as
  | _ => []

def Event.gone (e : Event α) : List α := e.taken ++ e.displaced ++ e.cleared

theorem Event.taken_sublist (e : Event α) : e.taken.Sublist e.gone := by
  unfold gone
  grind

theorem Event.length_gone (e : Event α) :
    e.gone.length = e.taken.length + e.displaced.length + e.cleared.length := by
  simp only [gone, List.length_append]

namespace Step

theorem accepted (h : Step capacity l e l') : l ++ e.accepted = e.gone ++ l' := by
  cases h <;> simp [Event.accepted, Event.gone, Event.taken, Event.displaced, Event.cleared]

theorem length_le (h : Step capacity l e l') (hl : l.length ≤ capacity) : l'.length ≤ capacity := by
  cases h with
  | put hlt | displace hlt => simp; omega
  | take => simp at hl; omega
  | clear => exact Nat.zero_le _
  | skip => exact hl

end Step

theorem length_le (hrun : Run (Step capacity) [] es l) : l.length ≤ capacity :=
  hrun.invariant (fun _ _ _ h hstep => hstep.length_le h) (Nat.zero_le _)

theorem accepted_eq (hrun : Run (Step capacity) [] es l) :
    es.flatMap Event.accepted = es.flatMap Event.gone ++ l := by
  induction hrun with
  | nil => rfl
  | snoc _ hstep ih =>
    rw [List.flatMap_append, List.flatMap_append, List.flatMap_singleton, List.flatMap_singleton,
      ih, List.append_assoc, hstep.accepted, List.append_assoc]

theorem taken_sublist (hrun : Run (Step capacity) [] es l) :
    (es.flatMap Event.taken).Sublist (es.flatMap Event.accepted) := by
  rw [accepted_eq hrun]
  exact (List.Sublist.flatMap_right _ fun e _ => e.taken_sublist).trans
    (List.sublist_append_left _ _)

theorem length_gone (es : List (Event α)) :
    (es.flatMap Event.gone).length = (es.flatMap Event.taken).length +
      (es.flatMap Event.displaced).length + (es.flatMap Event.cleared).length := by
  induction es with
  | nil => rfl
  | cons e es ih =>
    simp only [List.flatMap_cons, List.length_append, ih, Event.length_gone]
    omega

theorem length_accepted (hrun : Run (Step capacity) [] es l) :
    (es.flatMap Event.accepted).length = (es.flatMap Event.taken).length + l.length +
      (es.flatMap Event.displaced).length + (es.flatMap Event.cleared).length := by
  rw [accepted_eq hrun, List.length_append, length_gone]
  omega

theorem accepted_eq_of_kept (hrun : Run (Step capacity) [] es l)
    (hkept : ∀ e ∈ es, e.displaced = [] ∧ e.cleared = []) :
    es.flatMap Event.accepted = es.flatMap Event.taken ++ l := by
  rw [accepted_eq hrun]
  congr 1
  refine List.flatMap_congr fun e he => ?_
  rw [Event.gone, (hkept e he).1, (hkept e he).2, List.append_nil, List.append_nil]

end BoundedFifo
