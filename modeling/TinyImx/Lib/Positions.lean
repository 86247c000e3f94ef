import Mathlib.Data.List.Forall2
import Mathlib.Algebra.Ring.Nat

/-!
# Answers written back by position

A batch keeps the items it can send, and their positions; the answers come back in the order of the
items that were sent and are written to their positions.  If each answer is the answer to its item,
the result has at every position the answer to the item there.
-/

namespace Positions

variable {α β : Type}

def indices (valid : α → Bool) : ℕ → List α → List ℕ
  | _, [] => []
  | n, x :: xs => if valid x then n :: indices valid (n + 1) xs else indices valid (n + 1) xs

def write : List β → List ℕ → List β → List β
  | results, [], _ => results
  | results, _ :: _, [] => results
  | results, i :: positions, b :: answers => write (results.set i b) positions answers

theorem length_indices (valid : α → Bool) (n : ℕ) (xs : List α) :
    (indices valid n xs).length = (xs.filter valid).length := by
  induction xs generalizing n with
  | nil => rfl
  | cons x xs ih =>
    rw [indices, List.filter_cons]
    split <;> simp [ih]

def fill (valid : α → Bool) (bad : α → β) : List α → List β → List β
  | [], _ => []
  | x :: xs, [] => bad x :: fill valid bad xs []
  | x :: xs, b :: answers =>
    if valid x then b :: fill valid bad xs answers else bad x :: fill valid bad xs (b :: answers)

theorem fill_nil (valid : α → Bool) (bad : α → β) (xs : List α) : fill valid bad xs [] = xs.map bad := by
  induction xs with
  | nil => rw [fill, List.map_nil]
  | cons x xs ih => rw [fill, ih, List.map_cons]

theorem fill_cons_of_not {valid : α → Bool} (bad : α → β) {x : α} (hx : valid x = false)
    (xs : List α) (answers : List β) :
    fill valid bad (x :: xs) answers = bad x :: fill valid bad xs answers := by
  cases answers with
  | nil => rw [fill]
  | cons b answers => rw [fill, if_neg (by simp [hx])]

theorem write_append (valid : α → Bool) (bad : α → β) (done : List β) (xs : List α)
    (answers : List β) : write (done ++ xs.map bad) (indices valid done.length xs) answers =
      done ++ fill valid bad xs answers := by
  induction xs generalizing done answers with
  | nil => simp [indices, write, fill]
  | cons x xs ih =>
    have hlen : ∀ b : β, done.length + 1 = (done ++ [b]).length := by simp
    cases hx : valid x with
    | false =>
      rw [indices, if_neg (by simp [hx]), fill_cons_of_not bad hx, hlen (bad x)]
      simpa using ih (done ++ [bad x]) answers
    | true =>
      rw [indices, if_pos hx]
      cases answers with
      | nil => simp [write, fill_nil]
      | cons b answers =>
        rw [hlen b]
        simp only [write, fill, if_pos hx]
        simpa using ih (done ++ [b]) answers

theorem write_indices (valid : α → Bool) (bad : α → β) (xs : List α) (answers : List β) :
    write (xs.map bad) (indices valid 0 xs) answers = fill valid bad xs answers :=
  write_append valid bad [] xs answers

theorem fill_map (valid : α → Bool) (bad f : α → β) (xs : List α) :
    fill valid bad xs ((xs.filter valid).map f) = xs.map fun x => if valid x then f x else bad x := by
  induction xs with
  | nil => rw [fill, List.map_nil]
  | cons x xs ih =>
    cases hx : valid x with
    | false =>
      rw [fill_cons_of_not bad hx, List.filter_cons_of_neg (by simp [hx]), ih]
      simp [hx]
    | true =>
      rw [List.filter_cons_of_pos hx, List.map_cons, fill, if_pos hx, ih]
      simp [hx]

theorem write_replicate (valid : α → Bool) (bad : α → β) (b : β) (xs : List α) :
    write (xs.map bad) (indices valid 0 xs) (List.replicate (indices valid 0 xs).length b) =
      xs.map fun x => if valid x then b else bad x := by
  rw [write_indices, ← fill_map valid bad (fun _ => b), length_indices]
  simp

theorem forall₂_fill {valid : α → Bool} {bad : α → β} {P : α → β → Prop} {γ : Type} {g : α → γ → β}
    (hbad : ∀ x, P x (bad x)) (hg : ∀ x c, P x (g x c)) (xs : List α) (cs : List γ) :
    List.Forall₂ P xs (fill valid bad xs (List.zipWith g (xs.filter valid) cs)) := by
  induction xs generalizing cs with
  | nil =>
    rw [fill]
    exact .nil
  | cons x xs ih =>
    cases hx : valid x with
    | false =>
      rw [fill_cons_of_not bad hx, List.filter_cons_of_neg (by simp [hx])]
      exact .cons (hbad x) (ih cs)
    | true =>
      rw [List.filter_cons_of_pos hx]
      cases cs with
      | nil =>
        rw [List.zipWith_nil_right, fill]
        exact .cons (hbad x) (by simpa using ih [])
      | cons c cs =>
        rw [List.zipWith_cons_cons, fill, if_pos hx]
        exact .cons (hg x c) (ih cs)

/-! ## One item after another -/

section

variable {σ : Type}

def inOrder (step : α → σ → β × σ) : List α → σ → List β × σ
  | [], s => ([], s)
  | x :: xs, s =>
    let (b, s) := step x s
    let (answers, s) := inOrder step xs s
    (b :: answers, s)

theorem inOrder_cons (step : α → σ → β × σ) (x : α) (xs : List α) (s : σ) :
    inOrder step (x :: xs) s = ((step x s).1 :: (inOrder step xs (step x s).2).1,
      (inOrder step xs (step x s).2).2) :=
  rfl

theorem length_inOrder (step : α → σ → β × σ) (xs : List α) (s : σ) :
    (inOrder step xs s).1.length = xs.length := by
  induction xs generalizing s with
  | nil => rfl
  | cons x xs ih => rw [inOrder_cons, List.length_cons, List.length_cons, ih]

theorem inOrder_pure (f : α → β) (xs : List α) (s : σ) :
    inOrder (fun x s => (f x, s)) xs s = (xs.map f, s) := by
  induction xs with
  | nil => rfl
  | cons x xs ih => rw [inOrder_cons, ih, List.map_cons]

theorem fill_inOrder (valid : α → Bool) (bad : α → β) (step : α → σ → β × σ) (xs : List α) (s : σ) :
    (fill valid bad xs (inOrder step (xs.filter valid) s).1, (inOrder step (xs.filter valid) s).2) =
      inOrder (fun x s => if valid x then step x s else (bad x, s)) xs s := by
  induction xs generalizing s with
  | nil => rfl
  | cons x xs ih =>
    rw [inOrder_cons]
    cases hx : valid x with
    | false =>
      rw [fill_cons_of_not bad hx, List.filter_cons_of_neg (by simp [hx])]
      simp only [Bool.false_eq_true, if_false, ← ih]
    | true =>
      rw [List.filter_cons_of_pos hx, inOrder_cons]
      simp only [fill, hx, if_true, ← ih]

end

end Positions
