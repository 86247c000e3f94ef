import Mathlib.Data.List.Nodup

/-!
# Lists with a unique key

A table with a unique key is a list in which no two elements have the same key.  What a query for
one key returns is then one element, and of rows that belong to the elements those of one element.
-/

namespace Keyed

variable {α β κ : Type} [DecidableEq κ] {f : α → κ} {l : List α} {a : α}

theorem filter_eq_singleton (h : l.Pairwise fun a b => f a ≠ f b) (ha : a ∈ l) :
    l.filter (fun b => f b = f a) = [a] := by
  induction l with
  | nil => cases ha
  | cons b l ih =>
    obtain ⟨hb, hl⟩ := List.pairwise_cons.1 h
    rcases List.mem_cons.1 ha with rfl | ha
    · rw [List.filter_cons_of_pos (by simp)]
      congr
      refine List.filter_eq_nil_iff.2 fun x hx => ?_
      simpa using fun hxa => hb x hx hxa.symm
    · rw [List.filter_cons_of_neg (by simpa using hb a ha)]
      exact ih hl ha

theorem filter_flatMap {rows : α → List β} {key : β → κ} (hrows : ∀ a, ∀ b ∈ rows a, key b = f a)
    (h : l.Pairwise fun a b => f a ≠ f b) (ha : a ∈ l) :
    (l.flatMap rows).filter (fun b => key b = f a) = rows a := by
  have hfilter : ∀ x, (rows x).filter (fun b => key b = f a) = if f x = f a then rows x else [] := by
    intro x
    split
    · next hx => exact List.filter_eq_self.2 fun b hb => by simp [hrows x b hb, hx]
    · next hx => exact List.filter_eq_nil_iff.2 fun b hb => by simp [hrows x b hb, hx]
  have hflat : (l.flatMap rows).filter (fun b => key b = f a) =
      (l.filter fun x => f x = f a).flatMap rows := by
    clear h ha
    induction l with
    | nil => rfl
    | cons x l ih =>
      rw [List.flatMap_cons, List.filter_append, ih, hfilter]
      by_cases hx : f x = f a <;> simp [hx]
  rw [hflat, filter_eq_singleton h ha]
  simp

end Keyed
