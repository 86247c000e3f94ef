import Mathlib.Data.List.Basic
import Mathlib.Order.Nat

/-!
# Reading a list page by page

A reader fetches the page behind a cursor, takes the next cursor from the page and goes on until a
page says that it is the last.  Where every page that is not the last is a non-empty first part of
what is left behind its cursor, and the last one is all of it, the reader ends and has read the whole
list, every item once and in order.
-/

namespace Paging

variable {γ π α : Type} (fetch : γ → π) (last : π → Prop) (next : π → γ)

inductive Drain : γ → List π → Prop
  | stop {c : γ} : last (fetch c) → Drain c [fetch c]
  | more {c : γ} {pages : List π} : ¬last (fetch c) → Drain (next (fetch c)) pages →
      Drain c (fetch c :: pages)

/-- How the pages behind the cursors of `I` cut what is left behind them. -/
structure Cuts (I : γ → Prop) (items : π → List α) (rest : γ → List α) : Prop where
  stop : ∀ c, I c → last (fetch c) → rest c = items (fetch c)
  cursor : ∀ c, I c → ¬last (fetch c) → I (next (fetch c))
  item : ∀ c, I c → ¬last (fetch c) → items (fetch c) ≠ []
  more : ∀ c, I c → ¬last (fetch c) → rest c = items (fetch c) ++ rest (next (fetch c))

variable {fetch last next} {I : γ → Prop} {items : π → List α} {rest : γ → List α} {c : γ}

theorem Cuts.drain (h : Cuts fetch last next I items rest) (hc : I c) :
    ∃ pages, Drain fetch last next c pages ∧ pages.flatMap items = rest c := by
  induction hn : (rest c).length using Nat.strongRecOn generalizing c with
  | ind n ih =>
    by_cases hlast : last (fetch c)
    · exact ⟨[fetch c], .stop hlast, by simp [h.stop c hc hlast]⟩
    · have hmore := h.more c hc hlast
      have hpos : 0 < (items (fetch c)).length := List.length_pos_iff.2 (h.item c hc hlast)
      have hlt : (rest (next (fetch c))).length < n := by
        grind
      obtain ⟨pages, hdrain, hall⟩ := ih _ hlt (h.cursor c hc hlast) rfl
      exact ⟨fetch c :: pages, .more hlast hdrain, by rw [List.flatMap_cons, hall, hmore]⟩

/-! ## Pages cut at their last item -/

theorem Cuts.of_take (cursor : α → γ)
    (hcut : ∀ c n x, I c → ((rest c).take n).getLast? = some x → rest (cursor x) = (rest c).drop n)
    (hpage : ∀ c, I c → ∃ n, items (fetch c) = (rest c).take n ∧
      (last (fetch c) → (rest c).length ≤ n) ∧
      (¬last (fetch c) → ∃ x, (items (fetch c)).getLast? = some x ∧ next (fetch c) = cursor x ∧
        I (cursor x))) :
    Cuts fetch last next I items rest where
  stop c hc hlast := by
    obtain ⟨n, hitems, hall, -⟩ := hpage c hc
    rw [hitems, List.take_of_length_le (hall hlast)]
  cursor c hc hlast := by
    grind
  item c hc hlast := by
    obtain ⟨n, -, -, hmore⟩ := hpage c hc
    grind
  more c hc hlast := by
    obtain ⟨n, hitems, -, hmore⟩ := hpage c hc
    obtain ⟨x, hx, hnext, -⟩ := hmore hlast
    rw [hitems] at hx ⊢
    rw [hnext, hcut c n x hc hx, List.take_append_drop]

variable {l : List α}

theorem filter_behind {R : α → α → Prop} [DecidableRel R] (hR : ∀ a b, R a b → ¬R b a)
    (hl : l.Pairwise R) {n : ℕ} {x : α} (hx : (l.take n).getLast? = some x) :
    l.filter (fun a => R x a) = l.drop n := by
  obtain ⟨init, hinit⟩ := List.getLast?_eq_some_iff.1 hx
  have hsplit : l = init ++ [x] ++ l.drop n := by rw [← hinit, List.take_append_drop]
  rw [hsplit, List.append_assoc, List.pairwise_append] at hl
  obtain ⟨-, hrest, hbefore⟩ := hl
  have hself : (l.drop n).filter (fun a => R x a) = l.drop n :=
    List.filter_eq_self.2 fun a ha => decide_eq_true ((List.pairwise_cons.1 hrest).1 a ha)
  have hnone : (init ++ [x]).filter (fun a => R x a) = [] := by
    refine List.filter_eq_nil_iff.2 fun a ha => ?_
    rw [decide_eq_true_eq]
    rcases List.mem_append.1 ha with ha | ha
    · exact hR a x (hbefore a ha x List.mem_cons_self)
    · rw [List.mem_singleton.1 ha]
      exact fun h => hR x x h h
  conv_lhs => rw [hsplit]
  rw [List.filter_append, hself, hnone, List.nil_append]

variable {f : α → ℕ}

theorem above_cut (hl : l.Pairwise fun a b => f a < f b) {c n : ℕ} {x : α}
    (hx : ((l.filter fun a => c < f a).take n).getLast? = some x) :
    l.filter (fun a => f x < f a) = (l.filter fun a => c < f a).drop n := by
  rw [← filter_behind (R := fun a b => f a < f b) (fun _ _ => Nat.lt_asymm)
    (hl.sublist List.filter_sublist) hx, List.filter_filter]
  refine List.filter_congr fun a _ => ?_
  have hxc : c < f x := by
    have hmem := List.mem_filter.1 (List.mem_of_mem_take (List.mem_of_getLast? hx))
    simpa using hmem.2
  by_cases h : f x < f a
  · simp [h, hxc.trans h]
  · simp [h]

theorem below_cut (hl : l.Pairwise fun a b => f a < f b) (hpos : ∀ a ∈ l, 0 < f a) {c n : ℕ} {x : α}
    (hx : ((l.filter fun a => c = 0 || f a < c).reverse.take n).getLast? = some x) :
    (l.filter fun a => f x = 0 || f a < f x).reverse =
      (l.filter fun a => c = 0 || f a < c).reverse.drop n := by
  have hdown : (l.filter fun a => c = 0 || f a < c).reverse.Pairwise fun a b => f b < f a :=
    List.pairwise_reverse.2 (hl.sublist List.filter_sublist)
  rw [← filter_behind (R := fun a b => f b < f a) (fun _ _ => Nat.lt_asymm) hdown hx,
    List.filter_reverse, List.filter_filter]
  have hmem := List.mem_filter.1
    (List.mem_reverse.1 (List.mem_of_mem_take (List.mem_of_getLast? hx)))
  have hxpos := hpos x hmem.1
  have hxc : c = 0 ∨ f x < c := by simpa using hmem.2
  congr 1
  refine List.filter_congr fun a _ => ?_
  by_cases h : f a < f x
  · have : c = 0 ∨ f a < c := hxc.imp id h.trans
    simpa [h, hxpos.ne'] using this
  · simp [h, hxpos.ne']

end Paging
