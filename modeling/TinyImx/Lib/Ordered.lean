import Mathlib.Data.List.Sort

/-!
# Iterators over ordered keys

An engine keeps its entries sorted by a key that is a list of bytes.  An iterator stands on an entry
and is kept as the entries it has still to visit: upwards after `seek`, downwards after
`seekForPrev`.  The keys with a common prefix stand together, so a loop that ends at the first key
without the prefix visits the whole family, and a cursor inside the family cuts it in two.
-/

namespace Ordered

variable {α β γ ε : Type}

/-! ## Lists of bytes -/

section Words

variable [LT β] [Std.Asymm fun a b : β => a < b]

theorem append_lt_append_iff (p : List β) {a b : List β} : p ++ a < p ++ b ↔ a < b := by
  induction p with
  | nil => rfl
  | cons x p ih =>
    simp_all

theorem append_lt_append_of_lt {a b : List β} (hlen : a.length = b.length) (h : a < b)
    (c d : List β) : a ++ c < b ++ d := by
  induction a generalizing b with
  | nil =>
    cases b with
    | nil => exact absurd h (List.lt_irrefl _)
    | cons y b => cases hlen
  | cons x a ih =>
    cases b with
    | nil => cases hlen
    | cons y b =>
      rw [List.cons_append, List.cons_append, List.cons_lt_cons_iff]
      rcases List.cons_lt_cons_iff.1 h with hlt | ⟨heq, hlt⟩
      · exact .inl hlt
      · exact .inr ⟨heq, ih (Nat.succ.inj hlen) hlt⟩

variable [Std.Trichotomous fun a b : β => a < b]

theorem lt_iff_le_and_ne {a b : List β} : a < b ↔ a ≤ b ∧ a ≠ b := by
  rw [List.le_iff_lt_or_eq]
  refine ⟨fun h => ⟨.inl h, fun heq => List.lt_irrefl b (heq ▸ h)⟩, fun h => h.1.resolve_right h.2⟩

theorem prefix_of_between {p a b c : List β} (ha : p <+: a) (hc : p <+: c) (hab : a ≤ b)
    (hbc : b ≤ c) : p <+: b := by
  induction p generalizing a b c with
  | nil => exact List.nil_prefix
  | cons x p ih =>
    obtain ⟨a, rfl⟩ := ha
    obtain ⟨c, rfl⟩ := hc
    cases b with
    | nil => exact absurd (List.le_antisymm hab (List.nil_le _)) (by simp)
    | cons y b =>
      rw [List.cons_append, List.cons_le_cons_iff] at hab hbc
      rcases hab with hxy | ⟨rfl, hab⟩
      · rcases hbc with hyx | ⟨rfl, -⟩
        · exact absurd hyx (Std.Asymm.asymm _ _ hxy)
        · exact absurd hxy (Std.Irrefl.irrefl _)
      · rcases hbc with hxx | ⟨-, hbc⟩
        · exact absurd hxx (Std.Irrefl.irrefl _)
        · exact (List.prefix_cons_inj x).2
            (ih (List.prefix_append p a) (List.prefix_append p c) hab hbc)

end Words

/-! ## Iterators -/

section Iterators

variable [LT β] [DecidableLT β] [DecidableEq β] (key : α → List β)

def seek (k : List β) (l : List α) : List α := l.dropWhile fun e => key e < k

/-- `SeekForPrev`: the entries from the last key that is not above `k`, downwards. -/
def seekForPrev (k : List β) (l : List α) : List α := (l.takeWhile fun e => key e ≤ k).reverse

def skipAt (k : List β) : List α → List α
  | [] => []
  | e :: l => if key e = k then l else e :: l

def startsWith (p : List β) (e : α) : Bool := p.isPrefixOf (key e)

/-- A loop over a family that takes at most `limit` entries and stops at the first exception. -/
def collect (p : α → Bool) (limit : ℕ) (body : α → Except ε γ) :
    List α → List γ → Except ε (List γ)
  | [], out => .ok out
  | e :: l, out =>
    if p e && out.length < limit then do
      let r ← body e
      collect p limit body l (out ++ [r])
    else .ok out

def visited (p : α → Bool) (limit : ℕ) (l : List α) : List α := (l.takeWhile p).take limit

theorem collect_eq (p : α → Bool) (limit : ℕ) (body : α → Except ε γ) (l : List α) (out : List γ)
    (hout : out.length ≤ limit) :
    collect p limit body l out =
      (visited p (limit - out.length) l).mapM body >>= fun rs => .ok (out ++ rs) := by
  induction l generalizing out with
  | nil => simp [collect, visited, pure, bind, Except.pure, Except.bind]
  | cons e l ih =>
    rw [collect]
    by_cases hp : p e = true
    · by_cases hlt : out.length < limit
      · obtain ⟨n, hn⟩ : ∃ n, limit - out.length = n + 1 := ⟨limit - out.length - 1, by omega⟩
        have hn' : limit - (out.length + 1) = n := by omega
        rw [if_pos (by simp [hp, hlt])]
        simp only [visited, List.takeWhile_cons, hp, if_true, hn, List.take_succ_cons,
          List.mapM_cons, bind_assoc]
        refine bind_congr fun r => ?_
        rw [ih _ (by grind)]
        simp only [visited, List.length_append, List.length_singleton, hn', pure_bind,
          List.append_assoc, List.singleton_append]
      · have hfull : limit - out.length = 0 := by omega
        rw [if_neg (by simp [hlt])]
        simp [visited, hfull, pure, bind, Except.pure, Except.bind]
    · rw [if_neg (by simp [hp])]
      simp [visited, hp, pure, bind, Except.pure, Except.bind]

variable {key} {k : List β} {l : List α} {e : α}

theorem mem_of_mem_seek (h : e ∈ seek key k l) : e ∈ l := (List.dropWhile_sublist _).subset h

theorem mem_of_mem_seekForPrev (h : e ∈ seekForPrev key k l) : e ∈ l :=
  (List.takeWhile_sublist _).subset (List.mem_reverse.1 h)

omit [LT β] [DecidableLT β] in
theorem mem_of_mem_skipAt (h : e ∈ skipAt key k l) : e ∈ l := by
  cases l with
  | nil => exact h
  | cons e' l =>
    rw [skipAt] at h
    split at h
    · exact List.mem_cons_of_mem _ h
    · exact h

end Iterators

/-! ## Families -/

section Families

theorem takeWhile_eq_filter {q : α → Bool} {l : List α}
    (h : l.Pairwise fun a b => q b = true → q a = true) : l.takeWhile q = l.filter q := by
  induction l with
  | nil => rfl
  | cons e l ih =>
    obtain ⟨he, hl⟩ := List.pairwise_cons.1 h
    by_cases hq : q e = true
    · rw [List.takeWhile_cons_of_pos hq, List.filter_cons_of_pos hq, ih hl]
    · rw [List.takeWhile_cons_of_neg hq, List.filter_cons_of_neg hq]
      exact (List.filter_eq_nil_iff.2 fun a ha hqa => hq (he a ha hqa)).symm

theorem dropWhile_eq_filter {q : α → Bool} {l : List α}
    (h : l.Pairwise fun a b => q b = true → q a = true) :
    l.dropWhile q = l.filter fun e => !q e := by
  induction l with
  | nil => rfl
  | cons e l ih =>
    obtain ⟨he, hl⟩ := List.pairwise_cons.1 h
    by_cases hq : q e = true
    · rw [List.dropWhile_cons_of_pos hq, List.filter_cons_of_neg (by simp [hq]), ih hl]
    · rw [List.dropWhile_cons_of_neg hq, List.filter_cons_of_pos (by simp [hq])]
      congr 1
      refine (List.filter_eq_self.2 fun a ha => ?_).symm
      grind

variable {key : α → List β} {k p x : List β} {l : List α}

def Distinct (key : α → List β) (p : List β) (l : List α) : Prop :=
  l.Pairwise fun a b => ¬(p <+: key a ∧ key a = key b)

theorem Distinct.at (hd : Distinct key p l) (x : List β) :
    l.Pairwise fun a b => ¬(key a = p ++ x ∧ key b = p ++ x) := by
  refine hd.imp fun {a b} h hab => h ⟨?_, hab.1.trans hab.2.symm⟩
  simp_all

variable [DecidableEq β]

theorem startsWith_iff {e : α} : startsWith key p e = true ↔ p <+: key e :=
  List.isPrefixOf_iff_prefix

theorem skipAt_eq_filter (hfirst : l.Pairwise fun a b => key b = k → key a = k)
    (hone : l.Pairwise fun a b => ¬(key a = k ∧ key b = k)) :
    skipAt key k l = l.filter fun e => key e ≠ k := by
  cases l with
  | nil => rfl
  | cons e l =>
    obtain ⟨hfirst, -⟩ := List.pairwise_cons.1 hfirst
    obtain ⟨hone, -⟩ := List.pairwise_cons.1 hone
    by_cases he : key e = k
    · rw [skipAt, if_pos he, List.filter_cons_of_neg (by simp [he])]
      exact (List.filter_eq_self.2 fun a ha => by simpa using fun h => hone a ha ⟨he, h⟩).symm
    · rw [skipAt, if_neg he, List.filter_cons_of_pos (by simpa using he)]
      congr 1
      exact (List.filter_eq_self.2 fun a ha => by simpa using fun h => he (hfirst a ha h)).symm

variable [LT β] [LE β] [Std.IsLinearOrder β] [Std.LawfulOrderLT β]

def Sorted (key : α → List β) (l : List α) : Prop := l.Pairwise fun a b => key a ≤ key b

theorem takeWhile_up (hs : Sorted key l) (hlow : ∀ e ∈ l, p ++ x ≤ key e) :
    l.takeWhile (startsWith key p) = l.filter (startsWith key p) := by
  refine takeWhile_eq_filter (hs.imp_of_mem fun {a b} ha _ hab hb => ?_)
  exact startsWith_iff.2 (prefix_of_between (List.prefix_append p x) (startsWith_iff.1 hb)
    (hlow a ha) hab)

theorem takeWhile_down (hs : Sorted key l) (hhigh : ∀ e ∈ l, key e ≤ p ++ x) :
    l.reverse.takeWhile (startsWith key p) = (l.filter (startsWith key p)).reverse := by
  rw [← List.filter_reverse]
  refine takeWhile_eq_filter (List.pairwise_reverse.2 (hs.imp_of_mem fun {b a} _ ha hba hb => ?_))
  exact startsWith_iff.2 (prefix_of_between (startsWith_iff.1 hb) (List.prefix_append p x) hba
    (hhigh a ha))

variable [DecidableLT β]

theorem seek_eq_filter (hs : Sorted key l) (k : List β) :
    seek key k l = l.filter fun e => k ≤ key e := by
  rw [seek, dropWhile_eq_filter]
  · grind
  · refine hs.imp fun {a b} hab hb => ?_
    exact decide_eq_true (List.lt_of_le_of_lt hab (of_decide_eq_true hb))

theorem seekForPrev_eq_filter (hs : Sorted key l) (k : List β) :
    seekForPrev key k l = (l.filter fun e => key e ≤ k).reverse := by
  rw [seekForPrev, takeWhile_eq_filter]
  refine hs.imp fun {a b} hab hb => ?_
  exact decide_eq_true (List.le_trans hab (of_decide_eq_true hb))

theorem up_all (hs : Sorted key l) (p : List β) :
    (seek key p l).takeWhile (startsWith key p) = l.filter (startsWith key p) := by
  have hlow : ∀ e ∈ l.filter (fun e => decide (p ≤ key e)), p ++ [] ≤ key e := by simp
  rw [seek_eq_filter hs, takeWhile_up (hs.sublist List.filter_sublist) hlow, List.filter_filter]
  refine List.filter_congr fun e _ => ?_
  cases h : startsWith key p e with
  | false => rfl
  | true =>
    obtain ⟨x, hx⟩ := startsWith_iff.1 h
    simp [← hx, List.le_append_left]

theorem up_after (hs : Sorted key l) (hd : Distinct key p l) (x : List β) :
    (skipAt key (p ++ x) (seek key (p ++ x) l)).takeWhile (startsWith key p) =
      l.filter fun e => startsWith key p e && decide (p ++ x < key e) := by
  have hsub : (l.filter fun e => decide (p ++ x ≤ key e)).Sublist l := List.filter_sublist
  have hfirst : (l.filter fun e => decide (p ++ x ≤ key e)).Pairwise fun a b =>
      key b = p ++ x → key a = p ++ x := by
    refine (hs.sublist hsub).imp_of_mem fun {a b} ha _ hab hb => ?_
    grind
  rw [seek_eq_filter hs, skipAt_eq_filter hfirst ((hd.at x).sublist hsub), List.filter_filter]
  have hlow : ∀ e ∈ l.filter (fun e => decide (key e ≠ p ++ x) && decide (p ++ x ≤ key e)),
      p ++ x ≤ key e := by
    intro e he
    simpa using ((List.mem_filter.1 he).2 |> Bool.and_eq_true_iff.1).2
  rw [takeWhile_up (hs.sublist List.filter_sublist) hlow, List.filter_filter]
  refine List.filter_congr fun e _ => ?_
  rw [← Bool.decide_and]
  congr 1
  rw [decide_eq_decide, lt_iff_le_and_ne, and_comm, ne_comm]

theorem down_from (hs : Sorted key l) (p x : List β) :
    (seekForPrev key (p ++ x) l).takeWhile (startsWith key p) =
      (l.filter fun e => startsWith key p e && decide (key e ≤ p ++ x)).reverse := by
  have hhigh : ∀ e ∈ l.filter (fun e => decide (key e ≤ p ++ x)), key e ≤ p ++ x := by simp
  rw [seekForPrev_eq_filter hs, takeWhile_down (hs.sublist List.filter_sublist) hhigh,
    List.filter_filter]

theorem down_before (hs : Sorted key l) (hd : Distinct key p l) (x : List β) :
    (skipAt key (p ++ x) (seekForPrev key (p ++ x) l)).takeWhile (startsWith key p) =
      (l.filter fun e => startsWith key p e && decide (key e < p ++ x)).reverse := by
  have hsub : (l.filter fun e => decide (key e ≤ p ++ x)).Sublist l := List.filter_sublist
  have hfirst : (l.filter fun e => decide (key e ≤ p ++ x)).reverse.Pairwise fun a b =>
      key b = p ++ x → key a = p ++ x := by
    refine List.pairwise_reverse.2 ((hs.sublist hsub).imp_of_mem fun {b a} _ ha hba hb => ?_)
    grind
  have hone : (l.filter fun e => decide (key e ≤ p ++ x)).reverse.Pairwise fun a b =>
      ¬(key a = p ++ x ∧ key b = p ++ x) :=
    List.pairwise_reverse.2 (((hd.at x).sublist hsub).imp fun h => fun hba => h hba.symm)
  rw [seekForPrev_eq_filter hs, skipAt_eq_filter hfirst hone, List.filter_reverse,
    List.filter_filter]
  have hhigh : ∀ e ∈ l.filter (fun e => decide (key e ≠ p ++ x) && decide (key e ≤ p ++ x)),
      key e ≤ p ++ x := by
    intro e he
    simpa using ((List.mem_filter.1 he).2 |> Bool.and_eq_true_iff.1).2
  rw [takeWhile_down (hs.sublist List.filter_sublist) hhigh, List.filter_filter]
  congr 1
  refine List.filter_congr fun e _ => ?_
  rw [← Bool.decide_and]
  congr 1
  rw [decide_eq_decide, lt_iff_le_and_ne, and_comm]

end Families

end Ordered
