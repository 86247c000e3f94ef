import Mathlib.Algebra.Order.BigOperators.Group.Finset
import Mathlib.Algebra.Ring.Nat
import Mathlib.Data.List.AList
import Mathlib.Data.List.Sort

/-!
# Finite key-value maps under write batches

A store is an association list with unique keys whose value type may depend on the key.  A write
batch is a list of puts and deletes, applied as a whole.  `tally w m` adds a weight over all stored
entries; it turns "the number of records such that" and "the sum of the counters such that" into
one notion, with one rule for a put and one for a delete.  `scan` lists the keys of one family in
increasing order, as an iterator over a sorted engine does.
-/

namespace Kv

variable {K : Type} {V : K → Type}

inductive Write (V : K → Type) where
  | put (key : K) (value : V key)
  | delete (key : K)

def Write.key : Write V → K
  | .put k _ => k
  | .delete k => k

variable [DecidableEq K]

def step (m : AList V) : Write V → AList V
  | .put k v => m.insert k v
  | .delete k => m.erase k

def apply (m : AList V) (batch : List (Write V)) : AList V := batch.foldl step m

@[simp] theorem apply_nil (m : AList V) : apply m [] = m := rfl

@[simp] theorem apply_cons (m : AList V) (w : Write V) (batch : List (Write V)) :
    apply m (w :: batch) = apply (step m w) batch := rfl

theorem apply_append (m : AList V) (b c : List (Write V)) :
    apply m (b ++ c) = apply (apply m b) c := List.foldl_append

variable {m : AList V} {k : K}

theorem lookup_step_of_ne {w : Write V} (h : k ≠ w.key) : (step m w).lookup k = m.lookup k := by
  cases w with
  | put k' v => exact AList.lookup_insert_ne h
  | delete k' => exact AList.lookup_erase_ne h

@[simp] theorem lookup_step_put (m : AList V) (k : K) (v : V k) :
    (step m (.put k v)).lookup k = some v := AList.lookup_insert m

@[simp] theorem lookup_step_delete (m : AList V) (k : K) :
    (step m (.delete k)).lookup k = none := AList.lookup_erase k m

theorem lookup_apply_of_forall_ne {batch : List (Write V)}
    (h : ∀ w ∈ batch, k ≠ w.key) : (apply m batch).lookup k = m.lookup k := by
  induction batch generalizing m with
  | nil => rfl
  | cons w batch ih =>
    rw [apply_cons, ih fun w' hw' => h w' (List.mem_cons_of_mem _ hw'),
      lookup_step_of_ne (h w List.mem_cons_self)]

theorem isSome_apply_of_no_delete {batch : List (Write V)}
    (h : Write.delete k ∉ batch) : ((apply m batch).lookup k).isSome = true ↔
      (∃ v, Write.put k v ∈ batch) ∨ (m.lookup k).isSome = true := by
  induction batch generalizing m with
  | nil => simp
  | cons w batch ih =>
    rw [List.mem_cons, not_or] at h
    rw [apply_cons, ih h.2]
    by_cases hk : k = w.key
    · cases w with
      | put k' v =>
        obtain rfl : k = k' := hk
        rw [lookup_step_put]
        grind
      | delete k' =>
        obtain rfl : k = k' := hk
        exact absurd rfl h.1
    · rw [lookup_step_of_ne hk]
      refine or_congr_left (exists_congr fun v => ?_)
      rw [List.mem_cons]
      refine ⟨.inr, fun hv => hv.resolve_left fun hput => hk ?_⟩
      rw [← hput]
      rfl

theorem isSome_apply_of_no_put {batch : List (Write V)}
    (h : ∀ v, Write.put k v ∉ batch) : ((apply m batch).lookup k).isSome = true ↔
      Write.delete k ∉ batch ∧ (m.lookup k).isSome = true := by
  induction batch generalizing m with
  | nil => simp
  | cons w batch ih =>
    rw [apply_cons, ih fun v hv => h v (List.mem_cons_of_mem _ hv)]
    by_cases hk : k = w.key
    · cases w with
      | put k' v =>
        obtain rfl : k = k' := hk
        exact absurd List.mem_cons_self (h v)
      | delete k' =>
        obtain rfl : k = k' := hk
        rw [lookup_step_delete]
        simp
    · rw [lookup_step_of_ne hk, List.mem_cons, not_or]
      have hne : Write.delete k ≠ w := fun heq => hk (by rw [← heq]; rfl)
      simp [hne]

theorem lookup_apply_congr {m' : AList V} (h : m.lookup k = m'.lookup k)
    (batch : List (Write V)) : (apply m batch).lookup k = (apply m' batch).lookup k := by
  induction batch generalizing m m' with
  | nil => exact h
  | cons w batch ih =>
    refine ih ?_
    by_cases hk : k = w.key
    · subst hk
      cases w with
      | put k v => exact (lookup_step_put m k v).trans (lookup_step_put m' k v).symm
      | delete k => exact (lookup_step_delete m k).trans (lookup_step_delete m' k).symm
    · rw [lookup_step_of_ne hk, lookup_step_of_ne hk, h]

/-! ## Weighted counts -/

section Tally

variable (w : (k : K) → V k → ℕ)

/-- The weight of the entry stored under `k`, zero where nothing is stored. -/
def weightAt (m : AList V) (k : K) : ℕ := (m.lookup k).elim 0 (w k)

def tally (m : AList V) : ℕ := (m.entries.map fun e => w e.1 e.2).sum

omit [DecidableEq K] in
@[simp] theorem tally_empty : tally w (∅ : AList V) = 0 := rfl

theorem weightAt_of_lookup {v : V k} (h : m.lookup k = some v) :
    weightAt w m k = w k v := by simp [weightAt, h]

theorem weightAt_of_none (h : m.lookup k = none) : weightAt w m k = 0 := by
  simp [weightAt, h]

private theorem sum_kerase (k : K) (l : List (Sigma V)) :
    ((List.kerase k l).map fun e => w e.1 e.2).sum + (List.dlookup k l).elim 0 (w k) =
      (l.map fun e => w e.1 e.2).sum := by
  induction l with
  | nil => simp
  | cons e l ih =>
    obtain ⟨k', v⟩ := e
    by_cases h : k = k'
    · subst h
      have hl : List.kerase k (⟨k, v⟩ :: l) = l := List.kerase_cons_eq rfl
      rw [hl, List.dlookup_cons_eq]
      simp only [Option.elim_some, List.map_cons, List.sum_cons]
      omega
    · rw [List.kerase_cons_ne h, List.dlookup_cons_ne l ⟨k', v⟩ h]
      simp only [List.map_cons, List.sum_cons]
      omega

theorem tally_erase (m : AList V) (k : K) : tally w (m.erase k) + weightAt w m k = tally w m :=
  sum_kerase w k m.entries

theorem tally_insert (m : AList V) (k : K) (v : V k) :
    tally w (m.insert k v) + weightAt w m k = tally w m + w k v := by
  have h := tally_erase w m k
  have hi : tally w (m.insert k v) = w k v + tally w (m.erase k) := by
    rw [tally, AList.entries_insert, List.map_cons, List.sum_cons]
    rfl
  omega

theorem weightAt_le_tally (m : AList V) (k : K) : weightAt w m k ≤ tally w m := by
  have := tally_erase w m k
  omega

theorem tally_step_of_zero {op : Write V} (h : ∀ v, w op.key v = 0) :
    tally w (step m op) = tally w m := by
  have hz : weightAt w m op.key = 0 := by
    unfold weightAt
    cases m.lookup op.key with
    | none => rfl
    | some v => exact h v
  cases op with
  | put k v =>
    have := tally_insert w m k v
    have hv : w k v = 0 := h v
    simp only [Write.key] at hz
    simp only [step]
    omega
  | delete k =>
    have := tally_erase w m k
    simp only [Write.key] at hz
    simp only [step]
    omega

theorem mem_entries_iff {v : V k} : (⟨k, v⟩ : Sigma V) ∈ m.entries ↔ m.lookup k = some v := by
  rw [← Option.mem_def]; exact AList.mem_lookup_iff.symm

theorem tally_eq_sum_keys (m : AList V) : tally w m = ∑ k ∈ m.keys.toFinset, weightAt w m k := by
  have hmap : (m.entries.map fun e => w e.1 e.2) = m.keys.map (weightAt w m) := by
    simp only [AList.keys, List.keys, List.map_map]
    refine List.map_congr_left fun e he => ?_
    exact (weightAt_of_lookup w (mem_entries_iff.1 he)).symm
  rw [tally, hmap, List.sum_toFinset _ m.keys_nodup]

theorem mem_keys_of_weightAt (h : weightAt w m k ≠ 0) : k ∈ m.keys.toFinset := by
  cases hv : m.lookup k with
  | none => exact absurd (weightAt_of_none w hv) h
  | some v =>
    have hmem : k ∈ m := AList.lookup_isSome.1 (by simp [hv])
    exact List.mem_toFinset.2 hmem

theorem tally_congr {m' : AList V} (h : ∀ k, weightAt w m k = weightAt w m' k) :
    tally w m = tally w m' := by
  rw [tally_eq_sum_keys, tally_eq_sum_keys, ← Finset.sum_filter_ne_zero,
    ← Finset.sum_filter_ne_zero (s := m'.keys.toFinset)]
  refine Finset.sum_congr (Finset.ext fun k => ?_) fun k _ => h k
  simp only [Finset.mem_filter]
  constructor
  · rintro ⟨-, hk⟩
    rw [h] at hk
    exact ⟨mem_keys_of_weightAt w hk, hk⟩
  · rintro ⟨-, hk⟩
    rw [← h] at hk
    exact ⟨mem_keys_of_weightAt w hk, hk⟩

theorem tally_pos_iff : 0 < tally w m ↔ ∃ k v, m.lookup k = some v ∧ w k v ≠ 0 := by
  constructor
  · intro h
    by_contra hn
    push Not at hn
    have h0 : tally w m = 0 := by
      rw [tally, List.sum_eq_zero]
      intro n hmem
      obtain ⟨e, he, rfl⟩ := List.mem_map.1 hmem
      exact hn e.1 e.2 (mem_entries_iff.1 he)
    omega
  · rintro ⟨k, v, hv, hw⟩
    have := weightAt_le_tally w m k
    rw [weightAt_of_lookup w hv] at this
    omega

omit [DecidableEq K] in
theorem tally_mono {w' : (k : K) → V k → ℕ} (h : ∀ k v, w k v ≤ w' k v) : tally w m ≤ tally w' m :=
  List.sum_le_sum fun _ _ => h _ _

theorem tally_le_of_bound {f : ℕ → K} {n : ℕ} (h1 : ∀ k v, w k v ≤ 1)
    (h : ∀ k v, m.lookup k = some v → w k v ≠ 0 → ∃ i < n, f i = k) : tally w m ≤ n := by
  rw [tally_eq_sum_keys, ← Finset.sum_filter_ne_zero]
  have hle : ∀ k, weightAt w m k ≤ 1 := by
    intro k
    unfold weightAt
    cases m.lookup k with
    | none => exact Nat.zero_le _
    | some v => exact h1 k v
  calc ∑ k ∈ m.keys.toFinset with weightAt w m k ≠ 0, weightAt w m k
      ≤ ∑ k ∈ m.keys.toFinset with weightAt w m k ≠ 0, 1 := Finset.sum_le_sum fun k _ => hle k
    _ = (m.keys.toFinset.filter fun k => weightAt w m k ≠ 0).card := (Finset.card_eq_sum_ones _).symm
    _ ≤ ((Finset.range n).image f).card := by
        refine Finset.card_le_card fun k hk => ?_
        have hk := (Finset.mem_filter.1 hk).2
        cases hv : m.lookup k with
        | none => exact absurd (weightAt_of_none w hv) hk
        | some v =>
          rw [weightAt_of_lookup w hv] at hk
          grind
    _ ≤ n := by simpa using Finset.card_image_le (s := Finset.range n) (f := f)

end Tally

/-! ## Ordered scans -/

/-- The numbers `f` reads off the stored keys, in increasing order: an iterator over one prefix. -/
def scan (f : K → Option ℕ) (m : AList V) : List ℕ :=
  (m.keys.filterMap f).insertionSort (· ≤ ·)

omit [DecidableEq K] in
theorem mem_scan {f : K → Option ℕ} {n : ℕ} : n ∈ scan f m ↔ ∃ k ∈ m, f k = some n := by
  rw [scan, (List.perm_insertionSort (· ≤ ·) _).mem_iff, List.mem_filterMap]
  rfl

omit [DecidableEq K] in
theorem scan_nodup {f : K → Option ℕ} (m : AList V)
    (hf : ∀ k k' n, f k = some n → f k' = some n → k = k') : (scan f m).Nodup := by
  rw [scan, (List.perm_insertionSort (· ≤ ·) _).nodup_iff]
  refine m.keys_nodup.filterMap ?_
  intro k k' n hn hn'
  exact hf k k' n hn hn'

end Kv
