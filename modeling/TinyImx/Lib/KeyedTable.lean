import TinyImx.Lib.Keyed

/-!
# Tables with a primary key

A table is a list of rows no two of which have the same key.  A statement changes the rows its
condition holds of; it counts those that become another row.  Two statements in a row are one
statement if they are one for each row.
-/

structure KeyedTable {α κ : Type} (key : α → κ) where
  rows : List α
  distinct : rows.Pairwise fun a b => key a ≠ key b

/-- `UPDATE ... SET ... WHERE ...`, which leaves the key of a row. -/
structure Statement {α κ : Type} (key : α → κ) where
  condition : α → Bool
  set : α → α
  keeps : ∀ a, key (set a) = key a

namespace KeyedTable

variable {α κ : Type} {key : α → κ}
variable {t : KeyedTable key}

theorem ext {u : KeyedTable key} (h : t.rows = u.rows) : t = u := by
  cases t
  cases u
  simpa using h

def row (st : Statement key) (a : α) : α := if st.condition a then st.set a else a

theorem key_row (st : Statement key) (a : α) : key (row st a) = key a := by
  rw [row]
  split
  · exact st.keeps a
  · rfl

def execute (st : Statement key) (t : KeyedTable key) : KeyedTable key where
  rows := t.rows.map (row st)
  distinct := by
    refine List.pairwise_map.2 (t.distinct.imp fun h => ?_)
    rwa [key_row st, key_row st]

@[simp] theorem rows_execute (st : Statement key) (t : KeyedTable key) :
    (t.execute st).rows = t.rows.map (row st) := rfl

variable {st : Statement key}

theorem mem_execute {b : α} : b ∈ (t.execute st).rows ↔ ∃ a ∈ t.rows, row st a = b := List.mem_map

theorem eq_of_key {a b : α} (ha : a ∈ t.rows) (hb : b ∈ t.rows) (h : key a = key b) : a = b := by
  have hnodup : (t.rows.map key).Nodup := List.pairwise_map.2 t.distinct
  exact List.inj_on_of_nodup_map hnodup ha hb h

theorem find?_execute [DecidableEq κ] (st : Statement key) (t : KeyedTable key) (k : κ) :
    (t.execute st).rows.find? (fun a => key a = k) =
      (t.rows.find? fun a => key a = k).map (row st) := by
  rw [rows_execute, List.find?_map]
  congr 2
  funext a
  simp [key_row]

theorem find?_eq_some [DecidableEq κ] {k : κ} {a : α} :
    (t.rows.find? fun a => key a = k) = some a ↔ a ∈ t.rows ∧ key a = k := by
  constructor
  · grind
  · rintro ⟨ha, rfl⟩
    cases h : t.rows.find? fun b => key b = key a with
    | none => exact absurd (List.find?_eq_none.1 h a ha) (by simp)
    | some b =>
      have hb : key b = key a := by simpa using List.find?_some h
      rw [eq_of_key (List.mem_of_find?_eq_some h) ha hb]

variable [DecidableEq α]

def changes (st : Statement key) (a : α) : Bool := st.condition a && decide (st.set a ≠ a)

def affected (st : Statement key) (t : KeyedTable key) : ℕ := t.rows.countP (changes st)

omit [DecidableEq α] in
theorem execute_execute {st₁ st₂ : Statement key}
    (h : ∀ a ∈ t.rows, row st₂ (row st₁ a) = row st a) :
    (t.execute st₁).execute st₂ = t.execute st := by
  refine ext ?_
  rw [rows_execute, rows_execute, rows_execute, List.map_map]
  exact List.map_congr_left h

omit [DecidableEq α] in
theorem execute_eq_self (h : ∀ a ∈ t.rows, row st a = a) : t.execute st = t := by
  refine ext ?_
  rw [rows_execute, List.map_congr_left h, List.map_id']

theorem affected_add {st₁ st₂ : Statement key}
    (h : ∀ a ∈ t.rows, (changes st₁ a).toNat + (changes st₂ (row st₁ a)).toNat =
      (changes st a).toNat) : t.affected st₁ + (t.execute st₁).affected st₂ = t.affected st := by
  simp only [affected, rows_execute]
  generalize t.rows = rows at h
  induction rows with
  | nil => rfl
  | cons a rows ih =>
    grind

theorem affected_eq [DecidableEq κ] {k : κ} (h : ∀ a ∈ t.rows, changes st a = true → key a = k) :
    t.affected st = if ∃ a ∈ t.rows, changes st a = true then 1 else 0 := by
  split
  · next hex =>
    obtain ⟨a, ha, hchanges⟩ := hex
    have hfilter : t.rows.filter (changes st) = [a] := by
      have hone := Keyed.filter_eq_singleton t.distinct ha
      have hsame : t.rows.filter (changes st) = t.rows.filter fun b => key b = key a := by
        refine List.filter_congr fun b hb => ?_
        by_cases hb' : key b = key a
        · rw [eq_of_key hb ha hb', hchanges]
          simp
        · grind
      rw [hsame, hone]
    rw [affected, List.countP_eq_length_filter, hfilter]
    rfl
  · next hex =>
    refine List.countP_eq_zero.2 fun a ha hc => hex ⟨a, ha, hc⟩

end KeyedTable
