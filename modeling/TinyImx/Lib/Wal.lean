import TinyImx.Lib.Kv

/-!
# Write-ahead logs

A log is a list of write batches, each marked as synced or not.  `replay` rebuilds the map from the
log.  A crash may keep any prefix of the log that contains every synced entry: `Kept log kept`.
`Durable P log` says that every map a crash may leave behind satisfies `P`; appending a batch keeps
it as soon as the whole new log satisfies `P`.
-/

namespace Wal

open Kv

variable {K : Type} {V : K → Type} [DecidableEq K]

structure Entry (V : K → Type) where
  batch : List (Write V)
  sync : Bool

def replay (log : List (Entry V)) : AList V := log.foldl (fun m e => apply m e.batch) ∅

def Kept (log kept : List (Entry V)) : Prop :=
  ∃ lost, log = kept ++ lost ∧ ∀ e ∈ lost, e.sync = false

def Durable (P : AList V → Prop) (log : List (Entry V)) : Prop :=
  ∀ kept, Kept log kept → P (replay kept)

def synced (log : List (Entry V)) : List (Entry V) := log.map fun e => { e with sync := true }

@[simp] theorem replay_nil : replay ([] : List (Entry V)) = ∅ := rfl

@[simp] theorem replay_snoc (log : List (Entry V)) (e : Entry V) :
    replay (log ++ [e]) = apply (replay log) e.batch := by simp [replay]

@[simp] theorem replay_synced (log : List (Entry V)) : replay (synced log) = replay log := by
  simp [replay, synced, List.foldl_map]

omit [DecidableEq K] in
theorem Kept.refl (log : List (Entry V)) : Kept log log := ⟨[], by simp⟩

omit [DecidableEq K] in
theorem kept_snoc {log kept : List (Entry V)} {e : Entry V} (h : Kept (log ++ [e]) kept) :
    kept = log ++ [e] ∨ (e.sync = false ∧ Kept log kept) := by
  obtain ⟨lost, hlog, hlost⟩ := h
  rcases List.eq_nil_or_concat lost with rfl | ⟨lost, e', rfl⟩
  · exact .inl (by simpa using hlog.symm)
  · rw [List.concat_eq_append, ← List.append_assoc] at hlog
    obtain ⟨hl, he⟩ := List.append_inj' hlog rfl
    obtain rfl : e = e' := by simpa using he
    exact .inr ⟨hlost _ (by simp), lost, hl, fun e' he' => hlost e' (by simp [he'])⟩

omit [DecidableEq K] in
theorem kept_synced {log kept : List (Entry V)} (h : Kept (synced log) kept) :
    kept = synced log := by
  obtain ⟨lost, hlog, hlost⟩ := h
  rcases lost with _ | ⟨e, lost⟩
  · simpa using hlog.symm
  · have hmem : e ∈ synced log := by rw [hlog]; simp
    obtain ⟨e', -, rfl⟩ := List.mem_map.1 hmem
    exact absurd (hlost _ List.mem_cons_self) (by simp)

section

variable {P Q : AList V → Prop} {log : List (Entry V)}

theorem Durable.live (h : Durable P log) : P (replay log) := h log (.refl log)

theorem Durable.mono (h : Durable P log) (hPQ : ∀ m, P m → Q m) : Durable Q log :=
  fun kept hk => hPQ _ (h kept hk)

theorem Durable.snoc (h : Durable P log) {e : Entry V} (hP : P (apply (replay log) e.batch)) :
    Durable P (log ++ [e]) := by
  intro kept hk
  rcases kept_snoc hk with rfl | ⟨-, hk⟩
  · rwa [replay_snoc]
  · exact h kept hk

theorem Durable.of_sync {e : Entry V} (hsync : e.sync = true)
    (hP : P (apply (replay log) e.batch)) : Durable P (log ++ [e]) := by
  intro kept hk
  rcases kept_snoc hk with rfl | ⟨hf, -⟩
  · rwa [replay_snoc]
  · rw [hsync] at hf; cases hf

theorem Durable.synced (h : P (replay log)) : Durable P (synced log) := by
  intro kept hk
  rw [kept_synced hk, replay_synced]
  exact h

end

end Wal
