import TinyImx.Gateway.ReplayObligations
import TinyImx.Lib.Cyclic

/-!
# Fair scans

`TakeDue` walks around the map of the entries from the user behind its cursor on.  The cursor is the
last user that was scanned, so the next call goes on where the walk stopped, also behind the end of the
map and after a call that its submit budget ended.
-/

namespace TinyImx.Gateway.ReplayAdmission

variable {s s' : State} {now submitBudget taken it u : ℕ}

/-! ## The walk with an iterator -/

def State.users (s : State) : List ℕ := s.entries.keys.sort (· ≤ ·)

/-- The position of `upper_bound` of the cursor; the number of the users stands for `end`. -/
def State.upperBound (s : State) : ℕ := s.users.findIdx (s.scanCursor < ·)

structure Scan where
  userId : ℕ
  entry : Option ReplayEntry
  now : ℕ
  claimed : Bool

/-- The loop of `TakeDue`, with the users in the order of the map and the position of its iterator. -/
def State.scanLoop (users : List ℕ) (now submitBudget : ℕ) :
    ℕ → ℕ → ℕ → State → List Scan × State
  | 0, _, _, s => ([], s)
  | scans + 1, it, taken, s =>
    if submitBudget ≤ taken then ([], s)
    else
      let it := if it = users.length then 0 else it
      let u := users.getD it default
      let s' := { s with scanCursor := u }
      match s'.claimLocked u now with
      | none =>
        let rest := s'.scanLoop users now submitBudget scans (it + 1) taken
        (⟨u, s.entries.lookup u, now, false⟩ :: rest.1, rest.2)
      | some s'' =>
        let rest := s''.scanLoop users now submitBudget scans (it + 1) (taken + 1)
        (⟨u, s.entries.lookup u, now, true⟩ :: rest.1, rest.2)

def State.scanDue (s : State) (scanBudget submitBudget now : ℕ) : List Scan × State :=
  if s.stopped ∨ s.entries.keys = ∅ ∨ submitBudget = 0 then ([], s)
  else s.scanLoop s.users now submitBudget (min scanBudget s.users.length) s.upperBound 0

def Scan.Right (scan : Scan) : Prop :=
  ∃ e, scan.entry = some e ∧ (scan.claimed = true ↔ e.inFlight = false ∧ e.due ≤ scan.now)

/-! ## What a scan does -/

theorem users_pairwise (s : State) : s.users.Pairwise (· < ·) := Finset.sortedLT_sort _ |>.pairwise

theorem mem_users (s : State) : u ∈ s.users ↔ u ∈ s.entries := by
  rw [State.users, Finset.mem_sort, Finmap.mem_keys]

theorem claimLocked_keys (h : s.claimLocked u now = some s') :
    s'.entries.keys = s.entries.keys ∧ s'.scanCursor = s.scanCursor := by
  unfold State.claimLocked at h
  split at h
  · cases h
  · next e he =>
    split at h
    · cases h
    · cases h
      refine ⟨?_, rfl⟩
      ext v
      have hu : u ∈ s.entries := Finmap.mem_of_lookup_eq_some he
      simp only [Finmap.mem_keys, Finmap.mem_insert]
      exact ⟨fun h => h.elim (fun h => h ▸ hu) id, .inr⟩

theorem users_of_keys (h : s'.entries.keys = s.entries.keys) : s'.users = s.users := by
  rw [State.users, State.users, h]

theorem claimLocked_iff {e : ReplayEntry} (he : s.entries.lookup u = some e) :
    (s.claimLocked u now).isSome = true ↔ e.inFlight = false ∧ e.due ≤ now := by
  unfold State.claimLocked
  rw [he]
  dsimp only
  grind

structure Walked (users : List ℕ) (it : ℕ) (s : State) (scans : List Scan) (s' : State) : Prop where
  walk : scans.map Scan.userId = Cyclic.walk users it scans.length
  right : ∀ scan ∈ scans, scan.Right
  keys : s'.entries.keys = s.entries.keys
  bound : s'.upperBound % users.length = (it + scans.length) % users.length

theorem walked_nil {users : List ℕ} (hit : s.upperBound % users.length = it % users.length) :
    Walked users it s [] s :=
  ⟨rfl, fun _ h => absurd h List.not_mem_nil, rfl, hit⟩

theorem walked_cons {users : List ℕ} {scan : Scan} {scans : List Scan} {s₁ : State}
    (huser : scan.userId = users.getD (it % users.length) default) (hright : scan.Right)
    (hkeys : s₁.entries.keys = s.entries.keys) (h : Walked users (it + 1) s₁ scans s') :
    Walked users it s (scan :: scans) s' := by
  refine ⟨?_, fun x hx => ?_, h.keys.trans hkeys, ?_⟩
  · rw [List.map_cons, List.length_cons, Cyclic.walk_succ, h.walk, huser]
  · rcases List.mem_cons.1 hx with rfl | hx
    · exact hright
    · exact h.right x hx
  · rw [h.bound, List.length_cons, Nat.add_right_comm]
    rfl

theorem upperBound_of_cursor {users : List ℕ} (husers : s.users = users) (hit : it < users.length)
    (hcursor : s.scanCursor = users.getD it default) : s.upperBound = it + 1 := by
  have hget : users[it]? = some s.scanCursor := by
    simp_all
  rw [State.upperBound, husers]
  exact Cyclic.findIdx_getElem (husers ▸ users_pairwise s) hget

theorem position_mod {length : ℕ} (h : it ≤ length) :
    (if it = length then 0 else it) = it % length := by
  split
  · next heq => rw [heq, Nat.mod_self]
  · next hne => exact (Nat.mod_eq_of_lt (Nat.lt_of_le_of_ne h hne)).symm

theorem scanLoop_walked {users : List ℕ} (husers : s.users = users) (hne : users ≠ [])
    (hit : s.upperBound = it) (scans : ℕ) :
    Walked users it s (s.scanLoop users now submitBudget scans it taken).1
      (s.scanLoop users now submitBudget scans it taken).2 := by
  induction scans generalizing it taken s with
  | zero => exact walked_nil (by rw [hit])
  | succ scans ih =>
    have hlength := List.length_pos_iff.2 hne
    have hle : it ≤ users.length := by
      rw [← hit, State.upperBound, husers]
      exact List.findIdx_le_length
    have hlt := Nat.mod_lt it hlength
    unfold State.scanLoop
    split
    · exact walked_nil (by rw [hit])
    rw [position_mod hle]
    dsimp only
    obtain ⟨e, he⟩ : ∃ e, s.entries.lookup (users.getD (it % users.length) default) = some e := by
      refine Option.isSome_iff_exists.1 (Finmap.lookup_isSome.2 ((mem_users s).1 ?_))
      rw [husers, List.getD_eq_getElem?_getD, List.getElem?_eq_getElem hlt]
      exact List.getElem_mem hlt
    have hwalk : ∀ {s₁ : State} {taken' : ℕ} (claimed : Bool),
        (claimed = true ↔ e.inFlight = false ∧ e.due ≤ now) → s₁.entries.keys = s.entries.keys →
        s₁.scanCursor = users.getD (it % users.length) default →
        Walked users it s
          (⟨users.getD (it % users.length) default,
            s.entries.lookup (users.getD (it % users.length) default), now, claimed⟩ ::
            (s₁.scanLoop users now submitBudget scans (it % users.length + 1) taken').1)
          (s₁.scanLoop users now submitBudget scans (it % users.length + 1) taken').2 := by
      intro s₁ taken' claimed hclaimed hkeys hcursor
      have husers₁ := (users_of_keys hkeys).trans husers
      have hwalked := @ih s₁ taken' _ husers₁ (upperBound_of_cursor husers₁ hlt hcursor)
      refine walked_cons rfl ⟨e, he, hclaimed⟩ hkeys ⟨?_, hwalked.right, hwalked.keys, ?_⟩
      · rw [hwalked.walk]
        exact Cyclic.walk_congr (by simp) _
      · rw [hwalked.bound]
        simp [Nat.add_mod]
    have hiff := @claimLocked_iff { s with scanCursor := users.getD (it % users.length) default } now
      (users.getD (it % users.length) default) e he
    split
    · next hnone =>
      rw [hnone] at hiff
      exact hwalk false (by simpa using hiff) rfl rfl
    · next s₂ hsome =>
      rw [hsome] at hiff
      obtain ⟨hkeys, hcursor⟩ := claimLocked_keys hsome
      exact hwalk true (by simpa using hiff) hkeys hcursor

theorem users_ne_nil (h : s.entries.keys ≠ ∅) : s.users ≠ [] := by
  intro hnil
  refine h (Finset.eq_empty_of_forall_notMem fun u hu => ?_)
  have hmem : u ∈ s.users := (mem_users s).2 (Finmap.mem_keys.1 hu)
  rw [hnil] at hmem
  cases hmem

theorem scanDue_walked (scanBudget : ℕ) :
    Walked s.users s.upperBound s (s.scanDue scanBudget submitBudget now).1
      (s.scanDue scanBudget submitBudget now).2 := by
  unfold State.scanDue
  split
  · exact walked_nil rfl
  · next h =>
    exact scanLoop_walked rfl (users_ne_nil fun hnil => h (.inr (.inl hnil))) rfl _

/-! ## The order of a scan -/

theorem scanOrder_eq (s : State) : s.scanOrder = s.users.rotate s.upperBound := by
  have hsorted := users_pairwise s
  have hsort : ∀ (l : List ℕ) (p : ℕ → Prop) [DecidablePred p], l.Sublist s.users →
      (∀ x, x ∈ l ↔ x ∈ s.users ∧ p x) → (s.entries.keys.filter p).sort (· ≤ ·) = l := by
    intro l p _ hsub hmem
    have hl : l.Pairwise (· < ·) := hsorted.sublist hsub
    have hkeys : s.entries.keys.filter p = l.toFinset := by
      ext x
      rw [Finset.mem_filter, List.mem_toFinset, hmem, State.users, Finset.mem_sort]
    rw [hkeys]
    exact (List.toFinset_sort _ (hl.imp fun h => h.ne)).2 (hl.imp fun h => h.le)
  rw [State.scanOrder, hsort _ _ (List.drop_sublist _ _) fun x => Cyclic.mem_drop_findIdx hsorted,
    hsort _ _ (List.take_sublist _ _) fun x => Cyclic.mem_take_findIdx hsorted]
  exact (List.rotate_eq_drop_append_take List.findIdx_le_length).symm

theorem takeLoop_walk {users : List ℕ} (hne : users ≠ []) (hit : it ≤ users.length) (scans : ℕ) :
    s.takeLoop now submitBudget (Cyclic.walk users it scans) taken =
      (s.scanLoop users now submitBudget scans it taken).2 := by
  induction scans generalizing it taken s with
  | zero => rfl
  | succ scans ih =>
    have hlt := Nat.mod_lt it (List.length_pos_iff.2 hne)
    have hnext : Cyclic.walk users (it + 1) scans =
        Cyclic.walk users (it % users.length + 1) scans := Cyclic.walk_congr (by simp) _
    rw [Cyclic.walk_succ, hnext, State.takeLoop, State.scanLoop, position_mod hit]
    grind

theorem takeDue_eq (scanBudget : ℕ) :
    s.takeDue scanBudget submitBudget now = (s.scanDue scanBudget submitBudget now).2 := by
  unfold State.takeDue State.scanDue
  split
  · rfl
  · next h =>
    have hne : s.users ≠ [] := users_ne_nil fun hnil => h (.inr (.inl hnil))
    have hle : s.upperBound ≤ s.users.length := List.findIdx_le_length
    rw [← takeLoop_walk hne hle, Cyclic.walk_take _ _ (Nat.min_le_right _ _), ← scanOrder_eq,
      State.users, Finset.length_sort]

/-! ## Scans of many calls -/

/-- Calls of `TakeDue`, with other steps between them that add and remove no entry, and what they
scan. -/
inductive Scans : State → List Scan → State → Prop
  | nil (s : State) : Scans s [] s
  | takeDue {s t : State} {scans : List Scan} (scanBudget submitBudget now : ℕ) (h : Scans s scans t) :
      Scans s (scans ++ (t.scanDue scanBudget submitBudget now).1)
        (t.scanDue scanBudget submitBudget now).2
  | other {s t t' : State} {scans : List Scan} {l : Label} (h : Scans s scans t)
      (hstep : Step t l t') (hlabel : ∀ scanBudget submitBudget now,
        l ≠ .takeDue scanBudget submitBudget now)
      (hkeys : t'.entries.keys = t.entries.keys) : Scans s scans t'

theorem step_cursor {l : Label} (h : Step s l s')
    (hlabel : ∀ scanBudget submitBudget now, l ≠ .takeDue scanBudget submitBudget now) :
    s'.scanCursor = s.scanCursor := by
  cases h with
  | ensure u epoch now =>
    unfold State.ensure
    split
    · rfl
    · split <;> rfl
  | claim u epoch now =>
    unfold State.claim
    split
    · rfl
    · split
      · rfl
      · cases hclaim : s.claimLocked u now with
        | none => rfl
        | some s₁ => exact (claimLocked_keys hclaim).2
  | takeDue scanBudget submitBudget now => exact absurd rfl (hlabel _ _ _)
  | markStarted i =>
    unfold State.markSettled
    split <;> rfl
  | started i =>
    unfold State.started
    dsimp only
    split <;> rfl
  | destroy i =>
    unfold State.markSettled
    split <;> rfl
  | abandoned i now =>
    unfold State.abandoned
    dsimp only
    split
    · rfl
    · split <;> rfl
  | retire u epoch =>
    unfold State.retire
    split <;> rfl
  | stop => rfl
  | resume => rfl

theorem Scans.walked {scans : List Scan} (h : Scans s scans s') :
    s'.entries.keys = s.entries.keys ∧ scans.map Scan.userId =
      Cyclic.walk s.users s.upperBound scans.length ∧ (∀ scan ∈ scans, scan.Right) ∧
      s'.upperBound % s.users.length = (s.upperBound + scans.length) % s.users.length := by
  induction h with
  | nil => exact ⟨rfl, rfl, fun _ h => absurd h List.not_mem_nil, rfl⟩
  | @takeDue t scans scanBudget submitBudget now _ ih =>
    obtain ⟨hkeys, hwalk, hright, hbound⟩ := ih
    have hnext := @scanDue_walked t now submitBudget scanBudget
    rw [users_of_keys hkeys] at hnext
    refine ⟨hnext.keys.trans hkeys, ?_, fun scan hscan => ?_, ?_⟩
    · rw [List.map_append, List.length_append, Cyclic.walk_append, hwalk, hnext.walk,
        Cyclic.walk_congr hbound]
    · rcases List.mem_append.1 hscan with hscan | hscan
      · exact hright scan hscan
      · exact hnext.right scan hscan
    · rw [hnext.bound, List.length_append, ← Nat.add_assoc, Nat.add_mod, hbound, ← Nat.add_mod]
  | @other t t' scans l _ hstep hlabel hkeys ih =>
    obtain ⟨hkeys₁, hwalk, hright, hbound⟩ := ih
    refine ⟨hkeys.trans hkeys₁, hwalk, hright, ?_⟩
    rw [State.upperBound, users_of_keys hkeys, step_cursor hstep hlabel]
    exact hbound

/-- The users scanned by many calls follow each other around the cyclic order of the users.  So every
window of as many scans as there are users scans each of them once, and every scan claims where the
entry is due and not in flight. -/
theorem scans_fair {scans : List Scan} (h : Scans s scans s') :
    scans.map Scan.userId = Cyclic.walk s.users s.upperBound scans.length ∧
    (∀ i, i + s.users.length ≤ scans.length →
      (((scans.drop i).take s.users.length).map Scan.userId).Perm s.users) ∧
    ∀ scan ∈ scans, scan.Right := by
  obtain ⟨-, hwalk, hright, -⟩ := h.walked
  refine ⟨hwalk, fun i hi => ?_, hright⟩
  rw [List.map_take, List.map_drop, hwalk]
  exact Cyclic.window_perm s.users hi

def sampleState : State := (start.ensure 3 1 0).2

theorem sampleState_users : sampleState.users = [3] := by
  have hkeys : sampleState.entries.keys = {3} := by decide
  rw [State.users, hkeys, Finset.sort_singleton]

theorem scans_fair_sample : ∃ scans s', Scans sampleState scans s' ∧
    (((scans.drop 0).take sampleState.users.length).map Scan.userId).Perm sampleState.users ∧
    scans.map Scan.claimed = [true] := by
  have hscan : sampleState.scanDue 4 2 0 =
      sampleState.scanLoop [3] 0 2 1 0 0 := by
    rw [State.scanDue, State.upperBound, sampleState_users]
    rfl
  have hscans := Scans.takeDue 4 2 0 (.nil sampleState)
  rw [hscan] at hscans
  refine ⟨_, _, hscans, (scans_fair hscans).2.1 0 ?_, ?_⟩
  · rw [sampleState_users]
    decide
  · decide

end TinyImx.Gateway.ReplayAdmission
