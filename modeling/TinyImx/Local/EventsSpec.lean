import TinyImx.Local.ReadSpec
import TinyImx.Local.Events

/-!
# What publication progress does

Publishing takes events off `E/`, quarantining moves an event from `E/` to `F/`, and requeueing
moves quarantined events back.
-/

namespace TinyImx.Local

open Kv Act

def publishKind (ids : List Bytes) : Change → Prop
  | .publish ids' => ids' ⊆ ids
  | _ => False

def failKind (event : Bytes) : Change → Prop
  | .fail id _ => id = event
  | _ => False

def requeueKind (ids : List Bytes) : Change → Prop
  | .requeue rows => ∀ row ∈ rows, row.eventId ∈ ids
  | _ => False

variable {opts : Options} {env : Env} {s s' : Store}

theorem eventId_raises (id : Bytes) : Raises (eventId id) (Admissible env) :=
  raises_admissible (by decide)

theorem forM_raises {α : Type} {f : α → Except Failure Unit} {P : Failure → Prop} (l : List α)
    (h : ∀ a, Raises (f a) P) : Raises (l.forM f) P := by
  induction l with
  | nil => exact raises_ok _ _
  | cons a l ih => exact (h a).bind fun _ _ => ih

theorem decodeEvent_raises (row : PendingLocalEvent) (id : Bytes) :
    Raises (decodeEvent row id) (Admissible env) := by
  unfold decodeEvent
  split
  · exact raises_ok _ _
  · exact raises_error (admissible_of_not_mem (by decide))

theorem decodeEvent_eq {row row' : PendingLocalEvent} {id : Bytes}
    (h : decodeEvent row id = .ok row') : row' = row ∧ row.eventId = id := by
  unfold decodeEvent at h
  split at h
  · next hc =>
    simp_all
  · cases h

theorem mem_uniqueIds {id : Bytes} {ids : List Bytes} : id ∈ uniqueIds ids ↔ id ∈ ids := by
  rw [uniqueIds, (List.perm_insertionSort (· ≤ ·) _).mem_iff, List.mem_dedup]

/-! ## Quarantine -/

theorem markEventFailed_spec (env : Env) (event reason : Bytes) (s : Store) :
    Mutated (failKind event) env s (markEventFailed env event reason s).1
      (markEventFailed env event reason s).2 := by
  refine mutation_spec ?_
  refine check_bind (Failed.raises_refl (eventId_raises _)) fun _ _ => ?_
  refine check_bind (Failed.raises_refl (raises_admissible (by decide))) fun _ _ => ?_
  refine Ends.read_bind ?_
  cases hE : s.db.lookup (.E event) with
  | none => exact Ends.pure ⟨.refl s, textOk_empty⟩
  | some row =>
    refine check_bind (Failed.raises_refl (decodeEvent_raises _ _)) fun _ _ => ?_
    refine check_bind (Failed.raises_refl (raises_admissible (by decide))) fun _ _ => ?_
    have hfits : (Change.fail event ⟨row, reason, env.clock.now⟩).Fits s := hE
    have hK : failKind event (.fail event ⟨row, reason, env.clock.now⟩) := rfl
    refine Ends.bind (write_ends hK hfits) ?_
    rintro _ _ ⟨rfl, hp⟩
    refine Ends.modify_bind (Ends.modify_bind (Ends.pure ⟨?_, textOk_empty⟩))
    exact (((Moves.refl s).written hK hfits hp).frame (sameData_unprepare _ _)).frame
      (sameData_release _)

/-! ## Publication -/

theorem markEventsPublished_spec (env : Env) (ids : List Bytes) (s : Store) :
    Mutated (publishKind ids) env s (markEventsPublished env ids s).1
      (markEventsPublished env ids s).2 := by
  refine mutation_spec ?_
  refine check_bind (Failed.raises_refl (raises_admissible (by decide))) fun _ _ => ?_
  refine check_bind (Failed.raises_refl (forM_raises ids eventId_raises)) fun _ _ => ?_
  refine Ends.read_bind ?_
  set present := (uniqueIds ids).filter fun id => (s.db.lookup (.E id)).isSome with hpresent
  split
  · exact Ends.pure ⟨.refl s, textOk_empty⟩
  · have hfits : (Change.publish present).Fits s := fun id hid => by
      simpa using (List.mem_filter.1 hid).2
    have hK : publishKind ids (.publish present) := fun id hid =>
      mem_uniqueIds.1 (List.mem_filter.1 hid).1
    refine Ends.bind (write_ends (c := .publish present) hK hfits) ?_
    rintro _ _ ⟨rfl, hp⟩
    refine Ends.modify_bind (Ends.modify_bind (Ends.pure ⟨?_, textOk_empty⟩))
    refine (((Moves.refl s).written hK hfits hp).frame
      (sameData_foldl (fun s id => sameData_unprepare id s) present _)).frame ?_
    exact ⟨rfl, rfl, rfl, rfl, rfl⟩

/-! ## Requeueing -/

structure Requeued (env : Env) (ids : List Bytes) (s : Store) (r : MutationResult) (s' : Store) :
    Prop extends Mutated (requeueKind ids) env s r s' where
  event : ∀ id, (s.db.lookup (.F id)).isSome → s'.db.lookup (.F id) = none →
    Wal.Durable (fun db => (db.lookup (.E id)).isSome) s'.log

def Requeueable (db : Db) (rows : List PendingLocalEvent) : Prop :=
  ∀ row ∈ rows, db.lookup (.E row.eventId) = none ∧
    ∃ failed, db.lookup (.F row.eventId) = some failed ∧ failed.event = row

theorem requeue_lookup_E (db : Db) (rows : List PendingLocalEvent) (id : Bytes) :
    ((apply db ((Change.requeue rows).batch db)).lookup (.E id)).isSome ↔
      (∃ row ∈ rows, row.eventId = id) ∨ (db.lookup (.E id)).isSome := by
  simp only [Change.batch]
  induction rows generalizing db with
  | nil => simp
  | cons row rows ih =>
    rw [List.flatMap_cons, apply_append, ih]
    by_cases hid : id = row.eventId
    · subst hid
      simp [apply, step]
    · simp [apply, step, hid, Ne.symm hid]

theorem requeue_lookup_F (db : Db) (rows : List PendingLocalEvent) (id : Bytes) :
    (apply db ((Change.requeue rows).batch db)).lookup (.F id) =
      if ∃ row ∈ rows, row.eventId = id then none else db.lookup (.F id) := by
  simp only [Change.batch]
  induction rows generalizing db with
  | nil => simp
  | cons row rows ih =>
    rw [List.flatMap_cons, apply_append, ih]
    by_cases hid : id = row.eventId
    · subst hid
      simp [apply, step]
    · simp [apply, step, hid, Ne.symm hid]

/-- The loop from the rows collected so far; `todo` are the ids it still visits. -/
theorem requeueLoop_ends {ids todo : List Bytes} {rows : List PendingLocalEvent} {t : Store}
    (h : Inv s) (ht : SameData s t) (hrows : Requeueable s.db rows)
    (hids : ∀ row ∈ rows, row.eventId ∈ ids) (htodo : todo ⊆ ids) :
    Ends (requeueLoop opts env todo rows) t (Requeued env ids s)
      (Failed (requeueKind ids) env s) := by
  induction todo generalizing rows t with
  | nil =>
    have hm := (Moves.refl (K := requeueKind ids) s).frame ht
    unfold requeueLoop
    split
    · refine Ends.pure ⟨⟨hm, textOk_empty⟩, fun id hF hnone => ?_⟩
      rw [ht.db] at hnone
      rw [hnone] at hF
      cases hF
    · have hfits : (Change.requeue rows).Fits t := by
        rw [Change.Fits, ht.db]
        exact hrows
      have hK : requeueKind ids (.requeue rows) := hids
      refine Ends.bind (Failed.after hm ht.sameMap (write_ends hK hfits)) ?_
      rintro _ _ ⟨rfl, hp⟩
      have hsame := sameData_foldl (fun s (row : PendingLocalEvent) => sameData_commit row.eventId s)
        rows (t.written (.requeue rows))
      refine Ends.modify_bind (Ends.pure ⟨⟨(hm.written hK hfits hp).frame hsame, textOk_empty⟩,
        fun id hF hnone => ?_⟩)
      -- an event that left the quarantine is one of the rows written
      have hrow : ∃ row ∈ rows, row.eventId = id := by
        by_contra hnot
        rw [hsame.db, Store.written, requeue_lookup_F, if_neg hnot, ht.db] at hnone
        rw [hnone] at hF
        cases hF
      rw [hsame.log]
      refine (h.moves hm).durable_written hp rfl ?_
      exact (requeue_lookup_E _ _ _).2 (.inl hrow)
  | cons id todo ih =>
    have hm := (Moves.refl (K := requeueKind ids) s).frame ht
    have hid : id ∈ ids := htodo List.mem_cons_self
    have hrest : todo ⊆ ids := fun a ha => htodo (List.mem_cons_of_mem _ ha)
    unfold requeueLoop
    refine Ends.read_bind ?_
    rw [ht.db]
    cases hF : s.db.lookup (.F id) with
    | none => exact ih ht hrows hids hrest
    | some failed =>
      refine check_bind (Failed.raises hm ht.sameMap (decodeEvent_raises _ _)) fun row hrow => ?_
      obtain ⟨rfl, hrowid⟩ := decodeEvent_eq hrow
      refine Ends.inspect_bind (Failed.raises hm ht.sameMap (raises_admissible (by decide)))
        fun _ hE => ?_
      have hE : s.db.lookup (.E id) = none := by
        rw [require_eq_ok, ht.db] at hE
        simpa using hE
      refine Ends.bind (Failed.same hm ht.sameMap reserve_ends) fun _ t₁ hs₁ => ?_
      have ht₁ := ht.trans hs₁
      refine Failed.onThrow sameData_release ?_
      refine Ends.bind (Failed.same (hm.frame hs₁) ht₁.sameMap (prepare_ends _)) fun _ t₂ hs₂ => ?_
      refine Failed.onThrow (sameData_unprepare _) (ih (ht₁.trans hs₂) ?_ ?_ hrest)
      · intro row hrow
        rcases List.mem_append.1 hrow with hrow | hrow
        · exact hrows row hrow
        · rw [List.mem_singleton.1 hrow, hrowid]
          exact ⟨hE, failed, hF, rfl⟩
      · grind

theorem requeueFailedEvents_spec (opts : Options) (env : Env) (ids : List Bytes) (h : Inv s) :
    Requeued env ids s (requeueFailedEvents opts env ids s).1
      (requeueFailedEvents opts env ids s).2 := by
  have hbody : Ends (requeueBody opts env ids) s (Requeued env ids s)
      (Failed (requeueKind ids) env s) := by
    refine check_bind (Failed.raises_refl (raises_admissible (by decide))) fun _ _ => ?_
    refine check_bind (Failed.raises_refl (forM_raises ids eventId_raises)) fun _ _ => ?_
    exact requeueLoop_ends h (.refl s) (by simp [Requeueable]) (by simp)
      fun id hid => mem_uniqueIds.1 hid
  rcases call_ends id MutationResult.ofFailure (Failed.raises_refl (checkOpen_admissible s))
    fun _ => hbody with ⟨r, hr, hm⟩ | ⟨e, hr, hf⟩
  · rw [requeueFailedEvents, hr]
    exact hm
  · rw [requeueFailedEvents, hr]
    refine ⟨⟨hf.moves, hf.admissible.text⟩, fun id hF hnone => ?_⟩
    rw [hf.map _ (by simp)] at hnone
    rw [hnone] at hF
    cases hF

/-! ## Syncs -/

def noChange : Change → Prop := fun _ => False

theorem flushLog_ends : Ends (flushLog env) s (fun _ s' => Moves noChange s s')
    (Failed noChange env s) := by
  unfold Ends flushLog
  cases env.engine s.engineWriteCalls with
  | done =>
    cases hp : s.poisoned with
    | true => exact (Moves.refl s).frame ⟨rfl, rfl, rfl, rfl, hp.symm⟩
    | false =>
      exact ((Moves.refl s).tail (.flushed hp)).tail (.frame ⟨rfl, rfl, rfl, rfl, hp.symm⟩)
  | failed logged text =>
    refine ⟨?_, .refl _, admissible_of_not_mem ⟨by decide, engine_text_not_mem text⟩⟩
    exact ((Moves.refl s).tail .poison).tail (.frame ⟨rfl, rfl, rfl, rfl, rfl⟩)

theorem syncPublicationProgress_spec (env : Env) (s : Store) :
    Mutated noChange env s (syncPublicationProgress env s).1 (syncPublicationProgress env s).2 :=
  mutation_spec (Ends.bind flushLog_ends fun _ _ hm => Ends.pure ⟨hm, textOk_empty⟩)

theorem syncPublicationProgressIfDirty_spec (env : Env) (s : Store) :
    Mutated noChange env s (syncPublicationProgressIfDirty env s).1
      (syncPublicationProgressIfDirty env s).2 := by
  refine mutation_spec (Ends.read_bind ?_)
  split
  · exact Ends.pure ⟨.refl s, textOk_empty⟩
  · refine Ends.bind flushLog_ends fun _ t hm => ?_
    refine Ends.modify_bind (Ends.pure ⟨hm.frame ?_, textOk_empty⟩)
    exact ⟨rfl, rfl, rfl, rfl, rfl⟩

theorem shutdown_spec (env : Env) (s : Store) : Moves noChange s (shutdown env s).2 := by
  have hclose : Moves noChange s { s with closing := true } :=
    (Moves.refl s).frame ⟨rfl, rfl, rfl, rfl, rfl⟩
  have hends : Ends (flushLog env) { s with closing := true } _ (Failed noChange env _) :=
    flushLog_ends
  unfold shutdown
  rcases hrun : flushLog env { s with closing := true } with ⟨r, t⟩
  cases r with
  | ok u => exact hclose.trans (hends.of_ok hrun)
  | error e => exact hclose.trans (hends.of_error hrun).moves

end TinyImx.Local
