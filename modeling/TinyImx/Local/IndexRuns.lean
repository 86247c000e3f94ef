import TinyImx.Local.EventIndex

/-!
# The pending-event budget and its index over whole runs

Every call leaves the events as they were, creates some, or takes some off, and a result other than
success means that nothing changed.  The constructor builds the index from the map, so the index
holds exactly the stored events in every state a run reaches.
-/

namespace TinyImx.Local

open Kv Act

variable {opts : Options} {env : Env} {s s' t u : Store}

/-! ## Calls with one result -/

/-- A result other than success leaves everything; what a call changes of the events is a whole
number of events. -/
structure Settles (s : Store) (r : MutationResult) (s' : Store) : Prop where
  failed : r.status ≠ .succeeded → Quiet s s'
  after : EventsAfter s s'

theorem Settles.of_quiet {r : MutationResult} (h : Quiet s s') : Settles s r s' :=
  ⟨fun _ => h, h.after⟩

theorem Settles.of_succeeded {r : MutationResult} (hr : r.status = .succeeded)
    (h : EventsAfter s s') : Settles s r s' := ⟨fun hne => absurd hr hne, h⟩

theorem settles_call {x : StoreM MutationResult} (h : Ends x s (Settles s) fun _ s' => Quiet s s') :
    Settles s (call x id MutationResult.ofFailure s).1 (call x id MutationResult.ofFailure s).2 := by
  rcases call_ends id MutationResult.ofFailure (E := fun _ s' => Quiet s s') (fun _ _ => .refl s)
    fun _ => h with ⟨r, hr, hs⟩ | ⟨e, hr, hq⟩
  · rw [hr]
    exact hs
  · rw [hr]
    exact .of_quiet hq

/-! ## Confirming -/

theorem isEvent_pendingWrite (r p c : ℕ) : (pendingWrite r p c).key.isEvent = false := by
  rw [pendingWrite_key]
  rfl

def Eventless (batch : List Write) : Prop := ∀ w ∈ batch, w.key.isEvent = false

theorem Eventless.append {b b' : List Write} (h : Eventless b) (h' : Eventless b') :
    Eventless (b ++ b') := by
  intro w hw
  rcases List.mem_append.1 hw with hw | hw
  · exact h w hw
  · exact h' w hw

theorem write_kept (env : Env) (s : Store) {batch : List Write} (sync : Bool)
    (h : Eventless batch) :
    Ends (write env batch sync) s (fun _ s' => EventsAfter s s') fun _ s' => Quiet s s' := by
  refine (write_quiet env s batch sync).mono (fun _ s' hs => .kept hs.1 fun id => ?_) fun _ _ hq => hq
  rw [hs.2, lookup_apply_of_forall_ne]
  intro w hw heq
  have := h w hw
  rw [← heq] at this
  cases this

theorem eventless_confirmWrites (m : MessageView) (now : Bytes) : Eventless (confirmWrites m now) := by
  simp [Eventless, confirmWrites, Kv.Write.key, Key.isEvent]

theorem mem_mapM {α β : Type} {f : α → Except Failure β} {l : List α} {out : List β}
    (h : l.mapM f = .ok out) {y : β} (hy : y ∈ out) : ∃ a ∈ l, f a = .ok y := by
  induction l generalizing out with
  | nil =>
    cases h
    cases hy
  | cons a l ih =>
    rw [List.mapM_cons] at h
    obtain ⟨z, hz, h⟩ := bind_eq_ok.1 h
    obtain ⟨zs, hzs, h⟩ := bind_eq_ok.1 h
    cases h
    rcases List.mem_cons.1 hy with rfl | hy
    · exact ⟨a, List.mem_cons_self, hz⟩
    · obtain ⟨a', ha', hf⟩ := ih hzs hy
      exact ⟨a', List.mem_cons_of_mem _ ha', hf⟩

theorem eventless_pendingWrites {db : Db} {text : String} {removed : List ℕ} {counters : List Write}
    (h : pendingWrites db text removed = .ok counters) : Eventless counters := by
  intro w hw
  obtain ⟨r, -, hr⟩ := mem_mapM h hw
  obtain ⟨_, _, hr⟩ := bind_eq_ok.1 hr
  cases hr
  exact isEvent_pendingWrite _ _ _

theorem eventless_confirmLoop {db : Db} {receivers mids : List ℕ} {c c' : Confirmations}
    (h : confirmLoop env db receivers mids c = .ok c') (hc : Eventless c.batch) :
    Eventless c'.batch := by
  induction mids generalizing c with
  | nil =>
    cases h
    exact hc
  | cons mid rest ih =>
    obtain ⟨found, -, h⟩ := bind_eq_ok.1 h
    obtain ⟨_, -, h⟩ := bind_eq_ok.1 h
    split at h
    · obtain ⟨_, -, h⟩ := bind_eq_ok.1 h
      exact ih h hc
    · obtain ⟨_, -, h⟩ := bind_eq_ok.1 h
      exact ih h (hc.append (eventless_confirmWrites _ _))

theorem eventless_requestLoop {db : Db} (inputs : List OwnedReceiverConfirmation) {q : Requests}
    (hq : Eventless q.confirmations.batch) :
    Eventless (requestLoop opts env db inputs q).1.confirmations.batch := by
  induction inputs generalizing q with
  | nil => exact hq
  | cons inp rest ih =>
    unfold requestLoop
    split
    · exact ih hq
    split
    · exact ih hq
    split
    · exact ih hq
    split
    · exact hq
    · exact ih (hq.append (eventless_confirmWrites _ _))

theorem confirmReceiver_settles (opts : Options) (env : Env) (mid receiver : ℕ) (s : Store) :
    Settles s (confirmReceiver opts env mid receiver s).1
      (confirmReceiver opts env mid receiver s).2 := by
  refine settles_call ?_
  refine check_bind (fun _ _ => .refl s) fun _ _ => check_bind (fun _ _ => .refl s) fun _ _ => ?_
  refine Ends.bind (silent_lockUsers _) fun _ t ht => ?_
  refine Ends.inspect_bind (fun _ _ => ht) fun found _ => ?_
  cases receiverConfirmationDecision found receiver with
  | some decision => exact Ends.pure (.of_quiet ht)
  | none =>
    refine Ends.read_bind (check_bind (fun _ _ => ht) fun _ _ => check_bind (fun _ _ => ht) fun _ _ => ?_)
    refine Ends.bind ((write_kept env t true ?_).mono (fun _ _ h => h) fun _ _ hq => ht.trans hq)
      fun _ u hu => Ends.pure (.of_succeeded rfl (hu.of_quiet ht))
    intro w hw
    simp only [List.mem_cons, List.not_mem_nil, or_false] at hw
    rcases hw with rfl | rfl | rfl
    · rfl
    · rfl
    · exact isEvent_pendingWrite _ _ _

theorem confirmReceiverBatch_settles (opts : Options) (env : Env) (mids : List ℕ) (s : Store) :
    Settles s (confirmReceiverBatch opts env mids s).1 (confirmReceiverBatch opts env mids s).2 := by
  refine settles_call ?_
  refine check_bind (fun _ _ => .refl s) fun _ _ => ?_
  refine Ends.inspect_bind (fun _ _ => .refl s) fun receivers _ => ?_
  refine Ends.bind (silent_lockUsers _) fun _ t ht => ?_
  refine Ends.inspect_bind (fun _ _ => ht) fun c hc => ?_
  split
  · exact Ends.pure (.of_quiet ht)
  · refine Ends.inspect_bind (fun _ _ => ht) fun counters hcounters => ?_
    have hbatch : Eventless (c.batch ++ counters) :=
      (eventless_confirmLoop hc (by simp [Eventless])).append (eventless_pendingWrites hcounters)
    exact Ends.bind ((write_kept env t true hbatch).mono (fun _ _ h => h) fun _ _ hq => ht.trans hq)
      fun _ u hu => Ends.pure (.of_succeeded rfl (hu.of_quiet ht))

theorem confirmReceiverRequests_after (opts : Options) (env : Env)
    (inputs : List OwnedReceiverConfirmation) (s : Store) :
    EventsAfter s (confirmReceiverRequests opts env inputs s).2 := by
  unfold confirmReceiverRequests
  split
  · exact (Quiet.refl s).after
  split
  · exact (Quiet.refl s).after
  split
  · exact (Quiet.refl s).after
  have hlock : Silent (lockUsers opts (requestActors opts inputs)) s := silent_lockUsers _
  split
  · next hrun => exact (hlock.of_error hrun).after
  next t hrun =>
  have ht := hlock.of_ok hrun
  have hnone : Eventless ({} : Requests).confirmations.batch := by simp [Eventless]
  have hloop : Eventless (requestLoop opts env t.db inputs {}).1.confirmations.batch :=
    eventless_requestLoop inputs hnone
  split
  · exact ht.after
  next q hq =>
  rw [hq] at hloop
  split
  · exact ht.after
  split
  · exact ht.after
  next counters hcounters =>
  have hwrite := write_kept env t true (hloop.append (eventless_pendingWrites hcounters))
  split
  · next hrun => exact (ht.trans (hwrite.of_error hrun)).after
  · next hrun => exact (hwrite.of_ok hrun).of_quiet ht

/-! ## Reading -/

theorem eventless_readLoop {db : Db} {reader peer : ℕ} {mids : List ℕ} {c c' : Reads}
    (h : readLoop env db reader peer mids c = .ok c') (hc : Eventless c.batch) :
    Eventless c'.batch := by
  induction mids generalizing c with
  | nil =>
    cases h
    exact hc
  | cons mid rest ih =>
    obtain ⟨found, -, h⟩ := bind_eq_ok.1 h
    obtain ⟨_, -, h⟩ := bind_eq_ok.1 h
    obtain ⟨_, -, h⟩ := bind_eq_ok.1 h
    split at h
    · obtain ⟨_, -, h⟩ := bind_eq_ok.1 h
      obtain ⟨_, -, h⟩ := bind_eq_ok.1 h
      refine ih h ((hc.append ?_).append ?_)
      · split <;> simp [Eventless, Kv.Write.key, Key.isEvent]
      · simp [Eventless, Kv.Write.key, Key.isEvent]
    · exact ih h hc

theorem posts_read {c : Reads} (hc : Eventless c.batch) (reader peer total pending : ℕ)
    (row : PendingLocalEvent) :
    Posts [row.eventId] (c.batch ++ readWrites reader peer total pending c ++ eventWrites row) := by
  have hcounters : Eventless (readWrites reader peer total pending c) := by
    intro w hw
    simp only [readWrites, List.mem_cons, List.not_mem_nil, or_false] at hw
    rcases hw with rfl | rfl | rfl
    · rfl
    · rfl
    · exact isEvent_pendingWrite _ _ _
  exact (posts_nil (hc.append hcounters)).append (posts_eventWrites row)

theorem markDialogRead_settles (opts : Options) (env : Env) (reader peer : ℕ) (s : Store) :
    Settles s (markDialogRead opts env reader peer s).1 (markDialogRead opts env reader peer s).2 := by
  refine settles_call ?_
  refine check_bind (fun _ _ => .refl s) fun _ _ => ?_
  refine Ends.bind (silent_lockUsers _) fun _ t ht => ?_
  refine Ends.inspect_bind (fun _ _ => ht) fun c hc => ?_
  have hbatch : Eventless c.batch := eventless_readLoop hc (by simp [Eventless])
  split
  · exact Ends.pure (.of_quiet ht)
  refine Ends.read_bind (check_bind (fun _ _ => ht) fun _ _ => check_bind (fun _ _ => ht) fun _ _ => ?_)
  have h₀ : Holding 0 [] s t := .init ht
  refine Ends.bind (h₀.reserve_ends.mono (fun _ _ h => h) fun _ _ h => h.quiet) fun _ t₁ h₁ => ?_
  have hback : ∀ {t : Store}, Holding 1 [] s t → Quiet s (EventSlot.release t) :=
    fun h => h.release.quiet
  refine Ends.onThrow ?_
  refine check_bind (fun _ _ => hback h₁) fun row _ => ?_
  refine Ends.bind ((h₁.prepare_ends row.eventId).mono (fun _ _ h => h)
    fun _ _ h => hback h) fun _ t₂ h₂ => ?_
  refine Ends.bind (Ends.onThrow ((write_quiet env t₂ _ true).mono (fun _ _ h => h)
    fun _ _ hq => hback (h₂.trans hq).unprepare)) fun _ t₃ h₃ => ?_
  have hposted : Posted [row.eventId] s
      ([row.eventId].foldl (fun s id => EventSlot.commit id s) t₃) := by
    refine Holding.posted h₂ (fun _ => Iff.rfl) h₃.1 fun id => ?_
    rw [h₃.2]
    exact (posts_read hbatch _ _ _ _ row).stored t₂.db id
  exact Ends.modify_bind (Ends.pure (.of_succeeded rfl (.posted hposted)))

/-! ## Publication progress -/

theorem unprepare_events (ids : List Bytes) (s : Store) :
    SameData s (ids.foldl (fun s id => EventSlot.unprepare id s) s) ∧
    (ids.foldl (fun s id => EventSlot.unprepare id s) s).pendingEvents = s.pendingEvents ∧
    (ids.foldl (fun s id => EventSlot.unprepare id s) s).pendingIndexEnabled =
      s.pendingIndexEnabled ∧
    (s.pendingIndexEnabled = true → ∀ id,
      (ids.foldl (fun s id => EventSlot.unprepare id s) s).pendingIndex.lookup id =
        if id ∈ ids then none else s.pendingIndex.lookup id) := by
  induction ids generalizing s with
  | nil => exact ⟨.refl s, rfl, rfl, fun _ id => by simp⟩
  | cons id ids ih =>
    obtain ⟨hdata, hcount, hen, hindex⟩ := ih (EventSlot.unprepare id s)
    have hsame : (EventSlot.unprepare id s).pendingIndexEnabled = s.pendingIndexEnabled := by
      unfold EventSlot.unprepare
      split <;> rfl
    rw [List.foldl_cons]
    refine ⟨(sameData_unprepare id s).trans hdata, hcount.trans ?_, hen.trans hsame,
      fun he i => ?_⟩
    · unfold EventSlot.unprepare
      split <;> rfl
    · rw [hindex (hsame.trans he) i, EventSlot.unprepare, if_pos he]
      by_cases hi : i = id
      · subst hi
        simp [AList.lookup_erase]
      · simp_all

theorem takenOff_of_write {ids : List Bytes} {batch : List Write} (hids : ids.Nodup)
    (hwere : ∀ id ∈ ids, (s.db.lookup (.E id)).isSome = true) (hs : SameEvents s t)
    (hdb : t.db = apply s.db batch) (hput : ∀ id row, Kv.Write.put (Key.E id) row ∉ batch)
    (hdelete : ∀ id, Kv.Write.delete (Key.E id) ∈ batch ↔ id ∈ ids)
    (hu : SameData (ids.foldl (fun s id => EventSlot.unprepare id s) t) u)
    (hcount : u.pendingEvents = t.pendingEvents - ids.length)
    (hen : u.pendingIndexEnabled = t.pendingIndexEnabled)
    (hindex : ∀ id, u.pendingIndex.lookup id =
      (ids.foldl (fun s id => EventSlot.unprepare id s) t).pendingIndex.lookup id) :
    TakenOff ids s u := by
  obtain ⟨hdata, -, -, hgone⟩ := unprepare_events ids t
  refine ⟨hids, hwere, by rw [hcount, hs.count], hen.trans hs.enabled, fun he id hid => ?_,
    fun he id hid => ?_, fun id => ?_⟩
  · rw [hindex id, hgone (hs.enabled.trans he) id, if_pos hid]
  · rw [hindex id, hgone (hs.enabled.trans he) id, if_neg hid]
    exact hs.index id
  · rw [hu.db, hdata.db, hdb, isSome_apply_of_no_put (hput id), hdelete id]

theorem markEventFailed_settles (env : Env) (event reason : Bytes) (s : Store) :
    Settles s (markEventFailed env event reason s).1 (markEventFailed env event reason s).2 := by
  refine settles_call ?_
  refine check_bind (fun _ _ => .refl s) fun _ _ => check_bind (fun _ _ => .refl s) fun _ _ => ?_
  refine Ends.read_bind ?_
  cases hE : s.db.lookup (.E event) with
  | none => exact Ends.pure (.of_quiet (.refl s))
  | some row =>
    refine check_bind (fun _ _ => .refl s) fun _ _ => check_bind (fun _ _ => .refl s) fun _ _ => ?_
    refine Ends.bind (write_quiet env s _ true) fun _ t ht => ?_
    refine Ends.modify_bind (Ends.modify_bind (Ends.pure (.of_succeeded rfl ?_)))
    obtain ⟨-, hcount, hen, -⟩ := unprepare_events [event] t
    have htaken : TakenOff [event] s (EventSlot.release (EventSlot.unprepare event t)) := by
      refine takenOff_of_write (by simp) (by simp [hE]) ht.1 ht.2 (by simp) (by simp)
        (sameData_release _) ?_ hen fun _ => rfl
      show (EventSlot.unprepare event t).pendingEvents - 1 = t.pendingEvents - 1
      exact congrArg (· - 1) hcount
    exact .taken htaken

theorem uniqueIds_nodup (ids : List Bytes) : (uniqueIds ids).Nodup :=
  (List.perm_insertionSort (· ≤ ·) _).nodup_iff.2 (List.nodup_dedup ids)

theorem markEventsPublished_settles (env : Env) (ids : List Bytes) (s : Store) :
    Settles s (markEventsPublished env ids s).1 (markEventsPublished env ids s).2 := by
  refine settles_call ?_
  refine check_bind (fun _ _ => .refl s) fun _ _ => check_bind (fun _ _ => .refl s) fun _ _ => ?_
  refine Ends.read_bind ?_
  have hpresent : ∀ id ∈ (uniqueIds ids).filter fun id => (s.db.lookup (.E id)).isSome,
      (s.db.lookup (.E id)).isSome = true := fun id hid => (List.mem_filter.1 hid).2
  have hnodup : ((uniqueIds ids).filter fun id => (s.db.lookup (.E id)).isSome).Nodup :=
    (uniqueIds_nodup ids).filter _
  revert hpresent hnodup
  generalize (uniqueIds ids).filter (fun id => (s.db.lookup (.E id)).isSome) = present
  intro hpresent hnodup
  split
  · exact Ends.pure (.of_quiet (.refl s))
  · refine Ends.bind (write_quiet env s _ false) fun _ t ht => ?_
    refine Ends.modify_bind (Ends.modify_bind (Ends.pure (.of_succeeded rfl ?_)))
    obtain ⟨-, hcount, hen, -⟩ := unprepare_events present t
    refine .taken (takenOff_of_write hnodup hpresent ht.1 ht.2 (by simp) (by simp)
      ⟨rfl, rfl, rfl, rfl, rfl⟩ ?_ hen fun _ => rfl)
    exact congrArg (· - present.length) hcount

theorem requeueLoop_events {s₀ : Store} (todo : List Bytes) {rows : List PendingLocalEvent}
    (h : Holding rows.length (rows.map PendingLocalEvent.eventId) s₀ s) :
    Ends (requeueLoop opts env todo rows) s (Settles s₀)
      fun _ s' => Holding rows.length (rows.map PendingLocalEvent.eventId) s₀ s' := by
  induction todo generalizing rows s with
  | nil =>
    unfold requeueLoop
    split
    · next hempty =>
      rw [List.isEmpty_iff.1 hempty] at h
      exact Ends.pure (.of_quiet h.quiet)
    · refine Ends.bind ((write_quiet env s _ true).mono (fun _ _ h => h) fun _ _ hq => h.trans hq)
        fun _ t ht => Ends.modify_bind (Ends.pure (.of_succeeded rfl ?_))
      rw [← List.length_map PendingLocalEvent.eventId] at h
      have hposted := h.posted (fun _ => Iff.rfl) ht.1 fun id => by
        rw [ht.2, List.mem_map]
        exact requeue_lookup_E s.db rows id
      rw [List.foldl_map] at hposted
      exact .posted hposted
  | cons id todo ih =>
    unfold requeueLoop
    refine Ends.read_bind ?_
    split
    · exact ih h
    refine check_bind (fun _ _ => h) fun row hrow => Ends.inspect_bind (fun _ _ => h) fun _ _ => ?_
    obtain ⟨-, hid⟩ := decodeEvent_eq hrow
    refine Ends.bind h.reserve_ends fun _ t₁ h₁ => Ends.onThrow ?_
    refine Ends.bind ((h₁.prepare_ends id).mono (fun _ _ h => h) fun _ _ h => h.release)
      fun _ t₂ h₂ => Ends.onThrow ?_
    have hperm : (id :: rows.map PendingLocalEvent.eventId).Perm
        ((rows ++ [row]).map PendingLocalEvent.eventId) := by
      rw [List.map_append, List.map_singleton, (decodeEvent_eq hrow).1, hid]
      exact (List.perm_append_singleton _ _).symm
    have hlength : (rows ++ [row]).length = rows.length + 1 := by simp
    have h₃ := h₂.perm hperm
    rw [← hlength] at h₃
    refine (ih h₃).mono (fun _ _ h => h) fun _ _ hback => ?_
    rw [hlength] at hback
    exact (hback.perm hperm.symm).unprepare.release

theorem requeueFailedEvents_settles (opts : Options) (env : Env) (ids : List Bytes) (s : Store) :
    Settles s (requeueFailedEvents opts env ids s).1 (requeueFailedEvents opts env ids s).2 := by
  refine settles_call ?_
  refine check_bind (fun _ _ => .refl s) fun _ _ => check_bind (fun _ _ => .refl s) fun _ _ => ?_
  have h : Holding 0 [] s s := .init (.refl s)
  exact (@requeueLoop_events opts env s s (uniqueIds ids) [] h).mono (fun _ _ h => h)
    fun _ _ h => h.quiet

theorem silent_flushLog : Silent (flushLog env) s := by
  unfold Silent Ends flushLog
  cases env.engine s.engineWriteCalls with
  | done => exact ⟨⟨rfl, rfl, fun _ => rfl⟩, .refl _⟩
  | failed logged text => exact ⟨⟨rfl, rfl, fun _ => rfl⟩, .refl _⟩

theorem syncPublicationProgress_settles (env : Env) (s : Store) :
    Settles s (syncPublicationProgress env s).1 (syncPublicationProgress env s).2 :=
  settles_call (Ends.bind silent_flushLog fun _ _ ht => Ends.pure (.of_quiet ht))

theorem syncPublicationProgressIfDirty_settles (env : Env) (s : Store) :
    Settles s (syncPublicationProgressIfDirty env s).1
      (syncPublicationProgressIfDirty env s).2 := by
  refine settles_call (Ends.read_bind ?_)
  split
  · exact Ends.pure (.of_quiet (.refl s))
  · refine Ends.bind silent_flushLog fun _ t ht => Ends.modify_bind (Ends.pure (.of_quiet ?_))
    exact ht.trans ⟨⟨rfl, rfl, fun _ => rfl⟩, .refl _⟩

theorem shutdown_quiet (env : Env) (s : Store) : Quiet s (shutdown env s).2 := by
  have hclose : Quiet s { s with closing := true } := ⟨⟨rfl, rfl, fun _ => rfl⟩, .refl _⟩
  have hends : Silent (flushLog env) { s with closing := true } := silent_flushLog
  unfold shutdown
  split
  · next hrun => exact hclose.trans (hends.of_ok hrun)
  · next hrun => exact hclose.trans (hends.of_error hrun)

/-! ## Every call, every run -/

theorem Indexed.persistEach (inputs : List PersistInput) (i : ℕ) (h : Indexed s) :
    Indexed (Local.persistEach opts env i inputs s).2 := by
  induction inputs generalizing i s with
  | nil => exact h
  | cons inp inputs ih => exact ih _ (h.after (persistPrivateMessage_after opts env i inp s))

theorem persistBatch_after (opts : Options) (env : Env) (inputs : List PersistInput) (s : Store) :
    EventsAfter s (persistBatch opts env inputs s).2 := by
  unfold persistBatch
  split
  · exact (Quiet.refl s).after
  dsimp only
  have hlock : Silent (lockUsers opts (batchActors (inputs.mapIdx fun i inp =>
      (inp, checkInput opts env i inp)))) s := silent_lockUsers _
  split
  · next hrun => exact (hlock.of_error hrun).after
  · next t hrun =>
    have hslots : StagedSlots s {} t := ⟨.init (hlock.of_ok hrun), by simp⟩
    exact commitBatch_after (stageItems_events _ hslots)

theorem Indexed.call (opts : Options) (env : Env) (op : Op) (h : Indexed s) :
    Indexed (op.run opts env s) := by
  cases op with
  | persist inp => exact h.after (persistPrivateMessage_after opts env 0 inp s)
  | persistMany inputs =>
    show Indexed (persistPrivateMessages opts env inputs s).2
    unfold persistPrivateMessages
    split
    · exact h
    split
    · exact h
    split
    · exact h.persistEach inputs 0
    · exact h.after (persistBatch_after opts env inputs s)
  | confirm mid receiver => exact h.after (confirmReceiver_settles opts env mid receiver s).after
  | confirmBatch mids => exact h.after (confirmReceiverBatch_settles opts env mids s).after
  | confirmRequests inputs => exact h.after (confirmReceiverRequests_after opts env inputs s)
  | markRead reader peer => exact h.after (markDialogRead_settles opts env reader peer s).after
  | markFailed event reason => exact h.after (markEventFailed_settles env event reason s).after
  | requeue ids => exact h.after (requeueFailedEvents_settles opts env ids s).after
  | markPublished ids => exact h.after (markEventsPublished_settles env ids s).after
  | sync => exact h.after (syncPublicationProgress_settles env s).after
  | syncIfDirty => exact h.after (syncPublicationProgressIfDirty_settles env s).after
  | shutdown => exact h.after (shutdown_quiet env s).after

theorem lookup_marked (ids : List Bytes) (id : Bytes) :
    (ids.map fun id => (⟨id, true⟩ : Sigma fun _ : Bytes => Bool)).toAList.lookup id =
      if id ∈ ids then some true else none := by
  rw [AList.lookup_to_alist]
  induction ids with
  | nil => rfl
  | cons a ids ih =>
    grind

theorem Indexed.opened {db : Db} {log : List LogEntry} (h : openStore opts db log = .ok s) :
    Indexed s := by
  unfold openStore at h
  obtain ⟨_, _, h⟩ := bind_eq_ok.1 h
  cases h
  set init : List Write :=
    if (db.lookup .high).isNone = true then [.put .high (opts.firstMessageId - 1)] else [] with hinit
  have hstored : ∀ id, (apply db init).lookup (.E id) = db.lookup (.E id) := by
    intro id
    refine lookup_apply_of_forall_ne fun w hw => ?_
    rw [hinit] at hw
    split at hw
    · rw [List.mem_singleton.1 hw]
      simp [Kv.Write.key]
    · cases hw
  refine ⟨?_, fun hen id hid => ?_, fun hen id hid => ?_⟩
  · refine ((eventKeys_nodup _).subperm fun id hid => ?_).length_le
    rw [mem_eventKeys, ← hstored id]
    exact mem_eventKeys.1 hid
  · rw [hstored id] at hid
    dsimp only
    rw [if_pos hen, lookup_marked, if_pos (mem_eventKeys.2 hid)]
  · rw [hstored id] at hid
    rw [if_pos hen, lookup_marked, if_neg]
    rw [mem_eventKeys, hid]
    exact Bool.false_ne_true

theorem Reachable.indexed (h : Reachable opts s) : Indexed s := by
  obtain ⟨s₀, ls, hopen, hrun⟩ := h
  refine hrun.invariant (fun t l u ht hs => ?_) (Indexed.opened hopen)
  cases hs with
  | call env op => exact ht.call opts env op
  | crash _ hopen => exact .opened hopen

end TinyImx.Local
