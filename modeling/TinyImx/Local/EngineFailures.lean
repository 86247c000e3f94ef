import TinyImx.Local.IndexRuns

/-!
# Failed calls of the engine

A call of the engine that fails poisons the owner and ends what the store was doing with a storage
error, which every scope on the way out passes on.  A poisoned owner refuses every later call.
-/

namespace TinyImx.Local

open Kv Act

variable {opts : Options} {env : Env} {s s' t u : Store} {α β : Type}

/-- Every call of the engine since `s` was answered. -/
structure Clean (env : Env) (s s' : Store) : Prop where
  calls : s.engineWriteCalls ≤ s'.engineWriteCalls
  done : ∀ n, s.engineWriteCalls ≤ n → n < s'.engineWriteCalls → env.engine n = .done
  poisoned : s'.poisoned = s.poisoned

/-- A call of the engine that failed since `s` has poisoned the owner. -/
structure Watched (env : Env) (s s' : Store) : Prop where
  calls : s.engineWriteCalls ≤ s'.engineWriteCalls
  failed : ∀ n, s.engineWriteCalls ≤ n → n < s'.engineWriteCalls → env.engine n ≠ .done →
    s'.poisoned = true
  poisoned : s.poisoned = true → s'.poisoned = true

structure Broke (env : Env) (s : Store) (e : Failure) (s' : Store) : Prop
    extends Watched env s s' where
  status : ∀ n, s.engineWriteCalls ≤ n → n < s'.engineWriteCalls → env.engine n ≠ .done →
    e.status = .storageError

theorem Clean.refl (env : Env) (s : Store) : Clean env s s :=
  ⟨le_rfl, fun _ hle hlt => absurd hlt (not_lt.2 hle), rfl⟩

theorem Clean.trans (h : Clean env s t) (h' : Clean env t u) : Clean env s u where
  calls := h.calls.trans h'.calls
  done n hle hlt := by
    by_cases hn : n < t.engineWriteCalls
    · exact h.done n hle hn
    · exact h'.done n (not_lt.1 hn) hlt
  poisoned := h'.poisoned.trans h.poisoned

theorem Clean.watched (h : Clean env s t) : Watched env s t where
  calls := h.calls
  failed n hle hlt hne := absurd (h.done n hle hlt) hne
  poisoned hp := h.poisoned.trans hp

theorem Watched.trans (h : Watched env s t) (h' : Watched env t u) : Watched env s u where
  calls := h.calls.trans h'.calls
  failed n hle hlt hne := by
    by_cases hn : n < t.engineWriteCalls
    · exact h'.poisoned (h.failed n hle hn hne)
    · exact h'.failed n (not_lt.1 hn) hlt hne
  poisoned hp := h'.poisoned (h.poisoned hp)

theorem Broke.before {e : Failure} (h : Clean env s t) (h' : Broke env t e u) : Broke env s e u where
  toWatched := h.watched.trans h'.toWatched
  status n hle hlt hne := by
    by_cases hn : n < t.engineWriteCalls
    · exact absurd (h.done n hle hn) hne
    · exact h'.status n (not_lt.1 hn) hlt hne

structure SameOwner (s s' : Store) : Prop where
  calls : s'.engineWriteCalls = s.engineWriteCalls
  poisoned : s'.poisoned = s.poisoned

theorem SameOwner.clean (h : SameOwner s t) (env : Env) : Clean env s t where
  calls := h.calls.ge
  done _ hle hlt := by
    rw [h.calls] at hlt
    exact absurd hlt (not_lt.2 hle)
  poisoned := h.poisoned

theorem sameOwner_commit (id : Bytes) (s : Store) : SameOwner s (EventSlot.commit id s) := by
  unfold EventSlot.commit
  split <;> exact ⟨rfl, rfl⟩

theorem sameOwner_unprepare (id : Bytes) (s : Store) : SameOwner s (EventSlot.unprepare id s) := by
  unfold EventSlot.unprepare
  split <;> exact ⟨rfl, rfl⟩

theorem sameOwner_release (s : Store) : SameOwner s (EventSlot.release s) := ⟨rfl, rfl⟩

theorem sameOwner_foldl {γ : Type} {f : Store → γ → Store} (hf : ∀ s c, SameOwner s (f s c))
    (l : List γ) (s : Store) : SameOwner s (l.foldl f s) := by
  induction l generalizing s with
  | nil => exact ⟨rfl, rfl⟩
  | cons c l ih =>
    have hc := hf s c
    have hl := ih (f s c)
    exact ⟨hl.calls.trans hc.calls, hl.poisoned.trans hc.poisoned⟩

/-! ## Computations -/

def Honest (env : Env) (x : StoreM α) : Prop :=
  ∀ s, Ends x s (fun _ s' => Clean env s s') fun e s' => Broke env s e s'

theorem Honest.pure (a : α) : Honest env (pure a : StoreM α) := fun s => Ends.pure (.refl env s)

theorem Honest.inspect (f : Store → Except Failure α) : Honest env (Act.inspect f) := fun s =>
  Ends.inspect (fun _ _ => .refl env s) fun _ _ =>
    ⟨(Clean.refl env s).watched, fun _ hle hlt => absurd hlt (not_lt.2 hle)⟩

theorem Honest.check (x : Except Failure α) : Honest env (Local.check x) := .inspect _

theorem Honest.read (f : Store → α) : Honest env (Act.read f : StoreM α) := fun s =>
  Ends.read (.refl env s)

theorem Honest.modify {f : Store → Store} (hf : ∀ s, SameOwner s (f s)) :
    Honest env (Act.modify f : StoreM Unit) := fun s => Ends.modify ((hf s).clean env)

variable {x : StoreM α}

theorem Honest.bind {f : α → StoreM β} (hx : Honest env x)
    (hf : ∀ a, Honest env (f a)) : Honest env (x >>= f) := fun s =>
  Ends.bind (hx s) fun a t ht => (hf a t).mono (fun _ _ hu => ht.trans hu) fun _ _ hu => hu.before ht

theorem Honest.onThrow {f : Store → Store} (hx : Honest env x)
    (hf : ∀ s, SameOwner s (f s)) : Honest env (Act.onThrow x f) := fun s =>
  Ends.onThrow ((hx s).mono (fun _ _ h => h) fun _ t h => by
    have hft := hf t
    refine ⟨h.toWatched.trans (hft.clean env).watched, fun n hle hlt => h.status n hle ?_⟩
    rwa [hft.calls] at hlt)

theorem Honest.ite {p : Prop} [Decidable p] {y : StoreM α} (hx : Honest env x)
    (hy : Honest env y) : Honest env (if p then x else y) := by
  split
  · exact hx
  · exact hy

/-! ## The primitives -/

theorem honest_write (batch : List Write) (sync : Bool) : Honest env (write env batch sync) := by
  intro s
  unfold Ends write
  by_cases hp : s.poisoned = true
  · rw [if_pos hp]
    exact ⟨(Clean.refl env s).watched, fun _ hle hlt => absurd hlt (not_lt.2 hle)⟩
  rw [if_neg hp]
  cases hans : env.engine s.engineWriteCalls with
  | done =>
    refine ⟨Nat.le_succ _, fun n hle hlt => ?_, rfl⟩
    have hn : n = s.engineWriteCalls := le_antisymm (Nat.lt_succ_iff.1 hlt) hle
    rw [hn, hans]
  | failed logged text =>
    exact ⟨⟨Nat.le_succ _, fun _ _ _ _ => rfl, fun _ => rfl⟩, fun _ _ _ _ => rfl⟩

theorem honest_flushLog : Honest env (flushLog env) := by
  intro s
  unfold Ends flushLog
  cases hans : env.engine s.engineWriteCalls with
  | done =>
    refine ⟨Nat.le_succ _, fun n hle hlt => ?_, rfl⟩
    grind
  | failed logged text =>
    exact ⟨⟨Nat.le_succ _, fun _ _ _ _ => rfl, fun _ => rfl⟩, fun _ _ _ _ => rfl⟩

theorem honest_lockActors (actors : List ℕ) : Honest env (lockActors actors) := by
  induction actors with
  | nil => exact .pure ()
  | cons a actors ih =>
    refine .bind ?_ fun _ => ih
    refine .bind (.check _) fun _ => .bind (.read _) fun locks => .ite (.pure ()) ?_
    exact .bind (.check _) fun _ => .modify fun _ => ⟨rfl, rfl⟩

theorem honest_lockUsers (actors : List ℕ) : Honest env (lockUsers opts actors) :=
  .ite (honest_lockActors _) (.pure ())

theorem honest_nextMessageId : Honest env (nextMessageId env) := by
  refine .bind (.read _) fun s => .ite ?_ ?_
  · exact .bind (.check _) fun _ => .bind (honest_write _ _) fun _ =>
      .bind (.modify fun _ => ⟨rfl, rfl⟩) fun _ => .bind (.modify fun _ => ⟨rfl, rfl⟩) fun _ => .pure _
  · exact .bind (.modify fun _ => ⟨rfl, rfl⟩) fun _ => .pure _

theorem honest_reserve : Honest env (EventSlot.reserve opts) :=
  .bind (.read _) fun _ => .bind (.check _) fun _ => .modify fun _ => ⟨rfl, rfl⟩

theorem honest_prepare (id : Bytes) : Honest env (EventSlot.prepare id) :=
  .bind (.read _) fun _ => .bind (.read _) fun _ =>
    .ite (.bind (.check _) fun _ => .modify fun _ => ⟨rfl, rfl⟩) (.pure ())

/-! ## The calls -/

theorem honest_persistBody (item : ℕ) (inp : PersistInput) :
    Honest env (persistBody opts env item inp) := by
  refine .bind (.check _) fun canonical => .bind (honest_lockUsers _) fun _ =>
    .bind (.inspect _) fun existing => ?_
  cases existing with
  | some m => exact .pure _
  | none =>
    refine .bind (.check _) fun _ => .bind (.check _) fun _ => .bind honest_reserve fun _ =>
      .onThrow ?_ sameOwner_release
    refine .bind (.check _) fun _ => .bind honest_nextMessageId fun mid => .bind (.read _) fun db => ?_
    refine .bind (.check _) fun _ => .bind (.check _) fun _ => .bind (.check _) fun row => ?_
    refine .bind (honest_prepare _) fun _ =>
      .bind (.onThrow (honest_write _ _) (sameOwner_unprepare _)) fun _ => ?_
    exact .bind (.modify (sameOwner_commit _)) fun _ => .pure _

theorem honest_stageMessage (b : Batch) (inp : PersistInput) (canonical : Bytes) :
    Honest env (stageMessage opts env b inp canonical) := by
  refine .bind (.check _) fun _ => .bind (.check _) fun _ => .bind honest_reserve fun _ =>
    .onThrow ?_ sameOwner_release
  refine .bind (.check _) fun _ => .bind honest_nextMessageId fun mid => .bind (.read _) fun db => ?_
  refine .bind (.check _) fun _ => .bind (.check _) fun row => .bind (.check _) fun _ => ?_
  exact .bind (honest_prepare _) fun _ => .pure _

theorem honest_readBody (reader peer : ℕ) : Honest env (readBody opts env reader peer) := by
  refine .bind (.check _) fun _ => .bind (honest_lockUsers _) fun _ => .bind (.inspect _) fun c =>
    .ite (.pure _) ?_
  refine .bind (.read _) fun db => .bind (.check _) fun _ => .bind (.check _) fun _ =>
    .bind honest_reserve fun _ => .onThrow ?_ sameOwner_release
  refine .bind (.check _) fun row => .bind (honest_prepare _) fun _ =>
    .bind (.onThrow (honest_write _ _) (sameOwner_unprepare _)) fun _ => ?_
  exact .bind (.modify (sameOwner_commit _)) fun _ => .pure _

theorem honest_requeueLoop (todo : List Bytes) (rows : List PendingLocalEvent) :
    Honest env (requeueLoop opts env todo rows) := by
  induction todo generalizing rows with
  | nil =>
    refine .ite (.pure _) (.bind (honest_write _ _) fun _ => .bind (.modify fun s => ?_) fun _ => .pure _)
    exact sameOwner_foldl (fun s (row : PendingLocalEvent) => sameOwner_commit row.eventId s) rows s
  | cons id todo ih =>
    unfold requeueLoop
    refine .bind (.read _) fun value => ?_
    cases value with
    | none => exact ih rows
    | some failed =>
      refine .bind (.check _) fun row => .bind (.inspect _) fun _ => .bind honest_reserve fun _ =>
        .onThrow ?_ sameOwner_release
      exact .bind (honest_prepare _) fun _ => .onThrow (ih _) (sameOwner_unprepare _)

/-- What a call with one result reports: a storage error, if a call of the engine failed. -/
structure Reports (env : Env) (s : Store) (status : Status) (s' : Store) : Prop
    extends Watched env s s' where
  status : ∀ n, s.engineWriteCalls ≤ n → n < s'.engineWriteCalls → env.engine n ≠ .done →
    status = .storageError

theorem Clean.reports (h : Clean env s t) (status : Status) : Reports env s status t where
  toWatched := h.watched
  status n hle hlt hne := absurd (h.done n hle hlt) hne

theorem Honest.reports (hx : Honest env x) {ok : α → β} {failed : Failure → β}
    (status : β → Status) (hstatus : ∀ e, status (failed e) = e.status) (s : Store) :
    Reports env s (status (call x ok failed s).1) (call x ok failed s).2 := by
  have hfence : Raises (checkOpen s) (Broke env s · s) := fun _ _ =>
    ⟨(Clean.refl env s).watched, fun _ hle hlt => absurd hlt (not_lt.2 hle)⟩
  rcases call_ends ok failed hfence fun _ => hx s with ⟨a, -, hc⟩ | ⟨e, hr, hb⟩
  · exact hc.reports _
  · rw [hr, hstatus]
    exact ⟨hb.toWatched, hb.status⟩

theorem persistPrivateMessage_reports (opts : Options) (env : Env) (item : ℕ) (inp : PersistInput)
    (s : Store) : Reports env s (persistPrivateMessage opts env item inp s).1.status
      (persistPrivateMessage opts env item inp s).2 :=
  (honest_persistBody item inp).reports PersistResult.status (fun _ => rfl) s

theorem Honest.mutation {x : StoreM MutationResult} (hx : Honest env x) (s : Store) :
    Reports env s (call x id MutationResult.ofFailure s).1.status
      (call x id MutationResult.ofFailure s).2 :=
  hx.reports MutationResult.status (fun _ => rfl) s

theorem confirmReceiver_reports (opts : Options) (env : Env) (mid receiver : ℕ) (s : Store) :
    Reports env s (confirmReceiver opts env mid receiver s).1.status
      (confirmReceiver opts env mid receiver s).2 := by
  refine Honest.mutation ?_ s
  refine .bind (.check _) fun _ => .bind (.check _) fun _ => .bind (honest_lockUsers _) fun _ =>
    .bind (.inspect _) fun found => ?_
  split
  · exact .pure _
  · exact .bind (.read _) fun pending => .bind (.check _) fun _ => .bind (.check _) fun _ =>
      .bind (honest_write _ _) fun _ => .pure _

theorem confirmReceiverBatch_reports (opts : Options) (env : Env) (mids : List ℕ) (s : Store) :
    Reports env s (confirmReceiverBatch opts env mids s).1.status
      (confirmReceiverBatch opts env mids s).2 := by
  refine Honest.mutation ?_ s
  refine .bind (.check _) fun _ => .bind (.inspect _) fun _ => .bind (honest_lockUsers _) fun _ =>
    .bind (.inspect _) fun c => .ite (.pure _) ?_
  exact .bind (.inspect _) fun counters => .bind (honest_write _ _) fun _ => .pure _

theorem markEventFailed_reports (env : Env) (event reason : Bytes) (s : Store) :
    Reports env s (markEventFailed env event reason s).1.status
      (markEventFailed env event reason s).2 := by
  refine Honest.mutation ?_ s
  refine .bind (.check _) fun _ => .bind (.check _) fun _ => .bind (.read _) fun value => ?_
  split
  · exact .pure _
  · exact .bind (.check _) fun _ => .bind (.check _) fun _ => .bind (honest_write _ _) fun _ =>
      .bind (.modify (sameOwner_unprepare _)) fun _ => .bind (.modify sameOwner_release) fun _ =>
        .pure _

theorem markEventsPublished_reports (env : Env) (ids : List Bytes) (s : Store) :
    Reports env s (markEventsPublished env ids s).1.status (markEventsPublished env ids s).2 := by
  refine Honest.mutation ?_ s
  refine .bind (.check _) fun _ => .bind (.check _) fun _ => .bind (.read _) fun present =>
    .ite (.pure _) ?_
  refine .bind (honest_write _ _) fun _ => .bind (.modify fun s => ?_) fun _ =>
    .bind (.modify fun _ => ⟨rfl, rfl⟩) fun _ => .pure _
  exact sameOwner_foldl (fun s id => sameOwner_unprepare id s) present s

theorem syncPublicationProgressIfDirty_reports (env : Env) (s : Store) :
    Reports env s (syncPublicationProgressIfDirty env s).1.status
      (syncPublicationProgressIfDirty env s).2 := by
  refine Honest.mutation (.bind (.read _) fun t => .ite (.pure _) ?_) s
  exact .bind honest_flushLog fun _ => .bind (.modify fun _ => ⟨rfl, rfl⟩) fun _ => .pure _

/-! ## Groups -/

theorem Honest.watched (hx : Honest env x) {s s' : Store} {r : Except Failure α}
    (h : x s = (r, s')) : Watched env s s' := by
  cases r with
  | ok a => exact ((hx s).of_ok h).watched
  | error e => exact ((hx s).of_error h).toWatched

theorem Watched.refl (env : Env) (s : Store) : Watched env s s := (Clean.refl env s).watched

theorem Watched.frame (h : Watched env s t) (hf : SameOwner t u) : Watched env s u :=
  h.trans (hf.clean env).watched

theorem stageItem_watched (inp : PersistInput) (checked : Except Failure Bytes) (b : Batch)
    (s : Store) : Watched env s (stageItem opts env inp checked b s).2 := by
  unfold stageItem
  split
  · exact .refl env s
  split
  · exact .refl env s
  split
  · exact .refl env s
  · exact .refl env s
  split
  · next hrun => exact (honest_stageMessage _ _ _).watched hrun
  · next hrun => exact (honest_stageMessage _ _ _).watched hrun

theorem stageItems_watched (items : List (PersistInput × Except Failure Bytes)) (b : Batch)
    (s : Store) : Watched env s (stageItems opts env items b s).2 := by
  induction items generalizing b s with
  | nil => exact .refl env s
  | cons x items ih => exact (stageItem_watched x.1 x.2 b s).trans (ih _ _)

theorem commitBatch_watched (b : Batch) (s : Store) :
    Watched env s (commitBatch opts env b s).2 := by
  unfold commitBatch
  split
  · exact .refl env s
  split
  · next hrun =>
    exact ((honest_write _ _).watched hrun).frame
      (sameOwner_foldl (fun s (c : Create) => sameOwner_commit c.eventId s) _ _)
  · next hrun =>
    refine ((honest_write _ _).watched hrun).frame (sameOwner_foldl (fun s (c : Create) => ?_) _ _)
    have hun := sameOwner_unprepare c.eventId s
    exact ⟨hun.calls, hun.poisoned⟩

theorem persistEach_watched (inputs : List PersistInput) (i : ℕ) (s : Store) :
    Watched env s (persistEach opts env i inputs s).2 := by
  induction inputs generalizing i s with
  | nil => exact .refl env s
  | cons inp inputs ih =>
    exact (persistPrivateMessage_reports opts env i inp s).toWatched.trans (ih _ _)

theorem persistPrivateMessages_watched (opts : Options) (env : Env) (inputs : List PersistInput)
    (s : Store) : Watched env s (persistPrivateMessages opts env inputs s).2 := by
  unfold persistPrivateMessages
  split
  · exact .refl env s
  split
  · exact .refl env s
  split
  · exact persistEach_watched inputs 0 s
  unfold persistBatch
  split
  · exact .refl env s
  dsimp only
  split
  · next hrun => exact (honest_lockUsers _).watched hrun
  · next hrun =>
    exact ((honest_lockUsers _).watched hrun).trans
      ((stageItems_watched _ _ _).trans (commitBatch_watched _ _))

theorem confirmReceiverRequests_watched (opts : Options) (env : Env)
    (inputs : List OwnedReceiverConfirmation) (s : Store) :
    Watched env s (confirmReceiverRequests opts env inputs s).2 := by
  unfold confirmReceiverRequests
  split
  · exact .refl env s
  split
  · exact .refl env s
  split
  · exact .refl env s
  split
  · next hrun => exact (honest_lockUsers _).watched hrun
  next hrun =>
  have hlock : Watched env s _ := (honest_lockUsers _).watched hrun
  split
  · exact hlock
  split
  · exact hlock
  split
  · exact hlock
  split
  · next hwrite => exact hlock.trans ((honest_write _ _).watched hwrite)
  · next hwrite => exact hlock.trans ((honest_write _ _).watched hwrite)

theorem shutdown_watched (env : Env) (s : Store) : Watched env s (shutdown env s).2 := by
  have hclose : Watched env s { s with closing := true } := Watched.frame (.refl env s) ⟨rfl, rfl⟩
  unfold shutdown
  split
  · next hrun => exact hclose.trans (honest_flushLog.watched hrun)
  · next hrun => exact hclose.trans (honest_flushLog.watched hrun)

/-! ## Every call -/

def Op.statuses (opts : Options) (env : Env) (s : Store) : Op → List Status
  | persist inp => [(persistPrivateMessage opts env 0 inp s).1.status]
  | persistMany inputs => (persistPrivateMessages opts env inputs s).1.map PersistResult.status
  | confirm mid receiver => [(confirmReceiver opts env mid receiver s).1.status]
  | confirmBatch mids => [(confirmReceiverBatch opts env mids s).1.status]
  | confirmRequests inputs =>
    (confirmReceiverRequests opts env inputs s).1.map MutationResult.status
  | markRead reader peer => [(markDialogRead opts env reader peer s).1.status]
  | markFailed event reason => [(markEventFailed env event reason s).1.status]
  | requeue ids => [(requeueFailedEvents opts env ids s).1.status]
  | markPublished ids => [(markEventsPublished env ids s).1.status]
  | sync => [(syncPublicationProgress env s).1.status]
  | syncIfDirty => [(syncPublicationProgressIfDirty env s).1.status]
  | shutdown => []

def Op.isGroup : Op → Bool
  | persistMany _ | confirmRequests _ => true
  | _ => false

theorem Op.reports (opts : Options) (env : Env) (s : Store) {op : Op} (hop : op.isGroup = false) :
    ∀ status ∈ op.statuses opts env s, Reports env s status (op.run opts env s) := by
  intro status hstatus
  cases op with
  | persist inp =>
    rw [List.mem_singleton.1 hstatus]
    exact persistPrivateMessage_reports opts env 0 inp s
  | persistMany inputs => cases hop
  | confirm mid receiver =>
    rw [List.mem_singleton.1 hstatus]
    exact confirmReceiver_reports opts env mid receiver s
  | confirmBatch mids =>
    rw [List.mem_singleton.1 hstatus]
    exact confirmReceiverBatch_reports opts env mids s
  | confirmRequests inputs => cases hop
  | markRead reader peer =>
    rw [List.mem_singleton.1 hstatus]
    exact (honest_readBody reader peer).mutation s
  | markFailed event reason =>
    rw [List.mem_singleton.1 hstatus]
    exact markEventFailed_reports env event reason s
  | requeue ids =>
    rw [List.mem_singleton.1 hstatus]
    exact Honest.mutation
      (.bind (.check _) fun _ => .bind (.check _) fun _ => honest_requeueLoop _ _) s
  | markPublished ids =>
    rw [List.mem_singleton.1 hstatus]
    exact markEventsPublished_reports env ids s
  | sync =>
    rw [List.mem_singleton.1 hstatus]
    exact Honest.mutation (.bind honest_flushLog fun _ => .pure _) s
  | syncIfDirty =>
    rw [List.mem_singleton.1 hstatus]
    exact syncPublicationProgressIfDirty_reports env s
  | shutdown => cases hstatus

theorem Op.watched (opts : Options) (env : Env) (s : Store) (op : Op) :
    Watched env s (op.run opts env s) := by
  have hone : op.isGroup = false → ∀ status ∈ op.statuses opts env s,
      Watched env s (op.run opts env s) :=
    fun hop status hstatus => (Op.reports opts env s hop status hstatus).toWatched
  cases op with
  | persistMany inputs => exact persistPrivateMessages_watched opts env inputs s
  | confirmRequests inputs => exact confirmReceiverRequests_watched opts env inputs s
  | shutdown => exact shutdown_watched env s
  | _ => exact hone rfl _ (List.mem_singleton.2 rfl)

end TinyImx.Local
