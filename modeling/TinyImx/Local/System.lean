import TinyImx.Lib.Run
import TinyImx.Local.GroupSpec
import TinyImx.Local.EventsSpec

/-!
# Runs of the store

A store starts on an empty directory and takes calls, each with an environment of its own, and
crashes: a crash keeps a prefix of the log with every synced batch, and the store is opened again on
what was kept.  `Inv` holds in every state a run reaches.
-/

namespace TinyImx.Local

open Kv Act

inductive Op where
  | persist (inp : PersistInput)
  | persistMany (inputs : List PersistInput)
  | confirm (mid receiver : ℕ)
  | confirmBatch (mids : List ℕ)
  | confirmRequests (inputs : List OwnedReceiverConfirmation)
  | markRead (reader peer : ℕ)
  | markFailed (event reason : Bytes)
  | requeue (ids : List Bytes)
  | markPublished (ids : List Bytes)
  | sync
  | syncIfDirty
  | shutdown

def Op.run (opts : Options) (env : Env) (s : Store) : Op → Store
  | persist inp => (persistPrivateMessage opts env 0 inp s).2
  | persistMany inputs => (persistPrivateMessages opts env inputs s).2
  | confirm mid receiver => (confirmReceiver opts env mid receiver s).2
  | confirmBatch mids => (confirmReceiverBatch opts env mids s).2
  | confirmRequests inputs => (confirmReceiverRequests opts env inputs s).2
  | markRead reader peer => (markDialogRead opts env reader peer s).2
  | markFailed event reason => (markEventFailed env event reason s).2
  | requeue ids => (requeueFailedEvents opts env ids s).2
  | markPublished ids => (markEventsPublished env ids s).2
  | sync => (syncPublicationProgress env s).2
  | syncIfDirty => (syncPublicationProgressIfDirty env s).2
  | shutdown => (Local.shutdown env s).2

def Op.kind (env : Env) : Op → Change → Prop
  | persist _ | persistMany _ => persistKind
  | confirm .. | confirmBatch _ | confirmRequests _ => confirmKind
  | markRead reader peer => readKind (readEventId env.clock reader peer)
  | markFailed event _ => failKind event
  | requeue ids => requeueKind ids
  | markPublished ids => publishKind ids
  | sync | syncIfDirty | shutdown => noChange

inductive Label where
  | call (env : Env) (op : Op)
  | crash

inductive SystemStep (opts : Options) : Store → Label → Store → Prop
  | call (s : Store) (env : Env) (op : Op) : SystemStep opts s (.call env op) (op.run opts env s)
  | crash {s s' : Store} {kept : List LogEntry} : Wal.Kept s.log kept →
      openStore opts (Wal.replay kept) kept = .ok s' → SystemStep opts s .crash s'

def Reachable (opts : Options) (s : Store) : Prop :=
  ∃ s₀ ls, openStore opts ∅ [] = .ok s₀ ∧ Run (SystemStep opts) s₀ ls s

variable {opts : Options} {env : Env} {s s' : Store}

theorem Op.run_moves (opts : Options) (env : Env) (op : Op) (h : Inv s) :
    Moves (op.kind env) s (op.run opts env s) := by
  cases op with
  | persist inp => exact (persistPrivateMessage_spec opts env 0 inp h).1
  | persistMany inputs => exact persistPrivateMessages_moves opts env inputs h
  | confirm mid receiver => exact (confirmReceiver_spec opts env mid receiver h).moves
  | confirmBatch mids => exact (confirmReceiverBatch_spec opts env mids h).moves
  | confirmRequests inputs => exact (confirmReceiverRequests_spec opts env inputs h).1
  | markRead reader peer => exact (markDialogRead_spec opts env reader peer h).moves
  | markFailed event reason => exact (markEventFailed_spec env event reason s).moves
  | requeue ids => exact (requeueFailedEvents_spec opts env ids h).moves
  | markPublished ids => exact (markEventsPublished_spec env ids s).moves
  | sync => exact (syncPublicationProgress_spec env s).moves
  | syncIfDirty => exact (syncPublicationProgressIfDirty_spec env s).moves
  | shutdown => exact shutdown_spec env s

/-! ## Opening -/

structure Opened (opts : Options) (db : Db) (log : List LogEntry) (s : Store) (high : ℕ) : Prop where
  high_lt : high < int64Max - 4096
  poisoned : s.poisoned = false
  nextId : s.nextId = high + 1
  reservedEnd : s.reservedEnd = high
  old : db.lookup .high = some high → s.db = db ∧ s.log = Wal.synced log
  new : db.lookup .high = none → s.db = apply db [.put .high high] ∧
    s.log = Wal.synced (log ++ [⟨[.put .high high], true⟩])

theorem openStore_opened {db : Db} {log : List LogEntry} (h : openStore opts db log = .ok s) :
    Opened opts db log s ((db.lookup .high).getD (opts.firstMessageId - 1)) := by
  unfold openStore at h
  obtain ⟨_, hreq, h⟩ := bind_eq_ok.1 h
  simp only [require_eq_ok, Bool.and_eq_true, decide_eq_true_eq] at hreq
  cases h
  refine ⟨hreq.2, rfl, rfl, rfl, fun hh => ?_, fun hh => ?_⟩
  · have hsome : (db.lookup .high).isNone = false := by
      rw [Option.isNone_eq_false_iff]
      exact Option.isSome_of_eq_some hh
    simp [hsome]
  · simp [hh]

theorem sound_first {n : ℕ} (hn : n < int64Max) : Sound (apply ∅ [.put .high n]) := by
  have hnone : ∀ {k : Key}, k ≠ .high → (apply (∅ : Db) [.put .high n]).lookup k = none :=
    fun hk => AList.lookup_insert_ne hk
  have hcount : ∀ φ, recordCount φ (apply ∅ [.put .high n]) = 0 := by
    intro φ
    rw [recordCount_apply_of_ne (by simp [Write.key])]
    rfl
  constructor
  · constructor
    · intro mid m hm
      simp_all
    · intro r mid
      rw [hnone (by simp), hnone (by simp)]
      simp
    · intro a b mid
      grind
    · intro f c mid hI
      grind
    · intro mid m hm
      rw [hnone (by simp)] at hm
      cases hm
  · intro r p
    rw [hcount, dialogCount, hnone (by simp)]
    rfl
  · intro r
    rw [hcount, totalCount, hnone (by simp)]
    rfl
  · intro r
    rw [hcount, hnone (by simp)]
    rfl
  · intro r p hpos
    rw [dialogCount, hnone (by simp)] at hpos
    exact absurd hpos (lt_irrefl 0)
  · refine ⟨n, lookup_step_put _ _ _, hn, fun mid m hm => ?_⟩
    rw [hnone (by simp)] at hm
    cases hm

theorem Inv.first (h : openStore opts ∅ [] = .ok s) : Inv s := by
  have ho := openStore_opened h
  have hnone : (∅ : Db).lookup .high = none := rfl
  rw [hnone] at ho
  simp only [Option.getD_none] at ho
  obtain ⟨hdb, hlog⟩ := ho.new hnone
  have hreplay : Wal.replay s.log = s.db := by
    rw [hlog, Wal.replay_synced, Wal.replay_snoc, hdb]
    rfl
  have hsound : Sound s.db := by
    rw [hdb]
    exact sound_first (by have := ho.high_lt; omega)
  refine ⟨⟨s.log, .refl _, hreplay.symm, fun _ => rfl⟩, ?_, fun mid m hm => ?_, ?_, ?_, ?_⟩
  · rw [hlog]
    refine .synced ?_
    rw [← Wal.replay_synced, ← hlog, hreplay]
    exact hsound
  · rw [hdb] at hm
    rw [show (apply (∅ : Db) [.put .high (opts.firstMessageId - 1)]).lookup (.M mid) = none from
      AList.lookup_insert_ne (by simp)] at hm
    cases hm
  · rw [ho.nextId]
    exact Nat.succ_pos _
  · rw [ho.nextId, ho.reservedEnd]
  · rw [hdb, ho.reservedEnd]
    exact ⟨_, lookup_step_put _ _ _, le_rfl⟩

theorem Inv.recovered {kept : List LogEntry} (hsound : Sound (Wal.replay kept))
    (h : openStore opts (Wal.replay kept) kept = .ok s') : Inv s' := by
  have ho := openStore_opened h
  obtain ⟨e, he, -, hle⟩ := hsound.reserved
  rw [he] at ho
  simp only [Option.getD_some] at ho
  obtain ⟨hdb, hlog⟩ := ho.old he
  have hreplay : Wal.replay s'.log = s'.db := by rw [hlog, Wal.replay_synced, hdb]
  refine ⟨⟨s'.log, .refl _, hreplay.symm, fun _ => rfl⟩, ?_, fun mid m hm => ?_, ?_, ?_, ?_⟩
  · rw [hlog]
    exact .synced hsound
  · rw [hdb] at hm
    rw [ho.nextId]
    exact Nat.lt_succ_of_le (hle mid m hm)
  · rw [ho.nextId]
    exact Nat.succ_pos _
  · rw [ho.nextId, ho.reservedEnd]
  · rw [hdb, ho.reservedEnd]
    exact ⟨e, he, le_rfl⟩

/-! ## Runs -/

theorem Inv.step {l : Label} (h : Inv s) (hs : SystemStep opts s l s') : Inv s' := by
  cases hs with
  | call env op => exact h.moves (op.run_moves opts env h)
  | crash hkept hopen => exact .recovered (h.durable _ hkept) hopen

theorem Inv.run {ls : List Label} (h : Inv s) (hrun : Run (SystemStep opts) s ls s') : Inv s' :=
  hrun.invariant (fun _ _ _ h hs => h.step hs) h

theorem Reachable.inv (h : Reachable opts s) : Inv s := by
  obtain ⟨s₀, ls, hopen, hrun⟩ := h
  exact (Inv.first hopen).run hrun

theorem Reachable.step {l : Label} (h : Reachable opts s) (hs : SystemStep opts s l s') :
    Reachable opts s' := by
  obtain ⟨s₀, ls, hopen, hrun⟩ := h
  exact ⟨s₀, ls ++ [l], hopen, hrun.snoc hs⟩

/-! ## A small store -/

def sampleClock : Clock where
  now := List.replicate 19 48
  iso := [50]
  nanos := 7
  pid := 1
  sequence := 0
  now_length := by decide
  iso_ne := by decide

def sampleEnv : Env where
  clock := sampleClock
  resolve _ _ _ cid := { status := .succeeded, canonicalCid := cid }
  pin _ _ _ := { status := .succeeded }
  admitEvents _ := true
  dumps _ := true
  batchSize := List.length
  engine _ := .done

def sampleOptions : Options where
  messageEventsTopic := ascii "message-events"
  firstMessageId := 1
  initialUserIds := [1, 2, 3]
  topic_valid := by decide
  first_pos := Nat.one_pos
  first_lt := by decide
  pending_pos := by decide
  pending_le := by decide
  users_ne := by decide
  users_le := by decide
  users_pos := by decide
  users_nodup := by decide

def sampleStore : Store where
  db := (∅ : Db).insert .high 0
  log := [⟨[.put .high 0], true⟩]
  nextId := 1
  reservedEnd := 0
  pendingEvents := 0
  pendingIndexEnabled := false
  pendingIndex := ∅
  userLocks := ∅
  poisoned := false
  closing := false
  engineWriteCalls := 0
  publications := 0
  syncedPublicationGeneration := 0
  publicationSyncInitialized := false

def sampleInput : PersistInput where
  fromUserId := 1
  toUserId := 2
  clientMessageId := [99]
  messageType := 1
  content := [104, 105]

theorem sampleStore_opened : openStore sampleOptions ∅ [] = .ok sampleStore := rfl

def sampleSent : Store := (Op.persist sampleInput).run sampleOptions sampleEnv sampleStore

theorem sampleSent_reachable : Reachable sampleOptions sampleSent :=
  ⟨sampleStore, _, sampleStore_opened, .single (.call sampleStore sampleEnv (.persist sampleInput))⟩

end TinyImx.Local
