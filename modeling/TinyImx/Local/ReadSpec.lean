import TinyImx.Local.ConfirmSpec
import TinyImx.Local.PersistSpec

/-!
# What reading a dialog does

`MarkDialogRead` walks the history of the dialog.  The history index holds every message between the
two users, so the loop collects all unread ones and the check on the counters passes.
-/

namespace TinyImx.Local

open Kv Act

def readKind (event : Bytes) : Change → Prop
  | .read _ _ _ _ row => row.eventId = event
  | _ => False

variable {opts : Options} {env : Env} {s s' : Store} {db : Db} {reader peer : ℕ}

/-! ## The history of a dialog -/

theorem mem_dialogMessages {a b mid : ℕ} :
    mid ∈ dialogMessages db a b ↔ (db.lookup (.H (min a b) (max a b) mid)).isSome := by
  rw [dialogMessages, mem_scan, AList.lookup_isSome]
  constructor
  · rintro ⟨k, hk, hf⟩
    cases k with
    | H low high m =>
      dsimp only at hf
      split at hf
      · next hlh =>
        grind
      · cases hf
    | _ => cases hf
  · intro hk
    exact ⟨_, hk, by simp⟩

theorem dialogMessages_nodup (db : Db) (a b : ℕ) : (dialogMessages db a b).Nodup := by
  refine scan_nodup db ?_
  intro k k' n hk hk'
  cases k with
  | H low high m =>
    cases k' with
    | H low' high' m' =>
      dsimp only at hk hk'
      split at hk
      · next hlh =>
        grind
      · cases hk
    | _ => cases hk'
  | _ => cases hk

def unreadRecords (db : Db) (reader : ℕ) (mids : List ℕ) : List MessageView :=
  mids.filterMap fun mid => (db.lookup (.M mid)).filter (unreadFor · reader)

theorem mem_unreadRecords {mids : List ℕ} {m : MessageView} : m ∈ unreadRecords db reader mids ↔
    ∃ mid ∈ mids, db.lookup (.M mid) = some m ∧ unreadFor m reader = true := by
  simp [unreadRecords, List.mem_filterMap, Option.filter_eq_some_iff]

theorem unreadRecords_cons {mid : ℕ} {mids : List ℕ} {m : MessageView}
    (hM : db.lookup (.M mid) = some m) (hu : unreadFor m reader = true) :
    unreadRecords db reader (mid :: mids) = m :: unreadRecords db reader mids := by
  simp [unreadRecords, hM, Option.filter_some, hu]

theorem unreadRecords_skip {mid : ℕ} {mids : List ℕ}
    (h : ∀ m, db.lookup (.M mid) = some m → unreadFor m reader = false) :
    unreadRecords db reader (mid :: mids) = unreadRecords db reader mids := by
  cases hM : db.lookup (.M mid) with
  | none => simp [unreadRecords, hM]
  | some m => simp [unreadRecords, hM, h m hM]

theorem eq_of_min_max {a b c d : ℕ} (hmin : min a b = min c d) (hmax : max a b = max c d)
    (h : b = c) : a = d := by omega

/-- The loop collects every unread message of the dialog. -/
theorem Rows.readable (h : Rows db) (reader peer : ℕ) :
    Readable db reader peer (unreadRecords db reader (dialogMessages db reader peer)) where
  nodup := by
    have hsub : ((unreadRecords db reader (dialogMessages db reader peer)).map
        MessageView.messageId).Sublist (dialogMessages db reader peer) := by
      generalize dialogMessages db reader peer = mids
      induction mids with
      | nil => exact .slnil
      | cons mid mids ih =>
        by_cases hu : ∃ m, db.lookup (.M mid) = some m ∧ unreadFor m reader = true
        · obtain ⟨m, hM, hu⟩ := hu
          rw [unreadRecords_cons hM hu, List.map_cons, h.messageId hM]
          exact ih.cons_cons _
        · rw [unreadRecords_skip fun m hM => by simpa using fun hm => hu ⟨m, hM, hm⟩]
          exact ih.cons _
    exact (dialogMessages_nodup db reader peer).sublist hsub
  stored := by
    intro m hm
    obtain ⟨mid, -, hM, -⟩ := mem_unreadRecords.1 hm
    rw [h.messageId hM]
    exact hM
  unread := by
    intro m hm
    obtain ⟨mid, hmid, hM, hu⟩ := mem_unreadRecords.1 hm
    obtain ⟨m', hM', hmin, hmax⟩ := (h.history _ _ _).1 (mem_dialogMessages.1 hmid)
    rw [hM] at hM'
    cases hM'
    have hto : m.toUserId = reader := by
      simp only [unreadFor, Bool.and_eq_true, decide_eq_true_eq] at hu
      exact hu.1
    simp only [unreadFrom, Bool.and_eq_true, decide_eq_true_eq]
    exact ⟨eq_of_min_max hmin.symm hmax.symm hto, hu⟩
  complete := by
    intro mid m hM hu
    simp only [unreadFrom, Bool.and_eq_true, decide_eq_true_eq] at hu
    have hto : m.toUserId = reader := by
      have := hu.2
      simp only [unreadFor, Bool.and_eq_true, decide_eq_true_eq] at this
      exact this.1
    refine mem_unreadRecords.2 ⟨mid, mem_dialogMessages.2 ((h.history _ _ _).2 ⟨m, hM, ?_, ?_⟩), hM, hu.2⟩
    · rw [hto, hu.1, min_comm]
    · rw [hto, hu.1, max_comm]

/-! ## The loop -/

theorem readLoop_spec (h : Rows db) {mids : List ℕ} {c c' : Reads}
    (hc : readLoop env db reader peer mids c = .ok c') :
    c' = collectReads reader env.clock.now (unreadRecords db reader mids) c := by
  induction mids generalizing c with
  | nil =>
    cases hc
    rfl
  | cons mid mids ih =>
    obtain ⟨found, hfound, hc⟩ := bind_eq_ok.1 hc
    obtain ⟨_, hreq, hc⟩ := bind_eq_ok.1 hc
    obtain ⟨_, _, hc⟩ := bind_eq_ok.1 hc
    have hf : found.found = true := by
      simp only [require_eq_ok, GetResult.Found, Bool.and_eq_true] at hreq
      exact hreq.2
    have hM := (h.record_found hfound hf).1
    split at hc
    · next hu =>
      obtain ⟨_, _, hc⟩ := bind_eq_ok.1 hc
      obtain ⟨_, _, hc⟩ := bind_eq_ok.1 hc
      rw [ih hc, unreadRecords_cons hM hu]
      rfl
    · next hu =>
      rw [ih hc, unreadRecords_skip fun m hm => by rw [hM] at hm; cases hm; simpa using hu]

theorem readLoop_raises (h : Rows db) (mids : List ℕ) (c : Reads) :
    Raises (readLoop env db reader peer mids c) (Admissible env) := by
  induction mids generalizing c with
  | nil => exact raises_ok _ _
  | cons mid mids ih =>
    refine h.record_raises.bind fun found _ => ?_
    refine (raises_admissible (by decide)).bind fun _ _ => ?_
    refine (raises_admissible (by decide)).bind fun _ _ => ?_
    split
    · refine (raises_admissible (by decide)).bind fun _ _ => ?_
      exact (raises_admissible (by decide)).bind fun _ _ => ih _
    · exact ih _

/-! ## The call -/

def EventInMap (id : Bytes) (db : Db) : Prop := (db.lookup (.E id)).isSome ∧ (db.lookup (.A id)).isSome

theorem eventInMap_eventWrites (db : Db) (row : PendingLocalEvent) :
    EventInMap row.eventId (apply db (eventWrites row)) := by
  simp [EventInMap, eventWrites, apply, step]

structure ReadDialog (env : Env) (reader peer : ℕ) (s : Store) (r : MutationResult) (s' : Store) :
    Prop extends Mutated (readKind (readEventId env.clock reader peer)) env s r s' where
  event : r.status = .succeeded → 0 < r.affectedRows →
    Wal.Durable (EventInMap (readEventId env.clock reader peer)) s'.log

theorem readBody_ends (h : Inv s) :
    Ends (readBody opts env reader peer) s (ReadDialog env reader peer s)
      (Failed (readKind (readEventId env.clock reader peer)) env s) := by
  refine check_bind (Failed.raises_refl (dialog_admissible _ _)) fun _ _ => ?_
  refine Ends.bind (Failed.same_refl (lockUsers_ends _)) fun _ t ht => ?_
  have hm := (Moves.refl (K := readKind (readEventId env.clock reader peer)) s).frame ht
  have hinv := h.moves hm
  have hread := hinv.sound.toRows.readable reader peer
  refine Ends.inspect_bind (Failed.raises hm ht.sameMap (readLoop_raises hinv.sound.toRows _ _))
    fun c hc => ?_
  obtain rfl := readLoop_spec hinv.sound.toRows hc
  set ms := unreadRecords t.db reader (dialogMessages t.db reader peer) with hms
  split
  · exact Ends.pure ⟨⟨hm, textOk_empty⟩, fun _ hpos => absurd hpos (lt_irrefl 0)⟩
  refine Ends.read_bind (check_bind ?_ fun _ _ => ?_)
  · rw [hread.checkReadCounters_ok hinv.sound]
    exact raises_ok _ _
  refine check_bind (Failed.raises hm ht.sameMap (raises_admissible (by decide))) fun _ _ => ?_
  refine Ends.bind (Failed.same hm ht.sameMap reserve_ends) fun _ t₁ hs₁ => ?_
  have hm₁ := hm.frame hs₁
  have hmap₁ := ht.sameMap.trans hs₁.sameMap
  refine Failed.onThrow sameData_release ?_
  refine check_bind (Failed.raises hm₁ hmap₁ (encodeEvent_admissible _)) fun row hrow => ?_
  refine Ends.bind (Failed.same hm₁ hmap₁ (prepare_ends _)) fun _ t₂ hs₂ => ?_
  have hm₂ := hm₁.frame hs₂
  have hdb : t₂.db = t.db := (hs₁.trans hs₂).db
  have hevent : row.eventId = readEventId env.clock reader peer := encodeEvent_eventId hrow
  have hfits : (Change.read reader peer ms env.clock.now row).Fits t₂ := by
    rw [Change.Fits, hdb]
    exact hread
  have hK : readKind (readEventId env.clock reader peer)
      (.read reader peer ms env.clock.now row) := hevent
  rw [← hdb]
  refine Ends.bind (Failed.onThrow (sameData_unprepare _) (Failed.after hm₂
    (hmap₁.trans hs₂.sameMap) (write_ends hK hfits))) ?_
  rintro _ _ ⟨rfl, hp⟩
  refine Ends.modify_bind (Ends.pure ⟨⟨(hm₂.written hK hfits hp).frame (sameData_commit _ _),
    textOk_empty⟩, fun _ _ => ?_⟩)
  rw [(sameData_commit _ _).log]
  refine (h.moves hm₂).durable_written hp rfl ?_
  rw [Change.batch, apply_append, ← hevent]
  exact eventInMap_eventWrites _ row

theorem markDialogRead_spec (opts : Options) (env : Env) (reader peer : ℕ) (h : Inv s) :
    ReadDialog env reader peer s (markDialogRead opts env reader peer s).1
      (markDialogRead opts env reader peer s).2 := by
  rcases call_ends id MutationResult.ofFailure (Failed.raises_refl (checkOpen_admissible s))
    fun _ => readBody_ends h with ⟨r, hr, hm⟩ | ⟨e, hr, hf⟩
  · rw [markDialogRead, hr]
    exact hm
  · rw [markDialogRead, hr]
    exact ⟨⟨hf.moves, hf.admissible.text⟩, fun hs => absurd hs hf.admissible.status⟩

end TinyImx.Local
