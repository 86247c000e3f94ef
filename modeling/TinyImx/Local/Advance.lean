import TinyImx.Local.Sound

/-!
# Confirmed and read messages keep a map sound

Both calls move a group of messages on and then write the counters that changed.  For a dialog that
is read, the group holds every unread message of the dialog, so the counter checks pass.
-/

namespace TinyImx.Local

open Kv

/-! ## Confirmed messages -/

theorem confirmWrites_advanced {db : Db} {m : MessageView} (now : Bytes)
    (hm : db.lookup (.M m.messageId) = some m) :
    Advanced db m (confirmed m now) (apply db (confirmWrites m now)) where
  stored := hm
  same := rfl
  left := by simp [confirmed]
  record := by simp [confirmWrites, apply, step]
  pending := by simp [confirmWrites, apply, step]
  other := by
    intro k hM hP
    simp [confirmWrites, apply, step, hM, hP]

def confirmCounters (db : Db) (removed : List ℕ) : List Write :=
  (actorSet removed).map fun r => pendingWrite r (pendingCount db r) (removed.count r)

theorem pendingWrite_key (r p c : ℕ) : (pendingWrite r p c).key = .Q r := by
  unfold pendingWrite
  split <;> rfl

theorem lookup_pendingWrite (db : Db) (r p c : ℕ) : (step db (pendingWrite r p c)).lookup (.Q r) =
    if p = c then none else some (p - c) := by
  unfold pendingWrite
  split <;> simp

theorem mem_actorSet {a : ℕ} {l : List ℕ} : a ∈ actorSet l ↔ a ∈ l := by
  rw [actorSet, (List.perm_insertionSort (· ≤ ·) _).mem_iff, List.mem_dedup]

theorem lookup_map_pendingWrite (db : Db) (p c : ℕ → ℕ) (rs : List ℕ) (r : ℕ) :
    (apply db (rs.map fun r => pendingWrite r (p r) (c r))).lookup (.Q r) =
      if r ∈ rs then if p r = c r then none else some (p r - c r) else db.lookup (.Q r) := by
  induction rs generalizing db with
  | nil => rfl
  | cons a rs ih =>
    rw [List.map_cons, apply_cons, ih]
    by_cases hmem : r ∈ rs
    · simp [hmem]
    · by_cases ha : r = a
      · subst ha
        simp [hmem, lookup_pendingWrite]
      · rw [lookup_step_of_ne (by rw [pendingWrite_key]; simpa using ha)]
        simp [hmem, ha]

structure Confirmable (db : Db) (ms : List MessageView) : Prop where
  nodup : (ms.map MessageView.messageId).Nodup
  stored : ∀ m ∈ ms, db.lookup (.M m.messageId) = some m
  pending : ∀ m ∈ ms, m.deliveryState = .pending

theorem countP_pendingFor {ms : List MessageView} (h : ∀ m ∈ ms, m.deliveryState = .pending)
    (r : ℕ) : ms.countP (pendingFor r) = (ms.map MessageView.toUserId).count r := by
  rw [List.count, List.countP_map]
  refine List.countP_congr fun m hm => ?_
  simp [pendingFor, h m hm]

theorem Sound.of_advances {f : MessageView → MessageView} {ms : List MessageView} {db db₁ db' : Db}
    (h : Sound db) (ha : Advances f db ms db₁)
    (hlookup : ∀ {k : Key}, k.isEvent = false → k.isCounter = false → db'.lookup k = db₁.lookup k)
    (hdialog : ∀ r p, dialogCount db' r p = recordCount (unreadFrom r p) db₁)
    (htotal : ∀ r, totalCount db' r = recordCount (unreadFor · r) db₁)
    (hpending : ∀ r, db'.lookup (.Q r) =
      if recordCount (pendingFor r) db₁ = 0 then none else some (recordCount (pendingFor r) db₁))
    (hpeer : ∀ r p, 0 < dialogCount db' r p → 0 < dialogCount db r p) : Sound db' := by
  have hcount : ∀ φ, recordCount φ db' = recordCount φ db₁ := fun φ =>
    recordCount_congr fun mid => hlookup rfl rfl
  constructor
  · refine (ha.rows h.toRows).of_agree fun {k} hk => hlookup ?_ ?_
    all_goals cases k <;> simp_all [Key.isRow, Key.isEvent, Key.isCounter]
  · intro r p
    rw [hdialog, hcount]
  · intro r
    rw [htotal, hcount]
  · intro r
    rw [hpending, hcount]
  · intro r p hpos
    rw [hlookup rfl rfl, ha.other (by simp) (by simp)]
    exact h.peer r p (hpeer r p hpos)
  · obtain ⟨e, he, hlt, hle⟩ := h.reserved
    refine ⟨e, ?_, hlt, fun mid m hm => ?_⟩
    · rw [hlookup rfl rfl, ha.other (by simp) (by simp)]
      exact he
    · rw [hlookup rfl rfl] at hm
      obtain ⟨m₀, hm₀⟩ := ha.exists_before hm
      exact hle mid m₀ hm₀

theorem Confirmable.advances {db : Db} {ms : List MessageView} (hms : Confirmable db ms)
    (h : Rows db) (now : Bytes) :
    Advances (confirmed · now) db ms (apply db (ms.flatMap (confirmWrites · now))) :=
  .of_flatMap (fun _ _ _ _ hm => confirmWrites_advanced now hm) h hms.nodup hms.stored

theorem lookup_confirmCounters {db db₁ : Db} {removed : List ℕ} {k : Key} (hk : ∀ r, k ≠ .Q r) :
    (apply db₁ (confirmCounters db removed)).lookup k = db₁.lookup k := by
  refine lookup_apply_of_forall_ne fun w hw => ?_
  obtain ⟨r, -, rfl⟩ := List.mem_map.1 hw
  rw [pendingWrite_key]
  exact hk r

/-- A confirmed group keeps a sound map sound. -/
theorem Confirmable.sound {db : Db} {ms : List MessageView} (hms : Confirmable db ms)
    (h : Sound db) (now : Bytes) :
    Sound (apply db (ms.flatMap (confirmWrites · now) ++
      confirmCounters db (ms.map MessageView.toUserId))) := by
  have ha := hms.advances h.toRows now
  rw [apply_append]
  -- a pending message and a confirmed one are both unread
  have hunread : ∀ φ : MessageView → Bool, (∀ m ∈ ms, φ (confirmed m now) = φ m) →
      recordCount φ (apply db (ms.flatMap (confirmWrites · now))) = recordCount φ db := by
    intro φ hφ
    have hcount := ha.recordCount φ
    have hsame : ms.countP (fun m => φ (confirmed m now)) = ms.countP φ :=
      List.countP_congr fun m hm => by rw [hφ m hm]
    omega
  have hfor : ∀ r, ∀ m ∈ ms, unreadFor (confirmed m now) r = unreadFor m r := by
    intro r m hm
    simp only [unreadFor, confirmed, hms.pending m hm]
    rfl
  have hfrom : ∀ r p, ∀ m ∈ ms, unreadFrom r p (confirmed m now) = unreadFrom r p m := by
    intro r p m hm
    rw [unreadFrom, unreadFrom, hfor r m hm]
    rfl
  refine h.of_advances ha ?_ ?_ ?_ ?_ ?_
  · intro k _ hk
    refine lookup_confirmCounters fun r heq => ?_
    rw [heq] at hk
    cases hk
  · intro r p
    rw [dialogCount, lookup_confirmCounters (by simp), ha.other (by simp) (by simp), hunread _ (hfrom r p)]
    exact h.dialogUnread r p
  · intro r
    rw [totalCount, lookup_confirmCounters (by simp), ha.other (by simp) (by simp), hunread _ (hfor r)]
    exact h.totalUnread r
  · intro r
    have hcount := ha.recordCount (pendingFor r)
    have hzero : ms.countP (fun m => pendingFor r (confirmed m now)) = 0 := by
      simp [pendingFor, confirmed]
    rw [hzero, countP_pendingFor hms.pending, ← h.pendingCount_eq] at hcount
    rw [confirmCounters, lookup_map_pendingWrite]
    by_cases hr : r ∈ ms.map MessageView.toUserId
    · rw [if_pos (mem_actorSet.2 hr)]
      grind
    · rw [if_neg fun hmem => hr (mem_actorSet.1 hmem), ha.other (by simp) (by simp),
        h.pendingTotal, ← h.pendingCount_eq]
      grind
  · intro r p
    rw [dialogCount, lookup_confirmCounters (by simp), ha.other (by simp) (by simp)]
    exact id

/-! ## Dialogs that have been read -/

def readEntry (reader : ℕ) (now : Bytes) (m : MessageView) : List Write :=
  (if m.deliveryState = .pending then [.delete (.P reader m.messageId)] else []) ++
    [.put (.M m.messageId) (markedRead m now)]

def collectReads (reader : ℕ) (now : Bytes) (ms : List MessageView) (c : Reads) : Reads :=
  ms.foldl (fun c m => c.add m reader now) c

theorem collectReads_eq (reader : ℕ) (now : Bytes) (ms : List MessageView) (c : Reads) :
    collectReads reader now ms c =
      { batch := c.batch ++ ms.flatMap (readEntry reader now)
        changed := c.changed + ms.length
        pendingRemoved := c.pendingRemoved + ms.countP (·.deliveryState = .pending) } := by
  induction ms generalizing c with
  | nil => simp [collectReads]
  | cons m ms ih =>
    rw [collectReads, List.foldl_cons, ← collectReads, ih]
    simp only [Reads.add, readEntry, List.flatMap_cons, List.append_assoc, List.length_cons,
      List.countP_cons, Reads.mk.injEq, true_and, decide_eq_true_eq]
    omega

structure Readable (db : Db) (reader peer : ℕ) (ms : List MessageView) : Prop where
  nodup : (ms.map MessageView.messageId).Nodup
  stored : ∀ m ∈ ms, db.lookup (.M m.messageId) = some m
  unread : ∀ m ∈ ms, unreadFrom reader peer m = true
  complete : ∀ mid m, db.lookup (.M mid) = some m → unreadFrom reader peer m = true → m ∈ ms

theorem readEntry_advanced {db : Db} {m : MessageView} {reader : ℕ} (now : Bytes) (h : Rows db)
    (hm : db.lookup (.M m.messageId) = some m) (hto : m.toUserId = reader) :
    Advanced db m (markedRead m now) (apply db (readEntry reader now m)) where
  stored := hm
  same := rfl
  left := by simp [markedRead]
  record := by
    by_cases hp : m.deliveryState = .pending <;> simp [readEntry, hp, apply, step]
  pending := by
    subst hto
    by_cases hp : m.deliveryState = .pending
    · simp [readEntry, hp, apply, step]
    · have hnone : ¬(db.lookup (.P m.toUserId m.messageId)).isSome := by
        rw [h.pending, hm]
        simpa [pendingFor] using hp
      simpa [readEntry, hp, apply, step] using hnone
  other := by
    intro k hM hP
    rw [hto] at hP
    by_cases hp : m.deliveryState = .pending <;> simp [readEntry, hp, apply, step, hM, hP]

namespace Readable

variable {db : Db} {reader peer : ℕ} {ms : List MessageView}

theorem users (hms : Readable db reader peer ms) {m : MessageView} (hm : m ∈ ms) :
    m.fromUserId = peer ∧ m.toUserId = reader := by
  have := hms.unread m hm
  simp only [unreadFrom, unreadFor, Bool.and_eq_true, decide_eq_true_eq] at this
  exact ⟨this.1, this.2.1⟩

theorem advances (hms : Readable db reader peer ms) (h : Rows db) (now : Bytes) :
    Advances (markedRead · now) db ms (apply db (ms.flatMap (readEntry reader now))) :=
  .of_flatMap (fun _ _ hm hr hs => readEntry_advanced now hr hs (hms.users hm).2) h hms.nodup
    hms.stored

theorem recordCount_add (hms : Readable db reader peer ms) (h : Rows db) (now : Bytes)
    {φ : MessageView → Bool} (hφ : ∀ m ∈ ms, φ (markedRead m now) = false) :
    recordCount φ (apply db (ms.flatMap (readEntry reader now))) + ms.countP φ =
      recordCount φ db := by
  have hcount := (hms.advances h now).recordCount φ
  simp_all

theorem countP_unreadFrom (hms : Readable db reader peer ms) (r p : ℕ) :
    ms.countP (unreadFrom r p) = if r = reader ∧ p = peer then ms.length else 0 := by
  split
  · next hrp =>
    rw [hrp.1, hrp.2]
    exact List.countP_eq_length.2 hms.unread
  · next hrp =>
    refine List.countP_eq_zero.2 fun m hm hu => hrp ?_
    obtain ⟨hf, ht⟩ := hms.users hm
    simp only [unreadFrom, unreadFor, Bool.and_eq_true, decide_eq_true_eq] at hu
    exact ⟨hu.2.1.symm.trans ht, hu.1.symm.trans hf⟩

theorem countP_unreadFor (hms : Readable db reader peer ms) (r : ℕ) :
    ms.countP (unreadFor · r) = if r = reader then ms.length else 0 := by
  split
  · next hr =>
    refine List.countP_eq_length.2 fun m hm => ?_
    have := hms.unread m hm
    simp only [unreadFrom, Bool.and_eq_true] at this
    rw [hr]
    exact this.2
  · next hr =>
    refine List.countP_eq_zero.2 fun m hm hu => hr ?_
    simp only [unreadFor, Bool.and_eq_true, decide_eq_true_eq] at hu
    exact hu.1.symm.trans (hms.users hm).2

theorem countP_pendingFor (hms : Readable db reader peer ms) (r : ℕ) :
    ms.countP (pendingFor r) =
      if r = reader then ms.countP (·.deliveryState = .pending) else 0 := by
  split
  · next hr =>
    refine List.countP_congr fun m hm => ?_
    simp [pendingFor, (hms.users hm).2, hr]
  · next hr =>
    refine List.countP_eq_zero.2 fun m hm hu => hr ?_
    simp only [pendingFor, Bool.and_eq_true, decide_eq_true_eq] at hu
    exact hu.1.symm.trans (hms.users hm).2

theorem dialogCount_eq (hms : Readable db reader peer ms) (h : Sound db) :
    dialogCount db reader peer = ms.length := by
  have hcount := hms.recordCount_add h.toRows [] (φ := unreadFrom reader peer)
    (by simp [unreadFrom, unreadFor, markedRead])
  rw [hms.countP_unreadFrom, if_pos ⟨rfl, rfl⟩, ← h.dialogUnread] at hcount
  -- an unread message that is left would have been in the group
  have hzero : recordCount (unreadFrom reader peer)
      (apply db (ms.flatMap (readEntry reader []))) = 0 := by
    by_contra hne
    obtain ⟨mid, m, hm, hu⟩ := exists_of_recordCount_pos (Nat.pos_of_ne_zero hne)
    have ha := hms.advances h.toRows []
    by_cases hmid : mid ∈ ms.map MessageView.messageId
    · obtain ⟨m', hm', rfl⟩ := List.mem_map.1 hmid
      rw [ha.lookup_of_mem hms.nodup hm'] at hm
      cases hm
      simp [unreadFrom, unreadFor, markedRead] at hu
    · rw [ha.lookup_of_not_mem hmid] at hm
      have hmem := hms.complete mid m hm hu
      rw [← h.messageId hm] at hmid
      exact hmid (List.mem_map_of_mem hmem)
  omega

theorem checkReadCounters_ok (hms : Readable db reader peer ms) (h : Sound db) (now : Bytes) :
    checkReadCounters (collectReads reader now ms {}) (totalCount db reader)
      (dialogCount db reader peer) (pendingCount db reader) = .ok () := by
  have htotal := hms.recordCount_add h.toRows [] (φ := (unreadFor · reader))
    (by simp [unreadFor, markedRead])
  have hpending := hms.recordCount_add h.toRows [] (φ := pendingFor reader)
    (by simp [pendingFor, markedRead])
  rw [hms.countP_unreadFor, if_pos rfl, ← h.totalUnread] at htotal
  rw [hms.countP_pendingFor, if_pos rfl, ← h.pendingCount_eq] at hpending
  have hd := hms.dialogCount_eq h
  have h1 : ms.length ≤ totalCount db reader := by omega
  have h2 : ms.countP (·.deliveryState = .pending) ≤ pendingCount db reader := by omega
  simp [checkReadCounters, require, collectReads_eq, hd, h1, h2]

theorem lookup_readBatch {row : PendingLocalEvent} {now : Bytes} {total pending : ℕ} {k : Key}
    (hk : k.isEvent = false) (hc : k.isCounter = false) :
    (apply db ((collectReads reader now ms {}).batch ++
      readWrites reader peer total pending (collectReads reader now ms {}) ++
        eventWrites row)).lookup k =
      (apply db (ms.flatMap (readEntry reader now))).lookup k := by
  rw [collectReads_eq, List.append_assoc, apply_append]
  refine lookup_apply_of_forall_ne fun w hw heq => ?_
  subst heq
  simp only [readWrites, eventWrites, List.mem_append, List.mem_cons, List.not_mem_nil,
    or_false] at hw
  rcases hw with (rfl | rfl | rfl) | rfl | rfl
  · cases hc
  · cases hc
  · rw [pendingWrite_key] at hc
    cases hc
  · cases hk
  · cases hk

/-- A dialog that has been read keeps a sound map sound. -/
theorem sound (hms : Readable db reader peer ms) (h : Sound db) (now : Bytes)
    (row : PendingLocalEvent) :
    Sound (apply db ((collectReads reader now ms {}).batch ++
      readWrites reader peer (totalCount db reader) (pendingCount db reader)
        (collectReads reader now ms {}) ++ eventWrites row)) := by
  have ha := hms.advances h.toRows now
  rw [apply_append]
  refine Sound.events ?_ (by simp [eventWrites, Write.key, Key.isEvent])
  rw [collectReads_eq, apply_append]
  simp only [List.nil_append, Nat.zero_add]
  set db₁ := apply db (ms.flatMap (readEntry reader now)) with hdb₁
  set pendingRemoved := ms.countP (·.deliveryState = .pending) with hpr
  have hdialog : ∀ r p, recordCount (unreadFrom r p) db₁ + ms.countP (unreadFrom r p) =
      dialogCount db r p := fun r p => by
    rw [h.dialogUnread]
    exact hms.recordCount_add h.toRows now (by simp [unreadFrom, unreadFor, markedRead])
  have htotal : ∀ r, recordCount (unreadFor · r) db₁ + ms.countP (unreadFor · r) =
      totalCount db r := fun r => by
    rw [h.totalUnread]
    exact hms.recordCount_add h.toRows now (by simp [unreadFor, markedRead])
  have hpending : ∀ r, recordCount (pendingFor r) db₁ + ms.countP (pendingFor r) =
      pendingCount db r := fun r => by
    rw [h.pendingCount_eq]
    exact hms.recordCount_add h.toRows now (by simp [pendingFor, markedRead])
  have hQ : ∀ (db : Db) p c k, k ≠ .Q reader →
      (step db (pendingWrite reader p c)).lookup k = db.lookup k := by
    intro db p c k hk
    exact lookup_step_of_ne (by rwa [pendingWrite_key])
  have hcount : ∀ r p, dialogCount (apply db₁ (readWrites reader peer (totalCount db reader)
      (pendingCount db reader) ⟨ms.flatMap (readEntry reader now), ms.length, pendingRemoved⟩)) r p =
      if r = reader ∧ p = peer then 0 else dialogCount db r p := by
    intro r p
    simp only [dialogCount, readWrites, apply_cons, apply_nil, hQ _ _ _ _ (by simp : Key.D r p ≠ _)]
    split
    · next hrp =>
      rw [hrp.1, hrp.2]
      simp [step]
    · next hrp =>
      simp [step, hrp, ha.other]
  refine h.of_advances ha ?_ ?_ ?_ ?_ ?_
  · intro k _ hk
    refine lookup_apply_of_forall_ne fun w hw heq => ?_
    subst heq
    simp only [readWrites, List.mem_cons, List.not_mem_nil, or_false] at hw
    rcases hw with rfl | rfl | rfl
    · cases hk
    · cases hk
    · rw [pendingWrite_key] at hk
      cases hk
  · intro r p
    have hd := hdialog r p
    rw [hms.countP_unreadFrom] at hd
    rw [hcount]
    split
    · next hrp =>
      rw [if_pos hrp, hrp.1, hrp.2, hms.dialogCount_eq h] at hd
      rw [hrp.1, hrp.2]
      omega
    · next hrp =>
      rw [if_neg hrp] at hd
      omega
  · intro r
    have ht := htotal r
    rw [hms.countP_unreadFor] at ht
    simp only [totalCount, readWrites, apply_cons, apply_nil, hQ _ _ _ _ (by simp : Key.N r ≠ _)]
    by_cases hr : r = reader
    · rw [if_pos hr] at ht
      subst hr
      simp [step, totalCount] at ht ⊢
      omega
    · rw [if_neg hr] at ht
      simp [step, hr, ha.other, totalCount] at ht ⊢
      omega
  · intro r
    have hp := hpending r
    rw [hms.countP_pendingFor] at hp
    simp only [readWrites, apply_cons, apply_nil]
    by_cases hr : r = reader
    · rw [if_pos hr] at hp
      subst hr
      rw [lookup_pendingWrite]
      grind
    · rw [if_neg hr, Nat.add_zero] at hp
      rw [hQ _ _ _ _ (by simpa using hr)]
      simp only [step, ne_eq, reduceCtorEq, not_false_eq_true, AList.lookup_erase_ne,
        AList.lookup_insert_ne]
      rw [ha.other (by simp) (by simp), h.pendingTotal, ← h.pendingCount_eq, hp]
  · grind

end Readable

end TinyImx.Local
