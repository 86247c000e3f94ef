import TinyImx.Local.Persist
import TinyImx.Local.Records

/-!
# Sound maps and new messages

`Sound db` adds the counters to `Rows`: every counter is the number of records it stands for.  It
does not look at events, and a message whose id and client id are new keeps it, alone or in a group.
-/

namespace TinyImx.Local

open Kv

structure Sound (db : Db) : Prop extends Rows db where
  dialogUnread : ∀ r p, dialogCount db r p = recordCount (unreadFrom r p) db
  totalUnread : ∀ r, totalCount db r = recordCount (unreadFor · r) db
  pendingTotal : ∀ r, db.lookup (.Q r) =
    if recordCount (pendingFor r) db = 0 then none else some (recordCount (pendingFor r) db)
  peer : ∀ r p, 0 < dialogCount db r p → (db.lookup (.R r p)).isSome
  reserved : ∃ h : ℕ, db.lookup .high = some h ∧ h < int64Max ∧
    ∀ mid m, db.lookup (.M mid) = some m → mid ≤ h

namespace Sound

variable {db : Db}

theorem pendingCount_eq (h : Sound db) (r : ℕ) : pendingCount db r = recordCount (pendingFor r) db := by
  rw [pendingCount, h.pendingTotal]
  split <;> simp_all

theorem dialog_le_total (h : Sound db) (r p : ℕ) : dialogCount db r p ≤ totalCount db r := by
  rw [h.dialogUnread, h.totalUnread]
  exact recordCount_mono fun m hm => by simp only [unreadFrom, Bool.and_eq_true] at hm; exact hm.2

theorem pending_le_total (h : Sound db) (r : ℕ) : pendingCount db r ≤ totalCount db r := by
  rw [h.pendingCount_eq, h.totalUnread]
  refine recordCount_mono fun m hm => ?_
  simp only [pendingFor, Bool.and_eq_true, decide_eq_true_eq] at hm
  simp [unreadFor, hm.1, hm.2]

theorem total_lt (h : Sound db) (r : ℕ) : totalCount db r < uint64Max := by
  obtain ⟨e, -, hlt, hle⟩ := h.reserved
  have hcount : recordCount (unreadFor · r) db ≤ e + 1 :=
    recordCount_le fun mid m hm => Nat.lt_succ_of_le (hle mid m hm)
  have hmax : int64Max + 1 < uint64Max := by decide
  rw [h.totalUnread]
  omega

theorem checkCounters_ok (h : Sound db) (r p : ℕ) :
    checkCounters (totalCount db r) (dialogCount db r p) (pendingCount db r) = .ok () := by
  simp [checkCounters, require, h.total_lt r, h.dialog_le_total r p, h.pending_le_total r]

end Sound

/-! ## Batches that touch no message -/

def Key.isEvent : Key → Bool
  | .E _ | .A _ | .F _ => true
  | _ => false

def Key.isCounter : Key → Bool
  | .N _ | .D .. | .Q _ => true
  | _ => false

theorem Sound.of_agree {db db' : Db} (h : Sound db)
    (hlookup : ∀ {k : Key}, k.isEvent = false → k ≠ .high → db'.lookup k = db.lookup k)
    (hhigh : ∃ n : ℕ, db'.lookup .high = some n ∧ n < int64Max ∧
      ∀ mid m, db.lookup (.M mid) = some m → mid ≤ n) : Sound db' := by
  have hcount : ∀ φ, recordCount φ db' = recordCount φ db :=
    fun φ => recordCount_congr fun mid => hlookup rfl (by simp)
  constructor
  · refine h.toRows.of_agree fun {k} hk => hlookup ?_ ?_
    · cases k <;> simp_all [Key.isRow, Key.isEvent]
    · rintro rfl
      cases hk
  · intro r p
    rw [dialogCount, hlookup rfl (by simp), hcount]
    exact h.dialogUnread r p
  · intro r
    rw [totalCount, hlookup rfl (by simp), hcount]
    exact h.totalUnread r
  · intro r
    rw [hlookup rfl (by simp), hcount]
    exact h.pendingTotal r
  · intro r p
    rw [dialogCount, hlookup rfl (by simp), hlookup rfl (by simp)]
    exact h.peer r p
  · obtain ⟨n, hn, hlt, hle⟩ := hhigh
    exact ⟨n, hn, hlt, fun mid m hm => hle mid m (by rwa [hlookup rfl (by simp)] at hm)⟩

theorem Sound.events {db : Db} (h : Sound db) {batch : List Write}
    (hb : ∀ w ∈ batch, w.key.isEvent = true) : Sound (apply db batch) := by
  have hlookup : ∀ {k : Key}, k.isEvent = false → (apply db batch).lookup k = db.lookup k := by
    intro k hk
    refine lookup_apply_of_forall_ne fun w hw heq => ?_
    simp_all
  refine h.of_agree (fun hk _ => hlookup hk) ?_
  rw [hlookup rfl]
  exact h.reserved

theorem Sound.reserve {db : Db} (h : Sound db) {n : ℕ} (hn : n < int64Max)
    (hle : ∀ mid m, db.lookup (.M mid) = some m → mid ≤ n) :
    Sound (apply db [.put .high n]) := by
  refine h.of_agree (fun _ hk => ?_) ⟨n, lookup_step_put db .high n, hn, hle⟩
  exact AList.lookup_insert_ne hk

/-! ## New messages -/

structure NewMessage where
  message : MessageView
  canonical : Bytes
  row : PendingLocalEvent

def NewMessage.batch (n : NewMessage) (db : Db) : List Write :=
  messageWrites n.message n.canonical (totalCount db n.message.toUserId)
    (dialogCount db n.message.toUserId n.message.fromUserId)
    (pendingCount db n.message.toUserId) ++ eventWrites n.row

structure NewMessage.Fits (n : NewMessage) (db : Db) : Prop where
  valid : decodeRecord n.message n.message.messageId = .ok n.message
  pending : n.message.deliveryState = .pending
  fresh : db.lookup (.M n.message.messageId) = none
  cid : db.lookup (.I n.message.fromUserId n.canonical) = none
  reserved : ∃ h : ℕ, db.lookup .high = some h ∧ n.message.messageId ≤ h
  event : n.row.eventId = messageEventId n.message.messageId

namespace NewMessage

variable {n : NewMessage} {db : Db}

@[simp] theorem lookup_M (mid : ℕ) : (apply db (n.batch db)).lookup (.M mid) =
    if mid = n.message.messageId then some n.message else db.lookup (.M mid) := by
  by_cases h : mid = n.message.messageId
  · subst h
    simp [batch, messageWrites, eventWrites, apply, step]
  · simp [batch, messageWrites, eventWrites, apply, step, h]

@[simp] theorem lookup_I (f : ℕ) (c : Bytes) : (apply db (n.batch db)).lookup (.I f c) =
    if f = n.message.fromUserId ∧ c = n.canonical then some n.message.messageId
    else db.lookup (.I f c) := by
  by_cases h : f = n.message.fromUserId ∧ c = n.canonical
  · obtain ⟨rfl, rfl⟩ := h
    simp [batch, messageWrites, eventWrites, apply, step]
  · rw [if_neg h]
    simp [batch, messageWrites, eventWrites, apply, step, h]

@[simp] theorem lookup_K (mid : ℕ) : (apply db (n.batch db)).lookup (.K mid) =
    if mid = n.message.messageId then some n.canonical else db.lookup (.K mid) := by
  by_cases h : mid = n.message.messageId
  · subst h
    simp [batch, messageWrites, eventWrites, apply, step]
  · simp [batch, messageWrites, eventWrites, apply, step, h]

@[simp] theorem lookup_H (a b mid : ℕ) : (apply db (n.batch db)).lookup (.H a b mid) =
    if a = min n.message.fromUserId n.message.toUserId ∧
        b = max n.message.fromUserId n.message.toUserId ∧ mid = n.message.messageId then some ()
    else db.lookup (.H a b mid) := by
  by_cases h : a = min n.message.fromUserId n.message.toUserId ∧
      b = max n.message.fromUserId n.message.toUserId ∧ mid = n.message.messageId
  · obtain ⟨rfl, rfl, rfl⟩ := h
    simp [batch, messageWrites, eventWrites, apply, step]
  · rw [if_neg h]
    simp [batch, messageWrites, eventWrites, apply, step, h]

@[simp] theorem lookup_P (r mid : ℕ) : (apply db (n.batch db)).lookup (.P r mid) =
    if r = n.message.toUserId ∧ mid = n.message.messageId then some ()
    else db.lookup (.P r mid) := by
  by_cases h : r = n.message.toUserId ∧ mid = n.message.messageId
  · obtain ⟨rfl, rfl⟩ := h
    simp [batch, messageWrites, eventWrites, apply, step]
  · rw [if_neg h]
    simp [batch, messageWrites, eventWrites, apply, step, h]

@[simp] theorem lookup_R (r p : ℕ) : (apply db (n.batch db)).lookup (.R r p) =
    if r = n.message.toUserId ∧ p = n.message.fromUserId then some ()
    else db.lookup (.R r p) := by
  by_cases h : r = n.message.toUserId ∧ p = n.message.fromUserId
  · obtain ⟨rfl, rfl⟩ := h
    simp [batch, messageWrites, eventWrites, apply, step]
  · rw [if_neg h]
    simp [batch, messageWrites, eventWrites, apply, step, h]

@[simp] theorem lookup_high : (apply db (n.batch db)).lookup .high = db.lookup .high := by
  simp [batch, messageWrites, eventWrites, apply, step]

@[simp] theorem lookup_Q (r : ℕ) : (apply db (n.batch db)).lookup (.Q r) =
    if r = n.message.toUserId then some (pendingCount db r + 1) else db.lookup (.Q r) := by
  by_cases h : r = n.message.toUserId
  · subst h
    simp [batch, messageWrites, eventWrites, apply, step]
  · simp [batch, messageWrites, eventWrites, apply, step, h]

@[simp] theorem totalCount_batch (r : ℕ) : totalCount (apply db (n.batch db)) r =
    totalCount db r + if r = n.message.toUserId then 1 else 0 := by
  by_cases h : r = n.message.toUserId
  · subst h
    simp [totalCount, batch, messageWrites, eventWrites, apply, step]
  · simp [totalCount, batch, messageWrites, eventWrites, apply, step, h]

@[simp] theorem pendingCount_batch (r : ℕ) : pendingCount (apply db (n.batch db)) r =
    pendingCount db r + if r = n.message.toUserId then 1 else 0 := by
  rw [pendingCount, lookup_Q]
  split <;> simp [pendingCount]

@[simp] theorem dialogCount_batch (r p : ℕ) : dialogCount (apply db (n.batch db)) r p =
    dialogCount db r p + if r = n.message.toUserId ∧ p = n.message.fromUserId then 1 else 0 := by
  by_cases h : r = n.message.toUserId ∧ p = n.message.fromUserId
  · obtain ⟨rfl, rfl⟩ := h
    simp [dialogCount, batch, messageWrites, eventWrites, apply, step]
  · rw [if_neg h]
    simp [dialogCount, batch, messageWrites, eventWrites, apply, step, h]

@[simp] theorem lookup_E (id : Bytes) : (apply db (n.batch db)).lookup (.E id) =
    if id = n.row.eventId then some n.row else db.lookup (.E id) := by
  by_cases h : id = n.row.eventId
  · subst h
    simp [batch, messageWrites, eventWrites, apply, step]
  · simp [batch, messageWrites, eventWrites, apply, step, h]

@[simp] theorem lookup_A (id : Bytes) : (apply db (n.batch db)).lookup (.A id) =
    if id = n.row.eventId then some n.row else db.lookup (.A id) := by
  by_cases h : id = n.row.eventId
  · subst h
    simp [batch, messageWrites, eventWrites, apply, step]
  · simp [batch, messageWrites, eventWrites, apply, step, h]

@[simp] theorem lookup_F (id : Bytes) :
    (apply db (n.batch db)).lookup (.F id) = db.lookup (.F id) := by
  simp [batch, messageWrites, eventWrites, apply, step]

theorem recordCount_batch (hn : n.Fits db) (φ : MessageView → Bool) :
    recordCount φ (apply db (n.batch db)) = recordCount φ db + (φ n.message).toNat := by
  rw [← recordCount_put_new hn.fresh]
  refine recordCount_congr fun mid => ?_
  by_cases h : mid = n.message.messageId
  · subst h
    simp
  · simp [h]

/-- A new message keeps the mirrors of the records exact. -/
theorem Fits.rows (hn : n.Fits db) (h : Rows db) : Rows (apply db (n.batch db)) := by
  constructor
  · intro mid m hm
    rw [lookup_M] at hm
    split at hm
    · next hmid =>
      cases hm
      rw [hmid]
      exact hn.valid
    · exact h.record hm
  · intro r mid
    rw [lookup_P, lookup_M]
    by_cases hmid : mid = n.message.messageId
    · subst hmid
      have hnone : ¬(db.lookup (.P r n.message.messageId)).isSome := by
        rw [h.pending, hn.fresh]
        simp
      by_cases hr : r = n.message.toUserId
      · simp [hr, pendingFor, hn.pending]
      · simpa [hr, pendingFor, Ne.symm hr] using hnone
    · simpa [hmid] using h.pending r mid
  · intro a b mid
    rw [lookup_H, lookup_M]
    by_cases hmid : mid = n.message.messageId
    · subst hmid
      have hnone : ¬(db.lookup (.H a b n.message.messageId)).isSome := by
        rw [h.history, hn.fresh]
        simp
      simp_all
    · simpa [hmid] using h.history a b mid
  · intro f c mid hI
    rw [lookup_I] at hI
    split at hI
    · next hfc =>
      simp_all
    · obtain ⟨m, hm, hf, hK⟩ := h.cid hI
      have hmid : mid ≠ n.message.messageId := by
        rintro rfl
        rw [hn.fresh] at hm
        cases hm
      exact ⟨m, by simpa [hmid] using hm, hf, by simpa [hmid] using hK⟩
  · intro mid m hm
    rw [lookup_M] at hm
    split at hm
    · next hmid =>
      simp_all
    · next hmid =>
      obtain ⟨c, hK, hI⟩ := h.canonical hm
      refine ⟨c, by simpa [hmid] using hK, ?_⟩
      rw [lookup_I, if_neg]
      · exact hI
      · rintro ⟨hf, rfl⟩
        rw [hf, hn.cid] at hI
        cases hI

/-- A new message keeps a sound map sound. -/
theorem Fits.sound (hn : n.Fits db) (h : Sound db) : Sound (apply db (n.batch db)) := by
  have hcount := recordCount_batch hn
  constructor
  · exact hn.rows h.toRows
  · intro r p
    rw [dialogCount_batch, hcount, h.dialogUnread]
    by_cases hrp : r = n.message.toUserId ∧ p = n.message.fromUserId
    · obtain ⟨rfl, rfl⟩ := hrp
      simp [unreadFrom, unreadFor, hn.pending]
    · have hφ : unreadFrom r p n.message = false := by
        simp only [unreadFrom, unreadFor, Bool.and_eq_false_iff, decide_eq_false_iff_not]
        by_cases hf : n.message.fromUserId = p
        · exact .inr (.inl fun ht => hrp ⟨ht.symm, hf.symm⟩)
        · exact .inl hf
      rw [if_neg hrp, hφ]
      rfl
  · intro r
    rw [totalCount_batch, hcount, h.totalUnread]
    by_cases hr : r = n.message.toUserId
    · subst hr
      simp [unreadFor, hn.pending]
    · simp [unreadFor, hr, Ne.symm hr]
  · intro r
    rw [lookup_Q, hcount]
    by_cases hr : r = n.message.toUserId
    · subst hr
      simp [pendingFor, hn.pending, h.pendingCount_eq]
    · simpa [pendingFor, hr, Ne.symm hr] using h.pendingTotal r
  · intro r p
    rw [dialogCount_batch, lookup_R]
    by_cases hrp : r = n.message.toUserId ∧ p = n.message.fromUserId
    · simp [hrp]
    · simpa [hrp] using h.peer r p
  · obtain ⟨e, he, hlt, hle⟩ := h.reserved
    refine ⟨e, by simpa using he, hlt, fun mid m hm => ?_⟩
    rw [lookup_M] at hm
    split at hm
    · next hmid =>
      obtain ⟨e', he', hmle⟩ := hn.reserved
      grind
    · exact hle mid m hm

end NewMessage

def groupBatch : Db → List NewMessage → List Write
  | _, [] => []
  | db, n :: ns => n.batch db ++ groupBatch (apply db (n.batch db)) ns

def GroupFits : Db → List NewMessage → Prop
  | _, [] => True
  | db, n :: ns => n.Fits db ∧ GroupFits (apply db (n.batch db)) ns

theorem groupBatch_snoc (db : Db) (ns : List NewMessage) (n : NewMessage) :
    groupBatch db (ns ++ [n]) = groupBatch db ns ++ n.batch (apply db (groupBatch db ns)) := by
  induction ns generalizing db with
  | nil => simp [groupBatch]
  | cons n' ns ih => simp [groupBatch, ih, apply_append]

theorem groupFits_snoc {db : Db} {ns : List NewMessage} {n : NewMessage} :
    GroupFits db (ns ++ [n]) ↔ GroupFits db ns ∧ n.Fits (apply db (groupBatch db ns)) := by
  induction ns generalizing db with
  | nil => simp [GroupFits, groupBatch]
  | cons n' ns ih => simp [GroupFits, groupBatch, ih, apply_append, and_assoc]

theorem GroupFits.sound {db : Db} {ns : List NewMessage} (hns : GroupFits db ns) (h : Sound db) :
    Sound (apply db (groupBatch db ns)) := by
  induction ns generalizing db with
  | nil => exact h
  | cons n ns ih =>
    rw [groupBatch, apply_append]
    exact ih hns.2 (hns.1.sound h)

end TinyImx.Local
