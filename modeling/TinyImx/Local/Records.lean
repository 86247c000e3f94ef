import TinyImx.Local.Confirm

/-!
# Message records and the indices that follow them

`recordCount φ db` is the number of stored messages with `φ`.  `Rows db` says that the keys which
mirror the message records (pending index, history, client ids) are exactly what the records say.
`Advances` is a group of messages that move on from pending or unread; it keeps `Rows` and moves the
record counts by what the group contains.
-/

namespace TinyImx.Local

open Kv

/-! ## Counting records -/

def recordWeight (φ : MessageView → Bool) : (k : Key) → k.Val → ℕ
  | .M _, m => (φ m).toNat
  | _, _ => 0

def recordCount (φ : MessageView → Bool) (db : Db) : ℕ := tally (recordWeight φ) db

def unreadFrom (receiver peer : ℕ) (m : MessageView) : Bool :=
  m.fromUserId = peer && unreadFor m receiver

def pendingFor (receiver : ℕ) (m : MessageView) : Bool :=
  m.toUserId = receiver && m.deliveryState = .pending

variable {φ ψ : MessageView → Bool} {db db' : Db}

theorem recordWeight_eq_zero {k : Key} (h : ∀ mid, k ≠ .M mid) (v : k.Val) :
    recordWeight φ k v = 0 := by
  cases k with
  | M mid => exact absurd rfl (h mid)
  | _ => rfl

theorem recordCount_congr (h : ∀ mid, db.lookup (.M mid) = db'.lookup (.M mid)) :
    recordCount φ db = recordCount φ db' := by
  have hzero : ∀ {db : Db} {k : Key}, (∀ mid, k ≠ .M mid) → weightAt (recordWeight φ) db k = 0 := by
    intro db k hk
    unfold weightAt
    cases db.lookup k with
    | none => rfl
    | some v => exact recordWeight_eq_zero hk v
  refine tally_congr _ fun k => ?_
  by_cases hk : ∃ mid, k = .M mid
  · obtain ⟨mid, rfl⟩ := hk
    rw [weightAt, weightAt, h]
  · grind

theorem recordCount_step_of_ne {w : Write} (h : ∀ mid, w.key ≠ .M mid) :
    recordCount φ (step db w) = recordCount φ db :=
  tally_step_of_zero _ (recordWeight_eq_zero h)

theorem recordCount_apply_of_ne {batch : List Write} (h : ∀ w ∈ batch, ∀ mid, w.key ≠ .M mid) :
    recordCount φ (apply db batch) = recordCount φ db := by
  induction batch generalizing db with
  | nil => rfl
  | cons w batch ih =>
    rw [apply_cons, ih fun w' hw' => h w' (List.mem_cons_of_mem _ hw'),
      recordCount_step_of_ne (h w List.mem_cons_self)]

variable {mid : ℕ} {m : MessageView}

theorem recordCount_put_new (h : db.lookup (.M mid) = none) :
    recordCount φ (db.insert (.M mid) m) = recordCount φ db + (φ m).toNat := by
  have := tally_insert (recordWeight φ) db (.M mid) m
  rw [weightAt_of_none _ h] at this
  exact this

theorem recordCount_put {m' : MessageView} (h : db.lookup (.M mid) = some m) :
    recordCount φ (db.insert (.M mid) m') + (φ m).toNat = recordCount φ db + (φ m').toNat := by
  have := tally_insert (recordWeight φ) db (.M mid) m'
  rw [weightAt_of_lookup _ h] at this
  exact this

theorem exists_of_recordCount_pos (h : 0 < recordCount φ db) :
    ∃ mid m, db.lookup (.M mid) = some m ∧ φ m = true := by
  obtain ⟨k, v, hv, hw⟩ := (tally_pos_iff _).1 h
  cases k with
  | M mid => exact ⟨mid, v, hv, by simpa [recordWeight] using hw⟩
  | _ => exact absurd rfl hw

theorem recordCount_mono (h : ∀ m, φ m = true → ψ m = true) :
    recordCount φ db ≤ recordCount ψ db := by
  refine tally_mono _ fun k v => ?_
  cases k with
  | M mid =>
    simp only [recordWeight]
    cases hφ : φ v with
    | false => exact Nat.zero_le _
    | true => rw [h v hφ]
  | _ => exact le_rfl

theorem recordCount_le {n : ℕ} (h : ∀ mid m, db.lookup (.M mid) = some m → mid < n) :
    recordCount φ db ≤ n := by
  refine tally_le_of_bound _ (f := Key.M) ?_ ?_
  · intro k v
    cases k with
    | M mid => exact Bool.toNat_le _
    | _ => exact Nat.zero_le _
  · intro k v hv hw
    cases k with
    | M mid => exact ⟨mid, h mid v hv, rfl⟩
    | _ => exact absurd rfl hw

/-! ## Records and their mirrors -/

structure Rows (db : Db) : Prop where
  record : ∀ {mid m}, db.lookup (.M mid) = some m → decodeRecord m mid = .ok m
  pending : ∀ r mid, (db.lookup (.P r mid)).isSome ↔
    ∃ m, db.lookup (.M mid) = some m ∧ pendingFor r m = true
  history : ∀ a b mid, (db.lookup (.H a b mid)).isSome ↔
    ∃ m, db.lookup (.M mid) = some m ∧ a = min m.fromUserId m.toUserId ∧
      b = max m.fromUserId m.toUserId
  cid : ∀ {f c mid}, db.lookup (.I f c) = some mid →
    ∃ m, db.lookup (.M mid) = some m ∧ m.fromUserId = f ∧ db.lookup (.K mid) = some c
  canonical : ∀ {mid m}, db.lookup (.M mid) = some m →
    ∃ c, db.lookup (.K mid) = some c ∧ db.lookup (.I m.fromUserId c) = some mid

def Key.isRow : Key → Bool
  | .M _ | .P .. | .H .. | .I .. | .K _ => true
  | _ => false

theorem Rows.of_agree (h : Rows db)
    (hlookup : ∀ {k : Key}, k.isRow = true → db'.lookup k = db.lookup k) : Rows db' := by
  constructor
  · intro mid m
    rw [hlookup rfl]
    exact h.record
  · intro r mid
    rw [hlookup rfl, hlookup rfl]
    exact h.pending r mid
  · intro a b mid
    rw [hlookup rfl, hlookup rfl]
    exact h.history a b mid
  · intro f c mid
    rw [hlookup rfl, hlookup rfl, hlookup rfl]
    exact h.cid
  · intro mid m
    rw [hlookup rfl, hlookup rfl]
    intro hm
    obtain ⟨c, hK, hI⟩ := h.canonical hm
    exact ⟨c, hK, by rw [hlookup rfl]; exact hI⟩

theorem decodeRecord_eq_ok : decodeRecord m mid = .ok m ↔
    m.messageId = mid ∧ mid ≠ 0 ∧ m.fromUserId ≠ 0 ∧ m.toUserId ≠ 0 ∧ m.fromUserId ≠ m.toUserId ∧
      m.clientMessageId ≠ [] ∧ m.clientMessageId.length ≤ 64 ∧ 1 ≤ m.messageType ∧
      m.messageType ≤ 3 ∧ m.content ≠ [] ∧ m.createdAt.length = 19 := by
  unfold decodeRecord
  grind

theorem Rows.messageId (h : Rows db) (hm : db.lookup (.M mid) = some m) : m.messageId = mid :=
  (decodeRecord_eq_ok.1 (h.record hm)).1

theorem Rows.record_eq (h : Rows db) (mid : ℕ) : Local.record db mid = .ok
    (match db.lookup (.M mid) with
      | none => { status := .succeeded }
      | some m => { status := .succeeded, found := true, record := m }) := by
  unfold Local.record
  cases hm : db.lookup (.M mid) with
  | none => rfl
  | some m => simp [h.record hm, bind, Except.bind]; rfl

/-! ## Messages that move on -/

def SameMessage (m m' : MessageView) : Prop :=
  m' = { m with
    deliveryState := m'.deliveryState
    receiverConfirmedAt := m'.receiverConfirmedAt
    readAt := m'.readAt }

/-- `db'` is `db` after the pending or unread message `m` has become `m'`. -/
structure Advanced (db : Db) (m m' : MessageView) (db' : Db) : Prop where
  stored : db.lookup (.M m.messageId) = some m
  same : SameMessage m m'
  left : m'.deliveryState ≠ .pending
  record : db'.lookup (.M m.messageId) = some m'
  pending : db'.lookup (.P m.toUserId m.messageId) = none
  other : ∀ k, k ≠ .M m.messageId → k ≠ .P m.toUserId m.messageId → db'.lookup k = db.lookup k

theorem Advanced.recordCount {m' : MessageView} (h : Advanced db m m' db')
    (φ : MessageView → Bool) :
    recordCount φ db' + (φ m).toNat = recordCount φ db + (φ m').toNat := by
  have hlookup : ∀ mid, db'.lookup (.M mid) =
      (db.insert (.M m.messageId) m').lookup (.M mid) := by
    intro mid
    by_cases hM : mid = m.messageId
    · subst hM
      rw [h.record, AList.lookup_insert]
    · have hne : Key.M mid ≠ .M m.messageId := by simpa using hM
      rw [AList.lookup_insert_ne hne, h.other _ hne (by simp)]
  rw [recordCount_congr hlookup]
  exact recordCount_put h.stored

theorem Advanced.rows {m' : MessageView} (h : Advanced db m m' db') (hr : Rows db) : Rows db' := by
  have hother : ∀ mid, mid ≠ m.messageId → db'.lookup (.M mid) = db.lookup (.M mid) :=
    fun mid hmid => h.other _ (by simpa using hmid) (by simp)
  have hP : ∀ r mid, mid ≠ m.messageId → db'.lookup (.P r mid) = db.lookup (.P r mid) :=
    fun r mid hmid => h.other _ (by simp) (by simp [hmid])
  have hsame := h.same
  have hfrom : m'.fromUserId = m.fromUserId := by rw [hsame]
  have hto : m'.toUserId = m.toUserId := by rw [hsame]
  -- every message that is stored after the step was stored before, with the same users
  have hback : ∀ {mid n'}, db'.lookup (.M mid) = some n' → ∃ n, db.lookup (.M mid) = some n ∧
      n'.fromUserId = n.fromUserId ∧ n'.toUserId = n.toUserId := by
    intro mid n' hn'
    by_cases hmid : mid = m.messageId
    · subst hmid
      rw [h.record] at hn'
      cases hn'
      exact ⟨m, h.stored, hfrom, hto⟩
    · rw [hother mid hmid] at hn'
      exact ⟨n', hn', rfl, rfl⟩
  have hforth : ∀ {mid n}, db.lookup (.M mid) = some n → ∃ n', db'.lookup (.M mid) = some n' ∧
      n'.fromUserId = n.fromUserId ∧ n'.toUserId = n.toUserId := by
    intro mid n hn
    by_cases hmid : mid = m.messageId
    · subst hmid
      rw [h.stored] at hn
      cases hn
      exact ⟨m', h.record, hfrom, hto⟩
    · exact ⟨n, by rw [hother mid hmid]; exact hn, rfl, rfl⟩
  refine ⟨?_, ?_, ?_, ?_, ?_⟩
  · intro mid n' hn'
    by_cases hmid : mid = m.messageId
    · subst hmid
      rw [h.record] at hn'
      cases hn'
      have hdec := decodeRecord_eq_ok.1 (hr.record h.stored)
      rw [decodeRecord_eq_ok, hsame]
      exact hdec
    · rw [hother mid hmid] at hn'
      exact hr.record hn'
  · intro r mid
    by_cases hmid : mid = m.messageId
    · subst hmid
      have hnone : db'.lookup (.P r m.messageId) = none := by
        by_cases hrt : r = m.toUserId
        · rw [hrt]; exact h.pending
        · rw [h.other _ (by simp) (by simp [hrt])]
          have := hr.pending r m.messageId
          rw [h.stored] at this
          cases hl : db.lookup (.P r m.messageId) with
          | none => rfl
          | some u =>
            rw [hl] at this
            obtain ⟨n, hn, hp⟩ := this.1 rfl
            cases hn
            simp only [pendingFor, Bool.and_eq_true, decide_eq_true_eq] at hp
            exact absurd hp.1.symm hrt
      rw [hnone]
      simp only [Option.isSome_none, Bool.false_eq_true, false_iff, not_exists, not_and]
      intro n hn hp
      rw [h.record] at hn
      cases hn
      simp only [pendingFor, Bool.and_eq_true, decide_eq_true_eq] at hp
      exact h.left hp.2
    · rw [hP r mid hmid, hother mid hmid]
      exact hr.pending r mid
  · intro a b mid
    rw [h.other _ (by simp) (by simp), hr.history a b mid]
    constructor
    · rintro ⟨n, hn, ha, hb⟩
      obtain ⟨n', hn', hf, ht⟩ := hforth hn
      exact ⟨n', hn', by rw [hf, ht]; exact ha, by rw [hf, ht]; exact hb⟩
    · rintro ⟨n', hn', ha, hb⟩
      obtain ⟨n, hn, hf, ht⟩ := hback hn'
      exact ⟨n, hn, by rw [← hf, ← ht]; exact ha, by rw [← hf, ← ht]; exact hb⟩
  · intro f c mid hI
    rw [h.other _ (by simp) (by simp)] at hI
    obtain ⟨n, hn, hf, hK⟩ := hr.cid hI
    obtain ⟨n', hn', hf', -⟩ := hforth hn
    exact ⟨n', hn', hf'.trans hf, by rw [h.other _ (by simp) (by simp)]; exact hK⟩
  · intro mid n' hn'
    obtain ⟨n, hn, hf, -⟩ := hback hn'
    obtain ⟨c, hK, hI⟩ := hr.canonical hn
    refine ⟨c, ?_, ?_⟩
    · rw [h.other _ (by simp) (by simp)]; exact hK
    · rw [h.other _ (by simp) (by simp), hf]; exact hI

/-- The messages `ms` move on one after the other, each `m` to `f m`. -/
inductive Advances (f : MessageView → MessageView) : Db → List MessageView → Db → Prop
  | nil (db : Db) : Advances f db [] db
  | cons {db₀ db₁ db₂ : Db} {m : MessageView} {ms : List MessageView} :
      Advanced db₀ m (f m) db₁ → Advances f db₁ ms db₂ → Advances f db₀ (m :: ms) db₂

namespace Advances

variable {f : MessageView → MessageView} {ms : List MessageView}

theorem rows (h : Advances f db ms db') (hr : Rows db) : Rows db' := by
  induction h with
  | nil => exact hr
  | cons hstep _ ih => exact ih (hstep.rows hr)

theorem recordCount (h : Advances f db ms db') (φ : MessageView → Bool) :
    recordCount φ db' + ms.countP φ = recordCount φ db + ms.countP fun m => φ (f m) := by
  induction h with
  | nil => rfl
  | @cons db₀ db₁ db₂ m ms hstep _ ih =>
    have hm := hstep.recordCount φ
    grind

theorem other (h : Advances f db ms db') {k : Key} (hM : ∀ mid, k ≠ .M mid)
    (hP : ∀ r mid, k ≠ .P r mid) : db'.lookup k = db.lookup k := by
  induction h with
  | nil => rfl
  | cons hstep _ ih => rw [ih, hstep.other k (hM _) (hP _ _)]

theorem lookup_of_not_mem (h : Advances f db ms db')
    (hmid : mid ∉ ms.map MessageView.messageId) : db'.lookup (.M mid) = db.lookup (.M mid) := by
  induction h with
  | nil => rfl
  | cons hstep _ ih =>
    simp only [List.map_cons, List.mem_cons, not_or] at hmid
    rw [ih hmid.2, hstep.other _ (by simpa using hmid.1) (by simp)]

theorem lookup_of_mem (h : Advances f db ms db') (hnodup : (ms.map MessageView.messageId).Nodup)
    (hm : m ∈ ms) : db'.lookup (.M m.messageId) = some (f m) := by
  induction h with
  | nil => cases hm
  | cons hstep hrest ih =>
    rw [List.map_cons, List.nodup_cons] at hnodup
    rcases List.mem_cons.1 hm with rfl | hm
    · rw [hrest.lookup_of_not_mem hnodup.1, hstep.record]
    · exact ih hnodup.2 hm

theorem exists_before (h : Advances f db ms db') {m' : MessageView}
    (hm : db'.lookup (.M mid) = some m') : ∃ m, db.lookup (.M mid) = some m := by
  induction h with
  | nil => exact ⟨m', hm⟩
  | @cons db₀ db₁ db₂ m ms hstep _ ih =>
    obtain ⟨m₁, hm₁⟩ := ih hm
    by_cases hmid : mid = m.messageId
    · exact ⟨m, hmid ▸ hstep.stored⟩
    · rw [hstep.other _ (by simpa using hmid) (by simp)] at hm₁
      exact ⟨m₁, hm₁⟩

theorem of_flatMap {ws : MessageView → List Write}
    (hws : ∀ db m, m ∈ ms → Rows db → db.lookup (.M m.messageId) = some m →
      Advanced db m (f m) (apply db (ws m)))
    (hr : Rows db) (hnodup : (ms.map MessageView.messageId).Nodup)
    (hstored : ∀ m ∈ ms, db.lookup (.M m.messageId) = some m) :
    Advances f db ms (apply db (ms.flatMap ws)) := by
  induction ms generalizing db with
  | nil => exact .nil db
  | cons m ms ih =>
    rw [List.flatMap_cons, apply_append]
    have hstep := hws db m List.mem_cons_self hr (hstored m List.mem_cons_self)
    rw [List.map_cons, List.nodup_cons] at hnodup
    refine .cons hstep (ih (fun db n hn => hws db n (List.mem_cons_of_mem _ hn)) (hstep.rows hr)
      hnodup.2 fun n hn => ?_)
    have hne : n.messageId ≠ m.messageId :=
      fun heq => hnodup.1 (heq ▸ List.mem_map_of_mem hn)
    rw [hstep.other _ (by simpa using hne) (by simp)]
    exact hstored n (List.mem_cons_of_mem _ hn)

end Advances

end TinyImx.Local
