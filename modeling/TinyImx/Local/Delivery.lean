import TinyImx.Local.Identity
import TinyImx.Local.EventIds

/-!
# No event is lost

Publication progress is written without a sync, everything else with one.  A history records, beside
the store, which events successful calls created and for which of them `MarkEventsPublished` was
called since they were last requeued; through any number of crashes a created event is pending,
quarantined, or was handed to `MarkEventsPublished`.
-/

namespace TinyImx.Local

open Kv Act

variable {opts : Options} {env : Env} {s s' : Store} {db : Db} {id : Bytes}

/-! ## What a change does to the events -/

namespace Change

def Adds (id : Bytes) : Change → Prop
  | create ns => ∃ n ∈ ns, n.row.eventId = id
  | read _ _ _ _ row => row.eventId = id
  | _ => False

def Takes (id : Bytes) : Change → Prop
  | publish ids => id ∈ ids
  | fail id' _ => id = id'
  | _ => False

def Quarantines (id : Bytes) : Change → Prop
  | fail id' _ => id = id'
  | _ => False

def Requeues (id : Bytes) : Change → Prop
  | requeue rows => ∃ row ∈ rows, row.eventId = id
  | _ => False

end Change

theorem groupBatch_lookup_E (ns : List NewMessage) (db : Db) :
    ((apply db (groupBatch db ns)).lookup (.E id)).isSome ↔
      (∃ n ∈ ns, n.row.eventId = id) ∨ (db.lookup (.E id)).isSome := by
  induction ns generalizing db with
  | nil => simp [groupBatch]
  | cons n ns ih =>
    rw [groupBatch, apply_append, ih, NewMessage.lookup_E]
    by_cases hid : id = n.row.eventId
    · subst hid
      simp
    · simp [hid, Ne.symm hid]

theorem groupBatch_lookup_A (ns : List NewMessage) (db : Db) :
    ((apply db (groupBatch db ns)).lookup (.A id)).isSome ↔
      (∃ n ∈ ns, n.row.eventId = id) ∨ (db.lookup (.A id)).isSome := by
  induction ns generalizing db with
  | nil => simp [groupBatch]
  | cons n ns ih =>
    rw [groupBatch, apply_append, ih, NewMessage.lookup_A]
    by_cases hid : id = n.row.eventId
    · subst hid
      simp
    · simp [hid, Ne.symm hid]

theorem groupBatch_lookup_F (ns : List NewMessage) (db : Db) :
    (apply db (groupBatch db ns)).lookup (.F id) = db.lookup (.F id) := by
  induction ns generalizing db with
  | nil => rfl
  | cons n ns ih => rw [groupBatch, apply_append, ih, NewMessage.lookup_F]

theorem confirm_lookup_event {ms : List MessageView} {now : Bytes} (h : Inv s)
    (hc : (Change.confirm ms now).Fits s) {k : Key} (hk : k.isEvent = true) :
    (apply s.db ((Change.confirm ms now).batch s.db)).lookup k = s.db.lookup k := by
  rw [Change.batch, apply_append, lookup_confirmCounters (by rintro r rfl; cases hk),
    (Confirmable.advances hc h.sound.toRows now).other (by rintro r rfl; cases hk)
      (by rintro r m rfl; cases hk)]

theorem read_lookup_event {reader peer : ℕ} {ms : List MessageView} {now : Bytes}
    {row : PendingLocalEvent} (h : Inv s) (hc : (Change.read reader peer ms now row).Fits s) {k : Key}
    (hk : k.isEvent = true) :
    (apply s.db ((Change.read reader peer ms now row).batch s.db)).lookup k =
      (apply s.db (eventWrites row)).lookup k := by
  rw [Change.batch, apply_append]
  refine lookup_apply_congr ?_ _
  have hrecords : (apply s.db (ms.flatMap (readEntry reader now))).lookup k = s.db.lookup k :=
    (Readable.advances hc h.sound.toRows now).other (by rintro r rfl; cases hk)
      (by rintro r m rfl; cases hk)
  rw [apply_append, lookup_apply_of_forall_ne fun w hw heq => ?_, collectReads_eq]
  · exact hrecords
  subst heq
  simp only [readWrites, List.mem_cons, List.not_mem_nil, or_false] at hw
  rcases hw with rfl | rfl | rfl
  · cases hk
  · cases hk
  · rw [pendingWrite_key] at hk
    cases hk

theorem publish_lookup_E (ids : List Bytes) (db : Db) :
    ((apply db ((Change.publish ids).batch db)).lookup (.E id)).isSome ↔
      (db.lookup (.E id)).isSome ∧ id ∉ ids := by
  simp only [Change.batch]
  induction ids generalizing db with
  | nil => simp
  | cons id' ids ih =>
    rw [List.map_cons, apply_cons, ih]
    by_cases hid : id = id'
    · subst hid
      simp [step]
    · simp [step, hid]

theorem publish_lookup_other (ids : List Bytes) (db : Db) {k : Key} (hk : ∀ id, k ≠ .E id) :
    (apply db ((Change.publish ids).batch db)).lookup k = db.lookup k := by
  refine lookup_apply_of_forall_ne fun w hw => ?_
  obtain ⟨id, -, rfl⟩ := List.mem_map.1 hw
  exact hk id

theorem requeue_lookup_A (rows : List PendingLocalEvent) (db : Db) :
    (apply db ((Change.requeue rows).batch db)).lookup (.A id) = db.lookup (.A id) := by
  refine lookup_apply_of_forall_ne fun w hw => ?_
  obtain ⟨row, -, hw⟩ := List.mem_flatMap.1 hw
  simp only [List.mem_cons, List.not_mem_nil, or_false] at hw
  rcases hw with rfl | rfl <;> simp [Write.key]

section

variable (h : Inv s) {c : Change} (hc : c.Fits s)
include h hc

theorem change_lookup_E : ((apply s.db (c.batch s.db)).lookup (.E id)).isSome ↔
    c.Adds id ∨ c.Requeues id ∨ (s.db.lookup (.E id)).isSome ∧ ¬ c.Takes id := by
  cases c with
  | reserve n => simp [Change.batch, step, Change.Adds, Change.Requeues, Change.Takes]
  | create ns =>
    rw [Change.batch, groupBatch_lookup_E]
    simp [Change.Adds, Change.Requeues, Change.Takes]
  | confirm ms now =>
    rw [confirm_lookup_event h hc rfl]
    simp [Change.Adds, Change.Requeues, Change.Takes]
  | read reader peer ms now row =>
    rw [read_lookup_event h hc rfl]
    by_cases hid : id = row.eventId
    · subst hid
      simp [eventWrites, step, Change.Adds, Change.Requeues, Change.Takes]
    · simp [eventWrites, step, Change.Adds, Change.Requeues, Change.Takes, hid, Ne.symm hid]
  | publish ids =>
    rw [publish_lookup_E]
    simp [Change.Adds, Change.Requeues, Change.Takes]
  | fail id' failed =>
    by_cases hid : id = id'
    · subst hid
      simp [Change.batch, step, Change.Adds, Change.Requeues, Change.Takes]
    · simp [Change.batch, step, Change.Adds, Change.Requeues, Change.Takes, hid]
  | requeue rows =>
    rw [requeue_lookup_E]
    simp [Change.Adds, Change.Requeues, Change.Takes]

theorem change_lookup_F : ((apply s.db (c.batch s.db)).lookup (.F id)).isSome ↔
    c.Quarantines id ∨ (s.db.lookup (.F id)).isSome ∧ ¬ c.Requeues id := by
  cases c with
  | reserve n => simp [Change.batch, step, Change.Quarantines, Change.Requeues]
  | create ns =>
    rw [Change.batch, groupBatch_lookup_F]
    simp [Change.Quarantines, Change.Requeues]
  | confirm ms now =>
    rw [confirm_lookup_event h hc rfl]
    simp [Change.Quarantines, Change.Requeues]
  | read reader peer ms now row =>
    rw [read_lookup_event h hc rfl]
    simp [eventWrites, step, Change.Quarantines, Change.Requeues]
  | publish ids =>
    rw [publish_lookup_other _ _ (by simp)]
    simp [Change.Quarantines, Change.Requeues]
  | fail id' failed =>
    by_cases hid : id = id'
    · subst hid
      simp [Change.batch, step, Change.Quarantines]
    · simp [Change.batch, step, Change.Quarantines, Change.Requeues, hid]
  | requeue rows =>
    rw [requeue_lookup_F]
    simp only [Change.Quarantines, Change.Requeues, false_or]
    split <;> simp_all

theorem change_lookup_A : ((apply s.db (c.batch s.db)).lookup (.A id)).isSome ↔
    c.Adds id ∨ (s.db.lookup (.A id)).isSome := by
  cases c with
  | reserve n => simp [Change.batch, step, Change.Adds]
  | create ns =>
    rw [Change.batch, groupBatch_lookup_A]
    simp [Change.Adds]
  | confirm ms now =>
    rw [confirm_lookup_event h hc rfl]
    simp [Change.Adds]
  | read reader peer ms now row =>
    rw [read_lookup_event h hc rfl]
    by_cases hid : id = row.eventId
    · subst hid
      simp [eventWrites, step, Change.Adds]
    · simp [eventWrites, step, Change.Adds, hid, Ne.symm hid]
  | publish ids =>
    rw [publish_lookup_other _ _ (by simp)]
    simp [Change.Adds]
  | fail id' failed => simp [Change.batch, step, Change.Adds]
  | requeue rows =>
    rw [requeue_lookup_A]
    simp [Change.Adds]

end

theorem Inv.change_M (h : Inv s) {c : Change} (hc : c.Fits s) {mid : ℕ}
    (hM : (s.db.lookup (.M mid)).isSome) :
    ((apply s.db (c.batch s.db)).lookup (.M mid)).isSome := by
  obtain ⟨m, hm⟩ := Option.isSome_iff_exists.1 hM
  obtain ⟨cid, -, hI⟩ := h.sound.toRows.canonical hm
  obtain ⟨-, m', hm', -⟩ := h.change_holds hc ⟨hI, m, hm, rfl⟩
  rw [hm']
  rfl

/-! ## Where events stand -/

def Unfinished (id : Bytes) (db : Db) : Prop :=
  (db.lookup (.E id)).isSome ∨ (db.lookup (.F id)).isSome

theorem Change.Quarantines.not_adds {c : Change} (h : c.Quarantines id) :
    c.Takes id ∧ ¬ c.Adds id ∧ ¬ c.Requeues id := by
  cases c with
  | fail id' failed => exact ⟨h, fun hadd => hadd, fun hreq => hreq⟩
  | _ => exact h.elim

theorem Change.unfinished_after (h : Inv s) {c : Change} (hc : c.Fits s)
    (hu : Unfinished id (apply s.db (c.batch s.db))) : c.Adds id ∨ Unfinished id s.db := by
  rcases hu with hE | hF
  · rcases (change_lookup_E h hc).1 hE with hadd | hreq | hE
    · exact .inl hadd
    · cases c with
      | requeue rows =>
        obtain ⟨row, hrow, rfl⟩ := hreq
        obtain ⟨-, failed, hF, -⟩ := hc row hrow
        exact .inr (.inr (by rw [hF]; rfl))
      | _ => exact hreq.elim
    · exact .inr (.inl hE.1)
  · rcases (change_lookup_F h hc).1 hF with hq | hF
    · cases c with
      | fail id' failed =>
        cases hq
        exact .inr (.inl (by rw [show s.db.lookup (.E id) = some failed.event from hc]; rfl))
      | _ => exact hq.elim
    · exact .inr (.inr hF.1)

theorem Change.unfinished (h : Inv s) {c : Change} (hc : c.Fits s)
    (hpublish : ∀ ids, c = .publish ids → id ∉ ids) (hu : Unfinished id s.db) :
    Unfinished id (apply s.db (c.batch s.db)) := by
  by_cases hreq : c.Requeues id
  · exact .inl ((change_lookup_E h hc).2 (.inr (.inl hreq)))
  rcases hu with hE | hF
  · by_cases htakes : c.Takes id
    · cases c with
      | publish ids => exact absurd htakes (hpublish ids rfl)
      | fail id' failed => exact .inr ((change_lookup_F h hc).2 (.inl htakes))
      | _ => exact htakes.elim
    · exact .inl ((change_lookup_E h hc).2 (.inr (.inr ⟨hE, htakes⟩)))
  · exact .inr ((change_lookup_F h hc).2 (.inr ⟨hF, hreq⟩))

/-- No event is pending and quarantined at once, and every event belongs to a stored message or to a
read with one of the stamps. -/
structure EventRows (stamps : List (ℕ × ℕ × ℕ)) (db : Db) : Prop where
  apart : ∀ id, (db.lookup (.E id)).isSome → ¬ (db.lookup (.F id)).isSome
  known : ∀ id, Unfinished id db →
    (∃ mid, id = messageEventId mid ∧ (db.lookup (.M mid)).isSome) ∨
      ∃ clock reader peer, id = readEventId clock reader peer ∧ clock.stamp ∈ stamps

variable {stamps : List (ℕ × ℕ × ℕ)}

theorem EventRows.mono {stamps' : List (ℕ × ℕ × ℕ)} (h : EventRows stamps db)
    (hsub : stamps ⊆ stamps') : EventRows stamps' db := by
  refine ⟨h.apart, fun id hid => ?_⟩
  rcases h.known id hid with hm | ⟨clock, reader, peer, hid, hs⟩
  · exact .inl hm
  · exact .inr ⟨clock, reader, peer, hid, hsub hs⟩

theorem EventRows.not_message (h : EventRows stamps db) {mid : ℕ} (hM : db.lookup (.M mid) = none) :
    ¬ Unfinished (messageEventId mid) db := by
  intro hu
  rcases h.known _ hu with ⟨mid', hid, hM'⟩ | ⟨clock, reader, peer, hid, -⟩
  · rw [← messageEventId_injective hid, hM] at hM'
    cases hM'
  · exact messageEventId_ne_readEventId _ _ _ _ hid

theorem EventRows.not_read (h : EventRows stamps db) {clock : Clock} {reader peer : ℕ}
    (hs : clock.stamp ∉ stamps) : ¬ Unfinished (readEventId clock reader peer) db := by
  intro hu
  rcases h.known _ hu with ⟨mid, hid, -⟩ | ⟨clock', reader', peer', hid, hs'⟩
  · exact messageEventId_ne_readEventId _ _ _ _ hid.symm
  · rw [readEventId_stamp hid] at hs
    exact hs hs'

theorem GroupFits.fresh {ns : List NewMessage} {n : NewMessage} (hns : GroupFits db ns)
    (hn : n ∈ ns) : db.lookup (.M n.message.messageId) = none := by
  induction ns generalizing db with
  | nil => cases hn
  | cons n' ns ih =>
    rcases List.mem_cons.1 hn with rfl | hn
    · exact hns.1.fresh
    · have hnone := ih hns.2 hn
      rw [NewMessage.lookup_M] at hnone
      split at hnone
      · cases hnone
      · exact hnone

/-- A change keeps the events apart and known, if the event of a read is not quarantined and its
stamp is listed. -/
theorem EventRows.change (hinv : Inv s) {c : Change} (hc : c.Fits s) (h : EventRows stamps s.db)
    (hread : ∀ reader peer ms now row, c = .read reader peer ms now row →
      ¬ (s.db.lookup (.F row.eventId)).isSome ∧
        ∃ clock reader peer, row.eventId = readEventId clock reader peer ∧ clock.stamp ∈ stamps) :
    EventRows stamps (apply s.db (c.batch s.db)) := by
  have hadds : ∀ id, c.Adds id → ¬ (s.db.lookup (.F id)).isSome ∧
      ((∃ mid, id = messageEventId mid ∧
          ((apply s.db (c.batch s.db)).lookup (.M mid)).isSome) ∨
        ∃ clock reader peer, id = readEventId clock reader peer ∧ clock.stamp ∈ stamps) := by
    intro id hadd
    cases c with
    | create ns =>
      obtain ⟨n, hn, rfl⟩ := hadd
      rw [hc.1.event hn]
      refine ⟨fun hF => h.not_message (hc.1.fresh hn) (.inr hF), .inl ⟨_, rfl, ?_⟩⟩
      rw [Change.batch, (hc.1.inMap hn).record]
      rfl
    | read reader peer ms now row =>
      cases hadd
      obtain ⟨hF, hknown⟩ := hread _ _ _ _ _ rfl
      exact ⟨hF, .inr hknown⟩
    | _ => exact hadd.elim
  constructor
  · intro id hE hF
    rw [change_lookup_E hinv hc] at hE
    rw [change_lookup_F hinv hc] at hF
    rcases hF with hq | ⟨hF, hnot⟩
    · obtain ⟨htakes, hadd, hreq⟩ := hq.not_adds
      rcases hE with hE | hE | hE
      · exact hadd hE
      · exact hreq hE
      · exact hE.2 htakes
    · rcases hE with hE | hE | hE
      · exact (hadds id hE).1 hF
      · exact hnot hE
      · exact h.apart id hE.1 hF
  · intro id hu
    rcases Change.unfinished_after hinv hc hu with hadd | hu
    · exact (hadds id hadd).2
    · rcases h.known id hu with ⟨mid, hid, hM⟩ | hread
      · exact .inl ⟨mid, hid, hinv.change_M hc hM⟩
      · exact .inr hread

/-! ## Histories -/

def createdEvent (r : PersistResult) : List Bytes :=
  if r.status = .succeeded && r.outcome = .created then [messageEventId r.messageId] else []

def Op.events (opts : Options) (env : Env) (s : Store) : Op → List Bytes
  | persist inp => createdEvent (persistPrivateMessage opts env 0 inp s).1
  | persistMany inputs => (persistPrivateMessages opts env inputs s).1.flatMap createdEvent
  | markRead reader peer =>
    let r := (markDialogRead opts env reader peer s).1
    if r.status = .succeeded && 0 < r.affectedRows then [readEventId env.clock reader peer] else []
  | _ => []

def Op.readStamps (env : Env) : Op → List (ℕ × ℕ × ℕ)
  | markRead .. => [env.clock.stamp]
  | _ => []

/-- The events for which `MarkEventsPublished` was called since their last requeue; `s` and `s'` are
the stores before and after the call. -/
def Op.called (s s' : Store) (called : List Bytes) : Op → List Bytes
  | markPublished ids => ids ++ called
  | requeue _ => called.filter fun id =>
      !((s.db.lookup (.F id)).isSome && (s'.db.lookup (.F id)).isNone)
  | _ => called

structure History where
  store : Store
  created : List Bytes := []
  called : List Bytes := []
  stamps : List (ℕ × ℕ × ℕ) := []

def History.after (opts : Options) (env : Env) (h : History) (op : Op) : History where
  store := op.run opts env h.store
  created := op.events opts env h.store ++ h.created
  called := op.called h.store (op.run opts env h.store) h.called
  stamps := op.readStamps env ++ h.stamps

inductive HistoryStep (opts : Options) : History → Label → History → Prop
  | call (h : History) (env : Env) (op : Op) : (∀ stamp ∈ op.readStamps env, stamp ∉ h.stamps) →
      HistoryStep opts h (.call env op) (h.after opts env op)
  | crash {h : History} {s' : Store} {kept : List LogEntry} : Wal.Kept h.store.log kept →
      openStore opts (Wal.replay kept) kept = .ok s' →
      HistoryStep opts h .crash { h with store := s' }

def Recorded (opts : Options) (h : History) : Prop :=
  ∃ s₀ ls, openStore opts ∅ [] = .ok s₀ ∧ Run (HistoryStep opts) { store := s₀ } ls h

/-- What a crash keeps of an event: its audit row, and it is unfinished or was handed to
`MarkEventsPublished`. -/
def Safe (called : List Bytes) (id : Bytes) (db : Db) : Prop :=
  (db.lookup (.A id)).isSome ∧ (Unfinished id db ∨ id ∈ called)

structure Delivery (h : History) : Prop where
  inv : Inv h.store
  rows : Wal.Durable (EventRows h.stamps) h.store.log
  safe : ∀ id ∈ h.created, Wal.Durable (Safe h.called id) h.store.log

theorem Safe.mono {called called' : List Bytes} (h : Safe called id db) (hsub : id ∈ called → id ∈ called') :
    Safe called' id db := ⟨h.1, h.2.imp_right hsub⟩

theorem Safe.change {called : List Bytes} (hinv : Inv s) {c : Change} (hc : c.Fits s)
    (hpublish : ∀ ids, c = .publish ids → id ∉ ids) (h : Safe called id s.db) :
    Safe called id (apply s.db (c.batch s.db)) :=
  ⟨(change_lookup_A hinv hc).2 (.inr h.1), h.2.imp_left (Change.unfinished hinv hc hpublish)⟩

theorem mem_createdEvent {r : PersistResult} (h : id ∈ createdEvent r) :
    r.status = .succeeded ∧ r.outcome = .created ∧ id = messageEventId r.messageId := by
  unfold createdEvent at h
  simp_all

theorem Outcome.event_durable {inp : PersistInput} {checked : Except Failure Bytes}
    {r : PersistResult} (ho : Outcome opts env inp checked s r s') (h : id ∈ createdEvent r) :
    Wal.Durable (EventInMap id) s'.log := by
  obtain ⟨hstatus, houtcome, rfl⟩ := mem_createdEvent h
  cases ho with
  | refused ht he hadm hr =>
    rw [hr] at hstatus
    exact absurd hstatus hadm.status
  | failed hadm hr hnew =>
    rw [hr] at hstatus
    exact absurd hstatus hadm.status
  | reused hin hr =>
    obtain ⟨mid, m, -, -, rfl⟩ := hr.stored
    simp only [existingResult] at houtcome
    split at houtcome <;> cases houtcome
  | @created c n hin hnew hdurable hc hevent hmessage hrecord hstatus houtcome htext =>
    have hid : n.row.eventId = messageEventId r.messageId := by
      rw [hevent, hmessage]
      rfl
    rw [← hid]
    exact hdurable.mono fun db hn => hn.event

theorem Op.events_durable (op : Op) (h : Inv s) (hid : id ∈ op.events opts env s) :
    Wal.Durable (EventInMap id) (op.run opts env s).log := by
  cases op with
  | persist inp => exact (persistPrivateMessage_spec opts env 0 inp h).2.event_durable hid
  | persistMany inputs =>
    obtain ⟨r, hr, hid⟩ := List.mem_flatMap.1 hid
    rcases lt_or_ge 64 inputs.length with hlen | hlen
    · rw [persistPrivateMessages_oversized opts env hlen] at hr
      obtain ⟨_, -, rfl⟩ := List.mem_map.1 hr
      cases hid
    · obtain ⟨x, -, hx⟩ := exists_of_forall₂ (persistPrivateMessages_spec opts env hlen h).2 hr
      exact hx.event_durable hid
  | markRead reader peer =>
    simp only [Op.events] at hid
    split at hid
    · next hr =>
      simp only [Bool.and_eq_true, decide_eq_true_eq] at hr
      rw [List.mem_singleton.1 hid]
      exact (markDialogRead_spec opts env reader peer h).event hr.1 hr.2
    · cases hid
  | _ => cases hid

def Op.Publishes (id : Bytes) : Op → Prop
  | markPublished ids => id ∈ ids
  | _ => False

theorem Op.kind_publish {op : Op} {c : Change} (hK : op.kind env c) (hop : ¬ op.Publishes id) :
    ∀ ids, c = .publish ids → id ∉ ids := by
  rintro ids rfl
  cases op with
  | markPublished ids' => exact fun hid => hop (hK hid)
  | _ => exact hK.elim

/-! ## Runs of histories -/

theorem Delivery.rows_after {h : History} (hd : Delivery h) (env : Env) (op : Op)
    (hfresh : ∀ stamp ∈ op.readStamps env, stamp ∉ h.stamps) :
    Wal.Durable (EventRows (op.readStamps env ++ h.stamps)) (op.run opts env h.store).log := by
  have hm := op.run_moves opts env hd.inv
  by_cases hop : ∃ reader peer, op = .markRead reader peer
  · obtain ⟨reader, peer, rfl⟩ := hop
    set event := readEventId env.clock reader peer with hevent
    -- the event of this call is not quarantined, before or after it is written
    have hrows : Wal.Durable (fun db => EventRows (env.clock.stamp :: h.stamps) db ∧
        ¬ (db.lookup (.F event)).isSome) h.store.log := by
      refine hd.rows.mono fun db hdb => ⟨hdb.mono (List.subset_cons_self _ _), fun hF => ?_⟩
      exact hdb.not_read (hfresh _ List.mem_cons_self) (.inr hF)
    refine (hm.durable ?_ hd.inv hrows).mono fun db hdb => hdb.1
    rintro t c ht hK hc ⟨hdb, hF⟩
    refine ⟨hdb.change ht hc ?_, fun hF' => ?_⟩
    · rintro _ _ _ _ row rfl
      have hrow : row.eventId = event := hK
      rw [hrow]
      exact ⟨hF, env.clock, reader, peer, rfl, List.mem_cons_self⟩
    · rcases (change_lookup_F ht hc).1 hF' with hq | hF'
      · cases c with
        | read => exact hq
        | _ => exact hK
      · exact hF hF'.1
  · have hstamps : op.readStamps env = [] := by
      cases op with
      | markRead reader peer => exact absurd ⟨reader, peer, rfl⟩ hop
      | _ => rfl
    rw [hstamps, List.nil_append]
    refine hm.durable (fun t c ht hK hc hdb => hdb.change ht hc ?_) hd.inv hd.rows
    rintro _ _ _ _ row rfl
    cases op with
    | markRead reader peer => exact absurd ⟨reader, peer, rfl⟩ hop
    | _ => exact hK.elim

theorem Delivery.safe_after {h : History} (hd : Delivery h) (env : Env) (op : Op)
    (hid : id ∈ h.created) :
    Wal.Durable (Safe (op.called h.store (op.run opts env h.store) h.called) id)
      (op.run opts env h.store).log := by
  have hm := op.run_moves opts env hd.inv
  by_cases hop : op.Publishes id
  · cases op with
    | markPublished ids =>
      refine (hm.durable (P := fun db => (db.lookup (.A id)).isSome) ?_ hd.inv
        ((hd.safe id hid).mono fun db hdb => hdb.1)).mono fun db hdb => ⟨hdb, .inr ?_⟩
      · exact fun t c ht _ hc hA => (change_lookup_A ht hc).2 (.inr hA)
      · exact List.mem_append_left _ hop
    | _ => exact hop.elim
  · have hsafe := hm.durable (fun t c ht hK hc => Safe.change ht hc (op.kind_publish hK hop)) hd.inv
      (hd.safe id hid)
    cases op with
    | requeue ids =>
      by_cases hmoved : (h.store.db.lookup (.F id)).isSome ∧
          ((Op.requeue ids).run opts env h.store).db.lookup (.F id) = none
      · have hE := (requeueFailedEvents_spec opts env ids hd.inv).event id hmoved.1 hmoved.2
        exact fun kept hkept => ⟨(hsafe kept hkept).1, .inl (.inl (hE kept hkept))⟩
      · refine hsafe.mono fun db hdb => hdb.mono fun hcalled => List.mem_filter.2 ⟨hcalled, ?_⟩
        rw [Bool.not_eq_true', Bool.and_eq_false_iff]
        by_cases hF : (h.store.db.lookup (.F id)).isSome
        · refine .inr ?_
          rw [Option.isNone_eq_false_iff, Option.isSome_iff_ne_none]
          exact fun hnone => hmoved ⟨hF, hnone⟩
        · exact .inl (by simpa using hF)
    | markPublished ids =>
      exact hsafe.mono fun db hdb => hdb.mono fun hcalled => List.mem_append_right _ hcalled
    | _ => exact hsafe

theorem Delivery.step {l : Label} {h h' : History} (hd : Delivery h)
    (hs : HistoryStep opts h l h') : Delivery h' := by
  cases hs with
  | call env op hfresh =>
    refine ⟨hd.inv.moves (op.run_moves opts env hd.inv), hd.rows_after env op hfresh, fun id hid => ?_⟩
    rcases List.mem_append.1 hid with hid | hid
    · exact (op.events_durable hd.inv hid).mono fun db hdb => ⟨hdb.2, .inl (.inl hdb.1)⟩
    · exact hd.safe_after env op hid
  | @crash s' kept hkept hopen =>
    have ho := openStore_opened hopen
    obtain ⟨e, he, -⟩ := (hd.inv.durable _ hkept).reserved
    rw [he] at ho
    obtain ⟨-, hlog⟩ := ho.old he
    refine ⟨.recovered (hd.inv.durable _ hkept) hopen, ?_, fun id hid => ?_⟩
    · rw [hlog]
      exact .synced (hd.rows kept hkept)
    · rw [hlog]
      exact .synced (hd.safe id hid kept hkept)

theorem Delivery.first (hopen : openStore opts ∅ [] = .ok s) : Delivery { store := s } := by
  refine ⟨.first hopen, ?_, by simp⟩
  have hnone : (∅ : Db).lookup .high = none := rfl
  obtain ⟨-, hlog⟩ := (openStore_opened hopen).new hnone
  rw [hlog]
  refine .synced ?_
  have hkey : ∀ k, k ≠ .high → (Wal.replay ([] ++ [⟨[.put .high
      (((∅ : Db).lookup .high).getD (opts.firstMessageId - 1))], true⟩] : List LogEntry)).lookup k =
        none := by
    intro k hk
    rw [Wal.replay_snoc]
    exact AList.lookup_insert_ne hk
  constructor
  · intro id hE
    rw [hkey _ (by simp)] at hE
    cases hE
  · rintro id (hE | hF)
    · rw [hkey _ (by simp)] at hE
      cases hE
    · rw [hkey _ (by simp)] at hF
      cases hF

theorem Recorded.delivery {h : History} (hr : Recorded opts h) : Delivery h := by
  obtain ⟨s₀, ls, hopen, hrun⟩ := hr
  exact hrun.invariant (fun _ _ _ hd hs => hd.step hs) (.first hopen)

/-- Through any number of crashes, every event that a successful call created has its audit row, and
it is pending, quarantined or was handed to `MarkEventsPublished` since its last requeue; no event is
pending and quarantined at once, and no call other than `MarkEventsPublished` with its id finishes
an event. -/
theorem event_never_lost {h : History} (hr : Recorded opts h) :
    (∀ id ∈ h.created, (h.store.db.lookup (.A id)).isSome ∧
      ((h.store.db.lookup (.E id)).isSome ∨ (h.store.db.lookup (.F id)).isSome ∨ id ∈ h.called)) ∧
    (∀ id, ¬ ((h.store.db.lookup (.E id)).isSome ∧ (h.store.db.lookup (.F id)).isSome)) ∧
    (∀ env (op : Op) id, (h.store.db.lookup (.E id)).isSome ∨ (h.store.db.lookup (.F id)).isSome →
      ¬ ((op.run opts env h.store).db.lookup (.E id)).isSome →
      ¬ ((op.run opts env h.store).db.lookup (.F id)).isSome →
      ∃ ids, op = .markPublished ids ∧ id ∈ ids) := by
  have hd := hr.delivery
  refine ⟨fun id hid => ?_, fun id hEF => ?_, fun env op id hu hE hF => ?_⟩
  · obtain ⟨hA, hu⟩ := hd.inv.live.durable (hd.safe id hid)
    exact ⟨hA, or_assoc.1 hu⟩
  · exact (hd.inv.live.durable hd.rows).apart id hEF.1 hEF.2
  · by_contra hnot
    have hop : ¬ op.Publishes id := by
      intro hop
      cases op with
      | markPublished ids => exact hnot ⟨ids, rfl, hop⟩
      | _ => exact hop
    have hafter : Unfinished id (op.run opts env h.store).db :=
      (op.run_moves opts env hd.inv).map
        (fun t c ht hK hc => Change.unfinished ht hc (op.kind_publish hK hop)) hd.inv hu
    exact hafter.elim hE hF

def sampleHistory : History :=
  History.after sampleOptions sampleEnv { store := sampleStore } (.persist sampleInput)

theorem sampleHistory_recorded : Recorded sampleOptions sampleHistory :=
  ⟨sampleStore, _, sampleStore_opened, .single (.call _ sampleEnv (.persist sampleInput) (by simp
    [Op.readStamps]))⟩

theorem event_never_lost_sent : messageEventId 1 ∈ sampleHistory.created ∧
    (sampleHistory.store.db.lookup (.A (messageEventId 1))).isSome :=
  ⟨by decide, ((event_never_lost sampleHistory_recorded).1 _ (by decide)).1⟩

def samplePublished : History :=
  sampleHistory.after sampleOptions sampleEnv (.markPublished [messageEventId 1])

def sampleRecovered : Store :=
  match openStore sampleOptions (Wal.replay sampleSent.log) sampleSent.log with
  | .ok s => s
  | .error _ => sampleStore

/-- A crash may bring back an event that was published. -/
theorem published_event_pending_after_crash :
    Recorded sampleOptions { samplePublished with store := sampleRecovered } ∧
      messageEventId 1 ∈ samplePublished.created ∧ messageEventId 1 ∈ samplePublished.called ∧
      (sampleRecovered.db.lookup (.E (messageEventId 1))).isSome := by
  refine ⟨?_, by decide, by decide, by decide⟩
  obtain ⟨s₀, ls, hopen, hrun⟩ := sampleHistory_recorded
  have hkept : Wal.Kept samplePublished.store.log sampleSent.log :=
    ⟨[⟨[.delete (.E (messageEventId 1))], false⟩], rfl, by simp⟩
  refine ⟨s₀, _, hopen, (hrun.snoc (.call _ sampleEnv (.markPublished [messageEventId 1])
    (by simp [Op.readStamps]))).snoc (.crash hkept ?_)⟩
  rfl

end TinyImx.Local
