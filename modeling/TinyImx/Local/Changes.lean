import TinyImx.Local.Advance

/-!
# What a call does to the store

`Change` lists what the calls write: a reservation of message ids, a group of new messages, a group
of confirmations, a dialog that has been read, and the three moves of events.  `Moves K` is a
sequence of steps of the store whose writes are all changes of the kind `K`; each call is shown to
make such moves, and `Inv` is kept by all of them.
-/

namespace TinyImx.Local

open Kv

inductive Change where
  | reserve (n : ℕ)
  | create (ns : List NewMessage)
  | confirm (ms : List MessageView) (now : Bytes)
  | read (reader peer : ℕ) (ms : List MessageView) (now : Bytes) (row : PendingLocalEvent)
  | publish (ids : List Bytes)
  | fail (id : Bytes) (failed : FailedLocalEvent)
  | requeue (rows : List PendingLocalEvent)

namespace Change

def batch (db : Db) : Change → List Write
  | reserve n => [.put .high n]
  | create ns => groupBatch db ns
  | confirm ms now =>
    ms.flatMap (confirmWrites · now) ++ confirmCounters db (ms.map MessageView.toUserId)
  | read reader peer ms now row =>
    (collectReads reader now ms {}).batch ++
      readWrites reader peer (totalCount db reader) (pendingCount db reader)
        (collectReads reader now ms {}) ++ eventWrites row
  | publish ids => ids.map fun id => .delete (.E id)
  | fail id failed => [.put (.F id) failed, .delete (.E id)]
  | requeue rows => rows.flatMap fun row => [.put (.E row.eventId) row, .delete (.F row.eventId)]

def sync : Change → Bool
  | publish _ => false
  | _ => true

def Fits (s : Store) : Change → Prop
  | reserve n => n < int64Max ∧ s.reservedEnd ≤ n
  | create ns => GroupFits s.db ns ∧ ∀ n ∈ ns, n.message.messageId < s.nextId
  | confirm ms _ => Confirmable s.db ms
  | read reader peer ms _ _ => Readable s.db reader peer ms
  | publish ids => ∀ id ∈ ids, (s.db.lookup (.E id)).isSome
  | fail id failed => s.db.lookup (.E id) = some failed.event
  | requeue rows => ∀ row ∈ rows, s.db.lookup (.E row.eventId) = none ∧
      ∃ failed, s.db.lookup (.F row.eventId) = some failed ∧ failed.event = row

end Change

/-! ## Moves -/

structure SameData (s s' : Store) : Prop where
  db : s'.db = s.db
  log : s'.log = s.log
  nextId : s'.nextId = s.nextId
  reservedEnd : s'.reservedEnd = s.reservedEnd
  poisoned : s'.poisoned = s.poisoned

def Store.written (s : Store) (c : Change) : Store :=
  { s with
    db := apply s.db (c.batch s.db)
    log := s.log ++ [⟨c.batch s.db, c.sync⟩]
    engineWriteCalls := s.engineWriteCalls + 1 }

def Store.writeFailed (s : Store) (c : Change) (logged : Bool) : Store :=
  { s with
    log := if logged then s.log ++ [⟨c.batch s.db, false⟩] else s.log
    engineWriteCalls := s.engineWriteCalls + 1
    poisoned := true }

/-- One step of the store inside a call whose writes are of the kind `K`. -/
inductive Move (K : Change → Prop) : Store → Store → Prop
  | frame {s s' : Store} : SameData s s' → Move K s s'
  | takeId {s : Store} : s.nextId ≤ s.reservedEnd → Move K s { s with nextId := s.nextId + 1 }
  | extend {s : Store} {n : ℕ} : s.db.lookup .high = some n → s.reservedEnd ≤ n →
      Move K s { s with reservedEnd := n }
  | written {s : Store} {c : Change} : K c → c.Fits s → s.poisoned = false → Move K s (s.written c)
  | failed {s : Store} {c : Change} (logged : Bool) : K c → c.Fits s → s.poisoned = false →
      Move K s (s.writeFailed c logged)
  | flushed {s : Store} : s.poisoned = false → Move K s { s with log := Wal.synced s.log }
  | poison {s : Store} : Move K s { s with poisoned := true }

def Moves (K : Change → Prop) : Store → Store → Prop := Relation.ReflTransGen (Move K)

namespace Moves

variable {K L : Change → Prop} {s t u : Store}

theorem refl (s : Store) : Moves K s s := Relation.ReflTransGen.refl

theorem trans (h : Moves K s t) (h' : Moves K t u) : Moves K s u := Relation.ReflTransGen.trans h h'

theorem frame (h : Moves K s t) (hf : SameData t u) : Moves K s u := h.tail (.frame hf)

theorem written (h : Moves K s t) {c : Change} (hK : K c) (hc : c.Fits t)
    (hp : t.poisoned = false) : Moves K s (t.written c) := h.tail (.written hK hc hp)

theorem nextId_le (h : Moves K s t) : s.nextId ≤ t.nextId := by
  induction h with
  | refl => exact le_rfl
  | tail _ hstep ih =>
    refine ih.trans ?_
    cases hstep with
    | frame hf => exact hf.nextId.ge
    | takeId _ => exact Nat.le_succ _
    | extend _ _ => exact le_rfl
    | written _ _ _ => exact le_rfl
    | failed _ _ _ _ => exact le_rfl
    | flushed _ => exact le_rfl
    | poison => exact le_rfl

end Moves

/-! ## The invariant -/

/-- The live map is what the log describes; after a failed write the last entry may be missing. -/
def Live (s : Store) : Prop :=
  ∃ kept, Wal.Kept s.log kept ∧ s.db = Wal.replay kept ∧ (s.poisoned = false → kept = s.log)

structure Inv (s : Store) : Prop where
  live : Live s
  durable : Wal.Durable Sound s.log
  ids : ∀ mid m, s.db.lookup (.M mid) = some m → mid < s.nextId
  pos : 0 < s.nextId
  next : s.nextId ≤ s.reservedEnd + 1
  high : ∃ h : ℕ, s.db.lookup .high = some h ∧ s.reservedEnd ≤ h

variable {P : Db → Prop}

theorem Live.durable {s : Store} (h : Live s) (hd : Wal.Durable P s.log) : P s.db := by
  obtain ⟨kept, hkept, hdb, -⟩ := h
  rw [hdb]
  exact hd kept hkept

theorem Live.replay {s : Store} (h : Live s) (hp : s.poisoned = false) :
    Wal.replay s.log = s.db := by
  obtain ⟨kept, -, hdb, hall⟩ := h
  rw [hdb, hall hp]

theorem Live.move {K : Change → Prop} {s s' : Store} (hm : Move K s s') (h : Live s) : Live s' := by
  cases hm with
  | frame hf =>
    obtain ⟨kept, hkept, hdb, hall⟩ := h
    exact ⟨kept, by rwa [hf.log], by rw [hf.db, hdb], by rw [hf.poisoned, hf.log]; exact hall⟩
  | takeId _ => exact h
  | extend _ _ => exact h
  | @written c hK hfits hp =>
    refine ⟨_, .refl _, ?_, fun _ => rfl⟩
    simp only [Store.written, Wal.replay_snoc, h.replay hp]
  | @failed c logged hK hfits hp =>
    refine ⟨s.log, ?_, (h.replay hp).symm, by simp [Store.writeFailed]⟩
    cases logged with
    | false => exact .refl _
    | true => exact ⟨[_], rfl, by simp⟩
  | flushed hp => exact ⟨_, .refl _, by rw [Wal.replay_synced, h.replay hp], fun _ => rfl⟩
  | poison =>
    obtain ⟨kept, hkept, hdb, -⟩ := h
    exact ⟨kept, hkept, hdb, by simp⟩

theorem Durable.move {K : Change → Prop} {s s' : Store}
    (hP : ∀ c, K c → c.Fits s → P s.db → P (apply s.db (c.batch s.db)))
    (hm : Move K s s') (hl : Live s) (hd : Wal.Durable P s.log) : Wal.Durable P s'.log := by
  cases hm with
  | frame hf => rwa [hf.log]
  | takeId _ => exact hd
  | extend _ _ => exact hd
  | written hK hfits hp =>
    refine hd.snoc ?_
    rw [hl.replay hp]
    exact hP _ hK hfits (hl.durable hd)
  | failed logged hK hfits hp =>
    cases logged with
    | false => exact hd
    | true =>
      refine hd.snoc ?_
      rw [hl.replay hp]
      exact hP _ hK hfits (hl.durable hd)
  | flushed hp => exact .synced hd.live
  | poison => exact hd

namespace Change

variable {s : Store} {c : Change}

theorem isEvent_of_mem (hc : match c with | publish _ | fail .. | requeue _ => True | _ => False)
    {db : Db} {w : Write} (hw : w ∈ c.batch db) : w.key.isEvent = true := by
  cases c with
  | publish ids =>
    obtain ⟨id, -, rfl⟩ := List.mem_map.1 hw
    rfl
  | fail id failed =>
    simp only [batch, List.mem_cons, List.not_mem_nil, or_false] at hw
    rcases hw with rfl | rfl <;> rfl
  | requeue rows =>
    obtain ⟨row, -, hw⟩ := List.mem_flatMap.1 hw
    simp only [List.mem_cons, List.not_mem_nil, or_false] at hw
    rcases hw with rfl | rfl <;> rfl
  | _ => exact hc.elim

theorem lookup_of_not_isEvent (hc : match c with | publish _ | fail .. | requeue _ => True | _ => False)
    {db : Db} {k : Key} (hk : k.isEvent = false) : (apply db (c.batch db)).lookup k = db.lookup k := by
  refine lookup_apply_of_forall_ne fun w hw heq => ?_
  have := isEvent_of_mem hc hw
  rw [← heq, hk] at this
  cases this

end Change

theorem groupBatch_stored {db : Db} {ns : List NewMessage} {mid : ℕ} {m : MessageView}
    (hm : (apply db (groupBatch db ns)).lookup (.M mid) = some m) :
    db.lookup (.M mid) = some m ∨ ∃ n ∈ ns, n.message = m ∧ m.messageId = mid := by
  induction ns generalizing db with
  | nil => exact .inl hm
  | cons n ns ih =>
    rw [groupBatch, apply_append] at hm
    rcases ih hm with hm | ⟨n', hn', hmid⟩
    · rw [NewMessage.lookup_M] at hm
      split at hm
      · next hmid =>
        cases hm
        exact .inr ⟨n, List.mem_cons_self, rfl, hmid.symm⟩
      · exact .inl hm
    · exact .inr ⟨n', List.mem_cons_of_mem _ hn', hmid⟩

theorem groupBatch_high (db : Db) (ns : List NewMessage) :
    (apply db (groupBatch db ns)).lookup .high = db.lookup .high := by
  induction ns generalizing db with
  | nil => rfl
  | cons n ns ih => rw [groupBatch, apply_append, ih, NewMessage.lookup_high]

namespace Inv

variable {s s' : Store} {K : Change → Prop}

theorem sound (h : Inv s) : Sound s.db := h.live.durable h.durable

theorem fresh (h : Inv s) : s.db.lookup (.M s.nextId) = none := by
  cases hM : s.db.lookup (.M s.nextId) with
  | none => rfl
  | some m => exact absurd (h.ids _ _ hM) (lt_irrefl _)

theorem change_sound (h : Inv s) {c : Change} (hc : c.Fits s) :
    Sound (apply s.db (c.batch s.db)) := by
  cases c with
  | reserve n =>
    refine h.sound.reserve hc.1 fun mid m hm => ?_
    have h1 := h.ids mid m hm
    have h2 := h.next
    have h3 := hc.2
    omega
  | create ns => exact hc.1.sound h.sound
  | confirm ms now => exact Confirmable.sound hc h.sound now
  | read reader peer ms now row => exact Readable.sound hc h.sound now row
  | publish ids => exact h.sound.events fun w => Change.isEvent_of_mem (c := .publish ids) trivial
  | fail id failed =>
    exact h.sound.events fun w => Change.isEvent_of_mem (c := .fail id failed) trivial
  | requeue rows => exact h.sound.events fun w => Change.isEvent_of_mem (c := .requeue rows) trivial

theorem stored_after (h : Inv s) {c : Change} (hc : c.Fits s) {mid : ℕ} {m : MessageView}
    (hm : (apply s.db (c.batch s.db)).lookup (.M mid) = some m) :
    (∃ m₀, s.db.lookup (.M mid) = some m₀) ∨
      ∃ ns, c = .create ns ∧ ∃ n ∈ ns, n.message = m ∧ m.messageId = mid := by
  cases c with
  | reserve n => exact .inl ⟨m, by simpa [Change.batch, step] using hm⟩
  | create ns =>
    rcases groupBatch_stored hm with hm | hn
    · exact .inl ⟨m, hm⟩
    · exact .inr ⟨ns, rfl, hn⟩
  | confirm ms now =>
    rw [Change.batch, apply_append, lookup_confirmCounters (by simp)] at hm
    exact .inl ((Confirmable.advances hc h.sound.toRows now).exists_before hm)
  | read reader peer ms now row =>
    rw [Change.batch, Readable.lookup_readBatch rfl rfl] at hm
    exact .inl ((Readable.advances hc h.sound.toRows now).exists_before hm)
  | publish ids =>
    rw [Change.lookup_of_not_isEvent (c := .publish ids) trivial rfl] at hm
    exact .inl ⟨m, hm⟩
  | fail id failed =>
    rw [Change.lookup_of_not_isEvent (c := .fail id failed) trivial rfl] at hm
    exact .inl ⟨m, hm⟩
  | requeue rows =>
    rw [Change.lookup_of_not_isEvent (c := .requeue rows) trivial rfl] at hm
    exact .inl ⟨m, hm⟩

theorem high_after (h : Inv s) {c : Change} (hc : c.Fits s) :
    (apply s.db (c.batch s.db)).lookup .high = s.db.lookup .high ∨
      ∃ n, c = .reserve n ∧ (apply s.db (c.batch s.db)).lookup .high = some n := by
  cases c with
  | reserve n => exact .inr ⟨n, rfl, by simp [Change.batch]⟩
  | create ns => exact .inl (groupBatch_high s.db ns)
  | confirm ms now =>
    rw [Change.batch, apply_append, lookup_confirmCounters (by simp),
      (Confirmable.advances hc h.sound.toRows now).other (by simp) (by simp)]
    exact .inl rfl
  | read reader peer ms now row =>
    rw [Change.batch, Readable.lookup_readBatch rfl rfl,
      (Readable.advances hc h.sound.toRows now).other (by simp) (by simp)]
    exact .inl rfl
  | publish ids => exact .inl (Change.lookup_of_not_isEvent (c := .publish ids) trivial rfl)
  | fail id failed => exact .inl (Change.lookup_of_not_isEvent (c := .fail id failed) trivial rfl)
  | requeue rows => exact .inl (Change.lookup_of_not_isEvent (c := .requeue rows) trivial rfl)

theorem move (h : Inv s) (hm : Move K s s') : Inv s' := by
  have hlive := h.live.move hm
  have hdurable : Wal.Durable Sound s'.log :=
    Durable.move (fun c _ hc _ => h.change_sound hc) hm h.live h.durable
  cases hm with
  | frame hf =>
    refine ⟨hlive, hdurable, ?_, ?_, ?_, ?_⟩
    · rw [hf.db, hf.nextId]
      exact h.ids
    · rw [hf.nextId]
      exact h.pos
    · rw [hf.nextId, hf.reservedEnd]
      exact h.next
    · rw [hf.db, hf.reservedEnd]
      exact h.high
  | takeId hid =>
    exact ⟨hlive, hdurable, fun mid m hm => Nat.lt_succ_of_lt (h.ids mid m hm), Nat.succ_pos _,
      Nat.succ_le_succ hid, h.high⟩
  | extend hn hle =>
    exact ⟨hlive, hdurable, h.ids, h.pos, h.next.trans (Nat.succ_le_succ hle), ⟨_, hn, le_rfl⟩⟩
  | @written c hK hfits hp =>
    refine ⟨hlive, hdurable, fun mid m hm => ?_, h.pos, h.next, ?_⟩
    · rcases h.stored_after hfits hm with ⟨m₀, hm₀⟩ | ⟨ns, rfl, n, hn, rfl, rfl⟩
      · exact h.ids mid m₀ hm₀
      · exact hfits.2 n hn
    · obtain ⟨e, he, hle⟩ := h.high
      rcases h.high_after hfits with hsame | ⟨n, rfl, hn⟩
      · exact ⟨e, hsame.trans he, hle⟩
      · exact ⟨n, hn, hfits.2⟩
  | failed logged hK hfits hp => exact ⟨hlive, hdurable, h.ids, h.pos, h.next, h.high⟩
  | flushed hp => exact ⟨hlive, hdurable, h.ids, h.pos, h.next, h.high⟩
  | poison => exact ⟨hlive, hdurable, h.ids, h.pos, h.next, h.high⟩

theorem moves (h : Inv s) (hm : Moves K s s') : Inv s' := by
  induction hm with
  | refl => exact h
  | tail _ hstep ih => exact ih.move hstep

end Inv

theorem Moves.map {K : Change → Prop} {s s' : Store} (hm : Moves K s s')
    (hP : ∀ t c, Inv t → K c → c.Fits t → P t.db → P (apply t.db (c.batch t.db)))
    (h : Inv s) (hs : P s.db) : P s'.db := by
  induction hm with
  | refl => exact hs
  | tail hst hstep ih =>
    cases hstep with
    | frame hf => rwa [hf.db]
    | takeId _ => exact ih
    | extend _ _ => exact ih
    | written hK hfits _ => exact hP _ _ (h.moves hst) hK hfits ih
    | failed _ _ _ _ => exact ih
    | flushed _ => exact ih
    | poison => exact ih

theorem Moves.durable {K : Change → Prop} {s s' : Store} (hm : Moves K s s')
    (hP : ∀ t c, Inv t → K c → c.Fits t → P t.db → P (apply t.db (c.batch t.db)))
    (h : Inv s) (hd : Wal.Durable P s.log) : Wal.Durable P s'.log := by
  induction hm with
  | refl => exact hd
  | tail hst hstep ih =>
    exact Durable.move (fun c hK hc => hP _ c (h.moves hst) hK hc) hstep (h.moves hst).live ih

theorem Inv.durable_written {s : Store} {c : Change} (h : Inv s)
    (hp : s.poisoned = false) (hc : c.sync = true) (hP : P (apply s.db (c.batch s.db))) :
    Wal.Durable P (s.written c).log := by
  refine Wal.Durable.of_sync hc ?_
  rw [h.live.replay hp]
  exact hP

end TinyImx.Local
