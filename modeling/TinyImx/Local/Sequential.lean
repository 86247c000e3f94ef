import TinyImx.Local.Identity
import TinyImx.Local.EventIds

/-!
# A group is its messages one by one

The grouped path of `PersistPrivateMessages` runs beside the sequential one.  `Tracks` says that the
sequential store already holds what the group has staged; every item keeps it, and the group's single
write at the end brings both to the same map.
-/

namespace TinyImx.Local

open Kv Act

/-! ## The sequential store beside the group -/

/-- The sequential store `t` holds what the group has staged on `s`; its lock table stays inside the
users `locks`. -/
structure Tracks (locks : Finset ℕ) (b : Batch) (s t : Store) : Prop where
  map : ∀ k, t.db.lookup k = (apply s.db (b.creates.flatMap Create.writes)).lookup k
  nextId : t.nextId = s.nextId
  reservedEnd : t.reservedEnd = s.reservedEnd
  pendingEvents : t.pendingEvents = s.pendingEvents
  enabled : t.pendingIndexEnabled = s.pendingIndexEnabled
  index : ∀ id, (t.pendingIndex.lookup id).isNone = (s.pendingIndex.lookup id).isNone
  running : s.poisoned = false ∧ t.poisoned = false ∧ t.closing = false
  locks : t.userLocks ⊆ locks

variable {opts : Options} {env : Env} {locks : Finset ℕ} {b : Batch} {s t : Store}
  {ns : List NewMessage} {inp : PersistInput} {canonical : Bytes}

namespace Tracks

theorem checkOpen_ok (h : Tracks locks b s t) : checkOpen t = .ok () := by
  simp [checkOpen, require, h.running.2.1, h.running.2.2]

theorem release (h : Tracks locks b s t) :
    Tracks locks b (EventSlot.release s) (EventSlot.release t) :=
  ⟨h.map, h.nextId, h.reservedEnd, by simp [EventSlot.release, h.pendingEvents], h.enabled, h.index,
    h.running, h.locks⟩

theorem push (h : Tracks locks b s t) (r : PersistResult) (p : Bool) :
    Tracks locks (b.push r p) s t :=
  ⟨h.map, h.nextId, h.reservedEnd, h.pendingEvents, h.enabled, h.index, h.running, h.locks⟩

end Tracks

theorem lockActors_of_room {actors : List ℕ} (hpos : ∀ a ∈ actors, 0 < a)
    (hin : ∀ a ∈ actors, a ∈ locks) (hcard : locks.card ≤ 100000) (ht : t.userLocks ⊆ locks) :
    ∃ held ⊆ locks, lockActors actors t = (.ok (), { t with userLocks := held }) := by
  induction actors generalizing t with
  | nil => exact ⟨t.userLocks, ht, rfl⟩
  | cons a actors ih =>
    obtain ⟨held, hheld, hreg⟩ : ∃ held ⊆ locks,
        registerLock a t = (.ok (), { t with userLocks := held }) := by
      have hzero : check (require (0 < a) .invalidArgument "zero local lock actor") t =
          (.ok (), t) := by
        simp [check, require, hpos a List.mem_cons_self]
      unfold registerLock
      rw [bind_of_ok hzero]
      by_cases ha : a ∈ t.userLocks
      · exact ⟨t.userLocks, ht, by simp [bind_apply, ha]⟩
      · have hlt : t.userLocks.card < 100000 := by
          refine (Finset.card_lt_card ⟨ht, fun hsub => ?_⟩).trans_le hcard
          exact ha (hsub (hin a List.mem_cons_self))
        refine ⟨insert a t.userLocks, Finset.insert_subset (hin a List.mem_cons_self) ht, ?_⟩
        simp [bind_apply, ha, check, require, hlt]
    obtain ⟨held', hheld', hrest⟩ := ih (fun a' ha' => hpos a' (List.mem_cons_of_mem _ ha'))
      (fun a' ha' => hin a' (List.mem_cons_of_mem _ ha')) (t := { t with userLocks := held }) hheld
    exact ⟨held', hheld', by rw [lockActors, bind_of_ok hreg, hrest]⟩

theorem lockUsers_of_room (actors : List ℕ) (hpos : ∀ a ∈ actors, 0 < a)
    (hroom : opts.exactUserLocking = true → (∀ a ∈ actors, a ∈ locks) ∧ locks.card ≤ 100000)
    (ht : t.userLocks ⊆ locks) :
    ∃ held ⊆ locks, lockUsers opts actors t = (.ok (), { t with userLocks := held }) := by
  unfold lockUsers
  split
  · next hexact =>
    obtain ⟨hin, hcard⟩ := hroom hexact
    exact lockActors_of_room (fun a ha => hpos a (mem_actorSet.1 ha))
      (fun a ha => hin a (mem_actorSet.1 ha)) hcard ht
  · exact ⟨t.userLocks, ht, rfl⟩

/-! ## New messages -/

def messageRow (clock : Clock) (m : MessageView) (topic : Bytes) : PendingLocalEvent :=
  let spec := messageCreated clock m topic
  ⟨spec.event.eventId, spec.topic, spec.tag, spec.messageKey, spec.event⟩

theorem encodeEvent_messageCreated (clock : Clock) (m : MessageView) (topic : Bytes) :
    encodeEvent (messageCreated clock m topic) = .ok (messageRow clock m topic) := by
  have hid : messageEventId m.messageId ≠ [] := by simp [messageEventId, decimal_ne_nil]
  have htype : ascii "message.created.v1" ≠ [] := by decide
  have hkind : ascii "private_message" ≠ [] := by decide
  have hservice : ascii "message-service" ≠ [] := by decide
  have hvalid : (messageCreated clock m topic).event.valid = true := by
    simp [messageCreated, DomainEvent.valid, hid, htype, hkind, hservice, decimal_ne_nil,
      clock.iso_ne]
  rw [encodeEvent, if_pos hvalid]
  rfl

theorem write_done (hdone : ∀ n, env.engine n = .done) (batch : List Write) (sync : Bool)
    (hp : s.poisoned = false) :
    write env batch sync s = (.ok (), { s with
      db := apply s.db batch
      log := s.log ++ [⟨batch, sync⟩]
      engineWriteCalls := s.engineWriteCalls + 1 }) := by
  simp [write, hp, hdone]

theorem Tracks.reserved (h : Tracks locks b s t) (hwrites : b.creates.flatMap Create.writes =
      groupBatch s.db ns) (n : ℕ) (k : Key) :
    (apply t.db [.put .high n]).lookup k =
      (apply (apply s.db [.put .high n]) (b.creates.flatMap Create.writes)).lookup k := by
  by_cases hk : k = .high
  · subst hk
    have hs : SameMap s.db (apply s.db [.put .high n]) := fun k hk => AList.lookup_insert_ne hk
    have hput : ∀ db : Db, (apply db [.put .high n]).lookup .high = some n :=
      fun db => lookup_step_put db .high n
    rw [hwrites, ← groupBatch_congr hs, groupBatch_high, hput, hput]
  · have hstep : ∀ db : Db, (apply db [.put .high n]).lookup k = db.lookup k :=
      fun db => AList.lookup_insert_ne hk
    rw [hstep, h.map]
    exact (lookup_apply_congr (hstep s.db) _).symm

section

variable (hdone : ∀ n, env.engine n = .done)
include hdone

theorem nextMessageId_agree (h : Tracks locks b s t)
    (hwrites : b.creates.flatMap Create.writes = groupBatch s.db ns) :
    Agree (nextMessageId env) (nextMessageId env) s t
      (fun a s' a' t' => a' = a ∧ Tracks locks b s' t' ∧ SameMap s.db s'.db) (Tracks locks b) := by
  unfold nextMessageId
  refine Agree.read_bind ?_
  simp only [id, h.nextId, h.reservedEnd]
  split
  · refine Agree.inspect_bind rfl h fun _ _ => ?_
    refine Agree.bind_left (write_done hdone _ _ h.running.1) ?_
    refine Agree.bind_right (write_done hdone _ _ h.running.2.1) ?_
    refine Agree.modify_bind (Agree.modify_bind (Agree.pure ⟨rfl, ?_, ?_⟩))
    · exact ⟨h.reserved hwrites _, by simp [h.nextId], rfl, h.pendingEvents, h.enabled, h.index,
        h.running, h.locks⟩
    · exact fun k hk => AList.lookup_insert_ne hk
  · refine Agree.modify_bind (Agree.pure ⟨rfl, ?_, .refl _⟩)
    exact ⟨h.map, by simp [h.nextId], h.reservedEnd, h.pendingEvents, h.enabled, h.index, h.running,
      h.locks⟩

end

theorem reserve_agree (h : Tracks locks b s t) :
    Agree (EventSlot.reserve opts) (EventSlot.reserve opts) s t
      (fun _ s' _ t' => Tracks locks b s' t' ∧ s'.db = s.db) (Tracks locks b) := by
  unfold EventSlot.reserve
  refine Agree.read_bind (Agree.inspect_bind (by simp only [h.pendingEvents]) h fun _ _ => ?_)
  exact ⟨⟨h.map, h.nextId, h.reservedEnd, by simp [h.pendingEvents], h.enabled, h.index, h.running,
    h.locks⟩, rfl⟩

theorem isNone_insert {α : Type} [DecidableEq α] {V : α → Type} {m m' : AList V}
    (h : ∀ a, (m'.lookup a).isNone = (m.lookup a).isNone) (a : α) (v v' : V a) (c : α) :
    ((m'.insert a v').lookup c).isNone = ((m.insert a v).lookup c).isNone := by
  by_cases hc : c = a
  · subst hc
    simp
  · rw [AList.lookup_insert_ne hc, AList.lookup_insert_ne hc, h]

theorem prepare_agree (id : Bytes) (h : Tracks locks b s t) :
    Agree (EventSlot.prepare id) (EventSlot.prepare id) s t
      (fun _ s' _ t' => Tracks locks b s' t' ∧ s'.db = s.db ∧ t'.db = t.db ∧
        (t'.pendingIndexEnabled = true → (t'.pendingIndex.lookup id).isNone = false))
      (Tracks locks b) := by
  unfold EventSlot.prepare
  refine Agree.read_bind (Agree.read_bind ?_)
  rw [h.enabled]
  split
  · refine Agree.inspect_bind (by simp only [h.index]) h fun _ _ => ?_
    exact ⟨⟨h.map, h.nextId, h.reservedEnd, h.pendingEvents, h.enabled, isNone_insert h.index id _ _,
      h.running, h.locks⟩, rfl, rfl, fun _ => by simp⟩
  · next hoff => exact ⟨h, rfl, rfl, fun hon => absurd (h.enabled.symm.trans hon) hoff⟩

theorem Tracks.commit (h : Tracks locks b s t) {id : Bytes}
    (hid : t.pendingIndexEnabled = true → (t.pendingIndex.lookup id).isNone = false) :
    Tracks locks b s (EventSlot.commit id t) := by
  unfold EventSlot.commit
  split
  · next hon =>
    refine ⟨h.map, h.nextId, h.reservedEnd, h.pendingEvents, h.enabled, fun c => ?_, h.running,
      h.locks⟩
    by_cases hc : c = id
    · subst hc
      rw [← h.index, hid hon]
      simp
    · rw [AList.lookup_insert_ne hc, h.index]
  · exact h

theorem Tracks.stage (h : Tracks locks b s t) (m : MessageView) (canonical : Bytes)
    (total dialog pending : ℕ) (row : PendingLocalEvent) (log : List LogEntry) (calls : ℕ) :
    Tracks locks (b.stage m canonical total dialog pending row) s { t with
      db := apply t.db (messageWrites m canonical total dialog pending ++ eventWrites row)
      log := log
      engineWriteCalls := calls } := by
  refine ⟨fun k => ?_, h.nextId, h.reservedEnd, h.pendingEvents, h.enabled, h.index, h.running,
    h.locks⟩
  simp only [Batch.stage, List.flatMap_append, List.flatMap_singleton]
  rw [apply_append _ (b.creates.flatMap _)]
  exact lookup_apply_congr (h.map k) _

structure SameItem (r r' : PersistResult) : Prop where
  status : r'.status = r.status
  outcome : r'.outcome = r.outcome
  messageId : r'.messageId = r.messageId
  record : r'.record = r.record
  message : r'.message = r.message

theorem SameItem.refl (r : PersistResult) : SameItem r r := ⟨rfl, rfl, rfl, rfl, rfl⟩

/-- A message that is staged in the group is written by the sequential path. -/
theorem stageMessage_agree (opts : Options) (inp : PersistInput) (canonical : Bytes)
    (hdone : ∀ n, env.engine n = .done) (h : Tracks locks b s t) (ho : Overlay b s.db ns) :
    Agree (stageMessage opts env b inp canonical)
      (createMessage opts env b.out.length inp canonical) s t
      (fun b' s' r t' => Tracks locks b' s' t' ∧ ∃ r₀, b'.out = b.out ++ [r₀] ∧ SameItem r₀ r)
      (Tracks locks b) := by
  refine Agree.inspect_bind rfl h fun _ _ => ?_
  refine Agree.inspect_bind rfl h fun _ _ => ?_
  refine Agree.bind (reserve_agree h) ?_
  rintro _ s₁ _ t₁ ⟨h₁, hdb₁⟩
  rw [← hdb₁] at ho
  refine Agree.onThrow ?_
  refine Agree.inspect_bind rfl h₁.release fun _ _ => ?_
  refine Agree.bind ((nextMessageId_agree hdone h₁ ho.writes).mono_error fun _ _ h => h.release) ?_
  rintro _ s₂ mid t₂ ⟨rfl, h₂, hmap⟩
  have hview : ∀ k, t₂.db.lookup k = (apply s₂.db (groupBatch s₂.db ns)).lookup k := by
    rw [← (ho.congr hmap).writes]
    exact h₂.map
  have htotal : ∀ r, totalCount t₂.db r = b.count (.N r) (totalCount s₂.db r) := by
    intro r
    rw [totalCount, hview, (ho.congr hmap).total]
    rfl
  have hdialog : ∀ r p, dialogCount t₂.db r p = b.count (.D r p) (dialogCount s₂.db r p) := by
    intro r p
    rw [dialogCount, hview, (ho.congr hmap).dialog]
    rfl
  have hpending : ∀ r, pendingCount t₂.db r = b.count (.Q r) (pendingCount s₂.db r) := by
    intro r
    rw [pendingCount, hview, (ho.congr hmap).pending]
    rfl
  refine Agree.read_bind ?_
  rw [htotal, hdialog, hpending]
  refine Agree.inspect_bind rfl h₂.release fun _ _ => ?_
  -- the two paths dump the record and encode the event in different orders
  have hrow := encodeEvent_messageCreated env.clock (newRecord env.clock inp mid)
    opts.messageEventsTopic
  refine Agree.bind_left (by rw [check, inspect_apply, hrow]) ?_
  refine Agree.inspect_bind rfl h₂.release fun _ _ => ?_
  refine Agree.bind_right (by rw [check, inspect_apply, hrow]) ?_
  refine Agree.bind ((prepare_agree _ h₂).mono_error fun _ _ h => h.release) ?_
  rintro _ s₃ _ t₃ ⟨h₃, -, -, hid⟩
  refine Agree.bind_right (onThrow_of_ok (write_done hdone _ _ h₃.running.2.1)) ?_
  refine Agree.bind_right rfl (Agree.pure ⟨?_, _, rfl, rfl, rfl, rfl, rfl, rfl⟩)
  exact (h₃.stage _ _ _ _ _ _ _ _).commit hid

/-! ## Items -/

theorem persistPrivateMessage_of_ok {item : ℕ} {r : PersistResult} {t' : Store}
    (hopen : checkOpen t = .ok ()) (h : persistBody opts env item inp t = (.ok r, t')) :
    persistPrivateMessage opts env item inp t = (r, t') := by
  have hrun : (do Act.inspect checkOpen; persistBody opts env item inp : StoreM _) t = (.ok r, t') := by
    rw [bind_of_ok (by rw [inspect_apply, hopen]), h]
  rw [persistPrivateMessage, call, hrun]
  rfl

theorem persistPrivateMessage_of_error {item : ℕ} {e : Failure} {t' : Store}
    (hopen : checkOpen t = .ok ()) (h : persistBody opts env item inp t = (.error e, t')) :
    persistPrivateMessage opts env item inp t = (.ofFailure e, t') := by
  have hrun : (do Act.inspect checkOpen; persistBody opts env item inp : StoreM _) t =
      (.error e, t') := by
    rw [bind_of_ok (by rw [inspect_apply, hopen]), h]
  rw [persistPrivateMessage, call, hrun]

theorem persistBody_locked {item : ℕ} {held : Finset ℕ}
    (hin : checkInput opts env item inp = .ok canonical)
    (hlock : lockUsers opts [inp.fromUserId, inp.toUserId] t = (.ok (), { t with userLocks := held }))
    {existing : Option MessageView} (hfind : findExisting t.db inp.fromUserId canonical = .ok existing) :
    persistBody opts env item inp t = match existing with
      | some m => (.ok (existingResult m inp), { t with userLocks := held })
      | none => createMessage opts env item inp canonical { t with userLocks := held } := by
  unfold persistBody
  rw [bind_of_ok (by rw [check, inspect_apply, hin]), bind_of_ok hlock,
    bind_of_ok (by rw [inspect_apply, hfind])]
  cases existing with
  | none => rfl
  | some m => rfl

theorem Rows.findExisting_of_lookup {db : Db} (h : Rows db) {f mid : ℕ} {c : Bytes} {m : MessageView}
    (hI : db.lookup (.I f c) = some mid) (hM : db.lookup (.M mid) = some m) :
    findExisting db f c = .ok (some m) := by
  rcases h.findExisting_eq f c with ⟨-, hnone⟩ | ⟨mid', m', hfind, hI', hM'⟩
  · rw [hI] at hnone
    cases hnone
  · grind

theorem Rows.findExisting_of_none {db : Db} {f : ℕ} {c : Bytes} (hI : db.lookup (.I f c) = none) :
    findExisting db f c = .ok none := by simp [findExisting, hI]

theorem checkInput_pos {item : ℕ} (h : checkInput opts env item inp = .ok canonical) :
    0 < inp.fromUserId ∧ 0 < inp.toUserId := by
  obtain ⟨_, hdialog, -⟩ := bind_eq_ok.1 h
  exact ⟨(dialog_ok hdialog).1, (dialog_ok hdialog).2.1⟩

variable {s₀ : Store} {done : List (PersistInput × Except Failure Bytes)}
  {checked : Except Failure Bytes}

/-- One item of the group does what `PersistPrivateMessage` does. -/
theorem stageItem_tracks (hdone : ∀ n, env.engine n = .done) (hst : Staged env s₀ done b ns s)
    (h : Tracks locks b s t) (hs : Inv s) (ht : Inv t)
    (hin : checked = checkInput opts env b.out.length inp)
    (hroom : ∀ c, checked = .ok c → opts.exactUserLocking = true →
      (∀ a ∈ [inp.fromUserId, inp.toUserId], a ∈ locks) ∧ locks.card ≤ 100000) :
    Tracks locks (stageItem opts env inp checked b s).1 (stageItem opts env inp checked b s).2
        (persistPrivateMessage opts env b.out.length inp t).2 ∧
      ∃ r, (stageItem opts env inp checked b s).1.out = b.out ++ [r] ∧
        SameItem r (persistPrivateMessage opts env b.out.length inp t).1 := by
  have hopen := h.checkOpen_ok
  cases checked with
  | error e =>
    have hbody : persistBody opts env b.out.length inp t = (.error e, t) :=
      bind_of_error (by rw [check, inspect_apply, ← hin])
    rw [persistPrivateMessage_of_error hopen hbody]
    exact ⟨h.push _ _, _, rfl, .refl _⟩
  | ok c =>
    obtain ⟨hfrom, hto⟩ := checkInput_pos hin.symm
    obtain ⟨held, hheld, hlock⟩ := lockUsers_of_room [inp.fromUserId, inp.toUserId]
      (by simp [hfrom, hto]) (hroom c rfl) h.locks
    have h' : Tracks locks b s { t with userLocks := held } :=
      ⟨h.map, h.nextId, h.reservedEnd, h.pendingEvents, h.enabled, h.index, h.running, hheld⟩
    have hrows := ht.sound.toRows
    have hview : ∀ k, t.db.lookup k = (apply s.db (groupBatch s.db ns)).lookup k := by
      rw [← hst.overlay.writes]
      exact h.map
    -- whoever has the client id, the sequential store finds the same message
    have hfound : ∀ mid m, t.db.lookup (.I inp.fromUserId c) = some mid →
        t.db.lookup (.M mid) = some m → persistPrivateMessage opts env b.out.length inp t =
          (existingResult m inp, { t with userLocks := held }) := by
      intro mid m hI hM
      exact persistPrivateMessage_of_ok hopen
        (persistBody_locked hin.symm hlock (hrows.findExisting_of_lookup hI hM))
    unfold stageItem
    dsimp only
    cases hstaged : b.stagedCids.lookup (inp.fromUserId, c) with
    | some j =>
      obtain ⟨n, hn, hnf, hnc, -, hrec⟩ := hst.overlay.staged hstaged
      have hmap := hst.fits.inMap hn
      rw [hfound n.message.messageId n.message
        (by rw [hview, ← hnf, ← hnc]; exact hmap.cid) (by rw [hview]; exact hmap.record), ← hrec]
      exact ⟨h'.push _ _, _, rfl, .refl _⟩
    | none =>
      have hsame := hst.overlay.unstaged hstaged
      rcases hs.sound.toRows.findExisting_eq inp.fromUserId c with
        ⟨hfind, hI⟩ | ⟨mid, m, hfind, hI, hM⟩
      · rw [hfind]
        have hnone : t.db.lookup (.I inp.fromUserId c) = none := by rw [hview, hsame, hI]
        have hbody := persistBody_locked hin.symm hlock (Rows.findExisting_of_none hnone)
        rcases (stageMessage_agree opts inp c hdone h' hst.overlay).cases with
          ⟨b', s', r, t', hx, hy, htracks, r₀, hout, hr⟩ | ⟨e, s', t', hx, hy, htracks⟩
        · rw [persistPrivateMessage_of_ok hopen (hbody.trans hy), hx]
          exact ⟨htracks, r₀, hout, hr⟩
        · rw [persistPrivateMessage_of_error hopen (hbody.trans hy), hx]
          exact ⟨htracks.push _ _, _, rfl, .refl _⟩
      · rw [hfind, hfound mid m (by rw [hview, hsame, hI])
          (by rw [hview]; exact groupBatch_keeps_M hst.fits hM)]
        exact ⟨h'.push _ _, _, rfl, .refl _⟩

/-! ## The whole group -/

def itemsFrom (opts : Options) (env : Env) (i : ℕ) (inputs : List PersistInput) :
    List (PersistInput × Except Failure Bytes) :=
  inputs.mapIdx fun j inp => (inp, checkInput opts env (i + j) inp)

theorem itemsFrom_cons (i : ℕ) (inp : PersistInput) (inputs : List PersistInput) :
    itemsFrom opts env i (inp :: inputs) =
      (inp, checkInput opts env i inp) :: itemsFrom opts env (i + 1) inputs := by
  simp [itemsFrom, List.mapIdx_cons, Nat.add_assoc, Nat.add_comm 1]

/-- The staging loop runs beside the sequential path. -/
theorem stageItems_tracks (hdone : ∀ n, env.engine n = .done) (hinv : Inv s₀)
    (inputs : List PersistInput) {i : ℕ} {rs : List PersistResult}
    (hst : Staged env s₀ done b ns s) (hi : done.length = i) (h : Tracks locks b s t) (ht : Inv t)
    (hrs : List.Forall₂ SameItem b.out rs)
    (hroom : opts.exactUserLocking = true → locks.card ≤ 100000 ∧
      ∀ a ∈ batchActors (itemsFrom opts env i inputs), a ∈ locks) :
    Tracks locks (stageItems opts env (itemsFrom opts env i inputs) b s).1
        (stageItems opts env (itemsFrom opts env i inputs) b s).2
        (persistEach opts env i inputs t).2 ∧
      List.Forall₂ SameItem (stageItems opts env (itemsFrom opts env i inputs) b s).1.out
        (rs ++ (persistEach opts env i inputs t).1) := by
  induction inputs generalizing done b ns s t rs i with
  | nil =>
    refine ⟨h, ?_⟩
    rw [persistEach, List.append_nil]
    exact hrs
  | cons inp inputs ih =>
    have hlen : b.out.length = i := hst.out_length.trans hi
    have hin : checkInput opts env i inp = checkInput opts env b.out.length inp := by rw [hlen]
    rw [itemsFrom_cons] at hroom ⊢
    have hs := hinv.moves hst.moves
    obtain ⟨htracks, r, hout, hr⟩ := stageItem_tracks hdone hst h hs ht hin fun c hc hexact => by
      refine ⟨fun a ha => (hroom hexact).2 a ?_, (hroom hexact).1⟩
      rw [batchActors, List.flatMap_cons]
      refine List.mem_append_left _ ?_
      rw [hc]
      exact ha
    obtain ⟨ns', hst', -⟩ := stageItem_staged hinv hst hin
    rw [hlen] at htracks hr
    have ht' := ht.moves (persistPrivateMessage_spec opts env i inp ht).1
    have hrs' : List.Forall₂ SameItem
        (stageItem opts env inp (checkInput opts env i inp) b s).1.out
        (rs ++ [(persistPrivateMessage opts env i inp t).1]) := by
      rw [hout]
      exact List.rel_append hrs (.cons hr .nil)
    have hrest := ih (i := i + 1) hst' (by simp [hi]) htracks ht' hrs' fun hexact => by
      refine ⟨(hroom hexact).1, fun a ha => (hroom hexact).2 a ?_⟩
      rw [batchActors, List.flatMap_cons]
      exact List.mem_append_right _ ha
    rw [List.append_assoc] at hrest
    exact hrest

theorem forall₂_sameItem_refl (rs : List PersistResult) : List.Forall₂ SameItem rs rs :=
  List.forall₂_same.2 fun r _ => .refl r

theorem persistEach_closed {e : Failure} (hopen : checkOpen s = .error e)
    (inputs : List PersistInput) (i : ℕ) :
    persistEach opts env i inputs s = (inputs.map fun _ => .ofFailure e, s) := by
  induction inputs generalizing i with
  | nil => rfl
  | cons inp inputs ih =>
    have hrun : (do Act.inspect checkOpen; persistBody opts env i inp : StoreM _) s =
        (.error e, s) := bind_of_error (by rw [inspect_apply, hopen])
    have hone : persistPrivateMessage opts env i inp s = (.ofFailure e, s) := by
      rw [persistPrivateMessage, call, hrun]
    rw [persistEach, hone]
    dsimp only
    rw [ih]
    rfl

theorem batchActors_pos {inputs : List PersistInput} {a : ℕ}
    (ha : a ∈ batchActors (checkInputs opts env inputs)) : 0 < a := by
  obtain ⟨x, hx, ha⟩ := List.mem_flatMap.1 ha
  obtain ⟨i, hi, rfl⟩ := List.mem_mapIdx.1 hx
  dsimp only at ha
  split at ha
  · cases ha
  · next hc =>
    obtain ⟨hfrom, hto⟩ := checkInput_pos hc
    simp only [List.mem_cons, List.not_mem_nil, or_false] at ha
    rcases ha with rfl | rfl
    · exact hfrom
    · exact hto

theorem foldl_commit {creates : List Create} (s : Store) :
    (creates.foldl (fun s c => EventSlot.commit c.eventId s) s).pendingEvents = s.pendingEvents := by
  induction creates generalizing s with
  | nil => rfl
  | cons c creates ih =>
    rw [List.foldl_cons, ih, EventSlot.commit]
    split <;> rfl

theorem sameItem_unreadResult (b : Batch) (i : ℕ) (r : PersistResult) :
    SameItem (b.unreadResult opts i r) r := by
  unfold Batch.unreadResult
  split
  · split
    · exact ⟨rfl, rfl, rfl, rfl, rfl⟩
    · exact .refl r
  · exact .refl r

theorem commitBatch_tracks (opts : Options) (hdone : ∀ n, env.engine n = .done) (h : Tracks locks b s t) :
    (∀ k, (commitBatch opts env b s).2.db.lookup k = t.db.lookup k) ∧
      (commitBatch opts env b s).2.nextId = t.nextId ∧
      (commitBatch opts env b s).2.pendingEvents = t.pendingEvents ∧
      List.Forall₂ SameItem (commitBatch opts env b s).1 b.out := by
  unfold commitBatch
  split
  · next hempty =>
    refine ⟨fun k => ?_, h.nextId.symm, h.pendingEvents.symm, forall₂_sameItem_refl _⟩
    rw [h.map, List.isEmpty_iff.1 hempty]
    rfl
  · rw [write_done hdone _ _ h.running.1]
    have hsame := sameData_foldl (fun s (c : Create) => sameData_commit c.eventId s) b.creates
      { s with
        db := apply s.db (b.creates.flatMap Create.writes)
        log := s.log ++ [⟨b.creates.flatMap Create.writes, true⟩]
        engineWriteCalls := s.engineWriteCalls + 1 }
    refine ⟨fun k => ?_, ?_, ?_, ?_⟩
    · rw [h.map, hsame.db]
    · exact hsame.nextId.trans h.nextId.symm
    · exact (foldl_commit _).trans h.pendingEvents.symm
    · refine List.forall₂_iff_get.2 ⟨by simp, fun i _ _ => ?_⟩
      simpa using sameItem_unreadResult b i _

theorem SameItem.trans {a c d : PersistResult} (h : SameItem a c) (h' : SameItem c d) :
    SameItem a d :=
  ⟨h'.status.trans h.status, h'.outcome.trans h.outcome, h'.messageId.trans h.messageId,
    h'.record.trans h.record, h'.message.trans h.message⟩

theorem sameItems_trans {a c d : List PersistResult} (h : List.Forall₂ SameItem a c)
    (h' : List.Forall₂ SameItem c d) : List.Forall₂ SameItem a d := by
  induction h generalizing d with
  | nil => exact h'
  | cons hr _ ih =>
    cases h' with
    | cons hr' h' => exact .cons (hr.trans hr') (ih h')

/-- The grouped path ends like the sequential one. -/
theorem persistBatch_tracks (hdone : ∀ n, env.engine n = .done) (h : Inv s)
    (inputs : List PersistInput)
    (hroom : opts.exactUserLocking = true →
      (s.userLocks ∪ (batchActors (checkInputs opts env inputs)).toFinset).card ≤ 100000) :
    (∀ k, (persistBatch opts env inputs s).2.db.lookup k =
        (persistEach opts env 0 inputs s).2.db.lookup k) ∧
      (persistBatch opts env inputs s).2.nextId = (persistEach opts env 0 inputs s).2.nextId ∧
      (persistBatch opts env inputs s).2.pendingEvents =
        (persistEach opts env 0 inputs s).2.pendingEvents ∧
      List.Forall₂ SameItem (persistBatch opts env inputs s).1
        (persistEach opts env 0 inputs s).1 := by
  unfold persistBatch
  rw [← checkInputs]
  cases hopen : checkOpen s with
  | error e =>
    rw [persistEach_closed hopen]
    exact ⟨fun _ => rfl, rfl, rfl, forall₂_sameItem_refl _⟩
  | ok u =>
    set locks := s.userLocks ∪ (batchActors (checkInputs opts env inputs)).toFinset with hlocks
    have hall : ∀ a ∈ batchActors (checkInputs opts env inputs), a ∈ locks :=
      fun a ha => Finset.mem_union_right _ (List.mem_toFinset.2 ha)
    obtain ⟨held, -, hlock⟩ := lockUsers_of_room (batchActors (checkInputs opts env inputs))
      (fun a ha => batchActors_pos ha) (fun hexact => ⟨hall, hroom hexact⟩)
      (show s.userLocks ⊆ locks from Finset.subset_union_left)
    dsimp only
    rw [hlock]
    have hopen' : s.closing = false ∧ s.poisoned = false := by
      simpa [checkOpen, require_eq_ok] using hopen
    have hitems : checkInputs opts env inputs = itemsFrom opts env 0 inputs := by
      simp [checkInputs, itemsFrom]
    have hheld : Inv { s with userLocks := held } :=
      h.move (K := persistKind) (.frame ⟨rfl, rfl, rfl, rfl, rfl⟩)
    have htracks : Tracks locks {} { s with userLocks := held } s :=
      ⟨fun _ => rfl, rfl, rfl, rfl, rfl, fun _ => rfl, ⟨hopen'.2, hopen'.2, hopen'.1⟩,
        Finset.subset_union_left⟩
    rw [hitems] at hall ⊢
    have hnil : List.Forall₂ SameItem ({} : Batch).out [] := .nil
    obtain ⟨hend, hrs⟩ := stageItems_tracks hdone hheld inputs (staged_init _) rfl htracks h hnil
      fun hexact => ⟨hroom hexact, hall⟩
    obtain ⟨hmap, hnext, hevents, hout⟩ := commitBatch_tracks opts hdone hend
    exact ⟨hmap, hnext, hevents, sameItems_trans hout hrs⟩

/-- A group leaves the same map, the same next message id and the same event count as its messages
persisted one by one, and reports the same results, while the engine writes and the lock table has
room for the group's users.  The hooks answer each item by its position in both. -/
theorem group_refines_sequence (h : Reachable opts s) {inputs : List PersistInput}
    (hlen : inputs.length ≤ 64) (hdone : ∀ n, env.engine n = .done)
    (hroom : opts.exactUserLocking = true →
      (s.userLocks ∪ (batchActors (checkInputs opts env inputs)).toFinset).card ≤ 100000) :
    (∀ k, (persistPrivateMessages opts env inputs s).2.db.lookup k =
        (persistEach opts env 0 inputs s).2.db.lookup k) ∧
      (persistPrivateMessages opts env inputs s).2.nextId =
        (persistEach opts env 0 inputs s).2.nextId ∧
      (persistPrivateMessages opts env inputs s).2.pendingEvents =
        (persistEach opts env 0 inputs s).2.pendingEvents ∧
      List.Forall₂ SameItem (persistPrivateMessages opts env inputs s).1
        (persistEach opts env 0 inputs s).1 := by
  rw [persistPrivateMessages, if_neg hlen.not_gt]
  split
  · next hempty =>
    obtain rfl := List.isEmpty_iff.1 hempty
    exact ⟨fun _ => rfl, rfl, rfl, .nil⟩
  · split
    · exact ⟨fun _ => rfl, rfl, rfl, forall₂_sameItem_refl _⟩
    · exact persistBatch_tracks hdone h.inv inputs hroom

def sampleGroup : List PersistInput := [sampleInput, { sampleInput with content := [1] }]

theorem group_refines_sequence_sample :
    ({ sampleOptions with persistBatchEnable := true } : Options).exactUserLocking = false ∧
      List.Forall₂ SameItem
        (persistPrivateMessages { sampleOptions with persistBatchEnable := true } sampleEnv sampleGroup
          sampleStore).1
        (persistEach { sampleOptions with persistBatchEnable := true } sampleEnv 0 sampleGroup
          sampleStore).1 :=
  ⟨rfl, (group_refines_sequence ⟨sampleStore, [], rfl, .nil sampleStore⟩ (by decide) (fun _ => rfl)
    (fun h => by cases h)).2.2.2⟩

/-! ## A full lock table -/

def fullOptions : Options where
  messageEventsTopic := ascii "message-events"
  firstMessageId := 1
  initialUserIds := List.range' 1 100000
  exactUserLocking := true
  persistBatchEnable := true
  resolveIdentity := true
  topic_valid := sampleOptions.topic_valid
  first_pos := sampleOptions.first_pos
  first_lt := sampleOptions.first_lt
  pending_pos := sampleOptions.pending_pos
  pending_le := sampleOptions.pending_le
  users_ne := by
    rw [ne_eq, List.range'_eq_nil_iff]
    decide
  users_le := by
    rw [List.length_range']
  users_pos := by
    intro id hid
    have := (List.mem_range'_1.1 hid).1
    omega
  users_nodup := List.nodup_range'

/-- The store on an empty directory with the users `held` in its lock table. -/
def lockedStore (held : Finset ℕ) : Store := { sampleStore with userLocks := held }

def sampleNewcomer : PersistInput :=
  { sampleInput with toUserId := 100001, clientMessageId := [100] }

theorem lockUsers_full (actors : List ℕ) :
    lockUsers fullOptions actors = lockActors (actorSet actors) := rfl

section

variable {held : Finset ℕ} (h₁ : 1 ∈ held) (h₂ : 2 ∈ held)

theorem registerLock_held {a : ℕ} (ha : a ∈ held) (hpos : 0 < a) :
    registerLock a (lockedStore held) = (.ok (), lockedStore held) := by
  simp [registerLock, bind_apply, check, require, hpos, lockedStore, ha]

include h₁ h₂

theorem lockActors_newcomer (hcard : held.card = 100000) (h₃ : 100001 ∉ held) :
    lockActors [1, 2, 100001] (lockedStore held) =
      (.error ⟨.failedPrecondition, "bounded local actor lock capacity reached"⟩,
        lockedStore held) := by
  rw [lockActors, bind_of_ok (registerLock_held h₁ (by decide)), lockActors,
    bind_of_ok (registerLock_held h₂ (by decide)), lockActors, bind_of_error]
  simp [registerLock, bind_apply, check, require, lockedStore, h₃, hcard]

theorem group_newcomer (hcard : held.card = 100000) (h₃ : 100001 ∉ held) :
    ((persistPrivateMessages fullOptions sampleEnv [sampleInput, sampleNewcomer]
      (lockedStore held)).1.map PersistResult.status) =
        [.failedPrecondition, .failedPrecondition] := by
  have hchecked : checkInputs fullOptions sampleEnv [sampleInput, sampleNewcomer] =
      [(sampleInput, .ok [99]), (sampleNewcomer, .ok [100])] := rfl
  have hactors : actorSet (batchActors [(sampleInput, .ok [99]), (sampleNewcomer, .ok [100])]) =
      [1, 2, 100001] := by decide
  have hbatch : persistPrivateMessages fullOptions sampleEnv [sampleInput, sampleNewcomer]
      (lockedStore held) =
        persistBatch fullOptions sampleEnv [sampleInput, sampleNewcomer] (lockedStore held) := rfl
  have hopen : checkOpen (lockedStore held) = .ok () := rfl
  rw [hbatch, persistBatch, hopen, ← checkInputs, hchecked]
  dsimp only
  rw [lockUsers_full, hactors, lockActors_newcomer h₁ h₂ hcard h₃]
  rfl

theorem single_newcomer :
    (persistPrivateMessage fullOptions sampleEnv 0 sampleInput (lockedStore held)).1.status =
      .succeeded := by
  have hactors : actorSet [1, 2] = [1, 2] := by decide
  have hlock : lockUsers fullOptions [1, 2] (lockedStore held) = (.ok (), lockedStore held) := by
    rw [lockUsers_full, hactors, lockActors, bind_of_ok (registerLock_held h₁ (by decide)),
      lockActors, bind_of_ok (registerLock_held h₂ (by decide))]
    rfl
  have hin : checkInput fullOptions sampleEnv 0 sampleInput = .ok [99] := rfl
  have hfind : findExisting (lockedStore held).db 1 [99] = .ok none := rfl
  have hopen : checkOpen (lockedStore held) = .ok () := rfl
  have hdone : ∀ n, sampleEnv.engine n = .done := fun _ => rfl
  have htracks : Tracks held {} sampleStore (lockedStore held) :=
    ⟨fun _ => rfl, rfl, rfl, rfl, rfl, fun _ => rfl, ⟨rfl, rfl, rfl⟩, Finset.Subset.refl held⟩
  have hstage : (stageMessage fullOptions sampleEnv {} sampleInput [99] sampleStore).1.map
      (fun b => b.out.map PersistResult.status) = .ok [.succeeded] := by decide +kernel
  rcases (stageMessage_agree fullOptions sampleInput [99] hdone htracks (.empty _)).cases with
    ⟨b, s', r, t', hx, hy, -, r₀, hout, hr⟩ | ⟨e, s', t', hx, -⟩
  · rw [persistPrivateMessage_of_ok hopen ((persistBody_locked hin hlock hfind).trans hy), hr.status]
    rw [hx] at hstage
    simpa [Except.map, hout] using hstage
  · rw [hx] at hstage
    cases hstage

end

theorem persistEach_head (i : ℕ) (inputs : List PersistInput) :
    ((persistEach opts env i (inp :: inputs) s).1.map PersistResult.status).head? =
      some (persistPrivateMessage opts env i inp s).1.status := rfl

/-- With a full lock table a group fails for every item where one by one only the newcomer's message
fails. -/
theorem group_differs_when_locks_full : ∃ s, Reachable fullOptions s ∧
    ((persistPrivateMessages fullOptions sampleEnv [sampleInput, sampleNewcomer] s).1.map
      PersistResult.status) = [.failedPrecondition, .failedPrecondition] ∧
    ((persistEach fullOptions sampleEnv 0 [sampleInput, sampleNewcomer] s).1.map
      PersistResult.status).head? = some .succeeded := by
  have hmem : ∀ {a}, a ∈ (List.range' 1 100000).toFinset ↔ 1 ≤ a ∧ a < 1 + 100000 := by
    intro a
    rw [List.mem_toFinset, List.mem_range'_1]
  have hcard : (List.range' 1 100000).toFinset.card = 100000 := by
    rw [List.toFinset_card_of_nodup List.nodup_range', List.length_range']
  have h₁ : 1 ∈ (List.range' 1 100000).toFinset := hmem.2 (by decide)
  have h₂ : 2 ∈ (List.range' 1 100000).toFinset := hmem.2 (by decide)
  have h₃ : 100001 ∉ (List.range' 1 100000).toFinset := fun h => by
    have := (hmem.1 h).2
    omega
  refine ⟨lockedStore (List.range' 1 100000).toFinset, ⟨_, [], rfl, .nil _⟩,
    group_newcomer h₁ h₂ hcard h₃, ?_⟩
  rw [persistEach_head, single_newcomer h₁ h₂]

end TinyImx.Local
