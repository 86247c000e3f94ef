import TinyImx.Local.Primitives

/-!
# What persisting a message does

The single path answers from the client id index, or writes one new message; the message's checks on
the counters pass because the map is sound.
-/

namespace TinyImx.Local

open Kv Act

def persistKind : Change → Prop
  | .reserve _ | .create _ => True
  | _ => False

variable {opts : Options} {env : Env} {inp : PersistInput} {canonical : Bytes} {item : ℕ}
  {s t : Store}

/-! ## Checks on the input -/

theorem checkInput_admissible (inp : PersistInput) :
    Raises (checkInput opts env item inp) (Admissible env) := by
  refine (dialog_admissible _ _).bind fun _ _ => ?_
  refine (raises_admissible (by decide)).bind fun _ _ => ?_
  exact identity_admissible _ _ _ _

theorem newRecord_valid (h : checkInput opts env item inp = .ok canonical) {mid : ℕ} (hmid : 0 < mid) :
    decodeRecord (newRecord env.clock inp mid) mid = .ok (newRecord env.clock inp mid) := by
  obtain ⟨_, hdialog, h⟩ := bind_eq_ok.1 h
  obtain ⟨_, hreq, -⟩ := bind_eq_ok.1 h
  obtain ⟨hfrom, hto, hne⟩ := dialog_ok hdialog
  simp only [require_eq_ok, Bool.and_eq_true, decide_eq_true_eq] at hreq
  obtain ⟨⟨⟨⟨hcid, hlen⟩, hlow⟩, hhigh⟩, hcontent⟩ := hreq
  rw [decodeRecord_eq_ok]
  exact ⟨rfl, hmid.ne', hfrom.ne', hto.ne', hne, hcid, hlen, hlow, hhigh, hcontent,
    env.clock.now_length⟩

theorem checkBody_admissible (content : Bytes) : Raises (checkBody env content) (Admissible env) :=
  (raises_admissible (by decide)).bind fun _ _ => raises_admissible (by decide)

theorem checkPin_admissible (item a b : ℕ) : Raises (checkPin env item a b) (Admissible env) := by
  unfold checkPin
  dsimp only
  split
  · exact raises_ok _ _
  · next hstatus => exact raises_error ⟨hstatus, fun _ => .inr ⟨item, a, b, rfl⟩⟩

theorem encodeEvent_admissible (spec : OutboxEventSpec) :
    Raises (encodeEvent spec) (Admissible env) := by
  unfold encodeEvent
  split
  · exact raises_ok _ _
  · exact raises_error (admissible_of_not_mem (by decide))

theorem encodeEvent_eventId {spec : OutboxEventSpec} {row : PendingLocalEvent}
    (h : encodeEvent spec = .ok row) : row.eventId = spec.event.eventId := by
  unfold encodeEvent at h
  grind

theorem Rows.findExisting_eq {db : Db} (h : Rows db) (f : ℕ) (c : Bytes) :
    findExisting db f c = .ok none ∧ db.lookup (.I f c) = none ∨
      ∃ mid m, findExisting db f c = .ok (some m) ∧ db.lookup (.I f c) = some mid ∧
        db.lookup (.M mid) = some m := by
  cases hI : db.lookup (.I f c) with
  | none => exact .inl ⟨by simp [findExisting, hI], rfl⟩
  | some mid =>
    obtain ⟨m, hm, hf, hK⟩ := h.cid hI
    refine .inr ⟨mid, m, ?_, rfl, hm⟩
    rw [← h.messageId hm] at hK
    simp [findExisting, hI, h.record_eq, hm, GetResult.Found, require, hf, hK, bind, Except.bind,
      pure, Except.pure]

/-! ## New messages stay -/

section

variable {db : Db} {ns : List NewMessage} {n : NewMessage}

theorem groupBatch_keeps_M (hns : GroupFits db ns) {mid : ℕ} {m : MessageView}
    (hm : db.lookup (.M mid) = some m) :
    (apply db (groupBatch db ns)).lookup (.M mid) = some m := by
  induction ns generalizing db with
  | nil => exact hm
  | cons n ns ih =>
    rw [groupBatch, apply_append]
    refine ih hns.2 ?_
    rw [NewMessage.lookup_M, if_neg]
    · exact hm
    · rintro rfl
      rw [hns.1.fresh] at hm
      cases hm

theorem groupBatch_keeps_I (hns : GroupFits db ns) {f mid : ℕ} {c : Bytes}
    (hI : db.lookup (.I f c) = some mid) :
    (apply db (groupBatch db ns)).lookup (.I f c) = some mid := by
  induction ns generalizing db with
  | nil => exact hI
  | cons n ns ih =>
    rw [groupBatch, apply_append]
    refine ih hns.2 ?_
    rw [NewMessage.lookup_I, if_neg]
    · exact hI
    · rintro ⟨rfl, rfl⟩
      rw [hns.1.cid] at hI
      cases hI

theorem groupBatch_keeps_E {id : Bytes} (h : (db.lookup (.E id)).isSome ∧ (db.lookup (.A id)).isSome) :
    ((apply db (groupBatch db ns)).lookup (.E id)).isSome ∧
      ((apply db (groupBatch db ns)).lookup (.A id)).isSome := by
  induction ns generalizing db with
  | nil => exact h
  | cons n ns ih =>
    rw [groupBatch, apply_append]
    refine ih ?_
    rw [NewMessage.lookup_E, NewMessage.lookup_A]
    split
    · exact ⟨rfl, rfl⟩
    · exact h

structure InMap (n : NewMessage) (db : Db) : Prop where
  record : db.lookup (.M n.message.messageId) = some n.message
  cid : db.lookup (.I n.message.fromUserId n.canonical) = some n.message.messageId
  event : (db.lookup (.E n.row.eventId)).isSome ∧ (db.lookup (.A n.row.eventId)).isSome

theorem GroupFits.inMap (hns : GroupFits db ns) (hn : n ∈ ns) :
    InMap n (apply db (groupBatch db ns)) := by
  induction ns generalizing db with
  | nil => cases hn
  | cons n' ns ih =>
    rw [groupBatch, apply_append]
    rcases List.mem_cons.1 hn with rfl | hn
    · exact ⟨groupBatch_keeps_M hns.2 (by simp), groupBatch_keeps_I hns.2 (by simp),
        groupBatch_keeps_E (by simp)⟩
    · exact ih hns.2 hn

end

theorem persist_keeps_M {c : Change} (hK : persistKind c) (hc : c.Fits s) {mid : ℕ}
    {m : MessageView} (hm : s.db.lookup (.M mid) = some m) :
    (apply s.db (c.batch s.db)).lookup (.M mid) = some m := by
  cases c with
  | reserve k => simpa [Change.batch, step] using hm
  | create ns => exact groupBatch_keeps_M hc.1 hm
  | _ => exact hK.elim

theorem persist_keeps_I {c : Change} (hK : persistKind c) (hc : c.Fits s) {f mid : ℕ} {cid : Bytes}
    (hI : s.db.lookup (.I f cid) = some mid) :
    (apply s.db (c.batch s.db)).lookup (.I f cid) = some mid := by
  cases c with
  | reserve k => simpa [Change.batch, step] using hI
  | create ns => exact groupBatch_keeps_I hc.1 hI
  | _ => exact hK.elim

theorem InMap.change {n : NewMessage} (h : InMap n s.db) {c : Change} (hK : persistKind c)
    (hc : c.Fits s) : InMap n (apply s.db (c.batch s.db)) := by
  refine ⟨persist_keeps_M hK hc h.record, persist_keeps_I hK hc h.cid, ?_⟩
  cases c with
  | reserve k => simpa [Change.batch, step] using h.event
  | create ns => exact groupBatch_keeps_E h.event
  | _ => exact hK.elim

/-! ## The single path -/

/-- The answer `r` is the stored message of a client id. -/
structure Reused (inp : PersistInput) (canonical : Bytes) (db : Db) (r : PersistResult) : Prop where
  stored : ∃ mid m, db.lookup (.I inp.fromUserId canonical) = some mid ∧
    db.lookup (.M mid) = some m ∧ r = existingResult m inp

/-- The call created the message `r` reports: its last step wrote it. -/
structure Created (env : Env) (inp : PersistInput) (canonical : Bytes) (s : Store)
    (r : PersistResult) (s' : Store) : Prop where
  status : r.status = .succeeded
  outcome : r.outcome = .created
  text : r.message = ""
  record : r.record = newRecord env.clock inp r.messageId
  wrote : ∃ t n, Moves persistKind s t ∧ (Change.create [n]).Fits t ∧ t.poisoned = false ∧
    SameData (t.written (.create [n])) s' ∧ n.message = r.record ∧ n.canonical = canonical

theorem Created.moves {r : PersistResult} (h : Created env inp canonical s r t) :
    Moves persistKind s t := by
  obtain ⟨u, n, hu, hfits, hp, hsame, -⟩ := h.wrote
  exact (hu.written (c := .create [n]) trivial hfits hp).frame hsame

theorem newMessage_fits {db : Db} {row : PendingLocalEvent} {mid h : ℕ}
    (hin : checkInput opts env item inp = .ok canonical) (hmid : 0 < mid)
    (hfresh : db.lookup (.M mid) = none) (hI : db.lookup (.I inp.fromUserId canonical) = none)
    (hhigh : db.lookup .high = some h) (hle : mid ≤ h)
    (hrow : encodeEvent (messageCreated env.clock (newRecord env.clock inp mid)
      opts.messageEventsTopic) = .ok row) :
    NewMessage.Fits ⟨newRecord env.clock inp mid, canonical, row⟩ db where
  valid := newRecord_valid hin hmid
  pending := rfl
  fresh := hfresh
  cid := hI
  reserved := ⟨h, hhigh, hle⟩
  event := encodeEvent_eventId hrow

theorem createMessage_ends (h : Inv s) (hin : checkInput opts env item inp = .ok canonical)
    (hI : s.db.lookup (.I inp.fromUserId canonical) = none) :
    Ends (createMessage opts env item inp canonical) s (Created env inp canonical s)
      (Failed persistKind env s) := by
  refine check_bind (Failed.raises_refl (checkBody_admissible _)) fun _ _ => ?_
  refine check_bind (Failed.raises_refl (raises_admissible (by decide))) fun _ _ => ?_
  refine Ends.bind (Failed.same_refl reserve_ends) fun _ t₁ hs₁ => ?_
  have hm₁ : Moves persistKind s t₁ := (Moves.refl s).frame hs₁
  have h₁ := h.moves hm₁
  refine Failed.onThrow sameData_release ?_
  refine check_bind (Failed.raises hm₁ hs₁.sameMap (checkPin_admissible _ _ _)) fun _ _ => ?_
  refine Ends.bind (Failed.after hm₁ hs₁.sameMap
    (nextMessageId_ends (fun _ => trivial) h₁.next)) fun mid t₂ h₁₂ => ?_
  obtain rfl := h₁₂.id
  have hm₂ := hm₁.trans h₁₂.moves
  have hmap₂ := hs₁.sameMap.trans h₁₂.map
  have h₂ := h.moves hm₂
  refine Ends.read_bind ?_
  refine check_bind ?_ fun _ _ => ?_
  · rw [h₂.sound.checkCounters_ok]
    exact raises_ok _ _
  refine check_bind (Failed.raises hm₂ hmap₂ (raises_admissible (by decide))) fun _ _ => ?_
  refine check_bind (Failed.raises hm₂ hmap₂ (encodeEvent_admissible _)) fun row hrow => ?_
  refine Ends.bind (Failed.same hm₂ hmap₂ (prepare_ends _)) fun _ t₃ hs₃ => ?_
  have hm₃ := hm₂.frame hs₃
  have hmap₃ := hmap₂.trans hs₃.sameMap
  set n : NewMessage := ⟨newRecord env.clock inp t₁.nextId, canonical, row⟩ with hn
  have hfits : (Change.create [n]).Fits t₃ := by
    obtain ⟨e, he, hee⟩ := h₂.high
    refine ⟨⟨newMessage_fits hin h₁.pos ?_ ?_ (by rw [hs₃.db]; exact he)
      (h₁₂.reserved.trans hee) hrow, trivial⟩, ?_⟩
    · rw [hs₃.db, h₁₂.map _ (by simp)]
      exact h₁.fresh
    · rw [hmap₃ _ (by simp)]
      exact hI
    · intro n' hn'
      rw [List.mem_singleton.1 hn', hs₃.nextId, h₁₂.next]
      exact Nat.lt_succ_self _
  have hbatch : messageWrites (newRecord env.clock inp t₁.nextId) canonical
      (totalCount t₂.db inp.toUserId) (dialogCount t₂.db inp.toUserId inp.fromUserId)
      (pendingCount t₂.db inp.toUserId) ++ eventWrites row = (Change.create [n]).batch t₃.db := by
    simp [Change.batch, groupBatch, NewMessage.batch, hn, hs₃.db, newRecord]
  rw [hbatch]
  refine Ends.bind (Failed.onThrow (sameData_unprepare _)
    (Failed.after hm₃ hmap₃ (write_ends trivial hfits))) ?_
  rintro _ _ ⟨rfl, hp⟩
  refine Ends.modify_bind (Ends.pure ?_)
  exact ⟨rfl, rfl, rfl, rfl, t₃, n, hm₃, hfits, hp, sameData_commit _ _, rfl, rfl⟩

/-- A call that was refused before it looked at the map: the fence or the bounded lock table. -/
inductive Refusal (opts : Options) (s : Store) : Failure → Prop
  | closed {e : Failure} : checkOpen s = .error e → Refusal opts s e
  | locks {e : Failure} {actors : List ℕ} {s' : Store} :
      lockUsers opts actors s = (.error e, s') → Refusal opts s e

def PersistFailed (opts : Options) (env : Env) (inp : PersistInput)
    (checked : Except Failure Bytes) (s : Store) (e : Failure) (s' : Store) : Prop :=
  Failed persistKind env s e s' ∧
    (Refusal opts s e ∨ ∀ c, checked = .ok c → s.db.lookup (.I inp.fromUserId c) = none)

/-- `PersistPrivateMessage` answers from the index or creates the message. -/
theorem persistBody_ends (h : Inv s) :
    Ends (persistBody opts env item inp) s
      (fun r s' => ∃ canonical, checkInput opts env item inp = .ok canonical ∧
        (Reused inp canonical s.db r ∧ SameData s s' ∨
          s.db.lookup (.I inp.fromUserId canonical) = none ∧ Created env inp canonical s r s'))
      (PersistFailed opts env inp (checkInput opts env item inp) s) := by
  refine check_bind (fun e he => ⟨Failed.raises_refl (checkInput_admissible inp) e he, .inr ?_⟩)
    fun canonical hin => ?_
  · simp_all
  have hlock : Ends (lockUsers opts [inp.fromUserId, inp.toUserId]) s
      (fun _ s' => SameData s s') fun e s' => SameData s s' ∧ Admissible env e := lockUsers_ends _
  refine Ends.bind (Q := fun _ t => SameData s t) ?_ fun _ t ht => ?_
  · unfold Ends
    rcases hrun : lockUsers opts [inp.fromUserId, inp.toUserId] s with ⟨r, t⟩
    cases r with
    | ok u => exact hlock.of_ok hrun
    | error e =>
      obtain ⟨hsame, hadm⟩ := hlock.of_error hrun
      exact ⟨⟨(Moves.refl s).frame hsame, hsame.sameMap, hadm⟩, .inl (.locks hrun)⟩
  have hm : Moves persistKind s t := (Moves.refl s).frame ht
  have h' := h.moves hm
  rcases h'.sound.toRows.findExisting_eq inp.fromUserId canonical with
    ⟨hfind, hI⟩ | ⟨mid, m, hfind, hI, hM⟩
  · have hnew : s.db.lookup (.I inp.fromUserId canonical) = none := by
      rw [← ht.db]
      exact hI
    refine Ends.inspect_bind ?_ fun existing hex => ?_
    · rw [hfind]
      exact raises_ok _ _
    rw [hfind] at hex
    cases hex
    refine (Failed.after hm ht.sameMap (createMessage_ends h' hin hI)).mono ?_ fun e s' he => ?_
    · intro r s' hr
      refine ⟨canonical, hin, .inr ⟨hnew, hr.status, hr.outcome, hr.text, hr.record, ?_⟩⟩
      obtain ⟨u, n, hu, hrest⟩ := hr.wrote
      exact ⟨u, n, hm.trans hu, hrest⟩
    · refine ⟨he, .inr fun c hc => ?_⟩
      rw [hin] at hc
      cases hc
      exact hnew
  · refine Ends.inspect_bind ?_ fun existing hex => ?_
    · rw [hfind]
      exact raises_ok _ _
    rw [hfind] at hex
    cases hex
    rw [ht.db] at hI hM
    exact Ends.pure ⟨canonical, hin, .inl ⟨⟨mid, m, hI, hM, rfl⟩, ht⟩⟩

/-- How persisting one message ended, in the terms of the map `s'` it left. -/
inductive Outcome (opts : Options) (env : Env) (inp : PersistInput) (checked : Except Failure Bytes)
    (s : Store) (r : PersistResult) (s' : Store) : Prop
  | refused {e : Failure} {t : Store} (ht : Moves persistKind s t) (he : Refusal opts t e)
      (hadm : Admissible env e) (hr : r = .ofFailure e)
  | failed {e : Failure} (hadm : Admissible env e) (hr : r = .ofFailure e)
      (hnew : ∀ c, checked = .ok c → s.db.lookup (.I inp.fromUserId c) = none)
  | reused {c : Bytes} (hin : checked = .ok c) (hr : Reused inp c s'.db r)
  | created {c : Bytes} {n : NewMessage} (hin : checked = .ok c)
      (hnew : s.db.lookup (.I inp.fromUserId c) = none)
      (hdurable : Wal.Durable (InMap n) s'.log) (hc : n.canonical = c)
      (hevent : n.row.eventId = messageEventId n.message.messageId)
      (hmessage : n.message = newRecord env.clock inp r.messageId) (hrecord : r.record = n.message)
      (hstatus : r.status = .succeeded) (houtcome : r.outcome = .created) (htext : r.message = "")

theorem Moves.cid_none {s₀ : Store} (hm : Moves persistKind s₀ s) (h : Inv s₀) {f : ℕ} {c : Bytes}
    (hI : s.db.lookup (.I f c) = none) : s₀.db.lookup (.I f c) = none := by
  cases hI₀ : s₀.db.lookup (.I f c) with
  | none => rfl
  | some mid =>
    rw [hm.map (P := fun db => db.lookup (.I f c) = some mid)
      (fun t c _ hK hc => persist_keeps_I hK hc) h hI₀] at hI
    cases hI

theorem Outcome.around {checked : Except Failure Bytes} {r : PersistResult} {s₀ s s' s₁ : Store}
    (h : Outcome opts env inp checked s r s') (hinv : Inv s₀) (h₀ : Moves persistKind s₀ s)
    (hmid : Moves persistKind s s') (h₁ : Moves persistKind s' s₁) :
    Outcome opts env inp checked s₀ r s₁ := by
  have hinv' := (hinv.moves h₀).moves hmid
  cases h with
  | refused ht he hadm hr => exact .refused (h₀.trans ht) he hadm hr
  | failed hadm hr hnew => exact .failed hadm hr fun c hc => h₀.cid_none hinv (hnew c hc)
  | reused hin hr =>
    obtain ⟨mid, m, hI, hM, rfl⟩ := hr.stored
    refine .reused hin ⟨mid, m, ?_, ?_, rfl⟩
    · exact h₁.map (P := fun db => db.lookup _ = some mid)
        (fun t c _ hK hc => persist_keeps_I hK hc) hinv' hI
    · exact h₁.map (P := fun db => db.lookup _ = some m)
        (fun t c _ hK hc => persist_keeps_M hK hc) hinv' hM
  | created hin hnew hdurable hc hevent hmessage hrecord hstatus houtcome htext =>
    refine .created hin (h₀.cid_none hinv hnew) ?_ hc hevent hmessage hrecord hstatus houtcome htext
    exact h₁.durable (fun t c _ hK hc hin => hin.change hK hc) hinv' hdurable

theorem persistPrivateMessage_spec (opts : Options) (env : Env) (item : ℕ) (inp : PersistInput)
    (h : Inv s) :
    Moves persistKind s (persistPrivateMessage opts env item inp s).2 ∧
      Outcome opts env inp (checkInput opts env item inp) s
        (persistPrivateMessage opts env item inp s).1
        (persistPrivateMessage opts env item inp s).2 := by
  rcases call_ends id PersistResult.ofFailure
    (E := fun e s' => PersistFailed opts env inp (checkInput opts env item inp) s e s')
    (fun e he => ⟨⟨.refl s, .refl _, checkOpen_admissible s e he⟩, .inl (.closed he)⟩)
    fun _ => persistBody_ends h with
    ⟨r, hr, c, hin, ⟨hre, hsame⟩ | ⟨hnew, hcr⟩⟩ | ⟨e, hr, hf⟩
  · refine ⟨(Moves.refl s).frame hsame, ?_⟩
    rw [persistPrivateMessage, hr]
    refine .reused hin ?_
    rw [hsame.db]
    exact hre
  · refine ⟨hcr.moves, ?_⟩
    obtain ⟨t, n, ht, hfits, hp, hsame, hn, hc⟩ := hcr.wrote
    rw [persistPrivateMessage, hr]
    refine .created hin hnew ?_ hc hfits.1.1.event (by rw [hn]; exact hcr.record) hn.symm hcr.status
      hcr.outcome hcr.text
    rw [hsame.log]
    refine (h.moves ht).durable_written hp rfl ?_
    exact hfits.1.inMap List.mem_cons_self
  · refine ⟨hf.1.moves, ?_⟩
    rw [persistPrivateMessage, hr]
    rcases hf.2 with hwhy | hnew
    · exact .refused (.refl s) hwhy hf.1.admissible rfl
    · exact .failed hf.1.admissible rfl hnew

theorem persistEach_spec (opts : Options) (env : Env) (inputs : List PersistInput) (i : ℕ) (h : Inv s) :
    Moves persistKind s (persistEach opts env i inputs s).2 ∧
      List.Forall₂ (fun x r => Outcome opts env x.1 x.2 s r (persistEach opts env i inputs s).2)
        (inputs.mapIdx fun j inp => (inp, checkInput opts env (i + j) inp))
        (persistEach opts env i inputs s).1 := by
  induction inputs generalizing i s with
  | nil => exact ⟨.refl s, .nil⟩
  | cons inp inputs ih =>
    obtain ⟨hm, hout⟩ := persistPrivateMessage_spec opts env i inp h
    obtain ⟨hms, houts⟩ := ih (i + 1) (h.moves hm)
    refine ⟨hm.trans hms, ?_⟩
    rw [List.mapIdx_cons]
    refine .cons (hout.around h (.refl s) hm hms) ?_
    simp only [Nat.add_right_comm i _ 1, ← Nat.add_assoc] at houts ⊢
    exact houts.imp fun x r hx => hx.around h hm hms (.refl _)

end TinyImx.Local
