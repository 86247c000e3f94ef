import TinyImx.Local.Counters

/-!
# One message for each client id

A client id of a sender points to one message for ever: the index, the canonical id and the record
agree in every reachable state, and a persist with a taken id answers with the first message.
-/

namespace TinyImx.Local

open Kv Act

def MessageView.core (m : MessageView) : ℕ × ℕ × Bytes × ℕ × Bytes :=
  (m.fromUserId, m.toUserId, m.clientMessageId, m.messageType, m.content)

variable {opts : Options} {env : Env} {s s' : Store} {db db' : Db}
variable {mid : ℕ} {m : MessageView}

theorem Advances.core {f : MessageView → MessageView} {ms : List MessageView}
    (h : Advances f db ms db') (hm : db.lookup (.M mid) = some m) :
    ∃ m', db'.lookup (.M mid) = some m' ∧ m'.core = m.core := by
  induction h generalizing m with
  | nil => exact ⟨m, hm, rfl⟩
  | @cons db₀ db₁ db₂ n ns hstep _ ih =>
    by_cases hmid : mid = n.messageId
    · subst hmid
      obtain ⟨m', hm', hcore⟩ := ih hstep.record
      rw [hstep.stored] at hm
      cases hm
      refine ⟨m', hm', hcore.trans ?_⟩
      rw [hstep.same]
      rfl
    · exact ih (by rw [hstep.other _ (by simpa using hmid) (by simp)]; exact hm)

def Holds (f : ℕ) (c : Bytes) (mid : ℕ) (m : MessageView) (db : Db) : Prop :=
  db.lookup (.I f c) = some mid ∧ ∃ m', db.lookup (.M mid) = some m' ∧ m'.core = m.core

theorem Inv.change_holds (h : Inv s) {c : Change} (hc : c.Fits s) {f : ℕ} {cid : Bytes}
    (hh : Holds f cid mid m s.db) :
    Holds f cid mid m (apply s.db (c.batch s.db)) := by
  obtain ⟨hI, m₀, hM, hcore⟩ := hh
  have hadvance : ∀ {g : MessageView → MessageView} {ms : List MessageView} {db₁ db₂ : Db},
      Advances g s.db ms db₁ → (∀ mid, db₂.lookup (.M mid) = db₁.lookup (.M mid)) →
      (∀ f c, db₂.lookup (.I f c) = db₁.lookup (.I f c)) → Holds f cid mid m db₂ := by
    intro g ms db₁ db₂ ha hM' hI'
    obtain ⟨m', hm', hcore'⟩ := ha.core hM
    exact ⟨by rw [hI', ha.other (by simp) (by simp)]; exact hI, m', by rw [hM']; exact hm',
      hcore'.trans hcore⟩
  cases c with
  | reserve n =>
    exact ⟨persist_keeps_I (c := .reserve n) trivial hc hI, m₀,
      persist_keeps_M (c := .reserve n) trivial hc hM, hcore⟩
  | create ns =>
    exact ⟨persist_keeps_I (c := .create ns) trivial hc hI, m₀,
      persist_keeps_M (c := .create ns) trivial hc hM, hcore⟩
  | confirm ms now =>
    refine hadvance (Confirmable.advances hc h.sound.toRows now) ?_ ?_
    · exact fun mid => by rw [Change.batch, apply_append, lookup_confirmCounters (by simp)]
    · exact fun f c => by rw [Change.batch, apply_append, lookup_confirmCounters (by simp)]
  | read reader peer ms now row =>
    exact hadvance (Readable.advances hc h.sound.toRows now)
      (fun mid => Readable.lookup_readBatch rfl rfl) fun f c => Readable.lookup_readBatch rfl rfl
  | publish ids =>
    exact ⟨by rw [Change.lookup_of_not_isEvent (c := .publish ids) trivial rfl]; exact hI, m₀,
      by rw [Change.lookup_of_not_isEvent (c := .publish ids) trivial rfl]; exact hM, hcore⟩
  | fail id failed =>
    exact ⟨by rw [Change.lookup_of_not_isEvent (c := .fail id failed) trivial rfl]; exact hI, m₀,
      by rw [Change.lookup_of_not_isEvent (c := .fail id failed) trivial rfl]; exact hM, hcore⟩
  | requeue rows =>
    exact ⟨by rw [Change.lookup_of_not_isEvent (c := .requeue rows) trivial rfl]; exact hI, m₀,
      by rw [Change.lookup_of_not_isEvent (c := .requeue rows) trivial rfl]; exact hM, hcore⟩

/-! ## Client ids survive crashes -/

def Anchored (s : Store) : Prop :=
  ∀ f c mid m, s.db.lookup (.I f c) = some mid → s.db.lookup (.M mid) = some m →
    Wal.Durable (Holds f c mid m) s.log

theorem Anchored.move {K : Change → Prop} (h : Inv s) (ha : Anchored s) (hm : Move K s s') :
    Anchored s' := by
  have hkept : ∀ {f c mid m}, Wal.Durable (Holds f c mid m) s.log →
      Wal.Durable (Holds f c mid m) s'.log :=
    Durable.move (fun c _ hc => h.change_holds hc) hm h.live
  intro f c mid m hI hM
  cases hm with
  | frame hf =>
    rw [hf.db] at hI hM
    exact hkept (ha f c mid m hI hM)
  | takeId _ => exact ha f c mid m hI hM
  | extend _ _ => exact ha f c mid m hI hM
  | @written change hK hfits hp =>
    cases hsync : change.sync with
    | true => exact h.durable_written hp hsync ⟨hI, m, hM, rfl⟩
    | false =>
      -- only publication progress is not synced, and it touches events only
      cases change with
      | publish ids =>
        refine hkept (ha f c mid m ?_ ?_)
        · rwa [Store.written, Change.lookup_of_not_isEvent (c := .publish ids) trivial rfl] at hI
        · rwa [Store.written, Change.lookup_of_not_isEvent (c := .publish ids) trivial rfl] at hM
      | _ => cases hsync
  | failed _ _ _ _ => exact hkept (ha f c mid m hI hM)
  | flushed _ => exact hkept (ha f c mid m hI hM)
  | poison => exact ha f c mid m hI hM

theorem Anchored.moves {K : Change → Prop} (h : Inv s) (ha : Anchored s) (hm : Moves K s s') :
    Anchored s' := by
  induction hm with
  | refl => exact ha
  | tail hst hstep ih => exact ih.move (h.moves hst) hstep

theorem Anchored.step {l : Label} (h : Inv s) (ha : Anchored s) (hs : SystemStep opts s l s') :
    Anchored s' := by
  cases hs with
  | call env op => exact ha.moves h (op.run_moves opts env h)
  | @crash s' kept hkept hopen =>
    intro f c mid m hI hM
    have ho := openStore_opened hopen
    obtain ⟨e, he, -⟩ := (h.durable _ hkept).reserved
    rw [he] at ho
    simp only [Option.getD_some] at ho
    obtain ⟨hdb, hlog⟩ := ho.old he
    rw [hlog]
    rw [hdb] at hI hM
    exact .synced ⟨hI, m, hM, rfl⟩

theorem Anchored.first (h : openStore opts ∅ [] = .ok s) : Anchored s := by
  intro f c mid m hI
  have hnone : (∅ : Db).lookup .high = none := rfl
  obtain ⟨hdb, -⟩ := (openStore_opened h).new hnone
  rw [hdb, lookup_apply_of_forall_ne (by simp [Write.key])] at hI
  cases hI

theorem Reachable.anchored (h : Reachable opts s) : Anchored s := by
  obtain ⟨s₀, ls, hopen, hrun⟩ := h
  refine (hrun.invariant (I := fun s => Inv s ∧ Anchored s) ?_ ⟨.first hopen, .first hopen⟩).2
  exact fun s l s' h hs => ⟨h.1.step hs, h.2.step h.1 hs⟩

theorem Holds.step {l : Label} {f : ℕ} {c : Bytes} (h : Reachable opts s)
    (hs : SystemStep opts s l s') (hh : Holds f c mid m s.db) : Holds f c mid m s'.db := by
  cases hs with
  | call env op =>
    refine (op.run_moves opts env h.inv).map (P := Holds f c mid m) ?_ h.inv hh
    exact fun t c ht _ hc => ht.change_holds hc
  | @crash s' kept hkept hopen =>
    obtain ⟨hI, m', hM, hcore⟩ := hh
    obtain ⟨hI', m'', hM', hcore'⟩ := h.anchored f c mid m' hI hM kept hkept
    have ho := openStore_opened hopen
    obtain ⟨e, he, -⟩ := (h.inv.durable _ hkept).reserved
    rw [he] at ho
    rw [(ho.old he).1]
    exact ⟨hI', m'', hM', hcore'.trans hcore⟩

theorem Holds.run {ls : List Label} {f : ℕ} {c : Bytes} (h : Reachable opts s)
    (hrun : Run (SystemStep opts) s ls s') (hh : Holds f c mid m s.db) : Holds f c mid m s'.db := by
  refine (hrun.invariant (I := fun s => Reachable opts s ∧ Holds f c mid m s.db) ?_ ⟨h, hh⟩).2
  exact fun s l s' h hs => ⟨h.1.step hs, h.2.step h.1 hs⟩

/-! ## A taken client id writes nothing -/

def Taken (db : Db) (inp : PersistInput) (checked : Except Failure Bytes) : Prop :=
  ∀ c, checked = .ok c → (db.lookup (.I inp.fromUserId c)).isSome

theorem Rows.findExisting_taken (h : Rows db) {f : ℕ} {c : Bytes}
    (hc : (db.lookup (.I f c)).isSome) : ∃ m, findExisting db f c = .ok (some m) := by
  rcases h.findExisting_eq f c with ⟨-, hI⟩ | ⟨mid, m, hfind, -⟩
  · rw [hI] at hc
    cases hc
  · exact ⟨m, hfind⟩

variable {inp : PersistInput}

theorem persistPrivateMessage_taken {item : ℕ} (h : Rows s.db)
    (ht : Taken s.db inp (checkInput opts env item inp)) :
    SameData s (persistPrivateMessage opts env item inp s).2 := by
  have hbody : Ends (persistBody opts env item inp) s (fun _ s' => SameData s s')
      fun _ s' => SameData s s' := by
    refine check_bind (fun _ _ => .refl s) fun c hin => ?_
    have hlock : Ends (lockUsers opts [inp.fromUserId, inp.toUserId]) s
        (fun _ s' => SameData s s') fun e s' => SameData s s' ∧ Admissible env e := lockUsers_ends _
    refine Ends.bind (hlock.mono (fun _ _ ht => ht) fun _ _ he => he.1) fun _ t hst => ?_
    rw [← hst.db] at h ht
    obtain ⟨m, hm⟩ := h.findExisting_taken (ht c hin)
    refine Ends.inspect_bind (fun _ _ => hst) fun existing hex => ?_
    rw [hm] at hex
    cases hex
    exact Ends.pure hst
  rcases call_ends id PersistResult.ofFailure (fun _ _ => .refl s) fun _ => hbody with
    ⟨_, _, hs⟩ | ⟨_, _, hs⟩
  · exact hs
  · exact hs

theorem persistEach_taken (inputs : List PersistInput) (i : ℕ) (h : Inv s)
    (ht : ∀ x ∈ inputs.mapIdx fun j inp => (inp, checkInput opts env (i + j) inp),
      Taken s.db x.1 x.2) : (persistEach opts env i inputs s).2.db = s.db := by
  induction inputs generalizing i s with
  | nil => rfl
  | cons inp inputs ih =>
    rw [List.mapIdx_cons] at ht
    have hsame : SameData s (persistPrivateMessage opts env i inp s).2 :=
      persistPrivateMessage_taken h.sound.toRows (ht _ List.mem_cons_self)
    have hm := (persistPrivateMessage_spec opts env i inp h).1
    refine (ih (i + 1) (h.moves hm) fun x hx => ?_).trans hsame.db
    rw [hsame.db]
    refine ht x (List.mem_cons_of_mem _ ?_)
    simpa only [Nat.add_right_comm i 1, Nat.add_assoc] using hx

theorem stageItem_taken (opts : Options) (env : Env) {checked : Except Failure Bytes}
    (b : Batch) (h : Rows s.db) (ht : Taken s.db inp checked) :
    (stageItem opts env inp checked b s).2 = s ∧
      (stageItem opts env inp checked b s).1.creates = b.creates := by
  unfold stageItem
  cases checked with
  | error e => exact ⟨rfl, rfl⟩
  | ok c =>
    obtain ⟨m, hm⟩ := h.findExisting_taken (ht c rfl)
    dsimp only
    split
    · exact ⟨rfl, rfl⟩
    · rw [hm]
      exact ⟨rfl, rfl⟩

theorem stageItems_taken (opts : Options) (env : Env)
    (items : List (PersistInput × Except Failure Bytes)) (b : Batch) (h : Rows s.db)
    (ht : ∀ x ∈ items, Taken s.db x.1 x.2) :
    (stageItems opts env items b s).2 = s ∧ (stageItems opts env items b s).1.creates = b.creates := by
  induction items generalizing b with
  | nil => exact ⟨rfl, rfl⟩
  | cons x items ih =>
    obtain ⟨hs, hcreates⟩ := stageItem_taken opts env b h (ht x List.mem_cons_self)
    obtain ⟨hs', hcreates'⟩ := ih (stageItem opts env x.1 x.2 b s).1
      fun x hx => ht x (List.mem_cons_of_mem _ hx)
    have hcons : stageItems opts env (x :: items) b s =
        stageItems opts env items (stageItem opts env x.1 x.2 b s).1
          (stageItem opts env x.1 x.2 b s).2 := rfl
    rw [hcons, hs]
    exact ⟨hs', hcreates'.trans hcreates⟩

theorem persistPrivateMessages_taken {inputs : List PersistInput} (h : Inv s)
    (ht : ∀ x ∈ checkInputs opts env inputs, Taken s.db x.1 x.2) :
    (persistPrivateMessages opts env inputs s).2.db = s.db := by
  unfold persistPrivateMessages
  split
  · rfl
  split
  · rfl
  split
  · exact persistEach_taken inputs 0 h (by simpa [checkInputs] using ht)
  unfold persistBatch
  rw [← checkInputs]
  split
  · rfl
  dsimp only
  have hlock : Ends (lockUsers opts (batchActors (checkInputs opts env inputs))) s
      (fun _ s' => SameData s s') fun e s' => SameData s s' ∧ Admissible env e := lockUsers_ends _
  rcases hrun : lockUsers opts (batchActors (checkInputs opts env inputs)) s with ⟨r, t⟩
  cases r with
  | error e => exact (hlock.of_error hrun).1.db
  | ok u =>
    have hst := hlock.of_ok hrun
    rw [← hst.db] at ht ⊢
    have hrows : Rows t.db := by
      rw [hst.db]
      exact h.sound.toRows
    obtain ⟨hs, hcreates⟩ := stageItems_taken opts env _ {} hrows ht
    change (commitBatch opts env _ _).2.db = t.db
    rw [commitBatch, if_pos (by rw [hcreates]; rfl), hs]

/-! ## The answer for a taken client id -/

/-- The answer of a persist whose client id belongs to the message `m`. -/
structure Answered (mid : ℕ) (m : MessageView) (inp : PersistInput) (r : PersistResult) : Prop where
  status : r.status = .succeeded
  messageId : r.messageId = mid
  record : r.record = m
  reused : r.outcome = .reused ↔ m.toUserId = inp.toUserId ∧
    m.clientMessageId = inp.clientMessageId ∧ m.messageType = inp.messageType ∧
      m.content = inp.content
  conflict : r.outcome ≠ .reused → r.outcome = .idempotencyConflict

theorem answered_existingResult (hmid : m.messageId = mid) (hfrom : m.fromUserId = inp.fromUserId) :
    Answered mid m inp (existingResult m inp) := by
  have hsame : sameMessage m inp = true ↔ m.toUserId = inp.toUserId ∧
      m.clientMessageId = inp.clientMessageId ∧ m.messageType = inp.messageType ∧
        m.content = inp.content := by
    simp [sameMessage, hfrom, and_assoc]
  refine ⟨rfl, hmid, rfl, ?_, ?_⟩
  · rw [← hsame, existingResult]
    split <;> simp_all
  · rw [existingResult]
    split <;> simp_all

theorem Outcome.answered {inp : PersistInput} {c : Bytes} {r : PersistResult} {mid : ℕ}
    {m : MessageView} (h : Inv s) (hm : Moves persistKind s s')
    (ho : Outcome opts env inp (.ok c) s r s') (hI : s.db.lookup (.I inp.fromUserId c) = some mid)
    (hM : s.db.lookup (.M mid) = some m) :
    Answered mid m inp r ∨
      ∃ t e, Moves persistKind s t ∧ Refusal opts t e ∧ r = .ofFailure e := by
  cases ho with
  | refused ht he _ hr => exact .inr ⟨_, _, ht, he, hr⟩
  | failed _ _ hnew =>
    rw [hnew c rfl] at hI
    cases hI
  | reused hin hr =>
    cases hin
    obtain ⟨mid', m', hI', hM', rfl⟩ := hr.stored
    rw [hm.map (P := fun db => db.lookup _ = some mid)
      (fun t c _ hK hc => persist_keeps_I hK hc) h hI] at hI'
    cases hI'
    rw [hm.map (P := fun db => db.lookup _ = some m)
      (fun t c _ hK hc => persist_keeps_M hK hc) h hM] at hM'
    cases hM'
    have hrows := h.sound.toRows
    obtain ⟨m', hm', hfrom, -⟩ := hrows.cid hI
    rw [hM] at hm'
    cases hm'
    exact .inl (answered_existingResult (hrows.messageId hM) hfrom)
  | created hin hnew =>
    grind

/-- The single path refuses a taken client id by its fence or its lock table only. -/
theorem persistPrivateMessage_answered {item : ℕ} {c : Bytes}
    (h : Inv s) (hin : checkInput opts env item inp = .ok c)
    (hI : s.db.lookup (.I inp.fromUserId c) = some mid) (hM : s.db.lookup (.M mid) = some m)
    (hopen : checkOpen s = .ok ())
    (hlock : (lockUsers opts [inp.fromUserId, inp.toUserId] s).1 = .ok ()) :
    Answered mid m inp (persistPrivateMessage opts env item inp s).1 := by
  have hrows := h.sound.toRows
  obtain ⟨m', hm', hfrom, hK⟩ := hrows.cid hI
  rw [hM] at hm'
  cases hm'
  have hbody : Ends (persistBody opts env item inp) s (fun r _ => Answered mid m inp r)
      fun _ _ => False := by
    have hlocked : Ends (lockUsers opts [inp.fromUserId, inp.toUserId]) s
        (fun _ s' => SameData s s') fun e s' => SameData s s' ∧ Admissible env e := lockUsers_ends _
    refine check_bind (fun e he => ?_) fun c' hin' => ?_
    · rw [hin] at he
      cases he
    rw [hin] at hin'
    cases hin'
    refine Ends.bind (Q := fun _ t => SameData s t) ?_ fun _ t hst => ?_
    · rcases hrun : lockUsers opts [inp.fromUserId, inp.toUserId] s with ⟨r, t⟩
      rw [hrun] at hlock
      cases hlock
      rw [Ends, hrun]
      exact hlocked.of_ok hrun
    · rcases hrows.findExisting_eq inp.fromUserId c with ⟨-, hnone⟩ | ⟨mid', m', hfind, hI', hM'⟩
      · rw [hI] at hnone
        cases hnone
      rw [hI] at hI'
      cases hI'
      rw [hM] at hM'
      cases hM'
      rw [← hst.db] at hfind
      refine Ends.inspect_bind (by rw [hfind]; exact raises_ok _ _) fun existing hex => ?_
      rw [hfind] at hex
      cases hex
      exact Ends.pure (answered_existingResult (hrows.messageId hM) hfrom)
  rcases call_ends id PersistResult.ofFailure (fun e he => by rw [hopen] at he; cases he)
    fun _ => hbody with ⟨r, hr, hq⟩ | ⟨_, _, hf⟩
  · rw [persistPrivateMessage, hr]
    exact hq
  · exact hf.elim

theorem Rows.mid_unique (h : Rows db) {mid' : ℕ} {m' : MessageView} {c : Bytes}
    (hM : db.lookup (.M mid) = some m) (hK : db.lookup (.K mid) = some c)
    (hM' : db.lookup (.M mid') = some m') (hK' : db.lookup (.K mid') = some c)
    (hfrom : m.fromUserId = m'.fromUserId) : mid = mid' := by
  obtain ⟨c₁, hc₁, hI⟩ := h.canonical hM
  obtain ⟨c₂, hc₂, hI'⟩ := h.canonical hM'
  grind

def sampleFenced : Store :=
  (Op.persist { sampleInput with clientMessageId := [100] }).run sampleOptions
    { sampleEnv with engine := fun _ => .failed false "io error" } sampleSent

end TinyImx.Local
