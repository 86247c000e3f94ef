import TinyImx.Local.ConfirmOrder
import TinyImx.Local.Counters
import TinyImx.Local.EngineFailures

/-!
# Failure atomicity

A result other than success means that the item it belongs to changed nothing: a call with one result
leaves the map, the count of pending events and the index as they were, and a group leaves the
effect of exactly the items that succeeded.  A failed call of the engine poisons the owner, and
from then on every call is refused.
-/

namespace TinyImx.Local

open Kv Act
open List (filter_append filter_cons filter_eq_nil_iff length_zip length_zipWith map_append
  map_eq_nil_iff mem_append mem_cons mem_map mem_singleton of_mem_zip zip_append zip_cons_cons)

variable {opts : Options} {env : Env} {s s' t u : Store}

/-! ## Groups of messages -/

theorem createdRecords_eq_nil {rs : List PersistResult} (h : ∀ r ∈ rs, r.isCreated = false) :
    createdRecords rs = [] := by
  rw [createdRecords, filter_eq_nil_iff.2 fun r hr => by simp [h r hr]]
  rfl

theorem createdRecords_append (rs rs' : List PersistResult) :
    createdRecords (rs ++ rs') = createdRecords rs ++ createdRecords rs' := by
  simp [createdRecords]

theorem persistPrivateMessage_wrote (opts : Options) (env : Env) (item : ℕ) (inp : PersistInput)
    (h : Inv s) : ∃ ns,
      createdRecords [(persistPrivateMessage opts env item inp s).1] =
        ns.map NewMessage.message ∧
      Wrote ns s (persistPrivateMessage opts env item inp s).2 := by
  rcases persistPrivateMessage_events opts env item inp s with ⟨hq, hnot⟩ | ⟨hcreated, n, hn, hw⟩
  · refine ⟨[], createdRecords_eq_nil fun r hr => ?_, hq.wrote⟩
    rw [mem_singleton.1 hr]
    rcases hnot with hnot | ⟨e, he⟩
    · exact hnot
    obtain ⟨hm, hout⟩ := persistPrivateMessage_spec opts env item inp h
    cases hout with
    | refused _ _ hadm hr =>
      rw [hr]
      exact isCreated_ofFailure hadm.status
    | failed hadm hr _ =>
      rw [hr]
      exact isCreated_ofFailure hadm.status
    | reused _ hr =>
      obtain ⟨mid, m, -, -, hr⟩ := hr.stored
      rw [hr]
      exact isCreated_existingResult m inp
    | @created c n _ hnew hdurable hc _ hmessage =>
      have hin := (h.moves hm).live.durable hdurable
      have hcid := hin.cid
      have hfrom : n.message.fromUserId = inp.fromUserId := by
        rw [hmessage]
        rfl
      rw [hfrom, hc, hq.map _ (by simp), hnew] at hcid
      cases hcid
  · refine ⟨[n], ?_, hw⟩
    simp [createdRecords, hcreated, hn]

theorem persistEach_wrote (inputs : List PersistInput) (i : ℕ) (h : Inv s) : ∃ ns,
    createdRecords (persistEach opts env i inputs s).1 = ns.map NewMessage.message ∧
    Wrote ns s (persistEach opts env i inputs s).2 := by
  induction inputs generalizing i s with
  | nil => exact ⟨[], rfl, (Quiet.refl s).wrote⟩
  | cons inp inputs ih =>
    obtain ⟨ns, hns, hw⟩ := persistPrivateMessage_wrote opts env i inp h
    obtain ⟨ns', hns', hw'⟩ := ih (i + 1) (h.moves (persistPrivateMessage_spec opts env i inp h).1)
    refine ⟨ns ++ ns', ?_, hw.append hw'⟩
    rw [map_append, ← hns, ← hns', ← createdRecords_append]
    rfl

theorem unreadResult_same (opts : Options) (b : Batch) (i : ℕ) (r : PersistResult) :
    (b.unreadResult opts i r).isCreated = r.isCreated ∧
      (b.unreadResult opts i r).record = r.record := by
  unfold Batch.unreadResult
  split
  · split <;> exact ⟨rfl, rfl⟩
  · exact ⟨rfl, rfl⟩

theorem createdRecords_unread (b : Batch) (rs : List PersistResult) (k : ℕ → ℕ) :
    createdRecords (rs.mapIdx fun i r => b.unreadResult opts (k i) r) = createdRecords rs := by
  induction rs generalizing k with
  | nil => rfl
  | cons r rs ih =>
    rw [List.mapIdx_cons, ← List.singleton_append, createdRecords_append, ih fun i => k (i + 1),
      ← List.singleton_append (l := rs), createdRecords_append]
    congr 1
    obtain ⟨hcreated, hrecord⟩ := unreadResult_same opts b (k 0) r
    simp only [createdRecords, filter_cons, List.filter_nil, hcreated]
    split <;> simp [hrecord]

variable {s₀ : Store} {b : Batch} {ns : List NewMessage}
  {done : List (PersistInput × Except Failure Bytes)}

theorem Item.not_created {db : Db} {inp : PersistInput} {checked : Except Failure Bytes}
    {r : PersistResult} (h : Item env db ns inp checked r false) : r.isCreated = false := by
  cases h with
  | refused hadm _ => exact isCreated_ofFailure hadm.status
  | stored _ hr =>
    obtain ⟨mid, m, -, -, rfl⟩ := hr.stored
    exact isCreated_existingResult m inp

theorem Staged.none_created (h : Staged env s₀ done b ns s) {e : Failure}
    (he : e.status ≠ .succeeded) : createdRecords (failUncommitted e b.out b.provisional) = [] := by
  refine createdRecords_eq_nil fun r hr => ?_
  rw [failUncommitted, ← List.map_uncurry_zip_eq_zipWith] at hr
  obtain ⟨⟨r', p⟩, hmem, rfl⟩ := mem_map.1 hr
  simp only [Function.uncurry]
  split
  · exact isCreated_ofFailure he
  · next hp =>
    simp only [Bool.or_eq_true, not_or, Bool.not_eq_true] at hp
    obtain ⟨x, -, hitem⟩ := exists_of_forall₂ h.items hmem
    rw [hp.1] at hitem
    exact hitem.not_created

theorem write_status (env : Env) (s : Store) (batch : List Write) (sync : Bool) :
    Ends (write env batch sync) s (fun _ _ => True) fun e _ => e.status = .storageError := by
  unfold Ends write
  by_cases hp : s.poisoned = true
  · rw [if_pos hp]
  · rw [if_neg hp]
    cases env.engine s.engineWriteCalls with
    | done => trivial
    | failed logged text => rfl

theorem commitBatch_wrote (opts : Options) (hst : Staged env s₀ done b ns s) (hm : Matched b ns)
    (hslots : StagedSlots s₀ b s) : ∃ ns',
      createdRecords (commitBatch opts env b s).1 = ns'.map NewMessage.message ∧
      Wrote ns' s₀ (commitBatch opts env b s).2 := by
  have hwrite := write_quiet env s (b.creates.flatMap Create.writes) true
  unfold commitBatch
  split
  · next hempty =>
    have hnone := List.isEmpty_iff.1 hempty
    have hlen := hst.overlay.length
    rw [hnone] at hlen
    obtain rfl : ns = [] := List.eq_nil_of_length_eq_zero hlen.symm
    exact ⟨[], hm.records, (hslots.quiet hnone).wrote⟩
  split
  · next s' hrun =>
    obtain ⟨hs, hdb⟩ := hwrite.of_ok hrun
    have hposted := hslots.committed hs hdb
    rw [hm.events] at hposted
    refine ⟨ns, ?_, hposted, ?_⟩
    · exact (createdRecords_unread b b.out fun i => i).trans hm.records
    · have hsame := sameData_foldl (fun s (c : Create) => sameData_commit c.eventId s) b.creates s'
      rw [hsame.db, hdb, hst.overlay.writes, groupBatch_congr hst.map]
      exact hst.map.apply _
  · next e s' hrun =>
    refine ⟨[], hst.none_created ?_, (hslots.destroyed (hwrite.of_error hrun)).wrote⟩
    rw [(write_status env s _ true).of_error hrun]
    decide

theorem resultBefore_not_created (inp : PersistInput) (i : ℕ) :
    (resultBefore (checkInput opts env i inp)).isCreated = false := by
  cases h : checkInput opts env i inp with
  | error e => exact isCreated_ofFailure (checkInput_admissible inp e h).status
  | ok c => rfl

theorem persistBatch_wrote (opts : Options) (env : Env) (inputs : List PersistInput) (h : Inv s) :
    ∃ ns, createdRecords (persistBatch opts env inputs s).1 = ns.map NewMessage.message ∧
      Wrote ns s (persistBatch opts env inputs s).2 := by
  unfold persistBatch
  rw [← checkInputs]
  cases hopen : checkOpen s with
  | error e =>
    refine ⟨[], createdRecords_eq_nil fun r hr => ?_, (Quiet.refl s).wrote⟩
    obtain ⟨_, -, rfl⟩ := mem_map.1 hr
    have hadm : Admissible env e := checkOpen_admissible s e hopen
    exact isCreated_ofFailure hadm.status
  | ok u =>
    dsimp only
    have hquiet : Silent (lockUsers opts (batchActors (checkInputs opts env inputs))) s :=
      silent_lockUsers _
    have hlock : Ends (lockUsers opts (batchActors (checkInputs opts env inputs))) s
        (fun _ s' => SameData s s') fun e s' => SameData s s' ∧ Admissible env e := lockUsers_ends _
    rcases hrun : lockUsers opts (batchActors (checkInputs opts env inputs)) s with ⟨r, t⟩
    cases r with
    | error e =>
      refine ⟨[], createdRecords_eq_nil fun r hr => ?_, (hquiet.of_error hrun).wrote⟩
      have hr : r ∈ failUncommitted e ((checkInputs opts env inputs).map fun x => resultBefore x.2)
        ((checkInputs opts env inputs).map fun _ => false) := hr
      rw [failUncommitted, List.zipWith_map, List.zipWith_self] at hr
      obtain ⟨x, hx, rfl⟩ := mem_map.1 hr
      obtain ⟨i, hi, rfl⟩ := List.mem_mapIdx.1 hx
      split
      · exact isCreated_ofFailure (hlock.of_error hrun).2.status
      · exact resultBefore_not_created _ _
    | ok u =>
      have hm : Moves persistKind s t := (Moves.refl s).frame (hlock.of_ok hrun)
      have hchecked : Checked opts env 0 (checkInputs opts env inputs) := by
        simpa [checkInputs] using checked_mapIdx opts env inputs 0
      obtain ⟨ns, hst, hmatch⟩ := stageItems_staged (h.moves hm) (checkInputs opts env inputs)
        hchecked (staged_init t)
      have hslots : StagedSlots t {} t := ⟨.init (.refl t), by simp⟩
      obtain ⟨ns', hns', hw⟩ := commitBatch_wrote opts hst (hmatch ⟨rfl, rfl⟩)
        (stageItems_events (checkInputs opts env inputs) hslots)
      exact ⟨ns', hns', hw.of_quiet (hquiet.of_ok hrun)⟩

theorem persistPrivateMessages_wrote (opts : Options) (env : Env) (inputs : List PersistInput)
    (h : Inv s) : ∃ ns,
      createdRecords (persistPrivateMessages opts env inputs s).1 = ns.map NewMessage.message ∧
      Wrote ns s (persistPrivateMessages opts env inputs s).2 := by
  unfold persistPrivateMessages
  split
  · refine ⟨[], createdRecords_eq_nil fun r hr => ?_, (Quiet.refl s).wrote⟩
    obtain ⟨_, -, rfl⟩ := mem_map.1 hr
    rfl
  split
  · exact ⟨[], rfl, (Quiet.refl s).wrote⟩
  split
  · exact persistEach_wrote inputs 0 h
  · exact persistBatch_wrote opts env inputs h

theorem Outcome.stored {inp : PersistInput} {checked : Except Failure Bytes} {r : PersistResult}
    (h : Outcome opts env inp checked s r s') (hinv : Inv s') (hr : r.status = .succeeded) :
    s'.db.lookup (.M r.messageId) = some r.record := by
  cases h with
  | refused _ _ hadm heq =>
    rw [heq] at hr
    exact absurd hr hadm.status
  | failed hadm heq _ =>
    rw [heq] at hr
    exact absurd hr hadm.status
  | reused _ hre =>
    obtain ⟨mid, m, -, hM, rfl⟩ := hre.stored
    have hid := hinv.sound.toRows.messageId hM
    rw [← hid] at hM
    exact hM
  | created _ _ hdurable _ _ hmessage hrecord _ _ _ =>
    have hin := (hinv.live.durable hdurable).record
    rw [hrecord, ← hin, hmessage]
    rfl

theorem persistPrivateMessages_stored (opts : Options) (env : Env) (inputs : List PersistInput)
    (h : Inv s) : ∀ r ∈ (persistPrivateMessages opts env inputs s).1, r.status = .succeeded →
      (persistPrivateMessages opts env inputs s).2.db.lookup (.M r.messageId) = some r.record := by
  intro r hr hstatus
  rcases lt_or_ge 64 inputs.length with hlen | hlen
  · rw [persistPrivateMessages_oversized opts env hlen] at hr
    simp_all
  · obtain ⟨hm, houts⟩ := persistPrivateMessages_spec opts env hlen h
    obtain ⟨x, -, hout⟩ := exists_of_forall₂ houts hr
    exact hout.stored (h.moves hm) hstatus

/-! ## Groups of confirmations -/

def Settled (db : Db) (mid : ℕ) : Prop :=
  ∃ m, db.lookup (.M mid) = some m ∧
    (m.deliveryState = .receiverConfirmed ∨ m.deliveryState = .read)

def confirmedIds (inputs : List OwnedReceiverConfirmation) (rs : List MutationResult) : List ℕ :=
  ((inputs.zip rs).filter fun x => x.2.status = .succeeded && x.2.affectedRows ≠ 0).map
    fun x => x.1.messageId

/-- The loop of `ConfirmReceiverRequests` after the requests `done`, having confirmed `ms`. -/
structure Progress (db : Db) (done : List OwnedReceiverConfirmation) (q : Requests)
    (ms : List MessageView) : Prop where
  results : q.results.length = done.length
  provisional : q.provisional.length = done.length
  changed : ∀ mid, q.changed.lookup mid ≠ none ↔ mid ∈ ms.map MessageView.messageId
  confirmed : ((done.zip q.results).filter fun x => x.2.affectedRows ≠ 0).map
    (fun x => x.1.messageId) = ms.map MessageView.messageId
  provisional_of : ∀ x ∈ (done.zip q.results).zip q.provisional, x.1.2.affectedRows ≠ 0 → x.2 = true
  of_provisional : ∀ x ∈ (done.zip q.results).zip q.provisional, x.2 = true →
    x.1.1.messageId ∈ ms.map MessageView.messageId
  settled : ∀ x ∈ (done.zip q.results).zip q.provisional, x.1.2.status = .succeeded →
    x.2 = true ∨ Settled db x.1.1.messageId

theorem progress_init (db : Db) : Progress db [] {} [] where
  results := rfl
  provisional := rfl
  changed mid := by simp [show (∅ : AList fun _ : ℕ => MessageView).lookup mid = none from rfl]
  confirmed := rfl
  provisional_of x hx := by simp at hx
  of_provisional x hx := by simp at hx
  settled x hx := by simp at hx

namespace Progress

variable {db : Db} {handled : List OwnedReceiverConfirmation} {q : Requests} {ms : List MessageView}
  {inp : OwnedReceiverConfirmation}

theorem zip_snoc (h : Progress db handled q ms) (r : MutationResult) (p : Bool) :
    ((handled ++ [inp]).zip (q.results ++ [r])).zip (q.provisional ++ [p]) =
      (handled.zip q.results).zip q.provisional ++ [((inp, r), p)] := by
  have hlen : (handled.zip q.results).length = q.provisional.length := by
    rw [length_zip, h.results, h.provisional, Nat.min_self]
  rw [zip_append h.results.symm, zip_append hlen]
  rfl

theorem push (h : Progress db handled q ms) {r : MutationResult} {p : Bool}
    (hrows : r.affectedRows = 0) (hp : p = true → inp.messageId ∈ ms.map MessageView.messageId)
    (hr : r.status = .succeeded → p = true ∨ Settled db inp.messageId) :
    Progress db (handled ++ [inp]) (q.push r p) ms where
  results := by simp [Requests.push, h.results]
  provisional := by simp [Requests.push, h.provisional]
  changed := h.changed
  confirmed := by
    rw [Requests.push, zip_append h.results.symm, filter_append, map_append,
      h.confirmed]
    simp [hrows]
  provisional_of x hx hne := by
    rw [Requests.push, h.zip_snoc, mem_append, mem_singleton] at hx
    rcases hx with hx | rfl
    · exact h.provisional_of x hx hne
    · exact absurd hrows hne
  of_provisional x hx := by
    rw [Requests.push, h.zip_snoc, mem_append, mem_singleton] at hx
    rcases hx with hx | rfl
    · exact h.of_provisional x hx
    · exact hp
  settled x hx := by
    rw [Requests.push, h.zip_snoc, mem_append, mem_singleton] at hx
    rcases hx with hx | rfl
    · exact h.settled x hx
    · exact hr

theorem confirm (h : Progress db handled q ms) {m : MessageView} (hm : m.messageId = inp.messageId)
    (now : Bytes) : Progress db (handled ++ [inp]) (q.confirm m now) (ms ++ [m]) where
  results := by simp [Requests.confirm, h.results]
  provisional := by simp [Requests.confirm, h.provisional]
  changed mid := by
    rw [Requests.confirm, map_append, mem_append, List.map_singleton,
      mem_singleton]
    dsimp only
    by_cases hmid : mid = m.messageId
    · simp_all
    · rw [AList.lookup_insert_ne hmid, h.changed mid]
      simp [hmid]
  confirmed := by
    rw [Requests.confirm, zip_append h.results.symm, filter_append, map_append,
      h.confirmed, map_append]
    simp [hm]
  provisional_of x hx hne := by
    rw [Requests.confirm, h.zip_snoc, mem_append, mem_singleton] at hx
    rcases hx with hx | rfl
    · exact h.provisional_of x hx hne
    · rfl
  of_provisional x hx hp := by
    rw [map_append, mem_append]
    rw [Requests.confirm, h.zip_snoc, mem_append, mem_singleton] at hx
    rcases hx with hx | rfl
    · exact .inl (h.of_provisional x hx hp)
    · exact .inr (by simp [hm])
  settled x hx hs := by
    rw [Requests.confirm, h.zip_snoc, mem_append, mem_singleton] at hx
    rcases hx with hx | rfl
    · exact h.settled x hx hs
    · exact .inl rfl

end Progress

theorem decision_settled {found : GetResult} {receiver : ℕ} {r : MutationResult}
    (hdec : receiverConfirmationDecision found receiver = some r) (hr : r.status = .succeeded)
    (hstatus : found.status = .succeeded) : found.found = true ∧
      (found.record.deliveryState = .receiverConfirmed ∨ found.record.deliveryState = .read) := by
  unfold receiverConfirmationDecision at hdec
  rw [if_neg (by simp [hstatus])] at hdec
  split at hdec
  · cases hdec
    cases hr
  · next hfound =>
    refine ⟨by simpa [GetResult.Found, hstatus] using hfound, ?_⟩
    split at hdec
    · cases hdec
      cases hr
    split at hdec
    · cases hdec
    · next hstate => exact .inl hstate
    · next hstate => exact .inr hstate
    · cases hdec
      cases hr

/-- The loop goes on with a request that changes nothing, or confirms one more message. -/
theorem requestLoop_progress {db : Db} (h : Rows db) (inputs : List OwnedReceiverConfirmation)
    {q : Requests} {ms : List MessageView} {handled : List OwnedReceiverConfirmation}
    (hq : Requested env db q ms) (hp : Progress db handled q ms) :
    ∃ ms' k, Requested env db (requestLoop opts env db inputs q).1 ms' ∧
      Progress db (handled ++ inputs.take k) (requestLoop opts env db inputs q).1 ms' ∧
      ((requestLoop opts env db inputs q).2 = none → inputs.length ≤ k) ∧
      ∀ e, (requestLoop opts env db inputs q).2 = some e → e.status ≠ .succeeded := by
  induction inputs generalizing q ms handled with
  | nil => exact ⟨ms, 0, hq, by simpa [requestLoop] using hp, fun _ => le_rfl, by simp [requestLoop]⟩
  | cons inp rest ih =>
    -- the rest of the loop, from what the request leaves
    have hnext : ∀ {q' ms'}, Requested env db q' ms' → Progress db (handled ++ [inp]) q' ms' →
        requestLoop opts env db (inp :: rest) q = requestLoop opts env db rest q' →
        ∃ ms'' k, Requested env db (requestLoop opts env db (inp :: rest) q).1 ms'' ∧
          Progress db (handled ++ (inp :: rest).take k)
            (requestLoop opts env db (inp :: rest) q).1 ms'' ∧
          ((requestLoop opts env db (inp :: rest) q).2 = none → (inp :: rest).length ≤ k) ∧
          ∀ e, (requestLoop opts env db (inp :: rest) q).2 = some e → e.status ≠ .succeeded := by
      intro q' ms' hq' hp' heq
      obtain ⟨ms'', k, hq'', hp'', hall, hthrown⟩ := ih hq' hp'
      rw [heq]
      refine ⟨ms'', k + 1, hq'', ?_, fun hnone => Nat.succ_le_succ (hall hnone), hthrown⟩
      grind
    cases hcheck : checkRequest opts inp with
    | error e =>
      have hadm : Admissible env e := checkRequest_raises inp e hcheck
      refine hnext (hq.push (r := .ofFailure e) hadm.text false) (hp.push rfl (fun h => by cases h)
        fun hs => absurd hs hadm.status) ?_
      rw [requestLoop, hcheck]
    | ok u =>
      obtain ⟨found, hrecord⟩ : ∃ found, Local.record db inp.messageId = .ok found :=
        ⟨_, h.record_eq inp.messageId⟩
      have hstatus : found.status = .succeeded := h.record_status hrecord
      cases hchanged : q.changed.lookup inp.messageId with
      | some m =>
        have hreq : requestRecord db q inp.messageId = .ok { found with record := m } := by
          simp [requestRecord, hrecord, hchanged, bind, Except.bind, pure, Except.pure]
        have hmem : inp.messageId ∈ ms.map MessageView.messageId :=
          (hp.changed _).1 (by rw [hchanged]; exact Option.some_ne_none _)
        cases hdec : receiverConfirmationDecision { found with record := m } inp.receiverUserId with
        | none => exact absurd (decision_none hdec).2.2 (hq.changed hchanged)
        | some decision =>
          have hstatus' : ({ found with record := m } : GetResult).status = .succeeded := hstatus
          refine hnext (hq.push (textOk_of_not_mem (decision_text hstatus' hdec))
            (decision.status = .succeeded && (q.changed.lookup inp.messageId).isSome))
            (hp.push (decision_affectedRows hdec) (fun _ => hmem) fun hs => .inl ?_) ?_
          · simp [hs, hchanged]
          · rw [requestLoop, hcheck]
            rw [hreq]
            dsimp only
            rw [hdec]
      | none =>
        have hreq : requestRecord db q inp.messageId = .ok found := by
          simp [requestRecord, hrecord, hchanged, bind, Except.bind, pure, Except.pure]
        cases hdec : receiverConfirmationDecision found inp.receiverUserId with
        | some decision =>
          refine hnext (hq.push (textOk_of_not_mem (decision_text hstatus hdec))
            (decision.status = .succeeded && (q.changed.lookup inp.messageId).isSome))
            (hp.push (decision_affectedRows hdec) (fun hflag => ?_) fun hs => .inr ?_) ?_
          · simp [hchanged] at hflag
          · obtain ⟨hf, hstate⟩ := decision_settled hdec hs hstatus
            exact ⟨found.record, (h.record_found hrecord hf).1, hstate⟩
          · rw [requestLoop, hcheck]
            dsimp only
            grind
        | none =>
          obtain ⟨hf, -, hpending⟩ := decision_none hdec
          obtain ⟨hstored, hid⟩ := h.record_found hrecord hf
          have hmid : q.changed.lookup found.record.messageId = none := by
            rw [hid]
            exact hchanged
          have hrec : db.lookup (.M found.record.messageId) = some found.record := by
            rw [hid]
            exact hstored
          cases hdump : dumpRecord env (confirmed found.record env.clock.now) with
          | ok u =>
            refine hnext (hq.confirm hrec hpending hmid) (hp.confirm hid env.clock.now) ?_
            rw [requestLoop, hcheck]
            dsimp only
            rw [hreq]
            grind
          | error e =>
            have he : Admissible env e := raises_admissible (by decide) e hdump
            have hrun : requestLoop opts env db (inp :: rest) q =
                (q.push ({} : MutationResult) false, some e) := by
              rw [requestLoop, hcheck]
              dsimp only
              rw [hreq]
              dsimp only
              rw [hdec]
              dsimp only
              rw [hdump]
            rw [hrun]
            refine ⟨ms, 1, hq.push textOk_empty _, ?_, fun hnone => ?_, fun e' he' => ?_⟩
            · exact hp.push rfl (fun h => by cases h) fun hs => by cases hs
            · cases hnone
            · cases he'
              exact he.status

theorem settled_confirmedMap {db : Db} (h : Rows db) {ms : List MessageView}
    (hms : Confirmable db ms) (now : Bytes) {mid : ℕ}
    (hmid : Settled db mid ∨ mid ∈ ms.map MessageView.messageId) :
    Settled (confirmedMap db now ms) mid := by
  have ha := hms.advances h now
  rw [Settled, lookup_confirmedMap (by simp)]
  by_cases hmem : mid ∈ ms.map MessageView.messageId
  · obtain ⟨m, hm, rfl⟩ := mem_map.1 hmem
    exact ⟨confirmed m now, ha.lookup_of_mem hms.nodup hm, .inl rfl⟩
  · obtain ⟨m, hm, hstate⟩ := hmid.resolve_right hmem
    exact ⟨m, (ha.lookup_of_not_mem hmem).trans hm, hstate⟩

theorem Settled.of_quiet {mid : ℕ} (h : Settled s.db mid) (hq : Quiet s t) : Settled t.db mid := by
  rw [Settled, hq.map _ (by simp)]
  exact h

variable {rs : List MutationResult}

theorem mem_zip_zipWith {f : MutationResult → Bool → MutationResult}
    {inputs : List OwnedReceiverConfirmation} {ps : List Bool}
    {x : OwnedReceiverConfirmation × MutationResult} (hx : x ∈ inputs.zip (rs.zipWith f ps)) :
    ∃ r p, ((x.1, r), p) ∈ (inputs.zip rs).zip ps ∧ x.2 = f r p := by
  induction inputs generalizing rs ps with
  | nil => simp at hx
  | cons inp inputs ih =>
    cases rs with
    | nil => simp at hx
    | cons r rs =>
      cases ps with
      | nil => simp at hx
      | cons p ps =>
        rw [List.zipWith_cons_cons, zip_cons_cons, mem_cons] at hx
        grind

theorem confirmedIds_zipWith {f : MutationResult → Bool → MutationResult} {φ : MutationResult → Bool}
    (inputs : List OwnedReceiverConfirmation) {ps : List Bool}
    (hlen : rs.length = ps.length)
    (hf : ∀ x ∈ (inputs.zip rs).zip ps,
      (((f x.1.2 x.2).status = .succeeded && (f x.1.2 x.2).affectedRows ≠ 0 : Bool)) = φ x.1.2) :
    confirmedIds inputs (rs.zipWith f ps) =
      ((inputs.zip rs).filter fun x => φ x.2).map fun x => x.1.messageId := by
  induction inputs generalizing rs ps with
  | nil => rfl
  | cons inp inputs ih =>
    cases rs with
    | nil => rfl
    | cons r rs =>
      cases ps with
      | nil => cases hlen
      | cons p ps =>
        have hhead := hf ((inp, r), p) (by simp)
        have hrest := ih (Nat.succ.inj hlen) fun x hx => hf x (by simp [hx])
        unfold confirmedIds at hrest ⊢
        rw [List.zipWith_cons_cons, zip_cons_cons, filter_cons, zip_cons_cons,
          filter_cons, hhead]
        cases φ r
        · exact hrest
        · simpa using hrest

theorem confirmedIds_append {inputs inputs' : List OwnedReceiverConfirmation}
    {rs' : List MutationResult} (hlen : inputs.length = rs.length) :
    confirmedIds (inputs ++ inputs') (rs ++ rs') =
      confirmedIds inputs rs ++ confirmedIds inputs' rs' := by
  rw [confirmedIds, zip_append hlen, filter_append, map_append]
  rfl

/-- What a group of confirmations leaves: exactly the messages it reports as newly confirmed are. -/
structure Confirms (env : Env) (inputs : List OwnedReceiverConfirmation) (rs : List MutationResult)
    (ms : List MessageView) (s s' : Store) : Prop extends SameEvents s s' where
  results : rs.length = inputs.length
  confirmable : Confirmable s.db ms
  ids : confirmedIds inputs rs = ms.map MessageView.messageId
  map : SameMap (confirmedMap s.db env.clock.now ms) s'.db
  settled : ∀ x ∈ inputs.zip rs, x.2.status = .succeeded → Settled s'.db x.1.messageId

theorem confirmable_nil (db : Db) : Confirmable db [] :=
  ⟨List.nodup_nil, by simp, by simp⟩

theorem confirmedMap_nil (db : Db) (now : Bytes) : confirmedMap db now [] = db := by
  simp [confirmedMap, Change.batch, confirmCounters, actorSet, apply]

theorem Quiet.confirms {inputs : List OwnedReceiverConfirmation}
    (h : Quiet s s') (hlen : rs.length = inputs.length) (hids : confirmedIds inputs rs = [])
    (hset : ∀ x ∈ inputs.zip rs, x.2.status = .succeeded → Settled s.db x.1.messageId) :
    Confirms env inputs rs [] s s' where
  toSameEvents := h.toSameEvents
  results := hlen
  confirmable := confirmable_nil s.db
  ids := hids
  map := by
    rw [confirmedMap_nil]
    exact h.map
  settled x hx hs := (hset x hx hs).of_quiet h

theorem Quiet.confirms_none {inputs : List OwnedReceiverConfirmation}
    (h : Quiet s s') (hlen : rs.length = inputs.length)
    (hrs : ∀ r ∈ rs, r.status ≠ .succeeded) : Confirms env inputs rs [] s s' := by
  refine h.confirms hlen ?_ fun x hx hs => absurd hs (hrs x.2 (of_mem_zip hx).2)
  rw [confirmedIds, filter_eq_nil_iff.2 fun x hx => ?_]
  · rfl
  · simp [hrs x.2 (of_mem_zip hx).2]

namespace Progress

variable {db : Db} {handled inputs : List OwnedReceiverConfirmation} {q : Requests}
  {ms : List MessageView} {e : Failure}

theorem lengths (h : Progress db handled q ms) : q.results.length = q.provisional.length :=
  h.results.trans h.provisional.symm

theorem fail_ids (h : Progress db handled q ms) (he : e.status ≠ .succeeded)
    (rest : List OwnedReceiverConfirmation) :
    confirmedIds (handled ++ rest) (q.fail (handled ++ rest).length e) = [] := by
  have hfirst : confirmedIds handled
      (q.results.zipWith (fun r p => if p then .ofFailure e else r) q.provisional) =
        ((handled.zip q.results).filter fun _ => false).map fun x => x.1.messageId := by
    refine confirmedIds_zipWith (φ := fun _ => false) handled h.lengths fun x hx => ?_
    by_cases hp : x.2 = true
    · simp [hp, MutationResult.ofFailure, he]
    · by_cases hrows : x.1.2.affectedRows = 0
      · simp [hp, hrows]
      · exact absurd (h.provisional_of x hx hrows) hp
  have hlen : handled.length =
      (q.results.zipWith (fun r p => if p then MutationResult.ofFailure e else r)
        q.provisional).length := by
    rw [length_zipWith, ← h.lengths, Nat.min_self, h.results]
  rw [Requests.fail, confirmedIds_append hlen, hfirst, confirmedIds]
  have hdefault : ∀ x ∈ rest.zip (List.replicate ((handled ++ rest).length - q.results.length)
      ({} : MutationResult)), ¬(x.2.status = .succeeded && x.2.affectedRows ≠ 0) := by
    intro x hx
    rw [(List.mem_replicate.1 (of_mem_zip hx).2).2]
    decide
  rw [filter_eq_nil_iff.2 hdefault]
  simp

theorem fail_length (h : Progress db handled q ms) (rest : List OwnedReceiverConfirmation) :
    (q.fail (handled ++ rest).length e).length = (handled ++ rest).length := by
  rw [Requests.fail, List.length_append, length_zipWith, ← h.lengths, Nat.min_self,
    List.length_replicate, h.results, List.length_append]
  omega

theorem fail_settled (h : Progress db handled q ms) (he : e.status ≠ .succeeded)
    (rest : List OwnedReceiverConfirmation) :
    ∀ x ∈ (handled ++ rest).zip (q.fail (handled ++ rest).length e), x.2.status = .succeeded →
      Settled db x.1.messageId := by
  intro x hx hs
  have hlen : handled.length =
      (q.results.zipWith (fun r p => if p then MutationResult.ofFailure e else r)
        q.provisional).length := by
    rw [length_zipWith, ← h.lengths, Nat.min_self, h.results]
  rw [Requests.fail, zip_append hlen, mem_append] at hx
  rcases hx with hx | hx
  · obtain ⟨r, p, hmem, heq⟩ := mem_zip_zipWith hx
    cases p
    · rw [heq] at hs
      exact (h.settled _ hmem hs).resolve_left (by simp)
    · rw [heq] at hs
      exact absurd hs he
  · rw [(List.mem_replicate.1 (of_mem_zip hx).2).2] at hs
    cases hs

theorem fail_confirms (h : Progress s.db handled q ms) (he : e.status ≠ .succeeded)
    (rest : List OwnedReceiverConfirmation) (hq : Quiet s s') :
    Confirms env (handled ++ rest) (q.fail (handled ++ rest).length e) [] s s' :=
  hq.confirms (h.fail_length rest) (h.fail_ids he rest) (h.fail_settled he rest)

theorem rest_confirms (h : Progress s.db handled q []) :
    Confirms env handled q.results [] s s := by
  refine (Quiet.refl s).confirms h.results ?_ fun x hx hs => ?_
  · have hrows : ∀ x ∈ handled.zip q.results, x.2.affectedRows = 0 := by
      have hnone := h.confirmed
      rw [List.map_nil, map_eq_nil_iff, filter_eq_nil_iff] at hnone
      simpa using hnone
    rw [confirmedIds, filter_eq_nil_iff.2 fun x hx => by simp [hrows x hx]]
    rfl
  · have hlen : (handled.zip q.results).length = q.provisional.length := by
      rw [length_zip, h.results, h.provisional, Nat.min_self]
    obtain ⟨i, hi, rfl⟩ := List.mem_iff_getElem.1 hx
    have hpair : ((handled.zip q.results)[i], q.provisional.get ⟨i, hlen ▸ hi⟩) ∈
        (handled.zip q.results).zip q.provisional :=
      List.mem_iff_getElem.2 ⟨i, by simpa [length_zip, hlen] using hlen ▸ hi, by simp⟩
    rcases h.settled _ hpair hs with hp | hset
    · exact absurd (h.of_provisional _ hpair hp) (by simp)
    · exact hset

theorem succeed_ids (h : Progress db handled q ms) :
    confirmedIds handled q.succeed = ms.map MessageView.messageId := by
  have hone : confirmedIds handled q.succeed =
      ((handled.zip q.results).filter fun x => (x.2.affectedRows ≠ 0 : Bool)).map
        fun x => x.1.messageId := by
    refine confirmedIds_zipWith (φ := fun r => r.affectedRows ≠ 0) handled h.lengths fun x hx => ?_
    by_cases hp : x.2 = true
    · simp [hp]
    · by_cases hrows : x.1.2.affectedRows = 0
      · simp [hp, hrows]
      · exact absurd (h.provisional_of x hx hrows) hp
  rw [hone, ← h.confirmed]

end Progress

theorem Confirms.of_quiet {inputs : List OwnedReceiverConfirmation}
    {ms : List MessageView} (h : Confirms env inputs rs ms t u) (hq : Quiet s t)
    (hdb : t.db = s.db) : Confirms env inputs rs ms s u where
  toSameEvents := hq.toSameEvents.trans h.toSameEvents
  results := h.results
  confirmable := hdb ▸ h.confirmable
  ids := h.ids
  map := hdb ▸ h.map
  settled := h.settled

theorem Progress.succeed_confirms {inputs : List OwnedReceiverConfirmation} {q : Requests}
    {ms : List MessageView} (h : Progress s.db inputs q ms) (hrows : Rows s.db)
    (hms : Confirmable s.db ms) (hs : SameEvents s s')
    (hdb : s'.db = confirmedMap s.db env.clock.now ms) :
    Confirms env inputs q.succeed ms s s' where
  toSameEvents := hs
  results := by rw [Requests.succeed, length_zipWith, ← h.lengths, Nat.min_self, h.results]
  confirmable := hms
  ids := h.succeed_ids
  map := by
    rw [hdb]
    exact .refl _
  settled x hx hstatus := by
    rw [hdb]
    obtain ⟨r, p, hmem, heq⟩ := mem_zip_zipWith hx
    refine settled_confirmedMap hrows hms _ ?_
    cases p
    · rw [heq] at hstatus
      exact .inl ((h.settled _ hmem hstatus).resolve_left (by simp))
    · exact .inr (h.of_provisional _ hmem rfl)

theorem requestBefore_status (env : Env) (inp : OwnedReceiverConfirmation) :
    (requestBefore opts inp).status ≠ .succeeded := by
  have hraises : Raises (checkRequest opts inp) (Admissible env) := checkRequest_raises inp
  unfold requestBefore
  cases hcheck : checkRequest opts inp with
  | error e => exact (hraises e hcheck).status
  | ok u => simp

/-- A group of confirmations confirms exactly the messages it reports, and changes nothing else. -/
theorem confirmReceiverRequests_confirms (opts : Options) (env : Env)
    (inputs : List OwnedReceiverConfirmation) (h : Inv s) :
    ∃ ms, Confirms env inputs (confirmReceiverRequests opts env inputs s).1 ms s
      (confirmReceiverRequests opts env inputs s).2 := by
  unfold confirmReceiverRequests
  split
  · next hempty =>
    rw [List.isEmpty_iff.1 hempty]
    exact ⟨[], (Quiet.refl s).confirms_none rfl (by simp)⟩
  split
  · refine ⟨[], (Quiet.refl s).confirms_none (by simp) fun r hr => ?_⟩
    obtain ⟨_, -, rfl⟩ := mem_map.1 hr
    simp
  cases hopen : checkOpen s with
  | error e =>
    refine ⟨[], (Quiet.refl s).confirms_none (by simp) fun r hr => ?_⟩
    obtain ⟨_, -, rfl⟩ := mem_map.1 hr
    simp
  | ok u =>
    dsimp only
    have hquiet : Silent (lockUsers opts (requestActors opts inputs)) s := silent_lockUsers _
    have hlock : Ends (lockUsers opts (requestActors opts inputs)) s (fun _ s' => SameData s s')
        fun e s' => SameData s s' ∧ Admissible env e := lockUsers_ends _
    rcases hrun : lockUsers opts (requestActors opts inputs) s with ⟨r, t⟩
    cases r with
    | error e =>
      refine ⟨[], (hquiet.of_error hrun).confirms_none (by simp) fun r hr => ?_⟩
      obtain ⟨inp, -, rfl⟩ := mem_map.1 hr
      exact requestBefore_status env inp
    | ok u =>
      have ht := hlock.of_ok hrun
      have hsound := (h.moves ((Moves.refl (K := confirmKind) s).frame ht)).sound
      obtain ⟨ms, k, hreq, hprog, hall, hthrown⟩ :=
        @requestLoop_progress opts env t.db hsound.toRows inputs _ _ _ (requested_init env)
          (progress_init t.db)
      rw [List.nil_append] at hprog
      have hback : ∀ {rs ms u}, Confirms env inputs rs ms t u → Confirms env inputs rs ms s u :=
        fun hc => hc.of_quiet (hquiet.of_ok hrun) ht.db
      dsimp only
      rcases hloop : requestLoop opts env t.db inputs {} with ⟨q, thrown⟩
      rw [hloop] at hreq hprog hall hthrown
      dsimp only at hreq hprog hall hthrown
      cases thrown with
      | some e =>
        have hfail : Confirms env (inputs.take k ++ inputs.drop k) _ [] t t :=
          hprog.fail_confirms (hthrown e rfl) (inputs.drop k) (.refl t)
        rw [List.take_append_drop] at hfail
        exact ⟨[], hback hfail⟩
      | none =>
        rw [List.take_of_length_le (hall rfl)] at hprog
        have hremoved : q.confirmations.removed = ms.map MessageView.toUserId := by
          simp [hreq.confirmations, collectConfirmations]
        dsimp only
        split
        · next hempty =>
          rw [hremoved, List.isEmpty_iff, map_eq_nil_iff] at hempty
          subst hempty
          exact ⟨[], hback hprog.rest_confirms⟩
        · have hbatch : q.confirmations.batch ++ confirmCounters t.db q.confirmations.removed =
              (Change.confirm ms env.clock.now).batch t.db := by
            simp [hreq.confirmations, collectConfirmations, Change.batch]
          have hwrite := write_quiet env t ((Change.confirm ms env.clock.now).batch t.db) true
          have hstatus := write_status env t ((Change.confirm ms env.clock.now).batch t.db) true
          rw [hremoved, pendingWrites_eq hsound hreq.confirmable, ← hremoved]
          dsimp only
          rw [hbatch]
          rcases hran : write env ((Change.confirm ms env.clock.now).batch t.db) true t with ⟨r, u⟩
          cases r with
          | error e =>
            have he : e.status ≠ .succeeded := by
              rw [hstatus.of_error hran]
              decide
            have hfail : Confirms env (inputs ++ []) _ [] t u :=
              hprog.fail_confirms he [] (hwrite.of_error hran)
            rw [List.append_nil] at hfail
            exact ⟨[], hback hfail⟩
          | ok _ =>
            obtain ⟨hs, hdb⟩ := hwrite.of_ok hran
            exact ⟨ms, hback (hprog.succeed_confirms hsound.toRows hreq.confirmable hs hdb)⟩

/-! ## A poisoned store -/

def Op.fits : Op → Bool
  | persistMany inputs => inputs.length ≤ 64
  | confirmRequests inputs => inputs.length ≤ 64
  | _ => true

structure Refusing (opts : Options) (s : Store) : Prop where
  poisoned : s.poisoned = true
  statuses : ∀ env (op : Op), op.fits = true →
    ∀ status ∈ op.statuses opts env s, status = .storageError
  calls : ∀ {α β : Type} (x : StoreM α) (ok : α → β) (failed : Failure → β), call x ok failed s =
    (failed ⟨.storageError, "local store closed or requires recovery"⟩, s)
  shutdown : ∀ env, (Local.shutdown env s).1 = false

theorem checkOpen_of_poisoned (hp : s.poisoned = true) :
    checkOpen s = .error ⟨.storageError, "local store closed or requires recovery"⟩ := by
  simp [checkOpen, require, hp]

theorem call_of_poisoned {α β : Type} (hp : s.poisoned = true) (x : StoreM α) (ok : α → β)
    (failed : Failure → β) :
    call x ok failed s = (failed ⟨.storageError, "local store closed or requires recovery"⟩, s) := by
  unfold call
  rw [bind_apply, inspect_apply, checkOpen_of_poisoned hp]

theorem persistEach_of_poisoned (hp : s.poisoned = true) (inputs : List PersistInput) (i : ℕ) :
    ∀ r ∈ (persistEach opts env i inputs s).1, r.status = .storageError := by
  induction inputs generalizing i with
  | nil => exact fun r hr => by cases hr
  | cons inp inputs ih =>
    have hone := call_of_poisoned hp (persistBody opts env i inp) id PersistResult.ofFailure
    intro r hr
    rw [persistEach, persistPrivateMessage, hone] at hr
    rcases mem_cons.1 hr with rfl | hr
    · rfl
    · exact ih (i + 1) r hr

theorem persistPrivateMessages_of_poisoned (hp : s.poisoned = true) {inputs : List PersistInput}
    (hlen : inputs.length ≤ 64) :
    ∀ r ∈ (persistPrivateMessages opts env inputs s).1, r.status = .storageError := by
  unfold persistPrivateMessages
  rw [if_neg (not_lt.2 hlen)]
  split
  · exact fun r hr => by cases hr
  split
  · exact persistEach_of_poisoned hp inputs 0
  · intro r hr
    rw [persistBatch, checkOpen_of_poisoned hp] at hr
    obtain ⟨_, -, rfl⟩ := mem_map.1 hr
    rfl

theorem confirmReceiverRequests_of_poisoned (hp : s.poisoned = true)
    {inputs : List OwnedReceiverConfirmation} (hlen : inputs.length ≤ 64) :
    ∀ r ∈ (confirmReceiverRequests opts env inputs s).1, r.status = .storageError := by
  unfold confirmReceiverRequests
  split
  · exact fun r hr => by cases hr
  rw [if_neg (not_lt.2 hlen), checkOpen_of_poisoned hp]
  simp_all

theorem shutdown_of_poisoned (env : Env) (hp : s.poisoned = true) :
    (Local.shutdown env s).1 = false := by
  have hstill := (shutdown_watched env s).poisoned hp
  unfold Local.shutdown at hstill ⊢
  grind

theorem refusing_of_poisoned (opts : Options) (hp : s.poisoned = true) : Refusing opts s where
  poisoned := hp
  calls x ok failed := call_of_poisoned hp x ok failed
  shutdown env := shutdown_of_poisoned env hp
  statuses env op hfits status hstatus := by
    cases op with
    | persistMany inputs =>
      obtain ⟨r, hr, rfl⟩ := mem_map.1 hstatus
      exact persistPrivateMessages_of_poisoned hp (of_decide_eq_true hfits) r hr
    | confirmRequests inputs =>
      obtain ⟨r, hr, rfl⟩ := mem_map.1 hstatus
      exact confirmReceiverRequests_of_poisoned hp (of_decide_eq_true hfits) r hr
    | persist inp =>
      rw [mem_singleton.1 hstatus]
      exact congrArg (fun x : PersistResult × Store => x.1.status) (call_of_poisoned hp _ _ _)
    | shutdown => cases hstatus
    | _ =>
      rw [mem_singleton.1 hstatus]
      exact congrArg (fun x : MutationResult × Store => x.1.status) (call_of_poisoned hp _ _ _)

theorem poisoned_run {ls : List Label} (hp : s.poisoned = true)
    (hrun : Run (SystemStep opts) s ls s') (hcalls : ∀ l ∈ ls, l ≠ .crash) :
    s'.poisoned = true := by
  induction hrun with
  | nil => exact hp
  | snoc _ hstep ih =>
    have hbefore := ih fun l hl => hcalls l (List.mem_append_left _ hl)
    cases hstep with
    | call env op => exact (Op.watched opts env _ op).poisoned hbefore
    | crash _ _ => exact absurd rfl (hcalls .crash (by simp))

/-! ## Every call -/

/-- The map but for `meta/high`, the count of pending events and the index are what they were. -/
structure Unchanged (s s' : Store) : Prop where
  map : SameMap s.db s'.db
  count : s'.pendingEvents = s.pendingEvents
  enabled : s'.pendingIndexEnabled = s.pendingIndexEnabled
  index : s.pendingIndexEnabled = true →
    ∀ id, s'.pendingIndex.lookup id = s.pendingIndex.lookup id

theorem Quiet.unchanged (h : Quiet s s') : Unchanged s s' :=
  ⟨h.map, h.count, h.enabled, fun _ => h.index⟩

theorem Wrote.unchanged (h : Wrote [] s s') : Unchanged s s' where
  map := h.map
  count := h.count
  enabled := h.enabled
  index hen id := h.other hen id (by simp)

theorem Confirms.unchanged {inputs : List OwnedReceiverConfirmation}
    (h : Confirms env inputs rs [] s s') : Unchanged s s' where
  map := by
    have hmap := h.map
    rw [confirmedMap_nil] at hmap
    exact hmap
  count := h.count
  enabled := h.enabled
  index _ := h.index

/-- A group leaves the effect of the items that succeeded and no other: it creates exactly the
messages, or confirms exactly the receivers, that its results report, and what a result reports as
successful is stored. -/
def Op.Exact (opts : Options) (env : Env) (s : Store) : Op → Prop
  | persistMany inputs =>
    (∃ ns, createdRecords (persistPrivateMessages opts env inputs s).1 =
        ns.map NewMessage.message ∧
      Wrote ns s (persistPrivateMessages opts env inputs s).2) ∧
    ∀ r ∈ (persistPrivateMessages opts env inputs s).1, r.status = .succeeded →
      (persistPrivateMessages opts env inputs s).2.db.lookup (.M r.messageId) = some r.record
  | confirmRequests inputs =>
    ∃ ms, Confirms env inputs (confirmReceiverRequests opts env inputs s).1 ms s
      (confirmReceiverRequests opts env inputs s).2
  | _ => True

structure Atomic (opts : Options) (env : Env) (s : Store) (op : Op) : Prop where
  refused : (∀ status ∈ op.statuses opts env s, status ≠ .succeeded) →
    Unchanged s (op.run opts env s)
  exact : op.Exact opts env s
  engine : ∀ n, s.engineWriteCalls ≤ n → n < (op.run opts env s).engineWriteCalls →
    env.engine n ≠ .done → (op.run opts env s).poisoned = true ∧
      (op.isGroup = false → ∀ status ∈ op.statuses opts env s, status = .storageError)

theorem Op.exact (opts : Options) (env : Env) (op : Op) (h : Inv s) : op.Exact opts env s := by
  cases op with
  | persistMany inputs =>
    exact ⟨persistPrivateMessages_wrote opts env inputs h,
      persistPrivateMessages_stored opts env inputs h⟩
  | confirmRequests inputs => exact confirmReceiverRequests_confirms opts env inputs h
  | _ => trivial

/-- A call none of whose results is a success changes nothing. -/
theorem Op.unchanged (opts : Options) (env : Env) (op : Op) (h : Inv s)
    (hstatus : ∀ status ∈ op.statuses opts env s, status ≠ .succeeded) :
    Unchanged s (op.run opts env s) := by
  have hsettles : ∀ {r s'}, Settles s r s' → r.status ≠ .succeeded → Unchanged s s' :=
    fun hset hne => (hset.failed hne).unchanged
  cases op with
  | persist inp =>
    rcases persistPrivateMessage_events opts env 0 inp s with ⟨hq, -⟩ | ⟨hcreated, -⟩
    · exact hq.unchanged
    · have hne := hstatus _ (mem_singleton.2 rfl)
      exact absurd (by simpa using (Bool.and_eq_true_iff.1 hcreated).1) hne
  | persistMany inputs =>
    obtain ⟨ns, hns, hw⟩ := persistPrivateMessages_wrote opts env inputs h
    have hnone : createdRecords (persistPrivateMessages opts env inputs s).1 = [] := by
      refine createdRecords_eq_nil fun r hr => ?_
      have hne := hstatus r.status (List.mem_map_of_mem hr)
      simp [PersistResult.isCreated, hne]
    rw [hnone] at hns
    obtain rfl := map_eq_nil_iff.1 hns.symm
    exact hw.unchanged
  | confirmRequests inputs =>
    obtain ⟨ms, hc⟩ := confirmReceiverRequests_confirms opts env inputs h
    have hnone : confirmedIds inputs (confirmReceiverRequests opts env inputs s).1 = [] := by
      rw [confirmedIds, filter_eq_nil_iff.2 fun x hx => ?_]
      · rfl
      · have hne := hstatus x.2.status (List.mem_map_of_mem (of_mem_zip hx).2)
        simp [hne]
    have hids := hc.ids
    rw [hnone] at hids
    obtain rfl := map_eq_nil_iff.1 hids.symm
    exact hc.unchanged
  | shutdown => exact (shutdown_quiet env s).unchanged
  | confirm mid receiver =>
    exact hsettles (confirmReceiver_settles opts env mid receiver s) (hstatus _ (by simp [statuses]))
  | confirmBatch mids =>
    exact hsettles (confirmReceiverBatch_settles opts env mids s) (hstatus _ (by simp [statuses]))
  | markRead reader peer =>
    exact hsettles (markDialogRead_settles opts env reader peer s) (hstatus _ (by simp [statuses]))
  | markFailed event reason =>
    exact hsettles (markEventFailed_settles env event reason s) (hstatus _ (by simp [statuses]))
  | requeue ids =>
    exact hsettles (requeueFailedEvents_settles opts env ids s) (hstatus _ (by simp [statuses]))
  | markPublished ids =>
    exact hsettles (markEventsPublished_settles env ids s) (hstatus _ (by simp [statuses]))
  | sync => exact hsettles (syncPublicationProgress_settles env s) (hstatus _ (by simp [statuses]))
  | syncIfDirty =>
    exact hsettles (syncPublicationProgressIfDirty_settles env s) (hstatus _ (by simp [statuses]))

theorem Op.atomic (opts : Options) (env : Env) (op : Op) (h : Inv s) : Atomic opts env s op where
  refused := op.unchanged opts env h
  exact := op.exact opts env h
  engine n hle hlt hne :=
    ⟨(op.watched opts env s).failed n hle hlt hne, fun hop status hstatus =>
      (Op.reports opts env s hop status hstatus).status n hle hlt hne⟩

/-- In every reachable state a call fails as a whole or item by item without effect; a failed call
of the engine poisons the owner, which then refuses every call until the store is opened again. -/
theorem operation_atomic (h : Reachable opts s) (env : Env) (op : Op) :
    Atomic opts env s op ∧
      ∀ n, s.engineWriteCalls ≤ n → n < (op.run opts env s).engineWriteCalls →
        env.engine n ≠ .done → ∀ ls t, Run (SystemStep opts) (op.run opts env s) ls t →
          (∀ l ∈ ls, l ≠ .crash) → Refusing opts t :=
  ⟨op.atomic opts env h.inv, fun n hle hlt hne _ _ hrun hcalls =>
    refusing_of_poisoned opts
      (poisoned_run ((op.watched opts env s).failed n hle hlt hne) hrun hcalls)⟩

def brokenEnv : Env := { sampleEnv with engine := fun _ => .failed false "" }

def sampleBroken : Store := (Op.persist sampleInput).run sampleOptions brokenEnv sampleStore

theorem sampleStore_reachable : Reachable sampleOptions sampleStore :=
  ⟨sampleStore, [], sampleStore_opened, .nil _⟩

theorem sampleBroken_reachable : Reachable sampleOptions sampleBroken :=
  ⟨sampleStore, _, sampleStore_opened, .single (.call sampleStore brokenEnv (.persist sampleInput))⟩

/-- The failed reservation of the first message id. -/
theorem operation_atomic_broken :
    Refusing sampleOptions sampleBroken ∧
      (Op.persist sampleInput).statuses sampleOptions brokenEnv sampleStore = [.storageError] ∧
      Unchanged sampleStore sampleBroken := by
  have h := operation_atomic sampleStore_reachable brokenEnv (.persist sampleInput)
  have hstatuses : (Op.persist sampleInput).statuses sampleOptions brokenEnv sampleStore =
      [.storageError] := by decide +kernel
  refine ⟨?_, hstatuses, ?_⟩
  · exact h.2 0 (by decide +kernel) (by decide +kernel) (by decide +kernel) [] _ (.nil _) (by simp)
  · refine h.1.refused fun status hstatus => ?_
    rw [hstatuses] at hstatus
    rw [List.mem_singleton.1 hstatus]
    decide

/-- A group that is too large is an invalid argument also for a poisoned owner. -/
theorem poisoned_oversized : Reachable sampleOptions sampleBroken ∧ sampleBroken.poisoned = true ∧
    (persistPrivateMessages sampleOptions sampleEnv (List.replicate 65 sampleInput)
      sampleBroken).1.map PersistResult.status = List.replicate 65 .invalidArgument := by
  refine ⟨sampleBroken_reachable, by decide +kernel, ?_⟩
  rw [persistPrivateMessages_oversized sampleOptions sampleEnv (by simp)]
  simp

end TinyImx.Local
