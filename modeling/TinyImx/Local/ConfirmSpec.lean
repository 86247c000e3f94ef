import TinyImx.Local.Primitives

/-!
# What confirming receivers does

The three ways to confirm end in the same change: a group of pending messages of which each is
confirmed once.  Their pending counters never underflow, because every message of the group is
counted in them.
-/

namespace TinyImx.Local

open Kv Act

def confirmKind : Change → Prop
  | .confirm .. => True
  | _ => False

def TextOk (env : Env) (text : String) : Prop := text ∈ internalChecks → FromHook env text

variable {opts : Options} {env : Env} {s s' : Store} {db : Db}

theorem textOk_of_not_mem {text : String} (h : text ∉ internalChecks) : TextOk env text :=
  fun hmem => absurd hmem h

theorem textOk_empty : TextOk env "" := textOk_of_not_mem (by decide)

structure Mutated (K : Change → Prop) (env : Env) (s : Store) (r : MutationResult) (s' : Store) :
    Prop where
  moves : Moves K s s'
  text : TextOk env r.message

theorem mutation_spec {K : Change → Prop} {x : StoreM MutationResult}
    (h : Ends x s (Mutated K env s) (Failed K env s)) :
    Mutated K env s (call x id MutationResult.ofFailure s).1
      (call x id MutationResult.ofFailure s).2 := by
  rcases call_ends id MutationResult.ofFailure (Failed.raises_refl (checkOpen_admissible s))
    fun _ => h with ⟨r, hr, hm⟩ | ⟨e, hr, hf⟩
  · rw [hr]
    exact hm
  · rw [hr]
    exact ⟨hf.moves, hf.admissible.text⟩

/-! ## The decision -/

variable {found : GetResult}

theorem decision_none {receiver : ℕ} (h : receiverConfirmationDecision found receiver = none) :
    found.found = true ∧ found.record.toUserId = receiver ∧
      found.record.deliveryState = .pending := by
  unfold receiverConfirmationDecision at h
  split at h
  · cases h
  split at h
  · cases h
  grind

theorem decision_text {receiver : ℕ} {r : MutationResult} (hstatus : found.status = .succeeded)
    (h : receiverConfirmationDecision found receiver = some r) : r.message ∉ internalChecks := by
  unfold receiverConfirmationDecision at h
  rw [if_neg (by simp [hstatus])] at h
  split at h
  · cases h
    decide
  split at h
  · cases h
    decide
  · cases hstate : found.record.deliveryState <;> simp only [hstate] at h <;> cases h <;> decide

theorem Rows.record_status (h : Rows db) {mid : ℕ}
    (hr : Local.record db mid = .ok found) : found.status = .succeeded := by
  rw [h.record_eq] at hr
  cases hr
  split <;> rfl

theorem Rows.record_found (h : Rows db) {mid : ℕ}
    (hr : Local.record db mid = .ok found) (hf : found.found = true) :
    db.lookup (.M mid) = some found.record ∧ found.record.messageId = mid := by
  rw [h.record_eq] at hr
  cases hr
  cases hm : db.lookup (.M mid) with
  | none => rw [hm] at hf; cases hf
  | some m => exact ⟨rfl, h.messageId hm⟩

theorem Rows.record_raises (h : Rows db) {mid : ℕ} {P : Failure → Prop} :
    Raises (Local.record db mid) P := by
  rw [h.record_eq]
  exact raises_ok _ _

theorem Confirmable.count_le (h : Sound db) {ms : List MessageView} (hms : Confirmable db ms) (r : ℕ) :
    (ms.map MessageView.toUserId).count r ≤ pendingCount db r := by
  have hcount := (hms.advances h.toRows []).recordCount (pendingFor r)
  have hzero : ms.countP (fun m => pendingFor r (confirmed m [])) = 0 := by
    simp [pendingFor, confirmed]
  rw [hzero, countP_pendingFor hms.pending, ← h.pendingCount_eq] at hcount
  omega

/-! ## One message -/

theorem confirmReceiver_spec (opts : Options) (env : Env) (mid receiver : ℕ) (h : Inv s) :
    Mutated confirmKind env s (confirmReceiver opts env mid receiver s).1
      (confirmReceiver opts env mid receiver s).2 := by
  refine mutation_spec ?_
  refine check_bind (Failed.raises_refl (actor_admissible _)) fun _ _ => ?_
  refine check_bind (Failed.raises_refl (raises_admissible (by decide))) fun _ _ => ?_
  refine Ends.bind (Failed.same_refl (lockUsers_ends _)) fun _ t ht => ?_
  have hm : Moves confirmKind s t := (Moves.refl s).frame ht
  have hsound := (h.moves hm).sound
  refine Ends.inspect_bind hsound.toRows.record_raises fun found hfound => ?_
  cases hdec : receiverConfirmationDecision found receiver with
  | some decision =>
    exact Ends.pure ⟨hm, textOk_of_not_mem (decision_text (hsound.toRows.record_status hfound) hdec)⟩
  | none =>
    obtain ⟨hf, hto, hpending⟩ := decision_none hdec
    obtain ⟨hstored, hid⟩ := hsound.toRows.record_found hfound hf
    have hms : Confirmable t.db [found.record] := by
      refine ⟨by simp, ?_, by simpa using hpending⟩
      rw [← hid] at hstored
      simpa using hstored
    have hcount := hms.count_le hsound receiver
    simp only [List.map_cons, List.map_nil, hto, List.count_singleton_self] at hcount
    refine Ends.read_bind (check_bind ?_ fun _ _ => ?_)
    · simp only [require, decide_eq_true (Nat.lt_of_lt_of_le Nat.zero_lt_one hcount)]
      exact raises_ok _ _
    refine check_bind (Failed.raises hm ht.sameMap (raises_admissible (by decide))) fun _ _ => ?_
    have hbatch : [Write.put (.M mid) (confirmed found.record env.clock.now),
        .delete (.P receiver mid), pendingWrite receiver (pendingCount t.db receiver) 1] =
        (Change.confirm [found.record] env.clock.now).batch t.db := by
      simp [Change.batch, confirmWrites, confirmCounters, actorSet, hid, hto]
    rw [hbatch]
    have hfits : (Change.confirm [found.record] env.clock.now).Fits t := hms
    refine Ends.bind (Failed.after hm ht.sameMap (write_ends trivial hfits)) ?_
    rintro _ _ ⟨rfl, hp⟩
    exact Ends.pure ⟨hm.written (c := .confirm [found.record] env.clock.now) trivial hfits hp,
      textOk_empty⟩

/-! ## All or nothing -/

theorem batchReceivers_spec {mids seen receivers : List ℕ}
    (h : batchReceivers opts db mids seen = .ok receivers) :
    mids.Nodup ∧ ∀ mid ∈ mids, mid ∉ seen := by
  induction mids generalizing seen receivers with
  | nil => simp
  | cons mid rest ih =>
    obtain ⟨_, hreq, h⟩ := bind_eq_ok.1 h
    obtain ⟨_, _, h⟩ := bind_eq_ok.1 h
    obtain ⟨_, _, h⟩ := bind_eq_ok.1 h
    obtain ⟨_, _, h⟩ := bind_eq_ok.1 h
    obtain ⟨_, h, _⟩ := bind_eq_ok.1 h
    simp only [require_eq_ok, Bool.and_eq_true, decide_eq_true_eq, Bool.not_eq_true',
      List.contains_eq_mem, decide_eq_false_iff_not] at hreq
    obtain ⟨hnodup, hseen⟩ := ih h
    refine ⟨List.nodup_cons.2 ⟨fun hmem => hseen mid hmem List.mem_cons_self, hnodup⟩, ?_⟩
    intro m hm hms
    rcases List.mem_cons.1 hm with rfl | hm
    · exact hreq.2 hms
    · exact hseen m hm (List.mem_cons_of_mem _ hms)

theorem batchReceivers_raises (h : Rows db) (mids seen : List ℕ) :
    Raises (batchReceivers opts db mids seen) (Admissible env) := by
  induction mids generalizing seen with
  | nil => exact raises_ok _ _
  | cons mid rest ih =>
    refine (raises_admissible (by decide)).bind fun _ _ => ?_
    refine h.record_raises.bind fun _ _ => ?_
    refine (raises_admissible (by decide)).bind fun _ _ => ?_
    refine (actor_admissible _).bind fun _ _ => ?_
    exact (ih _).bind fun _ _ => raises_ok _ _

def collectConfirmations (now : Bytes) (ms : List MessageView) (c : Confirmations) : Confirmations :=
  ⟨c.batch ++ ms.flatMap (confirmWrites · now), c.removed ++ ms.map MessageView.toUserId⟩

theorem confirmLoop_spec (h : Rows db) {receivers mids : List ℕ} {c c' : Confirmations}
    (hc : confirmLoop env db receivers mids c = .ok c') :
    ∃ ms, c' = collectConfirmations env.clock.now ms c ∧
      (ms.map MessageView.messageId).Sublist mids ∧
      ∀ m ∈ ms, db.lookup (.M m.messageId) = some m ∧ m.deliveryState = .pending := by
  induction mids generalizing c with
  | nil =>
    cases hc
    exact ⟨[], by simp [collectConfirmations], List.nil_sublist _, by simp⟩
  | cons mid rest ih =>
    obtain ⟨found, hfound, hc⟩ := bind_eq_ok.1 hc
    obtain ⟨_, hreq, hc⟩ := bind_eq_ok.1 hc
    cases hdec : receiverConfirmationDecision found found.record.toUserId with
    | some decision =>
      rw [hdec] at hc
      obtain ⟨_, _, hc⟩ := bind_eq_ok.1 hc
      obtain ⟨ms, hms, hsub, hall⟩ := ih hc
      exact ⟨ms, hms, hsub.cons _, hall⟩
    | none =>
      rw [hdec] at hc
      obtain ⟨_, _, hc⟩ := bind_eq_ok.1 hc
      obtain ⟨hf, -, hpending⟩ := decision_none hdec
      obtain ⟨hstored, hid⟩ := h.record_found hfound hf
      obtain ⟨ms, rfl, hsub, hall⟩ := ih hc
      refine ⟨found.record :: ms, ?_, ?_, ?_⟩
      · simp [collectConfirmations, Confirmations.add]
      · rw [List.map_cons, hid]
        exact hsub.cons_cons _
      · grind

theorem confirmLoop_raises (h : Rows db) (receivers mids : List ℕ) (c : Confirmations) :
    Raises (confirmLoop env db receivers mids c) (Admissible env) := by
  induction mids generalizing c with
  | nil => exact raises_ok _ _
  | cons mid rest ih =>
    refine h.record_raises.bind fun found hfound => ?_
    refine (raises_admissible (by decide)).bind fun _ _ => ?_
    cases hdec : receiverConfirmationDecision found found.record.toUserId with
    | some decision =>
      refine Raises.bind (fun e he => ?_) fun _ _ => ih _
      unfold require at he
      split at he
      · cases he
      · next hstatus =>
        cases he
        exact ⟨by simpa using hstatus,
          textOk_of_not_mem (decision_text (h.record_status hfound) hdec)⟩
    | none => exact (raises_admissible (by decide)).bind fun _ _ => ih _

theorem mapM_ok {α β : Type} {f : α → Except Failure β} {g : α → β} {l : List α}
    (h : ∀ a ∈ l, f a = .ok (g a)) : l.mapM f = .ok (l.map g) := by
  induction l with
  | nil => rfl
  | cons a l ih =>
    rw [List.mapM_cons, h a List.mem_cons_self, ih fun b hb => h b (List.mem_cons_of_mem _ hb)]
    rfl

theorem pendingWrites_eq (h : Sound db) {ms : List MessageView} (hms : Confirmable db ms)
    (text : String) : pendingWrites db text (ms.map MessageView.toUserId) =
      .ok (confirmCounters db (ms.map MessageView.toUserId)) := by
  refine mapM_ok fun r _ => ?_
  simp only [require, decide_eq_true (hms.count_le h r)]
  rfl

theorem confirmReceiverBatch_spec (opts : Options) (env : Env) (mids : List ℕ) (h : Inv s) :
    Mutated confirmKind env s (confirmReceiverBatch opts env mids s).1
      (confirmReceiverBatch opts env mids s).2 := by
  refine mutation_spec ?_
  refine check_bind (Failed.raises_refl (raises_admissible (by decide))) fun _ _ => ?_
  refine Ends.inspect_bind (Failed.raises_refl (batchReceivers_raises h.sound.toRows _ _))
    fun receivers hrec => ?_
  refine Ends.bind (Failed.same_refl (lockUsers_ends _)) fun _ t ht => ?_
  have hm : Moves confirmKind s t := (Moves.refl s).frame ht
  have hsound := (h.moves hm).sound
  refine Ends.inspect_bind (Failed.raises hm ht.sameMap (confirmLoop_raises hsound.toRows _ _ _))
    fun c hc => ?_
  obtain ⟨ms, rfl, hsub, hall⟩ := confirmLoop_spec hsound.toRows hc
  have hms : Confirmable t.db ms :=
    ⟨(batchReceivers_spec hrec).1.sublist hsub, fun m hm => (hall m hm).1, fun m hm => (hall m hm).2⟩
  split
  · exact Ends.pure ⟨hm, textOk_empty⟩
  · simp only [collectConfirmations, List.nil_append]
    refine Ends.inspect_bind ?_ fun counters hcounters => ?_
    · rw [pendingWrites_eq hsound hms]
      exact raises_ok _ _
    rw [pendingWrites_eq hsound hms] at hcounters
    cases hcounters
    have hfits : (Change.confirm ms env.clock.now).Fits t := hms
    refine Ends.bind (Failed.after hm ht.sameMap (write_ends (c := .confirm ms env.clock.now)
      trivial hfits)) ?_
    rintro _ _ ⟨rfl, hp⟩
    exact Ends.pure ⟨hm.written (c := .confirm ms env.clock.now) trivial hfits hp, textOk_empty⟩

/-! ## Independent requests -/

/-- The loop of `ConfirmReceiverRequests` has confirmed the messages `ms`. -/
structure Requested (env : Env) (db : Db) (q : Requests) (ms : List MessageView) : Prop where
  confirmations : q.confirmations = collectConfirmations env.clock.now ms {}
  confirmable : Confirmable db ms
  changed : ∀ {mid m}, q.changed.lookup mid = some m → m.deliveryState ≠ .pending
  unchanged : ∀ {mid}, q.changed.lookup mid = none → mid ∉ ms.map MessageView.messageId
  text : ∀ r ∈ q.results, TextOk env r.message

theorem Requested.push {q : Requests} {ms : List MessageView} (h : Requested env db q ms)
    {r : MutationResult} (hr : TextOk env r.message) (p : Bool) :
    Requested env db (q.push r p) ms := by
  refine ⟨h.confirmations, h.confirmable, h.changed, h.unchanged, fun r' hr' => ?_⟩
  rcases List.mem_append.1 hr' with hr' | hr'
  · exact h.text r' hr'
  · rw [List.mem_singleton.1 hr']
    exact hr

theorem Requested.confirm {q : Requests} {ms : List MessageView} (h : Requested env db q ms)
    {m : MessageView} (hm : db.lookup (.M m.messageId) = some m) (hp : m.deliveryState = .pending)
    (hq : q.changed.lookup m.messageId = none) :
    Requested env db (q.confirm m env.clock.now) (ms ++ [m]) := by
  refine ⟨?_, ⟨?_, ?_, ?_⟩, fun {mid m'} hc => ?_, fun {mid} hc => ?_, fun r hr => ?_⟩
  · simp [Requests.confirm, h.confirmations, collectConfirmations, Confirmations.add]
  · rw [List.map_append, List.nodup_append]
    refine ⟨h.confirmable.nodup, by simp, ?_⟩
    intro a ha b hb
    rw [List.map_singleton, List.mem_singleton] at hb
    rintro rfl
    exact h.unchanged hq (hb ▸ ha)
  · intro m' hm'
    rcases List.mem_append.1 hm' with hm' | hm'
    · exact h.confirmable.stored m' hm'
    · grind
  · intro m' hm'
    rcases List.mem_append.1 hm' with hm' | hm'
    · exact h.confirmable.pending m' hm'
    · grind
  · by_cases heq : mid = m.messageId
    · subst heq
      simp only [Requests.confirm, AList.lookup_insert, Option.some.injEq] at hc
      rw [← hc]
      simp [confirmed]
    · simp only [Requests.confirm, ne_eq, heq, not_false_eq_true, AList.lookup_insert_ne] at hc
      exact h.changed hc
  · by_cases heq : mid = m.messageId
    · subst heq
      simp [Requests.confirm] at hc
    · simp only [Requests.confirm, ne_eq, heq, not_false_eq_true, AList.lookup_insert_ne] at hc
      rw [List.map_append, List.mem_append, not_or]
      exact ⟨h.unchanged hc, by simpa using heq⟩
  · rcases List.mem_append.1 hr with hr | hr
    · exact h.text r hr
    · rw [List.mem_singleton.1 hr]
      exact textOk_empty

theorem checkRequest_raises (inp : OwnedReceiverConfirmation) :
    Raises (checkRequest opts inp) (Admissible env) :=
  (actor_admissible _).bind fun _ _ => raises_admissible (by decide)

theorem requestLoop_spec (opts : Options) (h : Rows db) (inputs : List OwnedReceiverConfirmation) {q : Requests}
    {ms : List MessageView} (hq : Requested env db q ms) :
    ∃ ms', Requested env db (requestLoop opts env db inputs q).1 ms' ∧
      ∀ e, (requestLoop opts env db inputs q).2 = some e → TextOk env e.message := by
  induction inputs generalizing q ms with
  | nil => exact ⟨ms, hq, by simp [requestLoop]⟩
  | cons inp rest ih =>
    unfold requestLoop
    cases hcheck : checkRequest opts inp with
    | error e => exact ih (hq.push (r := .ofFailure e) (checkRequest_raises inp e hcheck).text false)
    | ok u =>
      obtain ⟨found, hrecord⟩ : ∃ found, Local.record db inp.messageId = .ok found :=
        ⟨_, h.record_eq inp.messageId⟩
      have hstatus : found.status = .succeeded := h.record_status hrecord
      cases hchanged : q.changed.lookup inp.messageId with
      | some m =>
        have hreq : requestRecord db q inp.messageId = .ok { found with record := m } := by
          simp [requestRecord, hrecord, hchanged, bind, Except.bind, pure, Except.pure]
        rw [hreq]
        dsimp only
        cases hdec : receiverConfirmationDecision { found with record := m } inp.receiverUserId with
        | some decision =>
          have hstatus : ({ found with record := m } : GetResult).status = .succeeded := hstatus
          have htext := decision_text hstatus hdec
          exact ih (hq.push (textOk_of_not_mem htext) _)
        | none => exact absurd (decision_none hdec).2.2 (hq.changed hchanged)
      | none =>
        have hreq : requestRecord db q inp.messageId = .ok found := by
          simp [requestRecord, hrecord, hchanged, bind, Except.bind, pure, Except.pure]
        rw [hreq]
        dsimp only
        cases hdec : receiverConfirmationDecision found inp.receiverUserId with
        | some decision =>
          exact ih (hq.push (textOk_of_not_mem (decision_text hstatus hdec)) _)
        | none =>
          obtain ⟨hf, -, hpending⟩ := decision_none hdec
          obtain ⟨hstored, hid⟩ := h.record_found hrecord hf
          rw [← hid] at hstored hchanged
          cases hdump : dumpRecord env (confirmed found.record env.clock.now) with
          | ok u => exact ih (hq.confirm hstored hpending hchanged)
          | error e =>
            have he : Admissible env e := raises_admissible (by decide) e hdump
            refine ⟨ms, hq.push textOk_empty _, fun e' he' => ?_⟩
            cases he'
            exact he.text

theorem requestBefore_text (inp : OwnedReceiverConfirmation) :
    TextOk env (requestBefore opts inp).message := by
  unfold requestBefore
  cases hcheck : checkRequest opts inp with
  | error e => exact (checkRequest_raises inp e hcheck).text
  | ok u => exact textOk_empty

theorem Requests.fail_text {q : Requests} (h : ∀ r ∈ q.results, TextOk env r.message) (n : ℕ)
    {e : Failure} (he : TextOk env e.message) : ∀ r ∈ q.fail n e, TextOk env r.message := by
  intro r hr
  rcases List.mem_append.1 hr with hr | hr
  · rw [← List.map_uncurry_zip_eq_zipWith] at hr
    obtain ⟨⟨r', p⟩, hmem, rfl⟩ := List.mem_map.1 hr
    simp only [Function.uncurry]
    split
    · exact he
    · exact h r' (List.of_mem_zip hmem).1
  · rw [(List.mem_replicate.1 hr).2]
    exact textOk_empty

theorem Requests.succeed_text {q : Requests} (h : ∀ r ∈ q.results, TextOk env r.message) :
    ∀ r ∈ q.succeed, TextOk env r.message := by
  intro r hr
  rw [succeed, ← List.map_uncurry_zip_eq_zipWith] at hr
  obtain ⟨⟨r', p⟩, hmem, rfl⟩ := List.mem_map.1 hr
  simp only [Function.uncurry]
  split
  · dsimp only
    split <;> exact textOk_of_not_mem (by decide)
  · exact h r' (List.of_mem_zip hmem).1

theorem requested_init (env : Env) : Requested env db {} [] where
  confirmations := rfl
  confirmable := ⟨by simp, by simp, by simp⟩
  changed h := by cases h
  unchanged _ := by simp
  text := by simp

/-- `ConfirmReceiverRequests` confirms each message of the group once. -/
theorem confirmReceiverRequests_spec (opts : Options) (env : Env)
    (inputs : List OwnedReceiverConfirmation) (h : Inv s) :
    Moves confirmKind s (confirmReceiverRequests opts env inputs s).2 ∧
      ∀ r ∈ (confirmReceiverRequests opts env inputs s).1, TextOk env r.message := by
  unfold confirmReceiverRequests
  split
  · exact ⟨.refl s, by simp⟩
  split
  · refine ⟨.refl s, fun r hr => ?_⟩
    obtain ⟨_, -, rfl⟩ := List.mem_map.1 hr
    exact textOk_of_not_mem (by decide)
  cases hopen : checkOpen s with
  | error e =>
    refine ⟨.refl s, fun r hr => ?_⟩
    obtain ⟨_, -, rfl⟩ := List.mem_map.1 hr
    exact textOk_empty
  | ok u =>
    have hlock : Ends (lockUsers opts (requestActors opts inputs)) s (fun _ s' => SameData s s')
        fun e s' => SameData s s' ∧ Admissible env e := lockUsers_ends _
    rcases hrun : lockUsers opts (requestActors opts inputs) s with ⟨r, t⟩
    cases r with
    | error e =>
      refine ⟨(Moves.refl s).frame (hlock.of_error hrun).1, fun r hr => ?_⟩
      obtain ⟨inp, -, rfl⟩ := List.mem_map.1 hr
      exact requestBefore_text inp
    | ok u =>
      have ht := hlock.of_ok hrun
      have hm : Moves confirmKind s t := (Moves.refl s).frame ht
      have hsound := (h.moves hm).sound
      obtain ⟨ms, hq, hthrown⟩ := requestLoop_spec opts hsound.toRows inputs
        (requested_init env)
      dsimp only
      rcases hloop : requestLoop opts env t.db inputs {} with ⟨q, thrown⟩
      rw [hloop] at hq hthrown
      dsimp only at hq hthrown
      cases thrown with
      | some e => exact ⟨hm, Requests.fail_text hq.text _ (hthrown e rfl)⟩
      | none =>
        dsimp only
        split
        · exact ⟨hm, hq.text⟩
        · have hbatch : q.confirmations.batch ++ confirmCounters t.db q.confirmations.removed =
              (Change.confirm ms env.clock.now).batch t.db := by
            simp [hq.confirmations, collectConfirmations, Change.batch]
          have hremoved : q.confirmations.removed = ms.map MessageView.toUserId := by
            simp [hq.confirmations, collectConfirmations]
          rw [hremoved, pendingWrites_eq hsound hq.confirmable, ← hremoved]
          dsimp only
          rw [hbatch]
          have hends : Ends (write env ((Change.confirm ms env.clock.now).batch t.db) true) t
              (fun _ s' => s' = t.written (.confirm ms env.clock.now) ∧ t.poisoned = false)
              (Failed confirmKind env t) := write_ends trivial hq.confirmable
          rcases hwrite : write env ((Change.confirm ms env.clock.now).batch t.db) true t with ⟨r, u⟩
          cases r with
          | error e =>
            have hf := hends.of_error hwrite
            exact ⟨hm.trans hf.moves, Requests.fail_text hq.text _ hf.admissible.text⟩
          | ok _ =>
            obtain ⟨rfl, hp⟩ := hends.of_ok hwrite
            exact ⟨hm.written (c := .confirm ms env.clock.now) trivial hq.confirmable hp,
              Requests.succeed_text hq.text⟩

end TinyImx.Local
