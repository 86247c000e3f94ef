import TinyImx.Local.Sequential

/-!
# Confirmations together and one by one

`ConfirmReceiverRequests` judges its requests against an overlay of the records it is about to write
and lowers each pending counter once.  Beside it runs a store on which `ConfirmReceiver` is called
for the requests in order: `Beside` says that this store holds what the overlay says.
-/

namespace TinyImx.Local

open Kv Act

variable {opts : Options} {env : Env} {s t : Store} {db : Db} {q : Requests}
  {ms : List MessageView}

def confirmEach (opts : Options) (env : Env) :
    List OwnedReceiverConfirmation → Store → List MutationResult × Store
  | [], s => ([], s)
  | inp :: rest, s =>
    let (r, s') := confirmReceiver opts env inp.messageId inp.receiverUserId s
    let (rs, s'') := confirmEach opts env rest s'
    (r :: rs, s'')

def MutationResult.verdict (r : MutationResult) : Status × ℕ := (r.status, r.affectedRows)

def confirmedMap (db : Db) (now : Bytes) (ms : List MessageView) : Db :=
  apply db ((Change.confirm ms now).batch db)

def Dumps (env : Env) (db : Db) : Prop :=
  ∀ mid m, db.lookup (.M mid) = some m →
    env.dumps m.clientMessageId = true ∧ env.dumps m.content = true

def Room (s : Store) (actors : List ℕ) : Prop :=
  (∀ a ∈ actors, a ∈ s.userLocks) ∨ (s.userLocks ∪ actors.toFinset).card ≤ 100000

/-! ## Locks -/

theorem registerLock_of_mem {a : ℕ} (hpos : 0 < a) (h : a ∈ s.userLocks) :
    registerLock a s = (.ok (), s) := by
  simp [registerLock, bind_apply, check, require, hpos, h]

theorem registerLock_of_not_mem {a : ℕ} (hpos : 0 < a) (h : a ∉ s.userLocks) :
    registerLock a s = if s.userLocks.card < 100000 then
        (.ok (), { s with userLocks := insert a s.userLocks })
      else (.error ⟨.failedPrecondition, "bounded local actor lock capacity reached"⟩, s) := by
  by_cases hcard : s.userLocks.card < 100000
  · simp [registerLock, bind_apply, check, require, hpos, h, hcard]
  · simp [registerLock, bind_apply, check, require, hpos, h, hcard]

/-- The locks are given as long as there is room. -/
theorem lockActors_run {actors : List ℕ} (hpos : ∀ a ∈ actors, 0 < a) :
    (Room s actors →
      lockActors actors s = (.ok (), { s with userLocks := s.userLocks ∪ actors.toFinset })) ∧
    (¬Room s actors → ∃ held, lockActors actors s =
      (.error ⟨.failedPrecondition, "bounded local actor lock capacity reached"⟩,
        { s with userLocks := held })) := by
  induction actors generalizing s with
  | nil => exact ⟨fun _ => by simp [lockActors], fun h => absurd (.inl (by simp)) h⟩
  | cons a actors ih =>
    have ha := hpos a List.mem_cons_self
    have hrest : ∀ b ∈ actors, 0 < b := fun b hb => hpos b (List.mem_cons_of_mem _ hb)
    by_cases hmem : a ∈ s.userLocks
    · have hunion : s.userLocks ∪ (a :: actors).toFinset = s.userLocks ∪ actors.toFinset := by
        ext b
        simp only [Finset.mem_union, List.mem_toFinset, List.mem_cons]
        constructor
        · rintro (h | rfl | h)
          · exact .inl h
          · exact .inl hmem
          · exact .inr h
        · rintro (h | h)
          · exact .inl h
          · exact .inr (.inr h)
      have hroom : Room s (a :: actors) ↔ Room s actors := by simp [Room, hmem]
      rw [lockActors, bind_of_ok (registerLock_of_mem ha hmem), hroom, hunion]
      exact ih hrest
    · have hunion : s.userLocks ∪ (a :: actors).toFinset =
          insert a s.userLocks ∪ actors.toFinset := by
        rw [List.toFinset_cons, Finset.union_insert, Finset.insert_union]
      have hroom : Room s (a :: actors) ↔
          (insert a s.userLocks ∪ actors.toFinset).card ≤ 100000 := by
        simp [Room, hmem]
      by_cases hcard : s.userLocks.card < 100000
      · have hreg := registerLock_of_not_mem ha hmem
        rw [if_pos hcard] at hreg
        have hroom' : Room { s with userLocks := insert a s.userLocks } actors ↔
            (insert a s.userLocks ∪ actors.toFinset).card ≤ 100000 := by
          refine ⟨fun h => h.elim (fun hall => ?_) id, .inr⟩
          have hsub : insert a s.userLocks ∪ actors.toFinset = insert a s.userLocks :=
            Finset.union_eq_left.2 fun b hb => hall b (List.mem_toFinset.1 hb)
          rw [hsub, Finset.card_insert_of_notMem hmem]
          exact hcard
        rw [lockActors, bind_of_ok hreg, hroom, hunion, ← hroom']
        exact ih (s := { s with userLocks := insert a s.userLocks }) hrest
      · have hreg := registerLock_of_not_mem ha hmem
        rw [if_neg hcard] at hreg
        rw [lockActors, bind_of_error hreg, hroom]
        refine ⟨fun h => ?_, fun _ => ⟨s.userLocks, rfl⟩⟩
        have hle : (insert a s.userLocks).card ≤
            (insert a s.userLocks ∪ actors.toFinset).card :=
          Finset.card_le_card Finset.subset_union_left
        rw [Finset.card_insert_of_notMem hmem] at hle
        omega

theorem room_actorSet (actors : List ℕ) : Room s (actorSet actors) ↔ Room s actors := by
  have hset : (actorSet actors).toFinset = actors.toFinset := by
    ext a
    simp [mem_actorSet]
  simp only [Room, hset, mem_actorSet]

theorem lockUsers_run (actors : List ℕ) (hpos : ∀ a ∈ actors, 0 < a) :
    ((opts.exactUserLocking = true → Room s actors) → ∃ held, lockUsers opts actors s =
      (.ok (), { s with userLocks := held }) ∧ s.userLocks ⊆ held ∧
        held ⊆ s.userLocks ∪ actors.toFinset) ∧
    (¬(opts.exactUserLocking = true → Room s actors) → ∃ held, lockUsers opts actors s =
      (.error ⟨.failedPrecondition, "bounded local actor lock capacity reached"⟩,
        { s with userLocks := held })) := by
  have hpos' : ∀ a ∈ actorSet actors, 0 < a := fun a ha => hpos a (mem_actorSet.1 ha)
  obtain ⟨hok, herror⟩ := lockActors_run (s := s) hpos'
  rw [room_actorSet] at hok herror
  unfold lockUsers
  split
  · next hexact =>
    refine ⟨fun h => ⟨_, hok (h hexact), Finset.subset_union_left, ?_⟩, fun h => ?_⟩
    · intro a ha
      simpa [mem_actorSet] using ha
    · exact herror fun hroom => h fun _ => hroom
  · next hexact =>
    exact ⟨fun _ => ⟨s.userLocks, rfl, Finset.Subset.refl _, Finset.subset_union_left⟩,
      fun h => absurd (fun hon => absurd hon hexact) h⟩

/-! ## One more message -/

theorem lookup_confirmedMap {now : Bytes} {k : Key} (hk : ∀ r, k ≠ .Q r) :
    (confirmedMap db now ms).lookup k =
      (apply db (ms.flatMap (confirmWrites · now))).lookup k := by
  rw [confirmedMap, Change.batch, apply_append, lookup_confirmCounters hk]

theorem lookup_confirmedMap_pending (h : Rows db) (hms : Confirmable db ms) (now : Bytes) (r : ℕ) :
    (confirmedMap db now ms).lookup (.Q r) =
      if (ms.map MessageView.toUserId).count r = 0 then db.lookup (.Q r)
      else if pendingCount db r = (ms.map MessageView.toUserId).count r then none
      else some (pendingCount db r - (ms.map MessageView.toUserId).count r) := by
  rw [confirmedMap, Change.batch, apply_append, confirmCounters, lookup_map_pendingWrite]
  by_cases hr : r ∈ ms.map MessageView.toUserId
  · rw [if_pos (mem_actorSet.2 hr), if_neg (List.count_pos_iff.2 hr).ne']
  · rw [if_neg fun hmem => hr (mem_actorSet.1 hmem), if_pos (List.count_eq_zero_of_not_mem hr),
      (hms.advances h now).other (by simp) (by simp)]

theorem pendingCount_confirmedMap (h : Rows db) (hms : Confirmable db ms) (now : Bytes) (r : ℕ) :
    pendingCount (confirmedMap db now ms) r =
      pendingCount db r - (ms.map MessageView.toUserId).count r := by
  rw [pendingCount, lookup_confirmedMap_pending h hms]
  split
  · next hzero => rw [hzero, pendingCount, Nat.sub_zero]
  · split
    · next heq => simp [heq]
    · rfl

/-- The confirmation of one more message, on a map on which the others are confirmed. -/
theorem confirmedMap_snoc (h : Sound db) {m : MessageView} {now : Bytes}
    (hms : Confirmable db (ms ++ [m])) (hms' : Confirmable db ms) {d : Db}
    (hd : ∀ k, d.lookup k = (confirmedMap db now ms).lookup k) (k : Key) :
    (apply d [.put (.M m.messageId) (confirmed m now), .delete (.P m.toUserId m.messageId),
      pendingWrite m.toUserId (pendingCount d m.toUserId) 1]).lookup k =
      (confirmedMap db now (ms ++ [m])).lookup k := by
  have hrows := h.toRows
  have hcount : ∀ r, pendingCount d r = pendingCount db r - (ms.map MessageView.toUserId).count r :=
    fun r => by
      rw [pendingCount, hd]
      exact pendingCount_confirmedMap hrows hms' now r
  have hsplit : apply d [.put (.M m.messageId) (confirmed m now),
      .delete (.P m.toUserId m.messageId),
      pendingWrite m.toUserId (pendingCount d m.toUserId) 1] =
      step (apply d (confirmWrites m now)) (pendingWrite m.toUserId (pendingCount d m.toUserId) 1) :=
    rfl
  rw [hsplit]
  by_cases hk : ∃ r, k = .Q r
  · obtain ⟨r, rfl⟩ := hk
    have hle := hms.count_le h r
    rw [lookup_confirmedMap_pending hrows hms, List.map_append, List.count_append, List.map_singleton]
    rw [List.map_append, List.count_append, List.map_singleton] at hle
    by_cases hr : r = m.toUserId
    · subst hr
      rw [lookup_pendingWrite, hcount]
      simp only [List.count_singleton_self] at hle ⊢
      rw [if_neg (Nat.succ_ne_zero _)]
      grind
    · have hne : Key.Q r ≠ (pendingWrite m.toUserId (pendingCount d m.toUserId) 1).key := by
        rw [pendingWrite_key]
        simpa using hr
      have hzero : [m.toUserId].count r = 0 := by simp [Ne.symm hr]
      have hwrites : (apply d (confirmWrites m now)).lookup (.Q r) = d.lookup (.Q r) := by
        refine lookup_apply_of_forall_ne fun w hw => ?_
        simp only [confirmWrites, List.mem_cons, List.not_mem_nil, or_false] at hw
        rcases hw with rfl | rfl <;> simp [Write.key]
      rw [lookup_step_of_ne hne, hwrites, hd, lookup_confirmedMap_pending hrows hms', hzero,
        Nat.add_zero]
  · push Not at hk
    have hne : k ≠ (pendingWrite m.toUserId (pendingCount d m.toUserId) 1).key := by
      rw [pendingWrite_key]
      exact hk m.toUserId
    rw [lookup_step_of_ne hne, lookup_confirmedMap hk, List.flatMap_append, List.flatMap_singleton,
      apply_append]
    refine lookup_apply_congr ?_ _
    rw [hd, lookup_confirmedMap hk]

/-! ## One request by itself -/

section

variable {mid receiver : ℕ} {found : GetResult}

theorem confirmReceiver_refused {e : Failure} (hopen : checkOpen t = .ok ())
    (h : checkRequest opts ⟨mid, receiver⟩ = .error e) :
    confirmReceiver opts env mid receiver t = (.ofFailure e, t) := by
  have hfence : Act.inspect checkOpen t = (.ok (), t) := by rw [inspect_apply, hopen]
  cases hactor : actor opts receiver with
  | error e' =>
    have he : e' = e := by
      simp only [checkRequest, hactor] at h
      exact Except.error.inj h
    have hcheck : check (actor opts receiver) t = (.error e, t) := by
      rw [check, inspect_apply, hactor, he]
    unfold confirmReceiver call
    rw [bind_of_ok hfence, bind_of_error hcheck]
  | ok u =>
    have hzero : require (0 < mid) .invalidArgument "zero local MID" = .error e := by
      simp only [checkRequest, hactor] at h
      exact h
    have hcheck : check (actor opts receiver) t = (.ok u, t) := by rw [check, inspect_apply, hactor]
    have hcheck' : check (require (0 < mid) .invalidArgument "zero local MID") t =
        (.error e, t) := by rw [check, inspect_apply, hzero]
    unfold confirmReceiver call
    rw [bind_of_ok hfence, bind_of_ok hcheck, bind_of_error hcheck']

variable {t₁ : Store} (hopen : checkOpen t = .ok ()) (h : checkRequest opts ⟨mid, receiver⟩ = .ok ())
  (hlock : lockUsers opts [receiver] t = (.ok (), t₁)) (hfound : record t₁.db mid = .ok found)

include hopen h hlock hfound

theorem confirmReceiver_prelude (f : GetResult → StoreM MutationResult) :
    (do
      Act.inspect checkOpen
      check (actor opts receiver)
      check (require (0 < mid) .invalidArgument "zero local MID")
      lockUsers opts [receiver]
      let found ← .inspect fun s => record s.db mid
      f found : StoreM MutationResult) t = f found t₁ := by
  obtain ⟨u, hactor, hzero⟩ := bind_eq_ok.1 h
  have hfence : Act.inspect checkOpen t = (.ok (), t) := by rw [inspect_apply, hopen]
  have hcheck : check (actor opts receiver) t = (.ok u, t) := by rw [check, inspect_apply, hactor]
  have hcheck' : check (require (0 < mid) .invalidArgument "zero local MID") t = (.ok (), t) := by
    rw [check, inspect_apply]
    exact congrArg (·, t) hzero
  have hrecord : Act.inspect (fun s : Store => record s.db mid) t₁ = (.ok found, t₁) := by
    rw [inspect_apply, hfound]
  rw [bind_of_ok hfence, bind_of_ok hcheck, bind_of_ok hcheck', bind_of_ok hlock, bind_of_ok hrecord]

theorem confirmReceiver_decided {decision : MutationResult}
    (hdec : receiverConfirmationDecision found receiver = some decision) :
    confirmReceiver opts env mid receiver t = (decision, t₁) := by
  unfold confirmReceiver call
  rw [confirmReceiver_prelude hopen h hlock hfound, hdec]
  rfl

theorem confirmReceiver_confirms (hdec : receiverConfirmationDecision found receiver = none)
    (hpending : 0 < pendingCount t₁.db receiver)
    (hdump : dumpRecord env (confirmed found.record env.clock.now) = .ok ())
    (hdone : ∀ n, env.engine n = .done) (hpoisoned : t₁.poisoned = false) :
    confirmReceiver opts env mid receiver t =
      ({ status := .succeeded, affectedRows := 1 }, { t₁ with
        db := apply t₁.db [.put (.M mid) (confirmed found.record env.clock.now),
          .delete (.P receiver mid), pendingWrite receiver (pendingCount t₁.db receiver) 1]
        log := t₁.log ++ [⟨[.put (.M mid) (confirmed found.record env.clock.now),
          .delete (.P receiver mid), pendingWrite receiver (pendingCount t₁.db receiver) 1], true⟩]
        engineWriteCalls := t₁.engineWriteCalls + 1 }) := by
  have hread : (Act.read (fun s => pendingCount s.db receiver) : StoreM ℕ) t₁ =
      (.ok (pendingCount t₁.db receiver), t₁) := rfl
  have hcheck : check (require (0 < pendingCount t₁.db receiver) .invalidRecord
      "local pending counter underflow") t₁ = (.ok (), t₁) := by
    rw [check, inspect_apply]
    simp [require, hpending]
  have hdumped : check (dumpRecord env (confirmed found.record env.clock.now)) t₁ = (.ok (), t₁) := by
    rw [check, inspect_apply, hdump]
  unfold confirmReceiver call
  rw [confirmReceiver_prelude hopen h hlock hfound, hdec]
  dsimp only
  rw [bind_of_ok hread, bind_of_ok hcheck, bind_of_ok hdumped,
    bind_of_ok (write_done hdone _ _ hpoisoned)]
  rfl

end

/-! ## Side by side -/

/-- The store `t` of the single requests holds what the group `q` has made of `db`; its lock table
has grown by some of the actors. -/
structure Beside (env : Env) (s : Store) (actors : List ℕ) (db : Db) (q : Requests)
    (ms : List MessageView) (t : Store) : Prop where
  requested : Requested env db q ms
  map : ∀ k, t.db.lookup k = (confirmedMap db env.clock.now ms).lookup k
  stored : ∀ {mid m}, q.changed.lookup mid = some m → (db.lookup (.M mid)).isSome
  changed : ∀ mid, t.db.lookup (.M mid) = (q.changed.lookup mid).or (db.lookup (.M mid))
  running : t.closing = false ∧ t.poisoned = false
  locks : s.userLocks ⊆ t.userLocks ∧ t.userLocks ⊆ s.userLocks ∪ actors.toFinset
  length : q.results.length = q.provisional.length
  quiet : ms = [] → ∀ mid, q.changed.lookup mid = none
  silent : (∀ mid, q.changed.lookup mid = none) → ∀ p ∈ q.provisional, p = false

namespace Beside

variable {actors : List ℕ}

theorem checkOpen_ok (h : Beside env s actors db q ms t) : checkOpen t = .ok () := by
  simp [checkOpen, require, h.running.1, h.running.2]

theorem sound (h : Beside env s actors db q ms t) (hdb : Sound db) :
    Sound (confirmedMap db env.clock.now ms) :=
  h.requested.confirmable.sound hdb env.clock.now

theorem rows (h : Beside env s actors db q ms t) (hdb : Sound db) : Rows t.db :=
  (h.sound hdb).toRows.of_agree fun _ => h.map _

theorem requestRecord_eq (h : Beside env s actors db q ms t) (hdb : Sound db) (mid : ℕ) :
    requestRecord db q mid = record t.db mid := by
  rw [(h.rows hdb).record_eq, h.changed]
  cases hq : q.changed.lookup mid with
  | none =>
    simp only [requestRecord, hdb.toRows.record_eq, hq, Option.none_or]
    rfl
  | some m =>
    obtain ⟨m₀, hm₀⟩ := Option.isSome_iff_exists.1 (h.stored hq)
    simp only [requestRecord, hdb.toRows.record_eq, hq, hm₀, Option.some_or]
    rfl

theorem lock (h : Beside env s actors db q ms t)
    (hroom : opts.exactUserLocking = true → Room s actors) {a : ℕ} (ha : a ∈ actors)
    (hpos : 0 < a) : ∃ t₁, lockUsers opts [a] t = (.ok (), t₁) ∧ t₁.db = t.db ∧
      Beside env s actors db q ms t₁ := by
  have hone : opts.exactUserLocking = true → Room t [a] := by
    intro hexact
    rcases hroom hexact with hall | hcard
    · exact .inl (by simpa using h.locks.1 (hall a ha))
    · refine .inr ((Finset.card_le_card ?_).trans hcard)
      refine Finset.union_subset h.locks.2 fun b hb => ?_
      simp_all
  obtain ⟨held, hrun, hsub, hsup⟩ := (lockUsers_run [a] (by simpa using hpos)).1 hone
  refine ⟨_, hrun, rfl, h.requested, h.map, h.stored, h.changed, h.running,
    ⟨h.locks.1.trans hsub, hsup.trans (Finset.union_subset h.locks.2 fun b hb => ?_)⟩, h.length,
    h.quiet, h.silent⟩
  simp_all

theorem push (h : Beside env s actors db q ms t) {r : MutationResult} (hr : TextOk env r.message)
    {p : Bool} (hp : (∀ mid, q.changed.lookup mid = none) → p = false) :
    Beside env s actors db (q.push r p) ms t := by
  refine ⟨h.requested.push hr p, h.map, h.stored, h.changed, h.running, h.locks, ?_, h.quiet,
    fun hnone p' hp' => ?_⟩
  · simp [Requests.push, h.length]
  · rcases List.mem_append.1 hp' with hp' | hp'
    · exact h.silent hnone p' hp'
    · rw [List.mem_singleton.1 hp']
      exact hp hnone

/-- A request that confirms a message. -/
theorem confirm (h : Beside env s actors db q ms t) (hdb : Sound db) {m : MessageView}
    (hm : db.lookup (.M m.messageId) = some m) (hpending : m.deliveryState = .pending)
    (hq : q.changed.lookup m.messageId = none) {t' : Store}
    (ht' : t'.db = apply t.db [.put (.M m.messageId) (confirmed m env.clock.now),
      .delete (.P m.toUserId m.messageId),
      pendingWrite m.toUserId (pendingCount t.db m.toUserId) 1])
    (hrunning : t'.closing = t.closing ∧ t'.poisoned = t.poisoned)
    (hlocks : t'.userLocks = t.userLocks) :
    Beside env s actors db (q.confirm m env.clock.now) (ms ++ [m]) t' := by
  have hreq := h.requested.confirm hm hpending hq
  refine ⟨hreq, fun k => ?_, fun {mid m'} hc => ?_, fun mid => ?_, ?_, hlocks ▸ h.locks, ?_,
    fun hnil => by simp at hnil, fun hnone => ?_⟩
  · rw [ht']
    exact confirmedMap_snoc hdb hreq.confirmable h.requested.confirmable h.map k
  · by_cases heq : mid = m.messageId
    · subst heq
      rw [hm]
      rfl
    · simp only [Requests.confirm, ne_eq, heq, not_false_eq_true, AList.lookup_insert_ne] at hc
      exact h.stored hc
  · have hother : ∀ mid, mid ≠ m.messageId → t'.db.lookup (.M mid) = t.db.lookup (.M mid) := by
      intro mid hne
      rw [ht']
      refine lookup_apply_of_forall_ne fun w hw => ?_
      simp only [List.mem_cons, List.not_mem_nil, or_false] at hw
      rcases hw with rfl | rfl | rfl
      · simpa [Write.key] using hne
      · simp [Write.key]
      · rw [pendingWrite_key]
        simp
    by_cases heq : mid = m.messageId
    · subst heq
      have hself : t'.db.lookup (.M m.messageId) = some (confirmed m env.clock.now) := by
        rw [ht', apply_cons, apply_cons, apply_cons, apply_nil,
          lookup_step_of_ne (by rw [pendingWrite_key]; simp),
          lookup_step_of_ne (by simp [Write.key]), lookup_step_put]
      simp [hself, Requests.confirm]
    · rw [hother mid heq, h.changed]
      simp [Requests.confirm, heq]
  · rw [hrunning.1, hrunning.2]
    exact h.running
  · simp [Requests.confirm, h.length]
  · have := hnone m.messageId
    simp [Requests.confirm] at this

end Beside

def settled (r : MutationResult) (provisional : Bool) : MutationResult :=
  if provisional then
    { r with
      status := .succeeded
      message := if r.affectedRows ≠ 0 then "private message receiver confirmation durable"
        else "receiver confirmation already durable" }
  else r

theorem succeed_eq (q : Requests) : q.succeed = q.results.zipWith settled q.provisional := rfl

theorem decision_affectedRows {found : GetResult} {receiver : ℕ} {r : MutationResult}
    (h : receiverConfirmationDecision found receiver = some r) : r.affectedRows = 0 := by
  unfold receiverConfirmationDecision at h
  split at h
  · cases h
    rfl
  split at h
  · cases h
    rfl
  grind

theorem checkRequest_pos {inp : OwnedReceiverConfirmation} (h : checkRequest opts inp = .ok ()) :
    0 < inp.receiverUserId := by
  obtain ⟨_, hactor, -⟩ := bind_eq_ok.1 h
  exact actor_pos hactor

section

variable {actors : List ℕ} {inp : OwnedReceiverConfirmation} (hdb : Sound db) (hdump : Dumps env db)
  (hdone : ∀ n, env.engine n = .done) (hroom : opts.exactUserLocking = true → Room s actors)

include hdb hdump hdone hroom

/-- One request, in the group and by itself. -/
theorem Beside.step (h : Beside env s actors db q ms t)
    (hin : checkRequest opts inp = .ok () → inp.receiverUserId ∈ actors)
    (rest : List OwnedReceiverConfirmation) :
    ∃ q' ms' r p, requestLoop opts env db (inp :: rest) q = requestLoop opts env db rest q' ∧
      Beside env s actors db q' ms'
        (confirmReceiver opts env inp.messageId inp.receiverUserId t).2 ∧
      q'.results = q.results ++ [r] ∧ q'.provisional = q.provisional ++ [p] ∧
      (settled r p).verdict =
        (confirmReceiver opts env inp.messageId inp.receiverUserId t).1.verdict := by
  cases hcheck : checkRequest opts inp with
  | error e =>
    have hrun : confirmReceiver opts env inp.messageId inp.receiverUserId t = (.ofFailure e, t) :=
      confirmReceiver_refused h.checkOpen_ok hcheck
    have htext : TextOk env (MutationResult.ofFailure e).message :=
      (checkRequest_raises inp e hcheck).text
    rw [hrun]
    exact ⟨_, ms, .ofFailure e, false, by rw [requestLoop, hcheck], h.push htext fun _ => rfl, rfl,
      rfl, rfl⟩
  | ok u =>
    obtain ⟨t₁, hlock, hsame, h₁⟩ := h.lock hroom (hin hcheck) (checkRequest_pos hcheck)
    have hrows := h₁.rows hdb
    obtain ⟨found, hfound⟩ : ∃ found, record t₁.db inp.messageId = .ok found :=
      ⟨_, hrows.record_eq inp.messageId⟩
    have hrequest : requestRecord db q inp.messageId = .ok found :=
      (h₁.requestRecord_eq hdb inp.messageId).trans hfound
    have hstatus := hrows.record_status hfound
    cases hdec : receiverConfirmationDecision found inp.receiverUserId with
    | some decision =>
      have hrun : confirmReceiver opts env inp.messageId inp.receiverUserId t = (decision, t₁) :=
        confirmReceiver_decided h.checkOpen_ok hcheck hlock hfound hdec
      rw [hrun]
      refine ⟨_, ms, decision,
        decision.status = .succeeded && (q.changed.lookup inp.messageId).isSome, by rw [requestLoop, hcheck, hrequest]; simp only [hdec],
        h₁.push (textOk_of_not_mem (decision_text hstatus hdec)) fun hnone => ?_, rfl, rfl, ?_⟩
      · simp [hnone]
      · rw [settled]
        split
        · next hp =>
          simp only [Bool.and_eq_true, decide_eq_true_eq] at hp
          simp [MutationResult.verdict, hp.1]
        · rfl
    | none =>
      obtain ⟨hf, hto, hpending⟩ := decision_none hdec
      obtain ⟨hstored, hid⟩ := hrows.record_found hfound hf
      -- the group has not confirmed this message yet
      have hunchanged : q.changed.lookup inp.messageId = none := by
        cases hq : q.changed.lookup inp.messageId with
        | none => rfl
        | some m =>
          have hm := h₁.changed inp.messageId
          rw [hq, Option.some_or, hstored] at hm
          cases hm
          exact absurd hpending (h₁.requested.changed hq)
      have hbase : db.lookup (.M inp.messageId) = some found.record := by
        have hm := h₁.changed inp.messageId
        simp_all
      rw [← hid] at hunchanged hbase
      have hdumped : dumpRecord env (confirmed found.record env.clock.now) = .ok () := by
        have := hdump _ _ hbase
        simp [dumpRecord, require, confirmed, this.1, this.2]
      have hcount : 0 < pendingCount t₁.db inp.receiverUserId := by
        have hone : Confirmable (confirmedMap db env.clock.now ms) [found.record] := by
          refine ⟨by simp, ?_, by simpa using hpending⟩
          have : (confirmedMap db env.clock.now ms).lookup (.M found.record.messageId) =
              some found.record := by
            rw [← h₁.map, hid]
            exact hstored
          simpa using this
        have hle := hone.count_le (h₁.sound hdb) inp.receiverUserId
        rw [← hto] at hle ⊢
        rw [pendingCount, h₁.map]
        simp only [List.map_cons, List.map_nil, List.count_singleton_self] at hle
        exact hle
      have hrun := confirmReceiver_confirms h.checkOpen_ok hcheck hlock hfound hdec hcount hdumped
        hdone h₁.running.2
      rw [hrun]
      refine ⟨q.confirm found.record env.clock.now, ms ++ [found.record], { affectedRows := 1 },
        true, ?_, ?_, rfl, rfl, rfl⟩
      · rw [requestLoop, hcheck, hrequest]
        simp only [hdec, hdumped]
      · refine h₁.confirm hdb hbase hpending hunchanged ?_ ⟨rfl, rfl⟩ rfl
        rw [hid, hto]

theorem Beside.run (inputs : List OwnedReceiverConfirmation) (h : Beside env s actors db q ms t)
    (hin : ∀ inp ∈ inputs, checkRequest opts inp = .ok () → inp.receiverUserId ∈ actors) :
    ∃ q' ms', requestLoop opts env db inputs q = (q', none) ∧
      Beside env s actors db q' ms' (confirmEach opts env inputs t).2 ∧
      q'.succeed.map MutationResult.verdict = q.succeed.map MutationResult.verdict ++
        (confirmEach opts env inputs t).1.map MutationResult.verdict := by
  induction inputs generalizing q ms t with
  | nil => exact ⟨q, ms, rfl, h, by simp [confirmEach]⟩
  | cons inp rest ih =>
    obtain ⟨q₁, ms₁, r, p, hloop, h₁, hresults, hprovisional, hverdict⟩ :=
      h.step hdb hdump hdone hroom (hin inp List.mem_cons_self) rest
    obtain ⟨q', ms', hrest, h', hall⟩ := ih h₁ fun inp hinp => hin inp (List.mem_cons_of_mem _ hinp)
    refine ⟨q', ms', hloop.trans hrest, h', ?_⟩
    have hsucceed : q₁.succeed = q.succeed ++ [settled r p] := by
      rw [succeed_eq, hresults, hprovisional, List.zipWith_append h.length]
      rfl
    rw [hall, hsucceed]
    simp [confirmEach, hverdict]

end

/-! ## A full lock table -/

def Running (t : Store) : Prop := t.closing = false ∧ t.poisoned = false

theorem checkOpen_eq_ok : checkOpen t = .ok () ↔ Running t := by
  simp [checkOpen, require_eq_ok, Running]

theorem raises_status {b : Bool} {status : Status} {text : String} (h : status ≠ .storageError) :
    Raises (require b status text) fun e => e.status ≠ .storageError :=
  raises_require h

theorem actor_status (id : ℕ) : Raises (actor opts id) fun e => e.status ≠ .storageError := by
  refine (raises_status (by decide)).bind fun _ _ => ?_
  split
  · exact raises_ok _ _
  · exact raises_status (by decide)

theorem record_status_ok {mid : ℕ} {found : GetResult} (h : record db mid = .ok found) :
    found.status = .succeeded := by
  unfold record at h
  split at h
  · cases h
    rfl
  · obtain ⟨m, -, h⟩ := bind_eq_ok.1 h
    cases h
    rfl

theorem decodeRecord_status (m : MessageView) (mid : ℕ) :
    Raises (decodeRecord m mid) fun e => e.status ≠ .storageError := by
  unfold decodeRecord
  split
  · exact raises_ok _ _
  · exact raises_error (by decide)

theorem record_raises_status (mid : ℕ) :
    Raises (record db mid) fun e => e.status ≠ .storageError := by
  unfold record
  split
  · exact raises_ok _ _
  · exact (decodeRecord_status _ _).bind fun _ _ => raises_ok _ _

theorem decision_status {found : GetResult} {receiver : ℕ} {r : MutationResult}
    (hstatus : found.status = .succeeded)
    (h : receiverConfirmationDecision found receiver = some r) : r.status ≠ .storageError := by
  unfold receiverConfirmationDecision at h
  grind

theorem mutation_ends {Q : MutationResult → Store → Prop} {x : StoreM MutationResult}
    (hopen : checkOpen t = .ok ()) (h : Ends x t Q fun e t' => Q (.ofFailure e) t') :
    Q (call x id MutationResult.ofFailure t).1 (call x id MutationResult.ofFailure t).2 := by
  have hclosed : Raises (checkOpen t) fun e => Q (.ofFailure e) t := by
    rw [hopen]
    exact raises_ok _ _
  rcases call_ends id MutationResult.ofFailure hclosed fun _ => h with ⟨r, hr, hq⟩ | ⟨e, hr, he⟩
  · rw [hr]
    exact hq
  · rw [hr]
    exact he

theorem confirmReceiver_status (hdone : ∀ n, env.engine n = .done) (mid receiver : ℕ)
    (h : Running t) : (confirmReceiver opts env mid receiver t).1.status ≠ .storageError ∧
      Running (confirmReceiver opts env mid receiver t).2 := by
  have hlock : 0 < receiver → Ends (lockUsers opts [receiver]) t (fun _ t' => Running t')
      fun e t' => e.status ≠ .storageError ∧ Running t' := by
    intro hpos
    have hall : ∀ a ∈ [receiver], 0 < a := by simpa using hpos
    by_cases hroom : opts.exactUserLocking = true → Room t [receiver]
    · obtain ⟨held, hrun, -⟩ := (lockUsers_run [receiver] hall).1 hroom
      rw [Ends, hrun]
      exact h
    · obtain ⟨held, hrun⟩ := (lockUsers_run [receiver] hall).2 hroom
      rw [Ends, hrun]
      exact ⟨by decide, h⟩
  refine mutation_ends (Q := fun r t' => r.status ≠ .storageError ∧ Running t')
    (checkOpen_eq_ok.2 h) ?_
  refine check_bind (fun e he => ⟨actor_status receiver e he, h⟩) fun _ hactor => ?_
  refine check_bind (fun e he => ⟨raises_status (by decide) e he, h⟩) fun _ _ => ?_
  refine Ends.bind (hlock (actor_pos hactor)) fun _ t₁ h₁ => ?_
  refine Ends.inspect_bind (fun e he => ⟨record_raises_status mid e he, h₁⟩) fun found hfound => ?_
  cases hdec : receiverConfirmationDecision found receiver with
  | some decision => exact Ends.pure ⟨decision_status (record_status_ok hfound) hdec, h₁⟩
  | none =>
    refine Ends.read_bind ?_
    refine check_bind (fun e he => ⟨raises_status (by decide) e he, h₁⟩) fun _ _ => ?_
    refine check_bind (fun e he => ⟨raises_status (by decide) e he, h₁⟩) fun _ _ => ?_
    refine Ends.bind (Q := fun _ t' => Running t') ?_ fun _ t₂ h₂ => ?_
    · rw [Ends, write_done hdone _ _ h₁.2]
      exact h₁
    · exact Ends.pure ⟨by decide, h₂⟩

theorem confirmEach_status (hdone : ∀ n, env.engine n = .done)
    (inputs : List OwnedReceiverConfirmation) (h : Running t) :
    ∀ r ∈ (confirmEach opts env inputs t).1, r.status ≠ .storageError := by
  induction inputs generalizing t with
  | nil => simp [confirmEach]
  | cons inp rest ih =>
    obtain ⟨hstatus, h'⟩ : (confirmReceiver opts env inp.messageId inp.receiverUserId t).1.status ≠
        .storageError ∧ Running (confirmReceiver opts env inp.messageId inp.receiverUserId t).2 :=
      confirmReceiver_status hdone inp.messageId inp.receiverUserId h
    intro r hr
    rcases List.mem_cons.1 hr with rfl | hr
    · exact hstatus
    · exact ih h' r hr

theorem confirmEach_closed (inputs : List OwnedReceiverConfirmation) (h : ¬Running t) :
    (confirmEach opts env inputs t).1.map MutationResult.verdict =
        inputs.map (fun _ => (.storageError, 0)) ∧
      (confirmEach opts env inputs t).2 = t := by
  have hfence : checkOpen t = .error ⟨.storageError, "local store closed or requires recovery"⟩ := by
    rw [← checkOpen_eq_ok] at h
    unfold checkOpen require at h ⊢
    grind
  have hone : ∀ mid receiver, confirmReceiver opts env mid receiver t =
      (.ofFailure ⟨.storageError, "local store closed or requires recovery"⟩, t) := by
    intro mid receiver
    have hrun : Act.inspect checkOpen t =
        (.error ⟨.storageError, "local store closed or requires recovery"⟩, t) := by
      rw [inspect_apply, hfence]
    unfold confirmReceiver call
    rw [bind_of_error hrun]
  induction inputs with
  | nil => simp [confirmEach]
  | cons inp rest ih =>
    rw [confirmEach, hone]
    simp [ih.1, ih.2, MutationResult.ofFailure, MutationResult.verdict]

/-! ## The whole call -/

variable {inputs : List OwnedReceiverConfirmation}

theorem requestActors_mem
    {inp : OwnedReceiverConfirmation} (hinp : inp ∈ inputs) (h : checkRequest opts inp = .ok ()) :
    inp.receiverUserId ∈ requestActors opts inputs :=
  List.mem_filterMap.2 ⟨inp, hinp, by rw [h]⟩

theorem exists_of_requestActors {a : ℕ} (h : a ∈ requestActors opts inputs) :
    ∃ inp ∈ inputs, checkRequest opts inp = .ok () ∧ inp.receiverUserId = a := by
  obtain ⟨inp, hinp, ha⟩ := List.mem_filterMap.1 h
  cases hcheck : checkRequest opts inp with
  | error e =>
    rw [hcheck] at ha
    cases ha
  | ok u =>
    grind

theorem requestActors_pos : ∀ a ∈ requestActors opts inputs, 0 < a := by
  intro a ha
  obtain ⟨inp, -, hcheck, rfl⟩ := exists_of_requestActors ha
  exact checkRequest_pos hcheck

theorem beside_init (s : Store) (h : Running s) (actors : List ℕ) :
    Beside env s actors s.db {} [] s where
  requested := requested_init env
  map k := by simp [confirmedMap, Change.batch, confirmCounters, actorSet]
  stored h := by cases h
  changed mid := rfl
  running := h
  locks := ⟨Finset.Subset.refl _, Finset.subset_union_left⟩
  length := rfl
  quiet _ _ := rfl
  silent _ := by simp

theorem succeed_of_silent {q : Requests} (hlength : q.results.length = q.provisional.length)
    (h : ∀ p ∈ q.provisional, p = false) : q.succeed = q.results := by
  have hfalse : q.provisional = List.replicate q.results.length false := by
    rw [List.eq_replicate_iff]
    exact ⟨hlength.symm, h⟩
  rw [succeed_eq, hfalse]
  generalize q.results = l
  induction l with
  | nil => rfl
  | cons r l ih => rw [List.length_cons, List.replicate_succ, List.zipWith_cons_cons, ih]; rfl

/-- Where the locks are given, the group does what the single requests do. -/
theorem requests_of_room (h : Inv s) (hrunning : Running s)
    (hlen : inputs.length ≤ 64) (hdone : ∀ n, env.engine n = .done) (hdump : Dumps env s.db)
    (hroom : opts.exactUserLocking = true → Room s (requestActors opts inputs)) :
    (∀ k, (confirmReceiverRequests opts env inputs s).2.db.lookup k =
      (confirmEach opts env inputs s).2.db.lookup k) ∧
    (confirmReceiverRequests opts env inputs s).1.map MutationResult.verdict =
      (confirmEach opts env inputs s).1.map MutationResult.verdict := by
  have hsound := h.sound
  obtain ⟨q, ms, hloop, hb, hverdict⟩ := (beside_init s hrunning (requestActors opts inputs)).run
    hsound hdump hdone hroom inputs fun inp hinp hcheck => requestActors_mem hinp hcheck
  obtain ⟨held, hlock, -, -⟩ := (lockUsers_run _ requestActors_pos).1 hroom
  have hstart : ({} : Requests).succeed = [] := rfl
  rw [hstart, List.map_nil, List.nil_append] at hverdict
  have hconfirmations := hb.requested.confirmations
  rw [confirmReceiverRequests]
  split
  · next hempty =>
    obtain rfl := List.isEmpty_iff.1 hempty
    exact ⟨fun _ => rfl, rfl⟩
  rw [if_neg hlen.not_gt, checkOpen_eq_ok.2 hrunning]
  simp only [hlock, hloop]
  split
  · next hnone =>
    have hms : ms = [] := by simpa [hconfirmations, collectConfirmations] using hnone
    subst hms
    have hsilent := succeed_of_silent hb.length (hb.silent (hb.quiet rfl))
    rw [hsilent] at hverdict
    refine ⟨fun k => ?_, hverdict⟩
    rw [hb.map]
    simp [confirmedMap, Change.batch, confirmCounters, actorSet]
  · have hremoved : q.confirmations.removed = ms.map MessageView.toUserId := by
      simp [hconfirmations, collectConfirmations]
    have hbatch : q.confirmations.batch ++ confirmCounters s.db (ms.map MessageView.toUserId) =
        (Change.confirm ms env.clock.now).batch s.db := by
      simp [hconfirmations, collectConfirmations, Change.batch]
    rw [hremoved, pendingWrites_eq hsound hb.requested.confirmable]
    dsimp only
    have hpoisoned : { s with userLocks := held }.poisoned = false := hrunning.2
    rw [hbatch, write_done hdone _ _ hpoisoned]
    refine ⟨fun k => ?_, hverdict⟩
    rw [hb.map]
    rfl

theorem requests_of_full (hrunning : Running s) (hlen : inputs.length ≤ 64)
    (hfull : ¬(opts.exactUserLocking = true → Room s (requestActors opts inputs))) :
    (confirmReceiverRequests opts env inputs s).1 = inputs.map (requestBefore opts) := by
  obtain ⟨held, hlock⟩ := (lockUsers_run _ requestActors_pos).2 hfull
  rw [confirmReceiverRequests]
  split
  · next hempty =>
    simp_all
  · simp only [if_neg hlen.not_gt, checkOpen_eq_ok.2 hrunning, hlock]

/-- A group of receiver confirmations leaves the map and gives the answers of the single calls in
order, exactly when the lock table has room for all of its receivers. -/
theorem requests_refine_iff {inputs : List OwnedReceiverConfirmation} (h : Reachable opts s)
    (hlen : inputs.length ≤ 64) (hdone : ∀ n, env.engine n = .done) (hdump : Dumps env s.db) :
    ((∀ k, (confirmReceiverRequests opts env inputs s).2.db.lookup k =
      (confirmEach opts env inputs s).2.db.lookup k) ∧
    (confirmReceiverRequests opts env inputs s).1.map MutationResult.verdict =
      (confirmEach opts env inputs s).1.map MutationResult.verdict) ↔
    (checkOpen s = .ok () → opts.exactUserLocking = true →
      Room s (requestActors opts inputs)) := by
  rw [checkOpen_eq_ok]
  by_cases hrunning : Running s
  · refine ⟨fun hagree _ => ?_, fun hroom => requests_of_room h.inv hrunning hlen hdone hdump
      (hroom hrunning)⟩
    by_contra hfull
    -- some request was to take a lock, and the group answers it with a storage error
    obtain ⟨a, ha⟩ : ∃ a, a ∈ requestActors opts inputs := by
      by_contra hnone
      push Not at hnone
      exact hfull fun _ => .inl fun a ha => absurd ha (hnone a)
    obtain ⟨inp, hinp, hcheck, -⟩ := exists_of_requestActors ha
    have hmem : (Status.storageError, 0) ∈
        (confirmEach opts env inputs s).1.map MutationResult.verdict := by
      rw [← hagree.2, requests_of_full hrunning hlen hfull, List.map_map]
      exact List.mem_map.2 ⟨inp, hinp, by simp [requestBefore, hcheck, MutationResult.verdict]⟩
    obtain ⟨r, hr, hverdict⟩ := List.mem_map.1 hmem
    exact confirmEach_status hdone inputs hrunning r hr (Prod.mk.inj hverdict).1
  · refine ⟨fun _ hr => absurd hr hrunning, fun _ => ?_⟩
    have hclosed : (confirmEach opts env inputs s).1.map MutationResult.verdict =
        inputs.map (fun _ => (.storageError, 0)) ∧ (confirmEach opts env inputs s).2 = s :=
      confirmEach_closed inputs hrunning
    rw [hclosed.1, hclosed.2]
    obtain ⟨e, he⟩ : ∃ e, checkOpen s = .error e := by
      cases hopen : checkOpen s with
      | error e => exact ⟨e, rfl⟩
      | ok u => exact absurd (checkOpen_eq_ok.1 hopen) hrunning
    rw [confirmReceiverRequests]
    split
    · next hempty =>
      obtain rfl := List.isEmpty_iff.1 hempty
      exact ⟨fun _ => rfl, rfl⟩
    · rw [if_neg hlen.not_gt, he]
      exact ⟨fun _ => rfl, by simp [MutationResult.verdict]⟩

def sampleRequests : List OwnedReceiverConfirmation := [⟨1, 2⟩, ⟨1, 2⟩, ⟨1, 1⟩, ⟨9, 2⟩, ⟨0, 2⟩]

theorem requests_refine_iff_sample :
    (confirmReceiverRequests sampleOptions sampleEnv sampleRequests sampleSent).1.map
        MutationResult.verdict =
      [(.succeeded, 1), (.succeeded, 0), (.permissionDenied, 0), (.notFound, 0),
        (.invalidArgument, 0)] ∧
    (confirmReceiverRequests sampleOptions sampleEnv sampleRequests sampleSent).1.map
        MutationResult.verdict =
      (confirmEach sampleOptions sampleEnv sampleRequests sampleSent).1.map
        MutationResult.verdict :=
  ⟨by decide, ((requests_refine_iff sampleSent_reachable (by decide) (fun _ => rfl)
    fun _ _ _ => ⟨rfl, rfl⟩).2 fun _ hexact => by cases hexact).2⟩

section

variable {held : Finset ℕ}

theorem requests_newcomer (h₂ : 100001 ∉ held) (hcard : held.card = 100000) :
    ((confirmReceiverRequests fullOptions sampleEnv [⟨1, 1⟩, ⟨1, 100001⟩] (lockedStore held)).1.map
      MutationResult.verdict).head? = some (.storageError, 0) := by
  have hactors : requestActors fullOptions [⟨1, 1⟩, ⟨1, 100001⟩] = [1, 100001] := rfl
  have hfull : ¬(fullOptions.exactUserLocking = true →
      Room (lockedStore held) (requestActors fullOptions [⟨1, 1⟩, ⟨1, 100001⟩])) := by
    intro h
    rw [hactors] at h
    rcases h rfl with hall | hroom
    · exact h₂ (hall 100001 (by simp))
    · have hle : (insert 100001 held).card ≤
          ((lockedStore held).userLocks ∪ [1, 100001].toFinset).card := by
        refine Finset.card_le_card (Finset.insert_subset ?_ Finset.subset_union_left)
        exact Finset.mem_union_right _ (by simp)
      rw [Finset.card_insert_of_notMem h₂, hcard] at hle
      omega
  have hrunning : Running (lockedStore held) := ⟨rfl, rfl⟩
  rw [requests_of_full hrunning (by decide) hfull]
  rfl

theorem each_newcomer (h₁ : 1 ∈ held) :
    ((confirmEach fullOptions sampleEnv [⟨1, 1⟩, ⟨1, 100001⟩] (lockedStore held)).1.map
      MutationResult.verdict).head? = some (.notFound, 0) := by
  have hlock : lockUsers fullOptions [1] (lockedStore held) = (.ok (), lockedStore held) := by
    have hset : actorSet [1] = [1] := by decide
    rw [lockUsers_full, hset, lockActors, bind_of_ok (registerLock_held h₁ (by decide))]
    rfl
  have hopen : checkOpen (lockedStore held) = .ok () := rfl
  have hsingle : confirmReceiver fullOptions sampleEnv 1 1 (lockedStore held) =
      ({ status := .notFound, message := "private message not found" }, lockedStore held) :=
    confirmReceiver_decided hopen rfl hlock rfl rfl
  rw [confirmEach, hsingle]
  rfl

end

/-- With a full lock table, the request of a user without a lock makes the group answer another
user's request with a storage error. -/
theorem requests_differ_when_locks_full : ∃ s, Reachable fullOptions s ∧
    ((confirmReceiverRequests fullOptions sampleEnv [⟨1, 1⟩, ⟨1, 100001⟩] s).1.map
      MutationResult.verdict).head? = some (.storageError, 0) ∧
    ((confirmEach fullOptions sampleEnv [⟨1, 1⟩, ⟨1, 100001⟩] s).1.map
      MutationResult.verdict).head? = some (.notFound, 0) := by
  have hmem : ∀ {a}, a ∈ (List.range' 1 100000).toFinset ↔ 1 ≤ a ∧ a < 1 + 100000 := by
    intro a
    rw [List.mem_toFinset, List.mem_range'_1]
  have hcard : (List.range' 1 100000).toFinset.card = 100000 := by
    rw [List.toFinset_card_of_nodup List.nodup_range', List.length_range']
  have h₁ : 1 ∈ (List.range' 1 100000).toFinset := hmem.2 (by decide)
  have h₂ : 100001 ∉ (List.range' 1 100000).toFinset := fun h => by
    have := (hmem.1 h).2
    omega
  exact ⟨lockedStore (List.range' 1 100000).toFinset, ⟨_, [], rfl, .nil _⟩,
    requests_newcomer h₂ hcard, each_newcomer h₁⟩

end TinyImx.Local
