import TinyImx.Local.PersistSpec

/-!
# What persisting a group does

The grouped path stages its messages against an unchanged map.  `Staged` says that its memory (the
staged client ids and the counter overlay) reads like the map its staged writes would leave, so the
single write at the end is a group of new messages, each seeing the ones before it.
-/

namespace TinyImx.Local

open Kv Act

/-! ## Groups and reservations -/

theorem NewMessage.batch_congr {db db' : Db} (h : SameMap db db') (n : NewMessage) :
    n.batch db' = n.batch db := by
  simp only [batch, totalCount, dialogCount, pendingCount]
  rw [h _ (by simp), h _ (by simp), h _ (by simp)]

theorem SameMap.apply {db db' : Db} (h : SameMap db db') (batch : List Write) :
    SameMap (apply db batch) (Kv.apply db' batch) :=
  fun k hk => lookup_apply_congr (h k hk) batch

theorem groupBatch_congr {db db' : Db} (h : SameMap db db') (ns : List NewMessage) :
    groupBatch db' ns = groupBatch db ns := by
  induction ns generalizing db db' with
  | nil => rfl
  | cons n ns ih =>
    rw [groupBatch, groupBatch, NewMessage.batch_congr h, ih (h.apply _)]

theorem GroupFits.congr {db db' : Db} {ns : List NewMessage} {e : ℕ} (hns : GroupFits db ns)
    (h : SameMap db db') (he : db'.lookup .high = some e)
    (hle : ∀ n ∈ ns, n.message.messageId ≤ e) : GroupFits db' ns := by
  induction ns generalizing db db' with
  | nil => trivial
  | cons n ns ih =>
    refine ⟨⟨hns.1.valid, hns.1.pending, ?_, ?_, ⟨e, he, hle n List.mem_cons_self⟩, hns.1.event⟩, ?_⟩
    · rw [h _ (by simp)]
      exact hns.1.fresh
    · rw [h _ (by simp)]
      exact hns.1.cid
    · rw [NewMessage.batch_congr h]
      refine ih hns.2 (h.apply _) ?_ fun n' hn' => hle n' (List.mem_cons_of_mem _ hn')
      rw [← NewMessage.batch_congr h, NewMessage.lookup_high]
      exact he

section

variable {db : Db} {ns : List NewMessage} {n : NewMessage}

theorem GroupFits.cid_none (hns : GroupFits db ns) (hn : n ∈ ns) :
    db.lookup (.I n.message.fromUserId n.canonical) = none := by
  induction ns generalizing db with
  | nil => cases hn
  | cons n' ns ih =>
    rcases List.mem_cons.1 hn with rfl | hn
    · exact hns.1.cid
    · have hnone := ih hns.2 hn
      rw [NewMessage.lookup_I] at hnone
      split at hnone
      · cases hnone
      · exact hnone

theorem GroupFits.event (hns : GroupFits db ns) (hn : n ∈ ns) :
    n.row.eventId = messageEventId n.message.messageId := by
  induction ns generalizing db with
  | nil => cases hn
  | cons n' ns ih =>
    rcases List.mem_cons.1 hn with rfl | hn
    · exact hns.1.event
    · exact ih hns.2 hn

end

/-! ## The memory of a group -/

/-- The staged client ids and the counter overlay read like the map `ns` would leave. -/
structure Overlay (b : Batch) (db : Db) (ns : List NewMessage) : Prop where
  length : b.creates.length = ns.length
  writes : b.creates.flatMap Create.writes = groupBatch db ns
  total : ∀ r, b.count (.N r) (totalCount db r) = totalCount (apply db (groupBatch db ns)) r
  dialog : ∀ r p,
    b.count (.D r p) (dialogCount db r p) = dialogCount (apply db (groupBatch db ns)) r p
  pending : ∀ r, b.count (.Q r) (pendingCount db r) = pendingCount (apply db (groupBatch db ns)) r
  staged : ∀ {f c j}, b.stagedCids.lookup (f, c) = some j → ∃ n ∈ ns, n.message.fromUserId = f ∧
    n.canonical = c ∧ j < b.out.length ∧ (b.out.getD j {}).record = n.message
  unstaged : ∀ {f c}, b.stagedCids.lookup (f, c) = none →
    (apply db (groupBatch db ns)).lookup (.I f c) = db.lookup (.I f c)

namespace Overlay

variable {b : Batch} {db db' : Db} {ns : List NewMessage}

theorem empty (db : Db) : Overlay {} db [] where
  length := rfl
  writes := rfl
  total _ := rfl
  dialog _ _ := rfl
  pending _ := rfl
  staged h := by cases h
  unstaged _ := rfl

theorem congr (h : Overlay b db ns) (hmap : SameMap db db') : Overlay b db' ns := by
  have hv : SameMap (apply db (groupBatch db ns)) (apply db' (groupBatch db' ns)) := by
    rw [groupBatch_congr hmap]
    exact hmap.apply _
  refine ⟨h.length, by rw [h.writes, groupBatch_congr hmap], ?_, ?_, ?_, h.staged, ?_⟩
  · intro r
    rw [totalCount, totalCount, hmap _ (by simp), hv _ (by simp)]
    exact h.total r
  · intro r p
    rw [dialogCount, dialogCount, hmap _ (by simp), hv _ (by simp)]
    exact h.dialog r p
  · intro r
    rw [pendingCount, pendingCount, hmap _ (by simp), hv _ (by simp)]
    exact h.pending r
  · intro f c hc
    rw [hmap _ (by simp), hv _ (by simp)]
    exact h.unstaged hc

theorem push (h : Overlay b db ns) (r : PersistResult) (p : Bool) : Overlay (b.push r p) db ns := by
  refine ⟨h.length, h.writes, h.total, h.dialog, h.pending, fun {f c j} hc => ?_, h.unstaged⟩
  obtain ⟨n, hn, hf, hcn, hj, hrec⟩ := h.staged hc
  refine ⟨n, hn, hf, hcn, ?_, ?_⟩
  · simp only [Batch.push, List.length_append]
    omega
  · simpa [Batch.push, List.getElem?_append_left hj] using hrec

/-- Staging a message that reads its counters from the overlay. -/
theorem stage (h : Overlay b db ns) (m : MessageView) (canonical : Bytes) (row : PendingLocalEvent) :
    Overlay (b.stage m canonical (b.count (.N m.toUserId) (totalCount db m.toUserId))
      (b.count (.D m.toUserId m.fromUserId) (dialogCount db m.toUserId m.fromUserId))
      (b.count (.Q m.toUserId) (pendingCount db m.toUserId)) row) db
      (ns ++ [⟨m, canonical, row⟩]) := by
  rw [h.total, h.dialog, h.pending]
  have hv : apply db (groupBatch db (ns ++ [⟨m, canonical, row⟩])) =
      apply (apply db (groupBatch db ns))
        (NewMessage.batch ⟨m, canonical, row⟩ (apply db (groupBatch db ns))) := by
    rw [groupBatch_snoc, apply_append]
  refine ⟨by simp [Batch.stage, h.length], ?_, ?_, ?_, ?_, ?_, ?_⟩
  · rw [groupBatch_snoc, ← h.writes]
    simp [Batch.stage, NewMessage.batch]
  · intro r
    rw [hv, NewMessage.totalCount_batch]
    by_cases hr : r = m.toUserId
    · subst hr
      simp [Batch.stage, Batch.count]
    · simpa [Batch.stage, Batch.count, hr] using h.total r
  · intro r p
    rw [hv, NewMessage.dialogCount_batch]
    by_cases hrp : r = m.toUserId ∧ p = m.fromUserId
    · obtain ⟨rfl, rfl⟩ := hrp
      simp [Batch.stage, Batch.count]
    · simpa [Batch.stage, Batch.count, hrp] using h.dialog r p
  · intro r
    rw [hv, NewMessage.pendingCount_batch]
    by_cases hr : r = m.toUserId
    · subst hr
      simp [Batch.stage, Batch.count]
    · simpa [Batch.stage, Batch.count, hr] using h.pending r
  · intro f c j hc
    by_cases hfc : (f, c) = (m.fromUserId, canonical)
    · obtain ⟨rfl, rfl⟩ := Prod.mk.inj hfc
      simp only [Batch.stage, AList.lookup_insert, Option.some.injEq] at hc
      subst hc
      exact ⟨⟨m, _, row⟩, by simp, rfl, rfl, by simp [Batch.stage], by simp [Batch.stage]⟩
    · simp only [Batch.stage, ne_eq, hfc, not_false_eq_true, AList.lookup_insert_ne] at hc
      obtain ⟨n, hn, hf, hcn, hj, hrec⟩ := h.staged hc
      refine ⟨n, by simp [hn], hf, hcn, ?_, ?_⟩
      · simp only [Batch.stage, List.length_append]
        omega
      · simpa [Batch.stage, List.getElem?_append_left hj] using hrec
  · intro f c hc
    have hfc : (f, c) ≠ (m.fromUserId, canonical) := by
      intro heq
      rw [heq] at hc
      simp [Batch.stage] at hc
    simp only [Batch.stage, ne_eq, hfc, not_false_eq_true, AList.lookup_insert_ne] at hc
    rw [hv, NewMessage.lookup_I, if_neg, h.unstaged hc]
    rintro ⟨rfl, rfl⟩
    exact hfc rfl

end Overlay

/-! ## The staging loop -/

inductive Item (env : Env) (db : Db) (ns : List NewMessage) (inp : PersistInput)
    (checked : Except Failure Bytes) : PersistResult → Bool → Prop
  | refused {e : Failure} (hadm : Admissible env e)
      (hnew : ∀ c, checked = .ok c → db.lookup (.I inp.fromUserId c) = none) :
      Item env db ns inp checked (.ofFailure e) false
  | stored {c : Bytes} {r : PersistResult} (hin : checked = .ok c) (hr : Reused inp c db r) :
      Item env db ns inp checked r false
  | repeated {c : Bytes} {n : NewMessage} (hin : checked = .ok c) (hn : n ∈ ns)
      (hfrom : n.message.fromUserId = inp.fromUserId) (hc : n.canonical = c)
      (hnew : db.lookup (.I inp.fromUserId c) = none) :
      Item env db ns inp checked (existingResult n.message inp) true
  | created {c : Bytes} {n : NewMessage} {r : PersistResult} (hin : checked = .ok c) (hn : n ∈ ns)
      (hc : n.canonical = c) (hnew : db.lookup (.I inp.fromUserId c) = none)
      (hmessage : n.message = newRecord env.clock inp r.messageId) (hrecord : r.record = n.message)
      (hstatus : r.status = .succeeded) (houtcome : r.outcome = .created) (htext : r.message = "") :
      Item env db ns inp checked r true

variable {r : PersistResult}

theorem Item.mono {env : Env} {db : Db} {ns ns' : List NewMessage} {inp : PersistInput}
    {checked : Except Failure Bytes} {p : Bool} (hsub : ns ⊆ ns')
    (h : Item env db ns inp checked r p) : Item env db ns' inp checked r p := by
  cases h with
  | refused hadm hnew => exact .refused hadm hnew
  | stored hin hr => exact .stored hin hr
  | repeated hin hn hfrom hc hnew => exact .repeated hin (hsub hn) hfrom hc hnew
  | created hin hn hc hnew hmessage hrecord hstatus houtcome htext =>
    exact .created hin (hsub hn) hc hnew hmessage hrecord hstatus houtcome htext

variable {opts : Options} {env : Env} {s₀ s s' : Store} {b : Batch} {ns : List NewMessage}
  {done : List (PersistInput × Except Failure Bytes)} {inp : PersistInput} {canonical : Bytes}
  {checked : Except Failure Bytes}

/-- The staging loop after the items `done`, started in `s₀`. -/
structure Staged (env : Env) (s₀ : Store) (done : List (PersistInput × Except Failure Bytes))
    (b : Batch) (ns : List NewMessage) (s : Store) : Prop where
  moves : Moves persistKind s₀ s
  map : SameMap s₀.db s.db
  overlay : Overlay b s.db ns
  fits : GroupFits s.db ns
  ids : ∀ n ∈ ns, n.message.messageId < s.nextId
  length : b.provisional.length = b.out.length
  items : List.Forall₂ (fun x rp => Item env s₀.db ns x.1 x.2 rp.1 rp.2) done
    (b.out.zip b.provisional)
  indices : ∀ c ∈ b.creates, ∃ r, b.out[c.resultIndex]? = some r ∧ r.status = .succeeded ∧
    r.outcome = .created

namespace Staged

theorem failed (h : Staged env s₀ done b ns s) (hinv : Inv s₀) {e : Failure}
    (hf : Failed persistKind env s e s') : Staged env s₀ done b ns s' := by
  have hmoves := h.moves.trans hf.moves
  have hinv' := hinv.moves hmoves
  obtain ⟨high, hhigh, hle⟩ := hinv'.high
  have hids : ∀ n ∈ ns, n.message.messageId < s'.nextId :=
    fun n hn => (h.ids n hn).trans_le hf.moves.nextId_le
  refine ⟨hmoves, h.map.trans hf.map, h.overlay.congr hf.map, h.fits.congr hf.map hhigh ?_, hids,
    h.length, h.items, h.indices⟩
  intro n hn
  have h1 := hids n hn
  have h2 := hinv'.next
  omega

theorem push (h : Staged env s₀ done b ns s) {r : PersistResult} {p : Bool}
    (hr : Item env s₀.db ns inp checked r p) :
    Staged env s₀ (done ++ [(inp, checked)]) (b.push r p) ns s := by
  refine ⟨h.moves, h.map, h.overlay.push r p, h.fits, h.ids, ?_, ?_, ?_⟩
  · simp [Batch.push, h.length]
  · simp only [Batch.push]
    rw [List.zip_append h.length.symm]
    exact List.rel_append h.items (.cons hr .nil)
  · intro c hc
    obtain ⟨r', hr', hstatus, houtcome⟩ := h.indices c hc
    have hlt := (List.getElem?_eq_some_iff.1 hr').1
    exact ⟨r', by simpa [Batch.push, List.getElem?_append_left hlt] using hr', hstatus, houtcome⟩

theorem sound (h : Staged env s₀ done b ns s) (hinv : Inv s₀) :
    Sound (apply s.db (groupBatch s.db ns)) := h.fits.sound (hinv.moves h.moves).sound

end Staged

def PersistResult.isCreated (r : PersistResult) : Bool :=
  r.status = .succeeded && r.outcome = .created

def createdRecords (rs : List PersistResult) : List MessageView :=
  (rs.filter PersistResult.isCreated).map PersistResult.record

/-- The results that report a new message and the staged events are those of `ns`, in order. -/
structure Matched (b : Batch) (ns : List NewMessage) : Prop where
  records : createdRecords b.out = ns.map NewMessage.message
  events : b.creates.map Create.eventId = ns.map fun n => n.row.eventId

theorem isCreated_ofFailure {e : Failure} (he : e.status ≠ .succeeded) :
    (PersistResult.ofFailure e).isCreated = false := by
  simp [PersistResult.isCreated, PersistResult.ofFailure, he]

theorem isCreated_existingResult (m : MessageView) (inp : PersistInput) :
    (existingResult m inp).isCreated = false := by
  unfold PersistResult.isCreated existingResult
  split <;> rfl

theorem createdRecords_snoc (rs : List PersistResult) (r : PersistResult) :
    createdRecords (rs ++ [r]) =
      createdRecords rs ++ if r.isCreated = true then [r.record] else [] := by
  rw [createdRecords, List.filter_append, List.map_append]
  cases h : r.isCreated <;> simp [createdRecords, h]

theorem Matched.push (h : Matched b ns) {r : PersistResult} (hr : r.isCreated = false) (p : Bool) :
    Matched (b.push r p) ns := by
  refine ⟨?_, h.events⟩
  rw [Batch.push, createdRecords_snoc, hr, if_neg Bool.false_ne_true, List.append_nil]
  exact h.records

theorem Matched.stage (h : Matched b ns) (m : MessageView) (canonical : Bytes)
    (total dialog pending : ℕ) (row : PendingLocalEvent) :
    Matched (b.stage m canonical total dialog pending row) (ns ++ [⟨m, canonical, row⟩]) := by
  refine ⟨?_, ?_⟩
  · rw [Batch.stage, createdRecords_snoc, h.records, List.map_append]
    rfl
  · rw [Batch.stage, List.map_append, h.events, List.map_append]
    rfl

/-- Staging a new message: the group grows by it, or it failed and the group is as it was. -/
theorem stageMessage_ends (hinv : Inv s₀) (h : Staged env s₀ done b ns s)
    (hin : checkInput opts env b.out.length inp = .ok canonical)
    (hunstaged : b.stagedCids.lookup (inp.fromUserId, canonical) = none)
    (hI : s.db.lookup (.I inp.fromUserId canonical) = none) :
    Ends (stageMessage opts env b inp canonical) s
      (fun b' s' => ∃ n, Staged env s₀ (done ++ [(inp, .ok canonical)]) b' (ns ++ [n]) s' ∧
        (Matched b ns → Matched b' (ns ++ [n])))
      (Failed persistKind env s) := by
  refine check_bind (Failed.raises_refl (checkBody_admissible _)) fun _ _ => ?_
  refine check_bind (Failed.raises_refl (raises_admissible (by decide))) fun _ _ => ?_
  refine Ends.bind (Failed.same_refl reserve_ends) fun _ t₁ hs₁ => ?_
  have hm₁ : Moves persistKind s t₁ := (Moves.refl s).frame hs₁
  have h₁ := (hinv.moves h.moves).moves hm₁
  refine Failed.onThrow sameData_release ?_
  refine check_bind (Failed.raises hm₁ hs₁.sameMap (checkPin_admissible _ _ _)) fun _ _ => ?_
  refine Ends.bind (Failed.after hm₁ hs₁.sameMap
    (nextMessageId_ends (fun _ => trivial) h₁.next)) fun mid t₂ h₁₂ => ?_
  obtain rfl := h₁₂.id
  have hm₂ := hm₁.trans h₁₂.moves
  have hmap₂ := hs₁.sameMap.trans h₁₂.map
  -- the group is as good on the map after the reservation
  have hst₂ : Staged env s₀ done b ns t₂ :=
    h.failed hinv (e := ⟨.storageError, ""⟩) ⟨hm₂, hmap₂, admissible_of_not_mem (by decide)⟩
  refine Ends.read_bind ?_
  refine check_bind ?_ fun _ _ => ?_
  · rw [hst₂.overlay.total, hst₂.overlay.dialog, hst₂.overlay.pending,
      (hst₂.sound hinv).checkCounters_ok]
    exact raises_ok _ _
  refine check_bind (Failed.raises hm₂ hmap₂ (encodeEvent_admissible _)) fun row hrow => ?_
  refine check_bind (Failed.raises hm₂ hmap₂ (raises_admissible (by decide))) fun _ _ => ?_
  refine Ends.bind (Failed.same hm₂ hmap₂ (prepare_ends _)) fun _ t₃ hs₃ => ?_
  have hst₃ : Staged env s₀ done b ns t₃ :=
    h.failed hinv (e := ⟨.storageError, ""⟩)
      ⟨hm₂.frame hs₃, hmap₂.trans hs₃.sameMap, admissible_of_not_mem (by decide)⟩
  have hinv₃ := hinv.moves hst₃.moves
  have hnext₃ : t₃.nextId = t₁.nextId + 1 := by rw [hs₃.nextId, h₁₂.next]
  refine Ends.pure ⟨⟨newRecord env.clock inp t₁.nextId, canonical, row⟩, ?_,
    fun h => h.stage _ _ _ _ _ _⟩
  rw [← hs₃.db]
  refine ⟨hst₃.moves, hst₃.map, hst₃.overlay.stage _ _ _, ?_, ?_, ?_, ?_, ?_⟩
  · obtain ⟨e, he, hle⟩ := hinv₃.high
    refine groupFits_snoc.2 ⟨hst₃.fits, newMessage_fits (h := e) hin h₁.pos ?_ ?_ ?_ ?_ hrow⟩
    · cases hM : (apply t₃.db (groupBatch t₃.db ns)).lookup (.M t₁.nextId) with
      | none => rfl
      | some m =>
        rcases groupBatch_stored hM with hM | ⟨n, hn, rfl, hid⟩
        · rw [hs₃.db, h₁₂.map _ (by simp), h₁.fresh] at hM
          cases hM
        · have := h.ids n hn
          rw [hid, ← hs₁.nextId] at this
          exact absurd this (lt_irrefl _)
    · rw [hst₃.overlay.unstaged hunstaged, hs₃.db, hmap₂ _ (by simp)]
      exact hI
    · rw [groupBatch_high]
      exact he
    · rw [hs₃.reservedEnd] at hle
      exact h₁₂.reserved.trans hle
  · intro n hn
    rcases List.mem_append.1 hn with hn | hn
    · exact hst₃.ids n hn
    · rw [List.mem_singleton.1 hn, hnext₃]
      exact Nat.lt_succ_self _
  · simp [Batch.stage, h.length]
  · simp only [Batch.stage]
    rw [List.zip_append h.length.symm]
    refine List.rel_append
      (h.items.imp fun _ _ hi => hi.mono (List.subset_append_left ns _)) (.cons ?_ .nil)
    refine .created rfl (List.mem_append_right _ List.mem_cons_self) rfl ?_ rfl rfl rfl rfl rfl
    rw [← h.map _ (by simp)]
    exact hI
  · intro c hc
    simp only [Batch.stage, List.mem_append, List.mem_singleton] at hc ⊢
    rcases hc with hc | rfl
    · obtain ⟨r', hr', hstatus, houtcome⟩ := h.indices c hc
      have hlt := (List.getElem?_eq_some_iff.1 hr').1
      exact ⟨r', by rw [List.getElem?_append_left hlt, hr'], hstatus, houtcome⟩
    · exact ⟨_, List.getElem?_concat_length, rfl, rfl⟩

/-- One round of the staging loop. -/
theorem stageItem_staged (hinv : Inv s₀) (h : Staged env s₀ done b ns s)
    (hin : checked = checkInput opts env b.out.length inp) :
    ∃ ns', Staged env s₀ (done ++ [(inp, checked)]) (stageItem opts env inp checked b s).1 ns'
      (stageItem opts env inp checked b s).2 ∧
      (Matched b ns → Matched (stageItem opts env inp checked b s).1 ns') := by
  unfold stageItem
  cases checked with
  | error e =>
    exact ⟨ns, h.push (.refused (checkInput_admissible inp e hin.symm) (by simp)),
      fun hm => hm.push (isCreated_ofFailure (checkInput_admissible inp e hin.symm).status) _⟩
  | ok canonical =>
    dsimp only
    cases hst : b.stagedCids.lookup (inp.fromUserId, canonical) with
    | some j =>
      obtain ⟨n, hn, hfrom, hc, -, hrec⟩ := h.overlay.staged hst
      refine ⟨ns, h.push ?_, fun hm => hm.push (isCreated_existingResult _ _) _⟩
      rw [hrec]
      refine .repeated rfl hn hfrom hc ?_
      rw [← h.map _ (by simp), ← hfrom, ← hc]
      exact h.fits.cid_none hn
    | none =>
      rcases (hinv.moves h.moves).sound.toRows.findExisting_eq inp.fromUserId canonical with
        ⟨hfind, hI⟩ | ⟨mid, m, hfind, hI, hM⟩
      · rw [hfind]
        have hnew : s₀.db.lookup (.I inp.fromUserId canonical) = none := by
          rw [← h.map _ (by simp)]
          exact hI
        have hends := stageMessage_ends hinv h hin.symm hst hI
        rcases hrun : stageMessage opts env b inp canonical s with ⟨r, s'⟩
        cases r with
        | ok b' =>
          obtain ⟨n, hn⟩ := hends.of_ok hrun
          exact ⟨ns ++ [n], hn⟩
        | error e =>
          have hf := hends.of_error hrun
          refine ⟨ns, (h.failed hinv hf).push (.refused hf.admissible fun c hc => ?_),
            fun hm => hm.push (isCreated_ofFailure hf.admissible.status) _⟩
          cases hc
          exact hnew
      · rw [hfind]
        rw [h.map _ (by simp)] at hI hM
        exact ⟨ns, h.push (.stored rfl ⟨mid, m, hI, hM, rfl⟩),
          fun hm => hm.push (isCreated_existingResult _ _) _⟩

def Checked (opts : Options) (env : Env) : ℕ → List (PersistInput × Except Failure Bytes) → Prop
  | _, [] => True
  | i, x :: xs => x.2 = checkInput opts env i x.1 ∧ Checked opts env (i + 1) xs

theorem checked_mapIdx (opts : Options) (env : Env) (inputs : List PersistInput) (i : ℕ) : Checked opts env i
    (inputs.mapIdx fun j inp => (inp, checkInput opts env (i + j) inp)) := by
  induction inputs generalizing i with
  | nil => trivial
  | cons inp inputs ih =>
    rw [List.mapIdx_cons]
    refine ⟨rfl, ?_⟩
    have h := ih (i + 1)
    simpa only [Nat.add_right_comm i 1, Nat.add_assoc] using h

theorem Staged.out_length (h : Staged env s₀ done b ns s) : b.out.length = done.length := by
  have hlen := h.items.length_eq
  rw [List.length_zip, h.length, Nat.min_self] at hlen
  exact hlen.symm

theorem stageItems_staged (hinv : Inv s₀) (items : List (PersistInput × Except Failure Bytes))
    (hitems : Checked opts env done.length items) (h : Staged env s₀ done b ns s) :
    ∃ ns', Staged env s₀ (done ++ items) (stageItems opts env items b s).1 ns'
      (stageItems opts env items b s).2 ∧
      (Matched b ns → Matched (stageItems opts env items b s).1 ns') := by
  induction items generalizing done b ns s with
  | nil => exact ⟨ns, by simpa [stageItems] using h, id⟩
  | cons x items ih =>
    obtain ⟨inp, checked⟩ := x
    have hin : checked = checkInput opts env b.out.length inp := by
      rw [h.out_length]
      exact hitems.1
    obtain ⟨ns', h', hmatch⟩ := stageItem_staged hinv h hin
    obtain ⟨ns'', h'', hmatch'⟩ := ih (by rw [List.length_append]; exact hitems.2) h'
    rw [List.append_cons]
    exact ⟨ns'', h'', fun hm => hmatch' (hmatch hm)⟩

/-! ## The end of a group -/

theorem forall₂_of_zip {α β γ : Type} {R : α → β × γ → Prop} {l : List α} {a : List β} {c : List γ}
    (hlen : c.length = a.length) (h : List.Forall₂ R l (a.zip c)) :
    List.Forall₂ (fun x r => ∃ p, R x (r, p)) l a := by
  have hmap : List.Forall₂ (fun x r => ∃ p, R x (r, p)) l ((a.zip c).map Prod.fst) :=
    List.forall₂_map_right_iff.2 (h.imp fun _ rp hr => ⟨rp.2, hr⟩)
  rwa [List.map_fst_zip (by omega)] at hmap

theorem forall₂_getElem {α β : Type} {R : α → β → Prop} {l : List α} {a : List β}
    (h : List.Forall₂ R l a) {i : ℕ} {x : α} {r : β} (hx : l[i]? = some x) (hr : a[i]? = some r) :
    R x r := by
  obtain ⟨hi, rfl⟩ := List.getElem?_eq_some_iff.1 hx
  obtain ⟨hi', rfl⟩ := List.getElem?_eq_some_iff.1 hr
  exact h.get hi hi'

theorem forall₂_mapIdx {α β : Type} {R S : α → β → Prop} {f : ℕ → β → β} {l : List α} {a : List β}
    (h : List.Forall₂ R l a) (hf : ∀ i x r, a[i]? = some r → R x r → S x (f i r)) :
    List.Forall₂ S l (a.mapIdx f) := by
  induction h generalizing f with
  | nil => exact .nil
  | cons hr _ ih =>
    rw [List.mapIdx_cons]
    exact .cons (hf 0 _ _ rfl hr) (ih fun i x r hi => hf (i + 1) x r hi)

theorem Item.outcome_of_false (hinv : Inv s) (hm : Moves persistKind s s')
    (h : Item env s.db ns inp checked r false) : Outcome opts env inp checked s r s' := by
  cases h with
  | refused hadm hnew => exact .failed hadm rfl hnew
  | stored hin hr => exact (Outcome.reused hin hr).around hinv (.refl s) (.refl s) hm

theorem Item.outcome_of_written {p : Bool} (hinv : Inv s)
    (hm : Moves persistKind s s') (hmap : ∀ n ∈ ns, Wal.Durable (InMap n) s'.log)
    (hevent : ∀ n ∈ ns, n.row.eventId = messageEventId n.message.messageId)
    (h : Item env s.db ns inp checked r p) : Outcome opts env inp checked s r s' := by
  cases h with
  | refused hadm hnew => exact .failed hadm rfl hnew
  | stored hin hr => exact (Outcome.reused hin hr).around hinv (.refl s) (.refl s) hm
  | @repeated c n hin hn hfrom hc hnew =>
    have hn' := (hinv.moves hm).live.durable (hmap n hn)
    refine .reused hin ⟨n.message.messageId, n.message, ?_, hn'.record, rfl⟩
    rw [← hfrom, ← hc]
    exact hn'.cid
  | created hin hn hc hnew hmessage hrecord hstatus houtcome htext =>
    exact .created hin hnew (hmap _ hn) hc (hevent _ hn) hmessage hrecord hstatus houtcome htext

theorem Item.new_of_uncommitted {db : Db} {p : Bool}
    (h : Item env db ns inp checked r p) (hp : p = true ∨ r.status = .storageError) :
    ∀ c, checked = .ok c → db.lookup (.I inp.fromUserId c) = none := by
  intro c hc
  cases h with
  | refused hadm hnew => exact hnew c hc
  | stored hin hr =>
    obtain ⟨mid, m, -, -, rfl⟩ := hr.stored
    rcases hp with hp | hp <;> cases hp
  | repeated hin hn hfrom hcn hnew =>
    rw [hin] at hc
    cases hc
    exact hnew
  | created hin hn hcn hnew =>
    rw [hin] at hc
    cases hc
    exact hnew

theorem Item.withUnread {db : Db} {p : Bool}
    (h : Item env db ns inp checked r p) (hstatus : r.status = .succeeded)
    (houtcome : r.outcome = .created) (u : Option CommittedUnreadSnapshot) :
    Item env db ns inp checked { r with committedUnread := u } p := by
  cases h with
  | refused hadm _ => exact absurd hstatus hadm.status
  | stored hin hr =>
    obtain ⟨mid, m, -, -, rfl⟩ := hr.stored
    simp only [existingResult] at houtcome
    split at houtcome <;> cases houtcome
  | repeated hin hn hfrom hc hnew =>
    simp only [existingResult] at houtcome
    split at houtcome <;> cases houtcome
  | created hin hn hc hnew hmessage hrecord hstatus houtcome htext =>
    exact .created hin hn hc hnew hmessage hrecord hstatus houtcome htext

/-- The end of a group: the results of its items once it is written, or given back. -/
theorem commitBatch_spec (opts : Options) (hinv : Inv s₀) (h : Staged env s₀ done b ns s) :
    Moves persistKind s₀ (commitBatch opts env b s).2 ∧
      List.Forall₂ (fun x r => Outcome opts env x.1 x.2 s₀ r (commitBatch opts env b s).2) done
        (commitBatch opts env b s).1 := by
  unfold commitBatch
  have hlen := h.overlay.length
  split
  · next hempty =>
    have hns : ns = [] := by
      rw [List.isEmpty_iff.1 hempty] at hlen
      exact List.eq_nil_of_length_eq_zero hlen.symm
    subst hns
    refine ⟨h.moves, (forall₂_of_zip h.length h.items).imp fun x r hr => ?_⟩
    obtain ⟨p, hp⟩ := hr
    exact hp.outcome_of_written hinv h.moves (by simp) (by simp)
  · have hfits : (Change.create ns).Fits s := ⟨h.fits, h.ids⟩
    have hends : Ends (write env ((Change.create ns).batch s.db) true) s
        (fun _ s' => s' = s.written (.create ns) ∧ s.poisoned = false) (Failed persistKind env s) :=
      write_ends trivial hfits
    rw [h.overlay.writes]
    change Ends (write env (groupBatch s.db ns) true) s _ _ at hends
    rcases hrun : write env (groupBatch s.db ns) true s with ⟨r, s'⟩
    cases r with
    | ok u =>
      obtain ⟨rfl, hp⟩ := hends.of_ok hrun
      have hsame := sameData_foldl (fun s (c : Create) => sameData_commit c.eventId s) b.creates
        (s.written (.create ns))
      have hm := (h.moves.written (c := .create ns) trivial hfits hp).frame hsame
      refine ⟨hm, forall₂_mapIdx (R := fun x r => ∃ p, Item env s₀.db ns x.1 x.2 r p)
        (forall₂_of_zip h.length h.items) ?_⟩
      rintro i x r hr ⟨p, hitem⟩
      have hfinal : Item env s₀.db ns x.1 x.2 (b.unreadResult opts i r) p := by
        unfold Batch.unreadResult
        split
        · next hmem =>
          obtain ⟨c, hc, hci⟩ := List.mem_map.1 (List.contains_iff_mem.1 hmem)
          obtain ⟨r', hr', hstatus, houtcome⟩ := h.indices c hc
          rw [hci, hr] at hr'
          cases hr'
          split
          · exact hitem.withUnread hstatus houtcome _
          · exact hitem
        · exact hitem
      refine hfinal.outcome_of_written hinv hm (fun n hn => ?_) fun n hn => h.fits.event hn
      rw [hsame.log]
      exact (hinv.moves h.moves).durable_written hp rfl (h.fits.inMap hn)
    | error e =>
      have hf := hends.of_error hrun
      have hsame := sameData_foldl (fun s (c : Create) =>
        (sameData_unprepare c.eventId s).trans (sameData_release _)) b.creates s'
      have hm := (h.moves.trans hf.moves).frame hsame
      refine ⟨hm, ?_⟩
      dsimp only
      rw [failUncommitted, ← List.map_uncurry_zip_eq_zipWith]
      refine List.forall₂_map_right_iff.2 (h.items.imp fun x rp hitem => ?_)
      obtain ⟨r, p⟩ := rp
      simp only [Function.uncurry]
      split
      · next hp =>
        refine .failed hf.admissible rfl (hitem.new_of_uncommitted ?_)
        simp only [Bool.or_eq_true, Bool.and_eq_true, decide_eq_true_eq] at hp
        exact hp.imp id And.left
      · next hp =>
        simp only [Bool.or_eq_true, not_or, Bool.not_eq_true] at hp
        rw [hp.1] at hitem
        exact hitem.outcome_of_false hinv hm

theorem staged_init (s : Store) : Staged env s [] {} [] s where
  moves := .refl s
  map := .refl _
  overlay := .empty _
  fits := trivial
  ids := by simp
  length := rfl
  items := .nil
  indices := by simp

theorem forall₂_of_length {α β : Type} {R : α → β → Prop} {l : List α} {a : List β}
    (hlen : l.length = a.length) (h : ∀ x, ∀ r ∈ a, R x r) : List.Forall₂ R l a :=
  List.forall₂_iff_get.2 ⟨hlen, fun _ _ _ => h _ _ (List.get_mem _ _)⟩

def checkInputs (opts : Options) (env : Env) (inputs : List PersistInput) :
    List (PersistInput × Except Failure Bytes) :=
  inputs.mapIdx fun i inp => (inp, checkInput opts env i inp)

theorem failUncommitted_locks {e : Failure} (he : Admissible env e) (hwhy : Refusal opts s e)
    (inputs : List PersistInput) :
    List.Forall₂ (fun x r => Outcome opts env x.1 x.2 s r s') (checkInputs opts env inputs)
      (failUncommitted e ((checkInputs opts env inputs).map fun x => resultBefore x.2)
        ((checkInputs opts env inputs).map fun _ => false)) := by
  rw [failUncommitted, List.zipWith_map, List.zipWith_self, List.forall₂_map_right_iff,
    List.forall₂_same]
  intro x hx
  obtain ⟨i, hi, rfl⟩ := List.mem_mapIdx.1 hx
  split
  · exact .refused (.refl s) hwhy he rfl
  · next hnot =>
    cases hc : checkInput opts env i inputs[i] with
    | error e' => exact .failed (checkInput_admissible _ e' hc) rfl (by simp)
    | ok c =>
      rw [hc] at hnot
      exact absurd rfl hnot

theorem persistBatch_spec (opts : Options) (env : Env) (inputs : List PersistInput) (h : Inv s) :
    Moves persistKind s (persistBatch opts env inputs s).2 ∧
      List.Forall₂ (fun x r => Outcome opts env x.1 x.2 s r (persistBatch opts env inputs s).2)
        (checkInputs opts env inputs) (persistBatch opts env inputs s).1 := by
  unfold persistBatch
  rw [← checkInputs]
  cases hopen : checkOpen s with
  | error e =>
    refine ⟨.refl s, forall₂_of_length (by simp [checkInputs]) fun x r hr => ?_⟩
    obtain ⟨_, -, rfl⟩ := List.mem_map.1 hr
    exact .refused (.refl s) (.closed hopen) (checkOpen_admissible s e hopen) rfl
  | ok u =>
    dsimp only
    have hlock : Ends (lockUsers opts (batchActors (checkInputs opts env inputs))) s
        (fun _ s' => SameData s s') fun e s' => SameData s s' ∧ Admissible env e := lockUsers_ends _
    rcases hrun : lockUsers opts (batchActors (checkInputs opts env inputs)) s with ⟨r, s'⟩
    cases r with
    | error e =>
      obtain ⟨hsame, hadm⟩ := hlock.of_error hrun
      exact ⟨(Moves.refl s).frame hsame, failUncommitted_locks hadm (.locks hrun) inputs⟩
    | ok u =>
      have hm : Moves persistKind s s' := (Moves.refl s).frame (hlock.of_ok hrun)
      have hchecked : Checked opts env 0 (checkInputs opts env inputs) := by
        simpa [checkInputs] using checked_mapIdx opts env inputs 0
      obtain ⟨ns, hst, -⟩ := stageItems_staged (h.moves hm) (checkInputs opts env inputs) hchecked
        (staged_init s')
      obtain ⟨hms, houts⟩ := commitBatch_spec opts (h.moves hm) hst
      refine ⟨hm.trans hms, ?_⟩
      exact houts.imp fun x r hx => hx.around h hm hms (.refl _)

theorem persistPrivateMessages_oversized (opts : Options) (env : Env) {inputs : List PersistInput}
    (hlen : 64 < inputs.length) (s : Store) :
    persistPrivateMessages opts env inputs s = (inputs.map fun _ =>
      { status := .invalidArgument, message := "local private persistence batch exceeds64" }, s) :=
  if_pos hlen

theorem persistPrivateMessages_spec (opts : Options) (env : Env) {inputs : List PersistInput}
    (hlen : inputs.length ≤ 64) (h : Inv s) :
    Moves persistKind s (persistPrivateMessages opts env inputs s).2 ∧
      List.Forall₂ (fun x r => Outcome opts env x.1 x.2 s r (persistPrivateMessages opts env inputs s).2)
        (checkInputs opts env inputs) (persistPrivateMessages opts env inputs s).1 := by
  rw [persistPrivateMessages, if_neg hlen.not_gt]
  split
  · next hempty =>
    obtain rfl := List.isEmpty_iff.1 hempty
    exact ⟨.refl s, .nil⟩
  · split
    · simpa [checkInputs] using persistEach_spec opts env inputs 0 h
    · exact persistBatch_spec opts env inputs h

theorem persistPrivateMessages_moves (opts : Options) (env : Env) (inputs : List PersistInput)
    (h : Inv s) : Moves persistKind s (persistPrivateMessages opts env inputs s).2 := by
  rcases lt_or_ge 64 inputs.length with hlen | hlen
  · rw [persistPrivateMessages_oversized opts env hlen]
    exact .refl s
  · exact (persistPrivateMessages_spec opts env hlen h).1

end TinyImx.Local
