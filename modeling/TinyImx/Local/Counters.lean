import Mathlib.Algebra.BigOperators.Finprod
import TinyImx.Local.System
import TinyImx.Local.Queries

/-!
# Counters and indices agree with the messages

In every state a run reaches, the unread and pending counters are the numbers of messages they stand
for and the pending index is exact; so the checks the store makes on them never fire.
-/

namespace TinyImx.Local

open Kv Act

def storedMessages (db : Db) : List MessageView :=
  db.entries.filterMap fun
    | ⟨.M _, m⟩ => some m
    | _ => none

variable {opts : Options} {env : Env} {s : Store} {db : Db}

theorem recordCount_eq_countP (φ : MessageView → Bool) (db : Db) :
    recordCount φ db = (storedMessages db).countP φ := by
  unfold recordCount tally storedMessages
  induction db.entries with
  | nil => rfl
  | cons e l ih =>
    obtain ⟨k, v⟩ := e
    rw [List.map_cons, List.sum_cons, ih]
    cases k with
    | M mid =>
      simp only [List.filterMap_cons, List.countP_cons, recordWeight]
      cases φ v <;> simp [Nat.add_comm]
    | _ => simp [recordWeight]

/-! ## Totals -/

theorem countP_unreadFor_eq_sum (r : ℕ) (l : List MessageView) (S : Finset ℕ)
    (hS : ∀ m ∈ l, m.fromUserId ∈ S) :
    l.countP (unreadFor · r) = ∑ p ∈ S, l.countP (unreadFrom r p) := by
  induction l with
  | nil => simp
  | cons m l ih =>
    have hm := hS m List.mem_cons_self
    simp only [List.countP_cons, Finset.sum_add_distrib]
    rw [ih fun m' hm' => hS m' (List.mem_cons_of_mem _ hm')]
    congr 1
    rw [Finset.sum_eq_single_of_mem m.fromUserId hm]
    · simp [unreadFrom]
    · intro p _ hp
      simp [unreadFrom, Ne.symm hp]

theorem Sound.sum_dialogs (h : Sound db) (r : ℕ) (S : Finset ℕ)
    (hS : ∀ p, 0 < dialogCount db r p → p ∈ S) : ∑ p ∈ S, dialogCount db r p = totalCount db r := by
  set senders := ((storedMessages db).map MessageView.fromUserId).toFinset with hsenders
  have hall : totalCount db r = ∑ p ∈ S ∪ senders, dialogCount db r p := by
    rw [h.totalUnread, recordCount_eq_countP, countP_unreadFor_eq_sum r _ (S ∪ senders)]
    · refine Finset.sum_congr rfl fun p _ => ?_
      rw [h.dialogUnread, recordCount_eq_countP]
    · intro m hm
      exact Finset.mem_union_right _ (List.mem_toFinset.2 (List.mem_map_of_mem hm))
  rw [hall]
  refine Finset.sum_subset Finset.subset_union_left fun p _ hp => ?_
  by_contra hne
  exact hp (hS p (Nat.pos_of_ne_zero hne))

theorem Sound.finite_dialogs (h : Sound db) (r : ℕ) :
    (Function.support (dialogCount db r)).Finite := by
  refine Set.Finite.subset ((storedMessages db).map MessageView.fromUserId).toFinset.finite_toSet ?_
  intro p hp
  have hpos : 0 < recordCount (unreadFrom r p) db := by
    rw [← h.dialogUnread]
    exact Nat.pos_of_ne_zero hp
  rw [recordCount_eq_countP, List.countP_pos_iff] at hpos
  obtain ⟨m, hm, hu⟩ := hpos
  simp only [unreadFrom, Bool.and_eq_true, decide_eq_true_eq] at hu
  exact List.mem_toFinset.2 (List.mem_map.2 ⟨m, hm, hu.1⟩)

theorem Sound.total_eq_finsum (h : Sound db) (r : ℕ) :
    totalCount db r = ∑ᶠ p, dialogCount db r p := by
  rw [finsum_eq_sum _ (h.finite_dialogs r)]
  refine (h.sum_dialogs r _ fun p hp => ?_).symm
  simpa using hp.ne'

/-! ## Queries -/

theorem mem_pendingMessages {r mid : ℕ} :
    mid ∈ pendingMessages db r ↔ (db.lookup (.P r mid)).isSome := by
  rw [pendingMessages, mem_scan, AList.lookup_isSome]
  constructor
  · grind
  · intro hk
    exact ⟨_, hk, by simp⟩

theorem Rows.pendingRecord_eq (h : Rows db) {r mid : ℕ} (hmid : mid ∈ pendingMessages db r) :
    ∃ m, pendingRecord db r mid = .ok m := by
  obtain ⟨m, hm, hp⟩ := (h.pending r mid).1 (mem_pendingMessages.1 hmid)
  simp only [pendingFor, Bool.and_eq_true, decide_eq_true_eq] at hp
  refine ⟨m, ?_⟩
  simp [pendingRecord, h.record_eq, hm, GetResult.Found, require, hp.1, hp.2, bind, Except.bind,
    pure, Except.pure]

theorem mem_unreadPeers {r p : ℕ} : p ∈ unreadPeers db r ↔ (db.lookup (.R r p)).isSome := by
  rw [unreadPeers, mem_scan, AList.lookup_isSome]
  constructor
  · grind
  · intro hk
    exact ⟨_, hk, by simp⟩

theorem unreadPeers_nodup (db : Db) (r : ℕ) : (unreadPeers db r).Nodup := by
  refine scan_nodup db ?_
  intro k k' n hk hk'
  cases k with
  | R r₁ p₁ =>
    cases k' with
    | R r₂ p₂ =>
      dsimp only at hk hk'
      simp_all
    | _ => cases hk'
  | _ => cases hk

theorem unreadLoop_total {r : ℕ} {peers : List ℕ} {out out' : UserUnreadResult}
    (h : unreadLoop db r peers out = .ok out') :
    out'.totalUnread = out.totalUnread + (peers.map (dialogCount db r)).sum ∧
      out'.message = out.message := by
  induction peers generalizing out with
  | nil =>
    cases h
    exact ⟨rfl, rfl⟩
  | cons p peers ih =>
    obtain ⟨_, _, h⟩ := bind_eq_ok.1 h
    obtain ⟨htotal, hmessage⟩ := ih h
    rw [htotal, hmessage, List.map_cons, List.sum_cons]
    exact ⟨by dsimp only; omega, rfl⟩

theorem unreadLoop_raises {r : ℕ} (peers : List ℕ) (out : UserUnreadResult) :
    Raises (unreadLoop db r peers out) (Admissible env) := by
  induction peers generalizing out with
  | nil => exact raises_ok _ _
  | cons p peers ih => exact (raises_admissible (by decide)).bind fun _ _ => ih _

theorem mapM_raises {α β : Type} {f : α → Except Failure β} {P : Failure → Prop} {l : List α}
    (h : ∀ a ∈ l, Raises (f a) P) : Raises (l.mapM f) P := by
  induction l with
  | nil => exact raises_ok _ _
  | cons a l ih =>
    rw [List.mapM_cons]
    refine (h a List.mem_cons_self).bind fun _ _ => ?_
    exact (ih fun b hb => h b (List.mem_cons_of_mem _ hb)).bind fun _ _ => raises_ok _ _

theorem Sound.sum_unreadPeers (h : Sound db) (r : ℕ) :
    ((unreadPeers db r).map (dialogCount db r)).sum = totalCount db r := by
  rw [← List.sum_toFinset _ (unreadPeers_nodup db r)]
  exact h.sum_dialogs r _ fun p hp => List.mem_toFinset.2 (mem_unreadPeers.2 (h.peer r p hp))

/-! ## What the queries report -/

theorem call_text {α β : Type} {x : StoreM α} {ok : α → β} {failed : Failure → β}
    (message : β → String) (hfailed : ∀ e, message (failed e) = e.message)
    (h : Ends x s (fun a _ => TextOk env (message (ok a))) fun e _ => Admissible env e) :
    TextOk env (message (call x ok failed s).1) := by
  rcases call_ends ok failed (checkOpen_admissible s) fun _ => h with ⟨a, hr, hq⟩ | ⟨e, hr, hf⟩
  · rw [hr]
    exact hq
  · rw [hr, hfailed]
    exact hf.text

theorem listPendingAfter_text (h : Rows s.db) (receiver after limit : ℕ) :
    TextOk env (listPendingAfter opts receiver after limit s).1.message := by
  refine call_text PendingResult.message (fun _ => rfl) ?_
  refine check_bind (actor_admissible _) fun _ _ => ?_
  refine check_bind (raises_admissible (by decide)) fun _ _ => ?_
  refine Ends.inspect_bind ?_ fun _ _ => Ends.pure textOk_empty
  refine mapM_raises fun mid hmid => ?_
  obtain ⟨m, hm⟩ := h.pendingRecord_eq (List.mem_filter.1 (List.mem_of_mem_take hmid)).1
  rw [hm]
  exact raises_ok _ _

theorem readUserUnreadSnapshot_text (h : Sound s.db) (receiver : ℕ) :
    TextOk env (readUserUnreadSnapshot opts receiver s).1.message := by
  refine call_text UserUnreadResult.message (fun _ => rfl) ?_
  refine check_bind (actor_admissible _) fun _ _ => ?_
  refine Ends.read_bind (check_bind (unreadLoop_raises _ _) fun out hout => ?_)
  obtain ⟨htotal, hmessage⟩ := unreadLoop_total hout
  rw [h.sum_unreadPeers, Nat.zero_add] at htotal
  refine check_bind ?_ fun _ _ => Ends.pure ?_
  · simp only [require, decide_eq_true htotal]
    exact raises_ok _ _
  · rw [id, hmessage]
    exact textOk_empty

theorem Rows.findRecord_eq (h : Rows db) (f : ℕ) (c : Bytes) :
    ∃ r, findRecord db f c = .ok r ∧ r.message = "" := by
  unfold findRecord
  cases hI : db.lookup (.I f c) with
  | none => exact ⟨_, rfl, rfl⟩
  | some mid =>
    obtain ⟨m, hm, hf, hK⟩ := h.cid hI
    rw [← h.messageId hm] at hK
    simp [h.record_eq, hm, GetResult.Found, require, hf, hK, bind, Except.bind, pure, Except.pure]

theorem findPrivateMessage_text (h : Rows s.db) (fromUser : ℕ) (cid : Bytes) :
    TextOk env (findPrivateMessageByClientMessageId opts env fromUser cid s).1.message := by
  refine call_text GetResult.message (fun _ => rfl) ?_
  refine check_bind (actor_admissible _) fun _ _ => ?_
  refine check_bind (raises_admissible (by decide)) fun _ _ => ?_
  refine check_bind (identity_admissible _ _ _ _) fun canonical _ => ?_
  obtain ⟨r, hr, hmessage⟩ := h.findRecord_eq fromUser canonical
  refine Ends.inspect (fun a ha => ?_) fun e he => ?_
  · rw [hr] at ha
    cases ha
    rw [id, hmessage]
    exact textOk_empty
  · rw [hr] at he
    cases he

/-- Some call on the store reports `text`. -/
inductive Reported (opts : Options) (env : Env) (s : Store) (text : String) : Prop
  | persist (item : ℕ) (inp : PersistInput)
      (h : (persistPrivateMessage opts env item inp s).1.message = text)
  | persistMany (inputs : List PersistInput) (r : PersistResult)
      (hr : r ∈ (persistPrivateMessages opts env inputs s).1) (h : r.message = text)
  | confirm (mid receiver : ℕ) (h : (confirmReceiver opts env mid receiver s).1.message = text)
  | confirmBatch (mids : List ℕ) (h : (confirmReceiverBatch opts env mids s).1.message = text)
  | confirmRequests (inputs : List OwnedReceiverConfirmation) (r : MutationResult)
      (hr : r ∈ (confirmReceiverRequests opts env inputs s).1) (h : r.message = text)
  | markRead (reader peer : ℕ) (h : (markDialogRead opts env reader peer s).1.message = text)
  | listPending (receiver after limit : ℕ)
      (h : (listPendingAfter opts receiver after limit s).1.message = text)
  | userUnread (receiver : ℕ) (h : (readUserUnreadSnapshot opts receiver s).1.message = text)
  | find (fromUser : ℕ) (cid : Bytes)
      (h : (findPrivateMessageByClientMessageId opts env fromUser cid s).1.message = text)

theorem Outcome.text {inp : PersistInput} {checked : Except Failure Bytes} {r : PersistResult}
    {s' : Store} (h : Outcome opts env inp checked s r s') : TextOk env r.message := by
  cases h with
  | refused ht he hadm hr =>
    rw [hr]
    exact hadm.text
  | failed hadm hr hnew =>
    rw [hr]
    exact hadm.text
  | reused hin hr =>
    obtain ⟨mid, m, -, -, rfl⟩ := hr.stored
    exact textOk_empty
  | created hin hnew hdurable hc hevent hmessage hrecord hstatus houtcome htext =>
    rw [htext]
    exact textOk_empty

theorem exists_of_forall₂ {α β : Type} {R : α → β → Prop} {l : List α} {a : List β}
    (h : List.Forall₂ R l a) {r : β} (hr : r ∈ a) : ∃ x ∈ l, R x r := by
  induction h with
  | nil => cases hr
  | cons hx _ ih =>
    rcases List.mem_cons.1 hr with rfl | hr
    · exact ⟨_, List.mem_cons_self, hx⟩
    · grind

theorem Inv.reported (h : Inv s) {text : String} (ht : text ∈ internalChecks)
    (hr : Reported opts env s text) : FromHook env text := by
  have hok : ∀ {text' : String}, TextOk env text' → text' = text → FromHook env text := by
    rintro _ htext rfl
    exact htext ht
  cases hr with
  | persist item inp h' => exact hok (persistPrivateMessage_spec opts env item inp h).2.text h'
  | persistMany inputs r hr h' =>
    rcases lt_or_ge 64 inputs.length with hlen | hlen
    · rw [persistPrivateMessages_oversized opts env hlen] at hr
      obtain ⟨_, -, rfl⟩ := List.mem_map.1 hr
      exact hok (textOk_of_not_mem (by decide)) h'
    · obtain ⟨-, hall⟩ := persistPrivateMessages_spec opts env hlen h
      obtain ⟨x, -, hx⟩ := exists_of_forall₂ hall hr
      exact hok hx.text h'
  | confirm mid receiver h' => exact hok (confirmReceiver_spec opts env mid receiver h).text h'
  | confirmBatch mids h' => exact hok (confirmReceiverBatch_spec opts env mids h).text h'
  | confirmRequests inputs r hr h' =>
    exact hok ((confirmReceiverRequests_spec opts env inputs h).2 r hr) h'
  | markRead reader peer h' => exact hok (markDialogRead_spec opts env reader peer h).text h'
  | listPending receiver after limit h' =>
    exact hok (listPendingAfter_text h.sound.toRows receiver after limit) h'
  | userUnread receiver h' => exact hok (readUserUnreadSnapshot_text h.sound receiver) h'
  | find fromUser cid h' => exact hok (findPrivateMessage_text h.sound.toRows fromUser cid) h'

/-- Every counter and index agrees with the stored messages, so no counter check fires. -/
theorem counters_match_records (h : Reachable opts s) :
    (∀ r p, dialogCount s.db r p = (storedMessages s.db).countP fun m =>
      m.fromUserId = p && m.toUserId = r &&
        (m.deliveryState = .pending || m.deliveryState = .receiverConfirmed)) ∧
    (∀ r, totalCount s.db r = ∑ᶠ p, dialogCount s.db r p) ∧
    (∀ r, s.db.lookup (.Q r) =
      let n := (storedMessages s.db).countP fun m =>
        m.toUserId = r && m.deliveryState = .pending
      if n = 0 then none else some n) ∧
    (∀ r mid, (s.db.lookup (.P r mid)).isSome ↔
      ∃ m, s.db.lookup (.M mid) = some m ∧ m.deliveryState = .pending ∧ m.toUserId = r) ∧
    (∀ r p, 0 < dialogCount s.db r p → (s.db.lookup (.R r p)).isSome) ∧
    ∀ env, ∀ text ∈ counterChecks, Reported opts env s text → FromHook env text := by
  have hsound := h.inv.sound
  refine ⟨fun r p => ?_, hsound.total_eq_finsum, fun r => ?_, fun r mid => ?_, hsound.peer, ?_⟩
  · rw [hsound.dialogUnread, recordCount_eq_countP]
    refine List.countP_congr fun m _ => ?_
    rw [unreadFrom, unreadFor, ← Bool.and_assoc]
  · rw [hsound.pendingTotal, recordCount_eq_countP]
    rfl
  · rw [hsound.pending]
    refine exists_congr fun m => and_congr_right fun _ => ?_
    simp only [pendingFor, Bool.and_eq_true, decide_eq_true_eq]
    exact and_comm
  · intro env text htext hr
    exact h.inv.reported (List.mem_append_left _ htext) hr

theorem counters_match_records_sent : dialogCount sampleSent.db 2 1 = 1 ∧
    totalCount sampleSent.db 2 = ∑ᶠ p, dialogCount sampleSent.db 2 p :=
  ⟨by decide, (counters_match_records sampleSent_reachable).2.1 2⟩

/-! ## What a reader is told -/

def unreadTotal (s : Store) (r : ℕ) : ℕ := (storedMessages s.db).countP (unreadFor · r)

def unreadOf (s : Store) (r p : ℕ) : ℕ := (storedMessages s.db).countP (unreadFrom r p)

theorem status_of_admissible {α : Type} {x : Except Failure α}
    (h : Raises x (Admissible sampleEnv)) : Raises x (·.status ≠ .succeeded) :=
  fun e he => (h e he).status

theorem call_succeeded {α β : Type} {x : StoreM α} {ok : α → β} {failed : Failure → β}
    (status : β → Status) (P : β → Prop)
    (h : Ends x s (fun a _ => P (ok a)) fun e _ => e.status ≠ .succeeded)
    (hfailed : ∀ e, status (failed e) = e.status)
    (hs : status (call x ok failed s).1 = .succeeded) : P (call x ok failed s).1 := by
  rcases call_ends ok failed (status_of_admissible (checkOpen_admissible s)) fun _ => h with
    ⟨a, hr, hq⟩ | ⟨e, hr, he⟩
  · exact hr ▸ hq
  · exact absurd ((hfailed e).symm.trans (hr ▸ hs)) he

theorem unreadLoop_peers {r : ℕ} {peers : List ℕ} {out out' : UserUnreadResult}
    (h : unreadLoop db r peers out = .ok out') :
    out'.peerCounts = out.peerCounts ++ peers.map fun p => (p, dialogCount db r p) := by
  induction peers generalizing out with
  | nil =>
    cases h
    simp
  | cons p peers ih =>
    obtain ⟨_, _, h⟩ := bind_eq_ok.1 h
    simp [ih h]

/-- Every reachable store answers a reader what its messages say: the pending count, the two unread
counts of a dialog, and one entry for each peer with the number of its unread messages. -/
theorem reads_exact (h : Reachable opts s) (r : ℕ) :
    ((countPending opts r s).1.status = .succeeded →
      (countPending opts r s).1.count = (storedMessages s.db).countP (pendingFor r)) ∧
    (∀ p, (readUnreadSnapshot opts r p s).1.status = .succeeded →
      (readUnreadSnapshot opts r p s).1.privateUnread = unreadOf s r p ∧
      (readUnreadSnapshot opts r p s).1.totalUnread = unreadTotal s r) ∧
    ((readUserUnreadSnapshot opts r s).1.status = .succeeded →
      (readUserUnreadSnapshot opts r s).1.totalUnread = unreadTotal s r ∧
      ((readUserUnreadSnapshot opts r s).1.peerCounts.map Prod.fst).Nodup ∧
      (∀ p n, (p, n) ∈ (readUserUnreadSnapshot opts r s).1.peerCounts → n = unreadOf s r p) ∧
      ∀ p, 0 < unreadOf s r p →
        p ∈ (readUserUnreadSnapshot opts r s).1.peerCounts.map Prod.fst) := by
  have hsound := h.inv.sound
  have hdialog : ∀ p, dialogCount s.db r p = unreadOf s r p := fun p =>
    (hsound.dialogUnread r p).trans (recordCount_eq_countP _ _)
  have htotal : totalCount s.db r = unreadTotal s r :=
    (hsound.totalUnread r).trans (recordCount_eq_countP _ _)
  have hactor := status_of_admissible (@actor_admissible sampleEnv opts r)
  refine ⟨fun hs => ?_, fun p hs => ?_, fun hs => ?_⟩
  · refine call_succeeded CountResult.status (fun c => c.count = _) ?_ (fun _ => rfl) hs
    refine check_bind hactor fun _ _ => Ends.read_bind (Ends.pure ?_)
    exact (hsound.pendingCount_eq r).trans (recordCount_eq_countP _ _)
  · refine call_succeeded UnreadResult.status (fun c => c.privateUnread = _ ∧ c.totalUnread = _) ?_
      (fun _ => rfl) hs
    refine check_bind (status_of_admissible (dialog_admissible r p)) fun _ _ => Ends.read_bind ?_
    refine check_bind ?_ fun _ _ => Ends.pure ⟨hdialog p, htotal⟩
    simp only [require, decide_eq_true (hsound.dialog_le_total r p)]
    exact raises_ok _ _
  · refine call_succeeded UserUnreadResult.status (fun c => c.totalUnread = unreadTotal s r ∧
      (c.peerCounts.map Prod.fst).Nodup ∧ (∀ p n, (p, n) ∈ c.peerCounts → n = unreadOf s r p) ∧
      ∀ p, 0 < unreadOf s r p → p ∈ c.peerCounts.map Prod.fst) ?_ (fun _ => rfl) hs
    refine check_bind hactor fun _ _ => Ends.read_bind ?_
    refine check_bind (status_of_admissible (unreadLoop_raises _ _)) fun out hout => ?_
    obtain ⟨hsum, -⟩ := unreadLoop_total hout
    have hpeers := unreadLoop_peers hout
    rw [hsound.sum_unreadPeers, Nat.zero_add] at hsum
    rw [List.nil_append] at hpeers
    have hfst : out.peerCounts.map Prod.fst = unreadPeers s.db r := by
      rw [hpeers, List.map_map]
      exact List.map_id _
    refine check_bind ?_ fun _ _ =>
      Ends.pure ⟨hsum.trans htotal, hfst ▸ unreadPeers_nodup _ r, ?_, ?_⟩
    · simp only [require, decide_eq_true hsum]
      exact raises_ok _ _
    · intro p n hmem
      rw [id, hpeers] at hmem
      obtain ⟨q, -, heq⟩ := List.mem_map.1 hmem
      cases heq
      exact hdialog p
    · intro p hp
      rw [id, hfst]
      exact mem_unreadPeers.2 (hsound.peer r p (hdialog p ▸ hp))

theorem reads_exact_sent :
    (readUserUnreadSnapshot sampleOptions 2 sampleSent).1.peerCounts = [(1, 1)] ∧
    ((readUserUnreadSnapshot sampleOptions 2 sampleSent).1.peerCounts.map Prod.fst).Nodup :=
  ⟨by decide, ((reads_exact sampleSent_reachable 2).2.2 (by decide)).2.1⟩

end TinyImx.Local
