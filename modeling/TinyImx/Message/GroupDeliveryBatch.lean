import TinyImx.Message.GroupDelivery
import Mathlib.Algebra.Ring.Nat

/-!
# Batches of group deliveries refine single operations

A batch of completions joins the table with its entries, a batch of confirmations reads and then
changes the rows of all its identities, and a claim may lease its rows by one statement.  Each leaves
the table that the single operations leave one after the other, and returns what they return.
-/

namespace TinyImx.Message.Delivery

open TinyImx.Local (Bytes Status MutationResult)
open List (find?_eq_none foldlM_cons mem_cons_of_mem mem_cons_self mem_map mem_singleton
  pairwise_cons)
open KeyedTable (row changes execute affected key_row mem_execute execute_execute affected_add
  affected_eq eq_of_key)

variable {now : ℕ} {t : Table} {r : Delivery}

theorem assign_ne {β : Type} {set : Delivery → Delivery} (column : Delivery → β)
    (hcolumn : ∀ r u, column { r with updatedAt := u } = column r)
    (h : column (set r) ≠ column r) : assign now set r ≠ r := by
  have hset : set r ≠ r := fun hr => h (by rw [hr])
  rw [assign, if_neg hset]
  grind

theorem changes_statement {β : Type} {condition : Delivery → Bool} {set : Delivery → Delivery}
    {keeps : ∀ r, (set r).key = r.key} (column : Delivery → β)
    (hcolumn : ∀ r u, column { r with updatedAt := u } = column r)
    (h : condition r = true → column (set r) ≠ column r) :
    changes (statement now condition set keeps) r = condition r := by
  show (condition r && decide (assign now set r ≠ r)) = condition r
  by_cases hc : condition r = true
  · simp [hc, assign_ne column hcolumn (h hc)]
  · simp [hc]

/-! ## Completions -/

section Completions

variable {κ : Type} [DecidableEq κ] {collate : Bytes → κ} {item : Completion}
  {items : List Completion}

theorem owns_iff : item.owns collate r = true ↔ r.key = item.key ∧
    (∃ token, r.leaseToken = some token ∧ collate token = collate item.leaseToken) ∧
    r.deliveryStatus = kPending := by
  cases htoken : r.leaseToken <;> simp [Completion.owns, htoken, and_assoc]

theorem changes_completion : changes (item.statement collate now) r = item.owns collate r := by
  refine changes_statement Delivery.leaseToken (fun _ _ => rfl) fun howns => ?_
  obtain ⟨-, ⟨token, htoken, -⟩, -⟩ := owns_iff.1 howns
  simp [Completion.set, htoken]

theorem leaseToken_assign : (assign now (item.set now) r).leaseToken = none := by
  rw [assign]
  split
  · next hset => rw [← hset]; rfl
  · rfl

theorem not_owns_of_token (h : r.leaseToken = none) : item.owns collate r = false := by
  simp [Completion.owns, h]

theorem row_of_owns (h : item.owns collate r = true) :
    row (item.statement collate now) r = assign now (item.set now) r := if_pos h

theorem row_of_not_owns (h : item.owns collate r = false) :
    row (item.statement collate now) r = r := by
  refine if_neg fun howns => ?_
  exact Bool.false_ne_true (h.symm.trans howns)

theorem owns_of_joined (h : joined collate items r = some item) :
    item.owns collate r = true ∧ item ∈ items := by
  have howns := List.find?_some (p := fun item : Completion => item.owns collate r) h
  exact ⟨howns, List.mem_of_find?_eq_some h⟩

theorem joined_cons_of_owns (h : item.owns collate r = true) :
    joined collate (item :: items) r = some item :=
  List.find?_cons_of_pos h

theorem joined_cons_of_not_owns (h : item.owns collate r = false) :
    joined collate (item :: items) r = joined collate items r :=
  List.find?_cons_of_neg (by simp [h])

theorem joined_of_token (h : r.leaseToken = none) : joined collate items r = none :=
  find?_eq_none.2 fun item _ => by simp [not_owns_of_token h]

theorem row_join_of_some (h : joined collate items r = some item) :
    row (joinStatement collate now items) r = assign now (item.set now) r := by
  simp [row, joinStatement, statement, assign, h]

theorem row_join_of_none (h : joined collate items r = none) :
    row (joinStatement collate now items) r = r := by
  simp [row, joinStatement, statement, h]

theorem changes_join : changes (joinStatement collate now items) r =
    (joined collate items r).isSome := by
  refine changes_statement Delivery.leaseToken (fun _ _ => rfl) fun hsome => ?_
  obtain ⟨item, hjoined⟩ := Option.isSome_iff_exists.1 hsome
  obtain ⟨-, ⟨token, htoken, -⟩, -⟩ := owns_iff.1 (owns_of_joined hjoined).1
  simp [hjoined, Completion.set, htoken]

theorem row_join_cons : row (joinStatement collate now items) (row (item.statement collate now) r) =
    row (joinStatement collate now (item :: items)) r := by
  by_cases howns : item.owns collate r = true
  · rw [row_of_owns howns, row_join_of_some (joined_cons_of_owns howns)]
    exact row_join_of_none (joined_of_token leaseToken_assign)
  · have howns : item.owns collate r = false := by simpa using howns
    rw [row_of_not_owns howns]
    cases hjoined : joined collate items r with
    | none =>
      rw [row_join_of_none hjoined, row_join_of_none]
      rw [joined_cons_of_not_owns howns, hjoined]
    | some other =>
      rw [row_join_of_some hjoined, row_join_of_some]
      rw [joined_cons_of_not_owns howns, hjoined]

theorem changes_join_cons : (changes (item.statement collate now) r).toNat +
    (changes (joinStatement collate now items) (row (item.statement collate now) r)).toNat =
      (changes (joinStatement collate now (item :: items)) r).toNat := by
  rw [changes_completion, changes_join, changes_join]
  by_cases howns : item.owns collate r = true
  · rw [row_of_owns howns, joined_of_token leaseToken_assign, joined_cons_of_owns howns, howns]
    rfl
  · have howns : item.owns collate r = false := by simpa using howns
    rw [row_of_not_owns howns, joined_cons_of_not_owns howns, howns]
    simp

theorem completeEach_eq (collate : Bytes → κ) (now : ℕ)
    (hvalid : ∀ item ∈ items, item.valid = true) (t : Table) :
    (completeEach collate now items t).2 = t.execute (joinStatement collate now items) ∧
      ((completeEach collate now items t).1.map MutationResult.affectedRows).sum =
        t.affected (joinStatement collate now items) ∧
      ∀ result ∈ (completeEach collate now items t).1, result.status = .succeeded := by
  induction items generalizing t with
  | nil =>
    refine ⟨(KeyedTable.execute_eq_self fun r _ => row_join_of_none rfl).symm, ?_, nofun⟩
    refine (List.countP_eq_zero.2 fun r _ => ?_).symm
    rw [changes_join]
    nofun
  | cons item items ih =>
    have hitem := hvalid item mem_cons_self
    obtain ⟨htable, hsum, hstatus⟩ := ih (fun other hother =>
      hvalid other (mem_cons_of_mem item hother)) (t.execute (item.statement collate now))
    have hone : completeGroupMessageDeliveryAttempt collate now item t =
        (⟨.succeeded, t.affected (item.statement collate now), "group delivery attempt completed"⟩,
          t.execute (item.statement collate now)) := by
      simp [completeGroupMessageDeliveryAttempt, hitem]
    simp only [completeEach, hone]
    refine ⟨?_, ?_, ?_⟩
    · rw [htable]
      exact execute_execute fun r _ => row_join_cons
    · rw [List.map_cons, List.sum_cons, hsum]
      exact affected_add fun r _ => changes_join_cons
    · simp_all

theorem joined_perm {items' : List Completion} (hperm : items'.Perm items)
    (hnodup : (items.map Completion.key).Nodup) :
    joined collate items' r = joined collate items r := by
  cases hjoined : joined collate items r with
  | none =>
    refine find?_eq_none.2 fun item hitem => ?_
    exact find?_eq_none.1 hjoined item (hperm.mem_iff.1 hitem)
  | some item =>
    obtain ⟨howns, hmem⟩ := owns_of_joined hjoined
    cases hjoined' : joined collate items' r with
    | none =>
      exact absurd howns (find?_eq_none.1 hjoined' item (hperm.mem_iff.2 hmem))
    | some other =>
      obtain ⟨howns', hmem'⟩ := owns_of_joined hjoined'
      have hkey : other.key = item.key := (owns_iff.1 howns').1.symm.trans (owns_iff.1 howns).1
      rw [List.inj_on_of_nodup_map hnodup (hperm.mem_iff.1 hmem') hmem hkey]

theorem joinStatement_perm {items' : List Completion} (hperm : items'.Perm items)
    (hnodup : (items.map Completion.key).Nodup) :
    joinStatement collate now items' = joinStatement collate now items := by
  have hjoined : joined collate items' = joined collate items :=
    funext fun r => joined_perm hperm hnodup
  simp [joinStatement, hjoined]

end Completions

/-! ## Confirmations -/

section Confirmations

variable {id : ℕ × ℕ} {ids : List (ℕ × ℕ)}

def Unconfirmed (t : Table) (id : ℕ × ℕ) : Prop :=
  ∃ r ∈ t.rows, r.key = id ∧ r.deliveryStatus ≠ kDelivered

theorem condition_confirm (now : ℕ) (ids : List (ℕ × ℕ)) (r : Delivery) :
    (confirmStatement now ids).condition r = true ↔
      r.key ∈ ids ∧ r.deliveryStatus ≠ kDelivered := by
  simp [confirmStatement, statement]

theorem changes_confirm :
    changes (confirmStatement now ids) r = true ↔ r.key ∈ ids ∧ r.deliveryStatus ≠ kDelivered := by
  have hchanges : changes (confirmStatement now ids) r = (confirmStatement now ids).condition r := by
    refine changes_statement Delivery.deliveryStatus (fun _ _ => rfl) fun h => ?_
    exact ((condition_confirm now ids r).1 h).2.symm
  rw [hchanges, condition_confirm]

theorem row_confirm (hkey : r.key ∈ ids) (hstatus : r.deliveryStatus ≠ kDelivered) :
    row (confirmStatement now ids) r = assign now (confirm now) r :=
  if_pos ((condition_confirm now ids r).2 ⟨hkey, hstatus⟩)

theorem row_confirm_of_not (h : r.key ∈ ids → r.deliveryStatus = kDelivered) :
    row (confirmStatement now ids) r = r := by
  refine if_neg fun hc => ?_
  obtain ⟨hkey, hstatus⟩ := (condition_confirm now ids r).1 hc
  exact hstatus (h hkey)

theorem status_assign_confirm : (assign now (confirm now) r).deliveryStatus = kDelivered := by
  rw [assign]
  split
  · next hr =>
    rw [← hr]
    rfl
  · rfl

theorem row_confirm_cons : row (confirmStatement now ids) (row (confirmStatement now [id]) r) =
    row (confirmStatement now (id :: ids)) r := by
  by_cases hstatus : r.deliveryStatus = kDelivered
  · have hself : ∀ ids, row (confirmStatement now ids) r = r :=
      fun ids => row_confirm_of_not fun _ => hstatus
    rw [hself, hself, hself]
  · by_cases hkey : r.key = id
    · rw [row_confirm (mem_singleton.2 hkey) hstatus,
        row_confirm (hkey ▸ mem_cons_self) hstatus]
      exact row_confirm_of_not fun _ => status_assign_confirm
    · rw [row_confirm_of_not fun h => absurd (mem_singleton.1 h) hkey]
      by_cases hmem : r.key ∈ ids
      · rw [row_confirm hmem hstatus, row_confirm (mem_cons_of_mem id hmem) hstatus]
      · rw [row_confirm_of_not fun h => absurd h hmem, row_confirm_of_not]
        simp_all

theorem affected_confirm [Decidable (Unconfirmed t id)] :
    t.affected (confirmStatement now [id]) = if Unconfirmed t id then 1 else 0 := by
  have hone : ∀ r ∈ t.rows, changes (confirmStatement now [id]) r = true → r.key = id :=
    fun r _ h => mem_singleton.1 (changes_confirm.1 h).1
  rw [affected_eq hone]
  refine if_congr ?_ rfl rfl
  simp [Unconfirmed, changes_confirm]

theorem unconfirmed_execute {id' : ℕ × ℕ} :
    Unconfirmed (t.execute (confirmStatement now [id])) id' ↔ Unconfirmed t id' ∧ id' ≠ id := by
  constructor
  · rintro ⟨r', hr', hkey, hstatus⟩
    obtain ⟨r, hr, rfl⟩ := mem_execute.1 hr'
    have hkey : r.key = id' := (key_row _ r).symm.trans hkey
    by_cases hrow : r.key ∈ [id] ∧ r.deliveryStatus ≠ kDelivered
    · rw [row_confirm hrow.1 hrow.2] at hstatus
      exact absurd status_assign_confirm hstatus
    · have hself : row (confirmStatement now [id]) r = r :=
        row_confirm_of_not fun h => by_contra fun hs => hrow ⟨h, hs⟩
      rw [hself] at hstatus
      refine ⟨⟨r, hr, hkey, hstatus⟩, fun heq => hrow ⟨?_, hstatus⟩⟩
      simp_all
  · rintro ⟨⟨r, hr, hkey, hstatus⟩, hne⟩
    have hself : row (confirmStatement now [id]) r = r := by
      refine row_confirm_of_not fun h => ?_
      exact absurd (hkey.symm.trans (mem_singleton.1 h)) hne
    exact ⟨r, mem_execute.2 ⟨r, hr, hself⟩, hkey, hstatus⟩

theorem confirmEach_table (hids : ∀ id ∈ ids, id.1 ≠ 0 ∧ id.2 ≠ 0) (t : Table) :
    (confirmEach now ids t).2 = t.execute (confirmStatement now ids) := by
  induction ids generalizing t with
  | nil => exact (KeyedTable.execute_eq_self fun r _ => row_confirm_of_not fun h => by cases h).symm
  | cons id ids ih =>
    have hid := hids id mem_cons_self
    have hrest := ih fun other hother => hids other (mem_cons_of_mem id hother)
    simp only [confirmEach, confirmGroupMessageDeliveryDirect, hid.1, hid.2, or_self, if_false, hrest]
    exact execute_execute fun r _ => row_confirm_cons

open Classical in
theorem assignChanged_eq (hids : ∀ id ∈ ids, id.1 ≠ 0 ∧ id.2 ≠ 0) (t : Table)
    {changed : List (ℕ × ℕ)} (hnodup : changed.Nodup)
    (hchanged : ∀ id ∈ ids, id ∈ changed ↔ Unconfirmed t id) :
    assignChanged changed ids = (confirmEach now ids t).1 := by
  induction ids generalizing t changed with
  | nil => rfl
  | cons id ids ih =>
    have hid := hids id mem_cons_self
    have hrest := ih (fun other hother => hids other (mem_cons_of_mem id hother))
      (t.execute (confirmStatement now [id])) (hnodup.erase id) fun other hother => by
        rw [unconfirmed_execute, hnodup.mem_erase_iff,
          hchanged other (mem_cons_of_mem id hother)]
        exact and_comm
    have hhead : (if changed.any (· = id) then 1 else 0) =
        t.affected (confirmStatement now [id]) := by
      rw [affected_confirm]
      refine if_congr ?_ rfl rfl
      rw [← hchanged id mem_cons_self]
      simp
    simp only [assignChanged, confirmEach, confirmGroupMessageDeliveryDirect, hid.1, hid.2, or_self,
      if_false, hrest, hhead]

/-- A batch of confirmations is the confirmations in the order of its list. -/
theorem confirmBatch_eq (hlength : ids.length ≤ 64) (hids : ∀ id ∈ ids, id.1 ≠ 0 ∧ id.2 ≠ 0)
    (t : Table) : confirmGroupMessageDeliveryBatch now ids t = confirmEach now ids t := by
  match ids, hlength, hids with
  | [], _, _ => rfl
  | [id], _, hids =>
    have hid := hids id mem_cons_self
    simp [confirmGroupMessageDeliveryBatch, confirmEach, hid.1, hid.2]
  | id₁ :: id₂ :: rest, hlength, hids =>
    have hvalid : ¬ (id₁ :: id₂ :: rest = [] ∨ 64 < (id₁ :: id₂ :: rest).length ∨
        (id₁ :: id₂ :: rest).any (fun id => id.1 = 0 || id.2 = 0)) := by
      rintro (h | h | h)
      · cases h
      · omega
      · obtain ⟨id, hid, hzero⟩ := List.any_eq_true.1 h
        grind
    generalize hlist : id₁ :: id₂ :: rest = ids at hvalid hids ⊢
    -- the rows that the locking read returns are those that the statement changes
    let changed := t.rows.filter fun r => ids.dedup.any (· = r.key) && r.deliveryStatus ≠ kDelivered
    have haffected : t.affected (confirmStatement now ids.dedup) = (changed.map key).length := by
      rw [List.length_map, affected, List.countP_eq_length_filter]
      congr 1
      refine List.filter_congr fun r _ => ?_
      rw [Bool.eq_iff_iff, changes_confirm]
      simp
    have hbatch : confirmGroupMessageDeliveryBatch now ids t =
        (assignChanged (changed.map key) ids, t.execute (confirmStatement now ids.dedup)) := by
      subst hlist
      simp only [confirmGroupMessageDeliveryBatch, if_neg hvalid]
      exact if_neg fun h => h haffected
    have hnodup : (changed.map key).Nodup :=
      List.pairwise_map.2 (t.distinct.sublist List.filter_sublist)
    have hmem : ∀ id ∈ ids, id ∈ changed.map key ↔ Unconfirmed t id := by
      intro id hid
      simp only [changed, mem_map, List.mem_filter, Unconfirmed]
      constructor
      · rintro ⟨r, ⟨hr, hc⟩, rfl⟩
        simp only [Bool.and_eq_true, decide_eq_true_eq] at hc
        exact ⟨r, hr, rfl, hc.2⟩
      · rintro ⟨r, hr, rfl, hstatus⟩
        exact ⟨r, ⟨hr, by simp [hid, hstatus]⟩, rfl⟩
    have hany : ∀ r : Delivery, ids.dedup.any (· = r.key) = ids.any (· = r.key) := by
      intro r
      rw [Bool.eq_iff_iff]
      simp
    have hdedup : confirmStatement now ids.dedup = confirmStatement now ids := by
      simp [confirmStatement, hany]
    rw [hbatch, assignChanged_eq hids t hnodup hmem, hdedup, ← confirmEach_table hids t]

end Confirmations

/-! ## Claims -/

section Claims

variable {q : ClaimRequest} {w : Work} {work : List Work}

def workKeys (work : List Work) : List (ℕ × ℕ) := work.map (·.delivery.key)

theorem workKeys_record (q : ClaimRequest) (work : List Work) :
    (work.map q.record).map (·.delivery.key) = workKeys work := by
  rw [List.map_map]
  rfl

theorem changes_lease {id : ℕ × ℕ} :
    changes (leaseStatement q now id) r = q.claim.updates now id r :=
  changes_statement Delivery.attemptCount (fun _ _ => rfl) fun _ => by simp [ClaimRequest.lease]

theorem changes_leaseBatch {ids : List (ℕ × ℕ)} : changes (leaseBatchStatement q now ids) r = true ↔
    r.deliveryStatus = q.claim.status ∧ r.key ∈ ids := by
  have hchanges : changes (leaseBatchStatement q now ids) r =
      (leaseBatchStatement q now ids).condition r :=
    changes_statement Delivery.attemptCount (fun _ _ => rfl) fun _ => by simp [ClaimRequest.lease]
  rw [hchanges]
  simp [leaseBatchStatement, statement]

theorem updates_of_selects (h : q.claim.selects now r = true) :
    q.claim.updates now r.key r = true ∧ r.deliveryStatus = q.claim.status := by
  simp only [Claim.selects, Bool.and_eq_true, decide_eq_true_eq] at h
  obtain ⟨⟨⟨hstatus, -⟩, hfree⟩, -⟩ := h
  refine ⟨?_, hstatus⟩
  cases hclaim : q.claim with
  | pending messageId => simp_all [Claim.updates]
  | recipient userId => simp_all [Claim.updates]

theorem key_of_updates {id : ℕ × ℕ} (h : q.claim.updates now id r = true) : r.key = id := by
  simp only [Claim.updates, Bool.and_eq_true, decide_eq_true_eq] at h
  exact h.1.1

theorem row_lease_of_ne {id : ℕ × ℕ} (h : r.key ≠ id) : row (leaseStatement q now id) r = r :=
  if_neg fun hc => h (key_of_updates hc)

theorem row_leaseBatch {ids : List (ℕ × ℕ)} (hstatus : r.deliveryStatus = q.claim.status)
    (h : r.key ∈ ids) : row (leaseBatchStatement q now ids) r = assign now (q.lease now) r :=
  if_pos (by simpa [leaseBatchStatement, statement] using ⟨hstatus, h⟩)

theorem row_leaseBatch_of_not {ids : List (ℕ × ℕ)}
    (h : ¬ (r.deliveryStatus = q.claim.status ∧ r.key ∈ ids)) :
    row (leaseBatchStatement q now ids) r = r :=
  if_neg fun hc => h (by simpa [leaseBatchStatement, statement] using hc)

theorem row_lease_cons {ids : List (ℕ × ℕ)} (hw : w.delivery ∈ t.rows)
    (hselects : q.claim.selects now w.delivery = true) (hfresh : w.delivery.key ∉ ids)
    (hr : r ∈ t.rows) : row (leaseBatchStatement q now ids) (row (leaseStatement q now w.delivery.key) r) =
      row (leaseBatchStatement q now (w.delivery.key :: ids)) r := by
  by_cases hkey : r.key = w.delivery.key
  · obtain rfl := eq_of_key hr hw hkey
    obtain ⟨hupdates, hstatus⟩ := updates_of_selects hselects
    rw [row_leaseBatch hstatus mem_cons_self]
    have hrow : row (leaseStatement q now w.delivery.key) w.delivery =
        assign now (q.lease now) w.delivery := if_pos hupdates
    have hkey' := key_row (leaseStatement q now w.delivery.key) w.delivery
    rw [hrow] at hkey' ⊢
    exact row_leaseBatch_of_not fun h => hfresh (hkey' ▸ h.2)
  · rw [row_lease_of_ne hkey]
    by_cases h : r.deliveryStatus = q.claim.status ∧ r.key ∈ ids
    · rw [row_leaseBatch h.1 h.2, row_leaseBatch h.1 (mem_cons_of_mem _ h.2)]
    · rw [row_leaseBatch_of_not h, row_leaseBatch_of_not]
      simpa [hkey] using h

theorem changes_lease_cons {ids : List (ℕ × ℕ)} (hw : w.delivery ∈ t.rows)
    (hselects : q.claim.selects now w.delivery = true) (hfresh : w.delivery.key ∉ ids)
    (hr : r ∈ t.rows) : (changes (leaseStatement q now w.delivery.key) r).toNat +
      (changes (leaseBatchStatement q now ids) (row (leaseStatement q now w.delivery.key) r)).toNat =
        (changes (leaseBatchStatement q now (w.delivery.key :: ids)) r).toNat := by
  by_cases hkey : r.key = w.delivery.key
  · obtain rfl := eq_of_key hr hw hkey
    obtain ⟨hupdates, hstatus⟩ := updates_of_selects hselects
    have hkey' := key_row (leaseStatement q now w.delivery.key) w.delivery
    have hafter : changes (leaseBatchStatement q now ids)
        (row (leaseStatement q now w.delivery.key) w.delivery) = false := by
      rw [Bool.eq_false_iff]
      exact fun h => hfresh (hkey' ▸ (changes_leaseBatch.1 h).2)
    rw [changes_lease, hupdates, hafter, changes_leaseBatch.2 ⟨hstatus, mem_cons_self⟩]
    rfl
  · have hnot : q.claim.updates now w.delivery.key r = false := by
      rw [Bool.eq_false_iff]
      exact fun h => hkey (key_of_updates h)
    have hsame : changes (leaseBatchStatement q now ids) r =
        changes (leaseBatchStatement q now (w.delivery.key :: ids)) r := by
      rw [Bool.eq_iff_iff, changes_leaseBatch, changes_leaseBatch]
      simp [hkey]
    rw [changes_lease, hnot, row_lease_of_ne hkey, hsame]
    simp

structure Ready (q : ClaimRequest) (now : ℕ) (t : Table) (work : List Work) : Prop where
  rows : ∀ w ∈ work, w.delivery ∈ t.rows ∧ q.claim.selects now w.delivery = true
  distinct : work.Pairwise fun v w => v.delivery.key ≠ w.delivery.key

theorem Selects.ready {messages : List GroupMessageRecord} (h : Selects q now messages t work) :
    Ready q now t work :=
  ⟨h.rows, h.sorted.imp fun hlt heq => absurd (congrArg toLex heq) hlt.ne⟩

theorem affected_lease (hw : w.delivery ∈ t.rows)
    (hselects : q.claim.selects now w.delivery = true) :
    t.affected (leaseStatement q now w.delivery.key) = 1 := by
  rw [affected_eq (k := w.delivery.key)]
  · refine if_pos ⟨w.delivery, hw, ?_⟩
    rw [changes_lease]
    exact (updates_of_selects hselects).1
  · intro r _ h
    rw [changes_lease] at h
    exact key_of_updates h

theorem Ready.tail (h : Ready q now t (w :: work)) :
    Ready q now (t.execute (leaseStatement q now w.delivery.key)) work := by
  obtain ⟨hhead, htail⟩ := pairwise_cons.1 h.distinct
  refine ⟨fun v hv => ?_, htail⟩
  obtain ⟨hrow, hselects⟩ := h.rows v (mem_cons_of_mem w hv)
  exact ⟨mem_execute.2 ⟨_, hrow, row_lease_of_ne (hhead v hv).symm⟩, hselects⟩

theorem Ready.claim (h : Ready q now t work) (hall : ∀ w ∈ work, q.claim.accepts w = true)
    (records : List Work) :
    work.foldlM (claimStep false q now) (records, t) =
      .ok (records ++ work.map q.record, t.execute (leaseBatchStatement q now (workKeys work))) ∧
    t.affected (leaseBatchStatement q now (workKeys work)) = work.length := by
  induction work generalizing t records with
  | nil =>
    have hnot : ∀ r : Delivery, ¬ (r.deliveryStatus = q.claim.status ∧ r.key ∈ workKeys []) :=
      fun r hr => by cases hr.2
    refine ⟨?_, List.countP_eq_zero.2 fun r _ hc => hnot r (changes_leaseBatch.1 hc)⟩
    rw [KeyedTable.execute_eq_self fun r _ => row_leaseBatch_of_not (hnot r)]
    simp [pure, Except.pure]
  | cons w work ih =>
    obtain ⟨hrow, hselects⟩ := h.rows w mem_cons_self
    have hfresh : w.delivery.key ∉ workKeys work := by
      intro hmem
      obtain ⟨v, hv, hkey⟩ := mem_map.1 hmem
      exact (pairwise_cons.1 h.distinct).1 v hv hkey.symm
    have hone := affected_lease (q := q) hrow hselects
    obtain ⟨hfold, hcount⟩ := ih h.tail (fun v hv => hall v (mem_cons_of_mem w hv))
      (records ++ [q.record w])
    constructor
    · rw [foldlM_cons]
      have hstep : claimStep false q now (records, t) w = .ok (records ++ [q.record w],
          t.execute (leaseStatement q now w.delivery.key)) := by
        simp [claimStep, hall w mem_cons_self, hone]
      rw [hstep]
      refine hfold.trans ?_
      rw [execute_execute fun r hr => row_lease_cons hrow hselects hfresh hr]
      simp [workKeys]
    · rw [List.length_cons, ← hcount, Nat.add_comm, ← hone]
      exact (affected_add fun r hr => changes_lease_cons hrow hselects hfresh hr).symm

theorem foldlM_claimStep_batch (hall : ∀ w ∈ work, q.claim.accepts w = true) (records : List Work)
    (t : Table) : work.foldlM (claimStep true q now) (records, t) =
      .ok (records ++ work.map q.record, t) := by
  induction work generalizing records with
  | nil => simp [pure, Except.pure]
  | cons w work ih =>
    rw [foldlM_cons]
    have hstep : claimStep true q now (records, t) w = .ok (records ++ [q.record w], t) := by
      simp [claimStep, hall w mem_cons_self]
    rw [hstep]
    refine (ih (fun v hv => hall v (mem_cons_of_mem w hv)) _).trans ?_
    simp

theorem Ready.reject (h : Ready q now t work) (hsome : ∃ w ∈ work, q.claim.accepts w = false)
    (batch : Bool) (records : List Work) : work.foldlM (claimStep batch q now) (records, t) =
      .error ⟨.invalidRecord, [], q.claim.name ++ " returned invalid row"⟩ := by
  induction work generalizing t records with
  | nil =>
    grind
  | cons w work ih =>
    rw [foldlM_cons]
    cases haccepts : q.claim.accepts w with
    | false =>
      have hstep : claimStep batch q now (records, t) w =
          .error ⟨.invalidRecord, [], q.claim.name ++ " returned invalid row"⟩ := by
        simp [claimStep, haccepts]
      rw [hstep]
      rfl
    | true =>
      have hrest : ∃ v ∈ work, q.claim.accepts v = false := by
        obtain ⟨v, hv, hreject⟩ := hsome
        rcases List.mem_cons.1 hv with rfl | hv
        · grind
        · exact ⟨v, hv, hreject⟩
      obtain ⟨hrow, hselects⟩ := h.rows w mem_cons_self
      cases batch with
      | true =>
        have hstep : claimStep true q now (records, t) w = .ok (records ++ [q.record w], t) := by
          simp [claimStep, haccepts]
        rw [hstep]
        refine ih ⟨fun v hv => h.rows v (mem_cons_of_mem w hv),
          (pairwise_cons.1 h.distinct).2⟩ hrest _
      | false =>
        have hstep : claimStep false q now (records, t) w = .ok (records ++ [q.record w],
            t.execute (leaseStatement q now w.delivery.key)) := by
          simp [claimStep, haccepts, affected_lease (q := q) hrow hselects]
        rw [hstep]
        exact ih h.tail hrest _

theorem claim_batch_eq {messages : List GroupMessageRecord}
    (hselects : Selects q now messages t work) :
    claimGroupMessageDeliveries true q now work t = claimGroupMessageDeliveries false q now work t := by
  have h := hselects.ready
  by_cases hvalid : q.valid = true
  · by_cases hall : ∀ w ∈ work, q.claim.accepts w = true
    · obtain ⟨hfold, hcount⟩ := h.claim hall []
      have hbatch : work.foldlM (claimStep true q now) ([], t) = .ok (work.map q.record, t) :=
        foldlM_claimStep_batch hall [] t
      have hlength : work.length ≤ 256 := by
        have hlimit : q.limit ≤ 256 := by
          simp only [ClaimRequest.valid, Bool.and_eq_true, Bool.not_eq_true', Bool.or_eq_false_iff,
            decide_eq_false_iff_not] at hvalid
          omega
        exact hselects.length.trans hlimit
      rw [List.nil_append] at hfold
      simp only [claimGroupMessageDeliveries, hvalid, hbatch, hfold, workKeys_record,
        List.length_map, hcount]
      cases work with
      | nil =>
        simp_all
      | cons w work =>
        have hsmall : ¬ 256 < (w :: work).length := Nat.not_lt.2 hlength
        simp_all
    · have hsome : ∃ w ∈ work, q.claim.accepts w = false := by simpa using hall
      simp only [claimGroupMessageDeliveries, hvalid, h.reject hsome]
  · simp [claimGroupMessageDeliveries, hvalid]

end Claims

/-! ## Batches -/

/-- The batches refine the single operations: a batch of completions those of its entries in any
order, a batch of confirmations those of its identities in their order, and the lease of a claim by
one statement the leases of its rows. -/
theorem delivery_batches_refine {κ : Type} [DecidableEq κ] (collate : Bytes → κ) (now : ℕ) (t : Table) :
    (∀ items items', acceptsBatch items = true → items'.Perm items →
      (completeGroupMessageDeliveryAttempts collate now items t).2 =
        (completeEach collate now items' t).2 ∧
      (completeGroupMessageDeliveryAttempts collate now items t).1.status = .succeeded ∧
      (completeGroupMessageDeliveryAttempts collate now items t).1.affectedRows =
        ((completeEach collate now items' t).1.map MutationResult.affectedRows).sum ∧
      ∀ result ∈ (completeEach collate now items' t).1, result.status = .succeeded) ∧
    (∀ ids, ids.length ≤ 64 → (∀ id ∈ ids, id.1 ≠ 0 ∧ id.2 ≠ 0) →
      confirmGroupMessageDeliveryBatch now ids t = confirmEach now ids t) ∧
    (∀ q messages selected, Selects q now messages t selected →
      claimGroupMessageDeliveries true q now selected t =
        claimGroupMessageDeliveries false q now selected t) := by
  refine ⟨fun items items' haccepts hperm => ?_, fun ids hlength hids => confirmBatch_eq hlength hids t,
    fun q messages selected hselects => claim_batch_eq hselects⟩
  have hall := haccepts
  simp only [acceptsBatch, Bool.and_eq_true, decide_eq_true_eq, List.all_eq_true] at hall
  obtain ⟨⟨⟨hne, hlength⟩, hvalid⟩, hnodup⟩ := hall
  have hbatch : completeGroupMessageDeliveryAttempts collate now items t =
      (⟨.succeeded, t.affected (joinStatement collate now items), "group delivery attempts completed"⟩,
        t.execute (joinStatement collate now items)) := by
    have hargs : ¬ (items = [] ∨ 256 < items.length) := by
      rintro (h | h)
      · exact hne h
      · omega
    simp [completeGroupMessageDeliveryAttempts, hargs, haccepts]
  obtain ⟨htable, hsum, hstatus⟩ := completeEach_eq collate now
    (fun item hitem => hvalid item (hperm.mem_iff.1 hitem)) t
  rw [joinStatement_perm hperm hnodup] at htable hsum
  rw [hbatch]
  exact ⟨htable.symm, rfl, hsum.symm, hstatus⟩

def sampleRow : Delivery :=
  ⟨5, 8, 3, kPending, 1, none, some [1], some [2], some 40, 0, none, 0, 0, none⟩

def sampleTable : Table := ⟨[sampleRow], by simp⟩

theorem delivery_batches_refine_sample :
    (completeGroupMessageDeliveryAttempts (id : Bytes → Bytes) 9 [⟨5, 8, [2], kPending, [1], 10, []⟩]
      sampleTable).2 = (completeEach (id : Bytes → Bytes) 9 [⟨5, 8, [2], kPending, [1], 10, []⟩]
        sampleTable).2 ∧
    (completeEach (id : Bytes → Bytes) 9 [⟨5, 8, [2], kPending, [1], 10, []⟩] sampleTable).2.rows =
      [⟨5, 8, 3, kPending, 1, some [1], none, none, none, 19, none, 0, 9, none⟩] ∧
    confirmGroupMessageDeliveryBatch 9 [(5, 8), (6, 8), (5, 8)] sampleTable =
      confirmEach 9 [(5, 8), (6, 8), (5, 8)] sampleTable ∧
    ((confirmEach 9 [(5, 8), (6, 8), (5, 8)] sampleTable).1.map MutationResult.affectedRows) =
      [1, 0, 0] := by
  obtain ⟨hcomplete, hconfirm, -⟩ := delivery_batches_refine (id : Bytes → Bytes) 9 sampleTable
  exact ⟨(hcomplete _ _ (by decide) (.refl _)).1, by decide, hconfirm _ (by decide) (by decide),
    by decide⟩

end TinyImx.Message.Delivery
