import TinyImx.Message.ReceiverConfirm

/-!
# A batch of receiver confirmations is the single confirmations

A request is decided by the row of its message: it is refused, already durable, or changes the row.
`confirmReceiver_spec` says so for each route to the table.  The requests of a batch are decided by
the rows as they were before it; the rows that its own requests change stay decided in the same way,
but for their owners, who then find the confirmation durable.
-/

namespace TinyImx.Message.Confirm

open TinyImx.Local (Status MutationResult)
open PrivateRow (Table kPending kReceiverConfirmed kRead kFailed)
open KeyedTable (row changes execute affected key_row mem_execute execute_execute affected_eq
  eq_of_key find?_execute find?_eq_some)

variable {now : ℕ} {t : Table} {r : PrivateRow} {input : Input} {ids : List ℕ}

def view (result : MutationResult) : Status × ℕ := (result.status, result.affectedRows)

def decision (t : Table) (input : Input) : Option MutationResult :=
  receiverConfirmationDecision (getPrivateMessage input.messageId t) input.receiverUserId

theorem lockedLookup_decision (t : Table) (input : Input) :
    (receiverConfirmationDecision (lockedLookup input.messageId t) input.receiverUserId).map view =
      (decision t input).map view := by
  rw [decision, lockedLookup, getPrivateMessage]
  cases t.rows.find? fun r => r.messageId = input.messageId with
  | none => rfl
  | some r =>
    cases hbuilt : r.built
    · simp [receiverConfirmationDecision, hbuilt, view]
    · simp [receiverConfirmationDecision, hbuilt]

theorem lockedLookup_none (t : Table) (input : Input) :
    receiverConfirmationDecision (lockedLookup input.messageId t) input.receiverUserId = none ↔
      decision t input = none := by
  have h := lockedLookup_decision t input
  rw [← Option.map_eq_none_iff (f := view), h, Option.map_eq_none_iff]

theorem decision_eq_none : decision t input = none ↔ ∃ r ∈ t.rows, r.messageId = input.messageId ∧
    r.built = true ∧ r.toUserId = input.receiverUserId ∧ r.deliveryStatus = kPending := by
  rw [decision, getPrivateMessage]
  cases hfind : t.rows.find? fun r => r.messageId = input.messageId with
  | none =>
    simp only [receiverConfirmationDecision, ne_eq, not_true_eq_false, if_false, reduceCtorEq, false_iff]
    grind
  | some r =>
    obtain ⟨hr, hid⟩ := find?_eq_some.1 hfind
    have hrow : ∀ r' ∈ t.rows, r'.messageId = input.messageId → r' = r :=
      fun r' hr' hid' => eq_of_key hr' hr (hid'.trans hid.symm)
    constructor
    · intro h
      refine ⟨r, hr, hid, ?_⟩
      by_cases hbuilt : r.built = true
      · simp only [hbuilt, if_true, receiverConfirmationDecision, ne_eq, not_true_eq_false,
          if_false] at h
        by_cases hto : r.toUserId = input.receiverUserId
        · by_cases hpending : r.deliveryStatus = kPending
          · exact ⟨hbuilt, hto, hpending⟩
          · simp only [hto, hpending, not_true_eq_false, if_false] at h
            split at h
            · cases h
            · split at h <;> cases h
        · simp [hto] at h
      · simp [hbuilt, receiverConfirmationDecision] at h
    · rintro ⟨r', hr', hid', hbuilt, hto, hpending⟩
      obtain rfl := hrow r' hr' hid'
      simp [receiverConfirmationDecision, hbuilt, hto, hpending]

/-! ## Statements -/

theorem condition_mark (now : ℕ) (ids : List ℕ) (r : PrivateRow) :
    (markStatement now ids).condition r = true ↔ r.messageId ∈ ids ∧ r.deliveryStatus = kPending := by
  simp [markStatement]

theorem confirm_ne (h : r.deliveryStatus = kPending) : confirm now r ≠ r := by
  intro heq
  have hstatus := congrArg PrivateRow.deliveryStatus heq
  rw [h] at hstatus
  cases hstatus

theorem changes_mark : changes (markStatement now ids) r = true ↔
    r.messageId ∈ ids ∧ r.deliveryStatus = kPending := by
  rw [changes, Bool.and_eq_true, condition_mark]
  constructor
  · exact fun h => h.1
  · exact fun h => ⟨h, decide_eq_true (confirm_ne h.2)⟩

theorem row_mark (hid : r.messageId ∈ ids) (hpending : r.deliveryStatus = kPending) :
    row (markStatement now ids) r = confirm now r :=
  if_pos ((condition_mark now ids r).2 ⟨hid, hpending⟩)

theorem row_mark_of_not (h : ¬ (r.messageId ∈ ids ∧ r.deliveryStatus = kPending)) :
    row (markStatement now ids) r = r := if_neg fun hc => h ((condition_mark now ids r).1 hc)

theorem execute_mark_cons (t : Table) (id : ℕ) (ids : List ℕ) :
    (t.execute (markStatement now ids)).execute (markStatement now [id]) =
      t.execute (markStatement now (id :: ids)) := by
  refine execute_execute fun r _ => ?_
  by_cases hpending : r.deliveryStatus = kPending
  · by_cases hids : r.messageId ∈ ids
    · rw [row_mark hids hpending, row_mark (List.mem_cons_of_mem id hids) hpending]
      exact row_mark_of_not fun h => by cases h.2
    · rw [row_mark_of_not fun h => hids h.1]
      by_cases hid : r.messageId = id
      · rw [row_mark (List.mem_singleton.2 hid) hpending,
          row_mark (List.mem_cons.2 (Or.inl hid)) hpending]
      · rw [row_mark_of_not fun h => hid (List.mem_singleton.1 h.1), row_mark_of_not]
        simp [hid, hids]
  · have hself : ∀ ids, row (markStatement now ids) r = r :=
      fun ids => row_mark_of_not fun h => hpending h.2
    rw [hself, hself, hself]

theorem execute_mark_congr {ids' : List ℕ} (h : ∀ id, id ∈ ids ↔ id ∈ ids') :
    t.execute (markStatement now ids) = t.execute (markStatement now ids') := by
  refine KeyedTable.ext (List.map_congr_left fun r _ => ?_)
  by_cases hr : r.messageId ∈ ids ∧ r.deliveryStatus = kPending
  · rw [row_mark hr.1 hr.2, row_mark ((h _).1 hr.1) hr.2]
  · rw [row_mark_of_not hr, row_mark_of_not fun hr' => hr ⟨(h _).2 hr'.1, hr'.2⟩]

theorem execute_mark_nil (t : Table) : t.execute (markStatement now []) = t :=
  KeyedTable.execute_eq_self fun r _ => row_mark_of_not fun h => by cases h.1

/-! ## One confirmation -/

theorem condition_owned (hinput : input.messageId ≠ 0 ∧ input.receiverUserId ≠ 0) (r : PrivateRow) :
    (ownedStatement now input).condition r = true ↔ r.messageId = input.messageId ∧
      r.built = true ∧ r.toUserId = input.receiverUserId ∧ r.deliveryStatus = kPending := by
  simp only [ownedStatement, PrivateRow.built, Bool.and_eq_true, decide_eq_true_eq]
  have hfailed : kPending ≤ kFailed := by decide
  grind

theorem affected_mark (h : decision t input = none) :
    t.affected (markStatement now [input.messageId]) = 1 := by
  obtain ⟨r, hr, hid, -, -, hpending⟩ := decision_eq_none.1 h
  rw [affected_eq (k := input.messageId)]
  · exact if_pos ⟨r, hr, changes_mark.2 ⟨List.mem_singleton.2 hid, hpending⟩⟩
  · exact fun r _ hc => List.mem_singleton.1 (changes_mark.1 hc).1

def confirmed (now : ℕ) (t : Table) (input : Input) : Table :=
  match decision t input with
  | some _ => t
  | none => t.execute (markStatement now [input.messageId])

def answer (t : Table) (input : Input) : Status × ℕ :=
  match decision t input with
  | some d => view d
  | none => (.succeeded, 1)

theorem lookupAndConfirm_spec (now : ℕ) (input : Input) (t : Table) :
    view (lookupAndConfirm now input t).1 = answer t input ∧
      (lookupAndConfirm now input t).2 = confirmed now t input := by
  rw [lookupAndConfirm, answer, confirmed, ← decision]
  cases h : decision t input with
  | some d => exact ⟨rfl, rfl⟩
  | none => exact ⟨by simp [markReceiverConfirmed, view, affected_mark h], rfl⟩

theorem changes_owned (hinput : input.messageId ≠ 0 ∧ input.receiverUserId ≠ 0) :
    changes (ownedStatement now input) r = true ↔ r.messageId = input.messageId ∧
      r.built = true ∧ r.toUserId = input.receiverUserId ∧ r.deliveryStatus = kPending := by
  rw [changes, Bool.and_eq_true, condition_owned hinput]
  constructor
  · exact fun h => h.1
  · exact fun h => ⟨h, decide_eq_true (confirm_ne h.2.2.2)⟩

theorem affected_owned (hinput : input.messageId ≠ 0 ∧ input.receiverUserId ≠ 0) :
    t.affected (ownedStatement now input) = if decision t input = none then 1 else 0 := by
  rw [affected_eq (k := input.messageId) fun r _ hc => ((changes_owned hinput).1 hc).1]
  have hiff : (∃ r ∈ t.rows, changes (ownedStatement now input) r = true) ↔
      decision t input = none := by
    rw [decision_eq_none]
    exact exists_congr fun r => and_congr_right fun _ => changes_owned hinput
  simp only [hiff]

theorem execute_owned (hinput : input.messageId ≠ 0 ∧ input.receiverUserId ≠ 0) :
    t.execute (ownedStatement now input) = confirmed now t input := by
  rw [confirmed]
  cases h : decision t input with
  | some d =>
    refine KeyedTable.execute_eq_self fun r hr => if_neg fun hc => ?_
    have hnone : decision t input = none :=
      decision_eq_none.2 ⟨r, hr, (condition_owned hinput r).1 hc⟩
    rw [h] at hnone
    cases hnone
  | none =>
    obtain ⟨r, hr, hid, hbuilt, hto, hpending⟩ := decision_eq_none.1 h
    refine KeyedTable.ext (List.map_congr_left fun r' hr' => ?_)
    by_cases hid' : r'.messageId = input.messageId
    · obtain rfl := eq_of_key hr' hr (hid'.trans hid.symm)
      rw [row_mark (List.mem_singleton.2 hid) hpending]
      exact if_pos ((condition_owned hinput r').2 ⟨hid, hbuilt, hto, hpending⟩)
    · rw [row_mark_of_not fun hc => hid' (List.mem_singleton.1 hc.1)]
      exact if_neg fun hc => hid' ((condition_owned hinput r').1 hc).1

theorem owned_spec (hinput : input.messageId ≠ 0 ∧ input.receiverUserId ≠ 0) (now : ℕ) (t : Table) :
    match tryConfirmReceiverOwnedPendingDirect false now input t with
    | (some fast, t') => view fast = answer t input ∧ t' = confirmed now t input
    | (none, t') => t' = t ∧ confirmed now t input = t := by
  rw [tryConfirmReceiverOwnedPendingDirect, if_neg (by simp [hinput]), if_neg (by simp),
    affected_owned hinput, execute_owned hinput]
  cases h : decision t input with
  | some d => simp [confirmed, h]
  | none => simp [answer, view, h]

theorem confirmReceiver_spec (hinput : input.messageId ≠ 0 ∧ input.receiverUserId ≠ 0)
    (owned : Bool) (now : ℕ) (t : Table) :
    view (confirmReceiver owned now input t).1 = answer t input ∧
      (confirmReceiver owned now input t).2 = confirmed now t input := by
  rw [confirmReceiver, if_neg (by simp [hinput])]
  cases owned with
  | false => exact lookupAndConfirm_spec now input t
  | true =>
    have hspec := owned_spec hinput now t
    rw [if_pos rfl]
    generalize tryConfirmReceiverOwnedPendingDirect false now input t = direct at hspec ⊢
    obtain ⟨fast, t'⟩ := direct
    cases fast with
    | some fast => exact hspec
    | none =>
      obtain ⟨rfl, -⟩ := hspec
      exact lookupAndConfirm_spec now input t'

/-! ## Decisions after the rows of a batch have changed -/

theorem built_confirm (h : r.deliveryStatus = kPending) : (confirm now r).built = r.built := by
  show (_ && decide (kReceiverConfirmed ≤ kFailed)) = (_ && decide (r.deliveryStatus ≤ kFailed))
  rw [h]
  rfl

theorem built_row_mark (now : ℕ) (ids : List ℕ) (r : PrivateRow) :
    (row (markStatement now ids) r).built = r.built := by
  by_cases h : r.messageId ∈ ids ∧ r.deliveryStatus = kPending
  · rw [row_mark h.1 h.2, built_confirm h.2]
  · rw [row_mark_of_not h]

theorem toUserId_row_mark (now : ℕ) (ids : List ℕ) (r : PrivateRow) :
    (row (markStatement now ids) r).toUserId = r.toUserId := by
  rw [row]
  split <;> rfl

theorem decision_execute_some {d : MutationResult} (now : ℕ) (ids : List ℕ)
    (h : decision t input = some d) :
    decision (t.execute (markStatement now ids)) input = some d := by
  rw [decision, getPrivateMessage] at h ⊢
  rw [find?_execute]
  cases hfind : t.rows.find? fun r => r.messageId = input.messageId with
  | none => rwa [hfind] at h
  | some r =>
    rw [hfind] at h
    simp only [Option.map_some, built_row_mark] at h ⊢
    by_cases hbuilt : r.built = true
    · simp only [hbuilt, if_true, receiverConfirmationDecision, ne_eq, not_true_eq_false, if_false,
        toUserId_row_mark] at h ⊢
      by_cases hto : r.toUserId = input.receiverUserId
      · have hpending : r.deliveryStatus ≠ kPending := by
          intro hpending
          simp [hto, hpending] at h
        rwa [row_mark_of_not fun hc => hpending hc.2]
      · simpa [hto] using h
    · simpa [hbuilt] using h

theorem decision_execute_none (now : ℕ) (ids : List ℕ) (h : decision t input = none) :
    decision (t.execute (markStatement now ids)) input =
      if input.messageId ∈ ids then some ⟨.succeeded, 0, "receiver confirmation already durable"⟩
      else none := by
  obtain ⟨r, hr, hid, hbuilt, hto, hpending⟩ := decision_eq_none.1 h
  have hfind := find?_eq_some.2 ⟨hr, hid⟩
  split
  · next hmem =>
    have hstatus : (row (markStatement now ids) r).deliveryStatus = kReceiverConfirmed := by
      rw [row_mark (hid ▸ hmem) hpending]
      rfl
    have hbuilt' := (built_row_mark now ids r).trans hbuilt
    have hto' := (toUserId_row_mark now ids r).trans hto
    rw [decision, getPrivateMessage, find?_execute, hfind, Option.map_some]
    generalize row (markStatement now ids) r = r' at hstatus hbuilt' hto'
    have hne : kReceiverConfirmed ≠ kPending := by decide
    simp [receiverConfirmationDecision, hbuilt', hto', hstatus, hne]
  · next hmem =>
    refine decision_eq_none.2 ⟨r, mem_execute.2 ⟨r, hr, row_mark_of_not ?_⟩, hid, hbuilt, hto,
      hpending⟩
    rw [hid]
    exact fun hc => hmem hc.1

/-! ## The batch -/

def needed (t : Table) (inputs : List Input) : List ℕ :=
  (inputs.filter fun input => (decision t input).isNone).map Input.messageId

theorem pendingIds_eq (t : Table) (inputs : List Input) :
    pendingIds t inputs = (needed t inputs).dedup := by
  rw [pendingIds, needed]
  congr 3
  funext input
  rw [Bool.eq_iff_iff, Option.isNone_iff_eq_none, Option.isNone_iff_eq_none, lockedLookup_none]

variable {inputs : List Input}

theorem mem_needed {id : ℕ} :
    id ∈ needed t inputs ↔ ∃ input ∈ inputs, decision t input = none ∧ input.messageId = id := by
  simp [needed, and_assoc]

theorem mem_pendingIds {id : ℕ} : id ∈ pendingIds t inputs ↔ id ∈ needed t inputs := by
  rw [pendingIds_eq, List.mem_dedup]

theorem affected_pendingIds (now : ℕ) (t : Table) (inputs : List Input) :
    t.affected (markStatement now (pendingIds t inputs)) = (pendingIds t inputs).length := by
  have hnodup : (t.rows.map PrivateRow.messageId).Nodup := List.pairwise_map.2 t.distinct
  have hkeys : ((t.rows.filter (changes (markStatement now (pendingIds t inputs)))).map
      PrivateRow.messageId).Perm (pendingIds t inputs) := by
    refine (List.perm_ext_iff_of_nodup (hnodup.sublist (List.filter_sublist.map _)) ?_).2 fun id => ?_
    · rw [pendingIds_eq]
      exact List.nodup_dedup _
    · simp only [List.mem_map, List.mem_filter, changes_mark]
      constructor
      · rintro ⟨r, ⟨-, hid, -⟩, rfl⟩
        exact hid
      · intro hid
        obtain ⟨input, -, hnone, rfl⟩ := mem_needed.1 (mem_pendingIds.1 hid)
        obtain ⟨r, hr, hkey, -, -, hpending⟩ := decision_eq_none.1 hnone
        exact ⟨r, ⟨hr, hkey ▸ hid, hpending⟩, hkey⟩
  rw [affected, List.countP_eq_length_filter, ← hkeys.length_eq, List.length_map]

/-- The single confirmations, from the table that earlier ones left: each is answered as the batch
answers it, and the table is the one with all their rows changed. -/
theorem confirmEach_eq (owned : Bool) (now : ℕ) (t : Table) (inputs : List Input)
    (hinputs : ∀ input ∈ inputs, input.messageId ≠ 0 ∧ input.receiverUserId ≠ 0)
    (pending : List ℕ) :
    (confirmEach owned now inputs (t.execute (markStatement now pending))).1.map view =
        (decideEach t pending inputs).map (fun outcome => view (outcome.result durable)) ∧
      (confirmEach owned now inputs (t.execute (markStatement now pending))).2 =
        t.execute (markStatement now (needed t inputs ++ pending)) := by
  induction inputs generalizing pending with
  | nil => exact ⟨rfl, rfl⟩
  | cons input inputs ih =>
    have hrest := ih fun other h => hinputs other (List.mem_cons_of_mem input h)
    obtain ⟨hview, htable⟩ := confirmReceiver_spec (hinputs input List.mem_cons_self) owned now
      (t.execute (markStatement now pending))
    simp only [confirmEach, decideEach, List.map_cons]
    have hlocked := lockedLookup_decision t input
    cases hdecision : decision t input with
    | some d =>
      have hlater := decision_execute_some now pending hdecision
      rw [hdecision, Option.map_some, Option.map_eq_some_iff] at hlocked
      obtain ⟨d', hd', hsame⟩ := hlocked
      rw [confirmed, hlater] at htable
      rw [answer, hlater] at hview
      rw [htable, hview, hd', (hrest pending).1, (hrest pending).2]
      refine ⟨by simp [Outcome.result, hsame], ?_⟩
      simp [needed, hdecision]
    | none =>
      have hlater := decision_execute_none now pending hdecision
      have htable' : confirmed now (t.execute (markStatement now pending)) input =
          t.execute (markStatement now (input.messageId :: pending)) := by
        rw [confirmed, hlater]
        by_cases hmem : input.messageId ∈ pending
        · rw [if_pos hmem]
          exact execute_mark_congr fun id => by simp; rintro rfl; exact hmem
        · rw [if_neg hmem]
          exact execute_mark_cons t input.messageId pending
      have hview' : answer (t.execute (markStatement now pending)) input =
          (.succeeded, if pending.any (· = input.messageId) then 0 else 1) := by
        rw [answer, hlater]
        by_cases hmem : input.messageId ∈ pending
        · simp [hmem, view]
        · simp [hmem]
      obtain ⟨hviews, hlast⟩ := hrest (input.messageId :: pending)
      rw [(lockedLookup_none t input).2 hdecision]
      rw [htable, htable', hview, hview', hviews, hlast]
      refine ⟨rfl, execute_mark_congr fun id => ?_⟩
      simp only [needed, hdecision, List.filter_cons, Option.isNone_none, if_true, List.map_cons,
        List.mem_append, List.mem_cons]
      tauto

theorem batch_succeeds (now : ℕ) (t : Table) (hlen : inputs.length ≤ 64) (htwo : inputs.length ≠ 1)
    (hinputs : ∀ input ∈ inputs, input.messageId ≠ 0 ∧ input.receiverUserId ≠ 0) :
    executeReceiverConfirmationBatch {} now inputs t =
      ((decideEach t [] inputs).map (Outcome.result durable),
        t.execute (markStatement now (pendingIds t inputs))) := by
  rw [executeReceiverConfirmationBatch.eq_def]
  split
  · rw [pendingIds_eq, needed]
    simp [decideEach, execute_mark_nil]
  · exact absurd rfl htwo
  · rw [if_neg]
    · by_cases hempty : pendingIds t inputs = []
      · rw [if_pos hempty, hempty, execute_mark_nil]
      · simp [hempty, affected_pendingIds]
    · simp only [not_or, not_lt, hlen, true_and, List.any_eq_true, not_exists, not_and]
      grind

/-- The requests are answered by their own decisions; those that need the row to change fail. -/
def KeepDecisions (t : Table) (inputs : List Input) (results : List MutationResult) : Prop :=
  List.Forall₂ (fun input result => match decision t input with
    | some d => view result = view d
    | none => result = failure) inputs results

theorem keepDecisions_failure (t : Table) (pending : List ℕ) (inputs : List Input) :
    KeepDecisions t inputs ((decideEach t pending inputs).map (Outcome.result fun _ => failure)) := by
  induction inputs generalizing pending with
  | nil => exact .nil
  | cons input inputs ih =>
    have hlocked := lockedLookup_decision t input
    rw [decideEach]
    cases hdecision : decision t input with
    | some d =>
      rw [hdecision, Option.map_some, Option.map_eq_some_iff] at hlocked
      obtain ⟨d', hd', hsame⟩ := hlocked
      rw [hd']
      refine .cons ?_ (ih pending)
      simpa [hdecision, Outcome.result] using hsame
    | none =>
      rw [(lockedLookup_none t input).2 hdecision]
      refine .cons ?_ (ih (input.messageId :: pending))
      simp [hdecision, Outcome.result]

theorem keepDecisions_durable (pending : List ℕ) (h : ∀ input ∈ inputs, decision t input ≠ none) :
    KeepDecisions t inputs ((decideEach t pending inputs).map (Outcome.result durable)) := by
  have hsame : (decideEach t pending inputs).map (Outcome.result durable) =
      (decideEach t pending inputs).map (Outcome.result fun _ => failure) := by
    induction inputs with
    | nil => rfl
    | cons input inputs ih =>
      have hinput := h input List.mem_cons_self
      rw [decideEach]
      cases hlocked : receiverConfirmationDecision (lockedLookup input.messageId t)
          input.receiverUserId with
      | some d => simp [Outcome.result, ih fun other hm => h other (List.mem_cons_of_mem input hm)]
      | none => exact absurd ((lockedLookup_none t input).1 hlocked) hinput
  rw [hsame]
  exact keepDecisions_failure t pending inputs

theorem batch_singleton (hinput : input.messageId ≠ 0 ∧ input.receiverUserId ≠ 0) (now : ℕ)
    (t : Table) :
    executeReceiverConfirmationBatch {} now [input] t =
      ([(confirmReceiver true now input t).1], (confirmReceiver true now input t).2) := by
  have hguard : ¬ (input.messageId = 0 ∨ input.receiverUserId = 0) := by simp [hinput]
  rw [executeReceiverConfirmationBatch, confirmReceiver, if_neg hguard, if_pos rfl]
  rcases tryConfirmReceiverOwnedPendingDirect false now input t with ⟨_ | fast, t'⟩ <;> rfl

theorem batch_fails {f : Faults} (now : ℕ) (t : Table)
    (hlen : inputs.length ≤ 64) (htwo : 2 ≤ inputs.length)
    (hinputs : ∀ input ∈ inputs, input.messageId ≠ 0 ∧ input.receiverUserId ≠ 0)
    (hfails : f.updateFails = true ∨ f.commit ≠ .done) :
    KeepDecisions t inputs (executeReceiverConfirmationBatch f now inputs t).1 := by
  rw [executeReceiverConfirmationBatch.eq_def]
  split
  · simp at htwo
  · simp at htwo
  · rw [if_neg]
    · by_cases hempty : pendingIds t inputs = []
      · rw [if_pos hempty]
        refine keepDecisions_durable [] fun input hmem hnone => ?_
        have hid := mem_pendingIds.2 (mem_needed.2 ⟨input, hmem, hnone, rfl⟩)
        rw [hempty] at hid
        cases hid
      · simp only [hempty, if_false, affected_pendingIds, ne_eq, not_true_eq_false, or_false]
        split
        · exact keepDecisions_failure t [] inputs
        · next hupdate =>
          split
          · next hdone => exact absurd hdone (hfails.resolve_left hupdate)
          · exact keepDecisions_failure t [] inputs
    · simp only [not_or, not_lt, hlen, true_and, List.any_eq_true, not_exists, not_and]
      intro input hmem
      simpa using hinputs input hmem

/-- A batch of confirmations leaves the table and gives the answers of the confirmations one by one,
whichever route these take.  A failed `UPDATE` or commit fails the requests of a batch that needed
it; a single request is the guarded `UPDATE`, and fails with it. -/
theorem receiver_confirmations_refine (owned : Bool) (now : ℕ) (t : Table) (inputs : List Input)
    (hlen : inputs.length ≤ 64)
    (hinputs : ∀ input ∈ inputs, input.messageId ≠ 0 ∧ input.receiverUserId ≠ 0) :
    ((executeReceiverConfirmationBatch {} now inputs t).1.map view =
        (confirmEach owned now inputs t).1.map view ∧
      (executeReceiverConfirmationBatch {} now inputs t).2 = (confirmEach owned now inputs t).2) ∧
    (∀ f : Faults, f.updateFails = true ∨ f.commit ≠ .done → 2 ≤ inputs.length →
      KeepDecisions t inputs (executeReceiverConfirmationBatch f now inputs t).1) ∧
    ∀ f : Faults, f.updateFails = true → inputs.length = 1 →
      (executeReceiverConfirmationBatch f now inputs t).1.map view = [(.storageError, 0)] ∧
        (executeReceiverConfirmationBatch f now inputs t).2 = t := by
  refine ⟨?_, fun f hf htwo => batch_fails now t hlen htwo hinputs hf, fun f hf hone => ?_⟩
  · by_cases hone : inputs.length = 1
    · obtain ⟨input, rfl⟩ := List.length_eq_one_iff.1 hone
      have hinput := hinputs input List.mem_cons_self
      obtain ⟨hview, htable⟩ := confirmReceiver_spec hinput owned now t
      obtain ⟨hview', htable'⟩ := confirmReceiver_spec hinput true now t
      rw [batch_singleton hinput]
      simp [confirmEach, hview, hview', htable, htable']
    · obtain ⟨hviews, hlast⟩ := confirmEach_eq owned now t inputs hinputs []
      rw [execute_mark_nil] at hviews hlast
      rw [batch_succeeds now t hlen hone hinputs, hviews, hlast, List.map_map]
      refine ⟨rfl, execute_mark_congr fun id => ?_⟩
      rw [List.append_nil, mem_pendingIds]
  · obtain ⟨input, rfl⟩ := List.length_eq_one_iff.1 hone
    have hguard : ¬ (input.messageId = 0 ∨ input.receiverUserId = 0) := by
      simpa using hinputs input List.mem_cons_self
    simp [executeReceiverConfirmationBatch, tryConfirmReceiverOwnedPendingDirect, hguard, hf, view]

def sampleRow : PrivateRow := ⟨1, none, 5, 6, 1, [], kReceiverConfirmed, 10, some 20, none⟩

def sampleTable : Table := ⟨[sampleRow, { sampleRow with messageId := 2, deliveryStatus := kPending }],
  by decide⟩

/-- The owner's request and a repetition of it with a foreign one between them. -/
theorem receiver_confirmations_refine_repeated :
    ((executeReceiverConfirmationBatch {} 30 [⟨2, 6⟩, ⟨2, 7⟩, ⟨2, 6⟩] sampleTable).1.map view =
        (confirmEach false 30 [⟨2, 6⟩, ⟨2, 7⟩, ⟨2, 6⟩] sampleTable).1.map view ∧
      (executeReceiverConfirmationBatch {} 30 [⟨2, 6⟩, ⟨2, 7⟩, ⟨2, 6⟩] sampleTable).2 =
        (confirmEach false 30 [⟨2, 6⟩, ⟨2, 7⟩, ⟨2, 6⟩] sampleTable).2) ∧
    (confirmEach false 30 [⟨2, 6⟩, ⟨2, 7⟩, ⟨2, 6⟩] sampleTable).1.map view =
      [(.succeeded, 1), (.permissionDenied, 0), (.succeeded, 0)] :=
  ⟨(receiver_confirmations_refine false 30 sampleTable [⟨2, 6⟩, ⟨2, 7⟩, ⟨2, 6⟩] (by decide)
    (by simp)).1, by decide⟩

/-- A single request whose confirmation is already durable fails with the guarded `UPDATE`. -/
theorem single_durable_fails : ¬ ∀ (now : ℕ) (t : Table) (inputs : List Input), inputs.length ≤ 64 →
    (∀ input ∈ inputs, input.messageId ≠ 0 ∧ input.receiverUserId ≠ 0) →
    ∀ f : Faults, f.updateFails = true ∨ f.commit ≠ .done →
      KeepDecisions t inputs (executeReceiverConfirmationBatch f now inputs t).1 := by
  intro h
  have hkeep := h 30 sampleTable [⟨1, 6⟩] (by decide) (by simp) ⟨true, .done⟩ (Or.inl rfl)
  rw [KeepDecisions, List.forall₂_cons_left_iff] at hkeep
  obtain ⟨result, rest, hresult, -, heq⟩ := hkeep
  have hdecision : decision sampleTable ⟨1, 6⟩ =
      some ⟨.succeeded, 0, "receiver confirmation already durable"⟩ := by decide
  have hfails : (executeReceiverConfirmationBatch ⟨true, .done⟩ 30 [⟨1, 6⟩] sampleTable).1 =
      [⟨.storageError, 0, "owned receiver confirmation failed: "⟩] := by decide
  rw [hfails] at heq
  cases heq
  rw [hdecision] at hresult
  exact absurd hresult (by decide)

end TinyImx.Message.Confirm
