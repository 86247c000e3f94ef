import Mathlib.Data.Finset.Card
import Mathlib.Logic.Function.Basic
import Mathlib.Tactic.Common
import TinyImx.Lib.Run

/-!
# Deduplication of deliveries

`MessageDeliveryDeduplicator` gives the work on a delivery to one caller at a time and remembers the
last identities that were delivered, in the order in which they became so.  Each function holds the
mutex while it runs.
-/

namespace TinyImx.Gateway.DeliveryDedup

inductive DeliveryDomain
  | privateMessage
  | groupMessage
  deriving DecidableEq

structure DeliveryIdentity where
  domain : DeliveryDomain
  messageId : ℕ
  recipientUserId : ℕ
  deriving DecidableEq

def DeliveryIdentity.valid (identity : DeliveryIdentity) : Bool :=
  identity.messageId ≠ 0 && identity.recipientUserId ≠ 0

inductive BeginStatus
  | acquired
  | alreadyProcessing
  | alreadyDelivered
  | invalidArgument

/-- The `State` of an identity. -/
inductive Progress
  | processing
  | delivered
  deriving DecidableEq

structure State where
  states : DeliveryIdentity → Option Progress
  deliveredOrder : List DeliveryIdentity

def start : State := ⟨fun _ => none, []⟩

def limitOf (maxRecentDelivered : ℕ) : ℕ := max maxRecentDelivered 1

namespace State

def begin (s : State) (identity : DeliveryIdentity) : BeginStatus × State :=
  if identity.valid = false then (.invalidArgument, s)
  else match s.states identity with
    | none =>
      (.acquired, { s with states := Function.update s.states identity (some .processing) })
    | some .delivered => (.alreadyDelivered, s)
    | some .processing => (.alreadyProcessing, s)

def trim (limit : ℕ) (states : DeliveryIdentity → Option Progress) : List DeliveryIdentity → State
  | [] => ⟨states, []⟩
  | oldest :: rest =>
    if limit < (oldest :: rest).length then
      trim limit
        (if states oldest = some .delivered then Function.update states oldest none else states) rest
    else ⟨states, oldest :: rest⟩

def markDelivered (limit : ℕ) (s : State) (identity : DeliveryIdentity) : Bool × State :=
  if identity.valid = false then (false, s)
  else match s.states identity with
    | none => (false, s)
    | some .delivered => (true, s)
    | some .processing =>
      (true, trim limit (Function.update s.states identity (some .delivered))
        (s.deliveredOrder ++ [identity]))

def abort (s : State) (identity : DeliveryIdentity) : Bool × State :=
  if identity.valid = false then (false, s)
  else match s.states identity with
    | none => (true, s)
    | some .delivered => (false, s)
    | some .processing => (true, { s with states := Function.update s.states identity none })

end State

inductive Call
  | begin (identity : DeliveryIdentity) (status : BeginStatus)
  | markDelivered (identity : DeliveryIdentity) (result : Bool)
  | abort (identity : DeliveryIdentity) (result : Bool)

inductive Step (limit : ℕ) : State → Call → State → Prop
  | begin (s : State) (identity : DeliveryIdentity) :
      Step limit s (.begin identity (s.begin identity).1) (s.begin identity).2
  | markDelivered (s : State) (identity : DeliveryIdentity) :
      Step limit s (.markDelivered identity (s.markDelivered limit identity).1)
        (s.markDelivered limit identity).2
  | abort (s : State) (identity : DeliveryIdentity) :
      Step limit s (.abort identity (s.abort identity).1) (s.abort identity).2

variable {limit : ℕ} {s s' : State} {call : Call} {x y : DeliveryIdentity}

/-! ## The order and the states -/

structure Inv (limit : ℕ) (s : State) : Prop where
  delivered : ∀ x, s.states x = some .delivered ↔ x ∈ s.deliveredOrder
  nodup : s.deliveredOrder.Nodup
  bounded : s.deliveredOrder.length ≤ limit

theorem start_inv (limit : ℕ) : Inv limit start :=
  ⟨fun x => by simp [start], List.nodup_nil, Nat.zero_le _⟩

theorem trim_of_le {states : DeliveryIdentity → Option Progress} {order : List DeliveryIdentity}
    (h : order.length ≤ limit) : State.trim limit states order = ⟨states, order⟩ := by
  cases order with
  | nil => rfl
  | cons oldest rest => rw [State.trim, if_neg (Nat.not_lt.2 h)]

theorem trim_of_succ {states : DeliveryIdentity → Option Progress} {oldest : DeliveryIdentity}
    {rest : List DeliveryIdentity} (hlength : rest.length = limit)
    (holdest : states oldest = some .delivered) :
    State.trim limit states (oldest :: rest) = ⟨Function.update states oldest none, rest⟩ := by
  rw [State.trim, if_pos (by rw [List.length_cons]; omega), if_pos holdest,
    trim_of_le hlength.le]

/-- What a call can do to the state. -/
theorem Step.cases (hlimit : 0 < limit) (hinv : Inv limit s) (h : Step limit s call s') :
    s' = s ∨
    (∃ x, call = .begin x .acquired ∧ s.states x = none ∧
      s' = { s with states := Function.update s.states x (some .processing) }) ∨
    (∃ x, call = .abort x true ∧ s.states x = some .processing ∧
      s' = { s with states := Function.update s.states x none }) ∨
    (∃ x, call = .markDelivered x true ∧ s.states x = some .processing ∧
      s.deliveredOrder.length < limit ∧
      s' = ⟨Function.update s.states x (some .delivered), s.deliveredOrder ++ [x]⟩) ∨
    ∃ x oldest rest, call = .markDelivered x true ∧ s.states x = some .processing ∧
      s.deliveredOrder = oldest :: rest ∧ s.deliveredOrder.length = limit ∧ oldest ≠ x ∧
      s' = ⟨Function.update (Function.update s.states x (some .delivered)) oldest none,
        rest ++ [x]⟩ := by
  cases h with
  | begin x =>
    unfold State.begin
    grind
  | abort x =>
    unfold State.abort
    grind
  | markDelivered x =>
    unfold State.markDelivered
    split
    · exact .inl rfl
    · split
      · exact .inl rfl
      · exact .inl rfl
      · next hprocessing =>
        right; right; right
        rcases Nat.lt_or_ge s.deliveredOrder.length limit with hlt | hge
        · refine .inl ⟨x, rfl, hprocessing, hlt, ?_⟩
          exact trim_of_le (by grind)
        · cases horder : s.deliveredOrder with
          | nil =>
            rw [horder] at hge
            exact absurd (Nat.le_zero.1 hge) hlimit.ne'
          | cons oldest rest =>
            have hmem : s.states oldest = some .delivered :=
              (hinv.delivered oldest).2 (horder ▸ List.mem_cons_self)
            have hne : oldest ≠ x := by
              grind
            have hlength : (oldest :: rest).length = limit :=
              horder ▸ Nat.le_antisymm hinv.bounded hge
            refine .inr ⟨x, oldest, rest, rfl, hprocessing, rfl, hlength, hne, ?_⟩
            change State.trim limit _ (oldest :: (rest ++ [x])) = _
            refine trim_of_succ ?_ ?_
            · grind
            · grind

theorem Step.inv (hlimit : 0 < limit) (hinv : Inv limit s) (h : Step limit s call s') :
    Inv limit s' := by
  rcases h.cases hlimit hinv with rfl | ⟨x, -, hx, rfl⟩ | ⟨x, -, hx, rfl⟩ | ⟨x, -, hx, hlt, rfl⟩ |
    ⟨x, oldest, rest, -, hx, horder, hlength, hne, rfl⟩
  · exact hinv
  · refine ⟨fun y => ?_, hinv.nodup, hinv.bounded⟩
    by_cases hy : y = x
    · subst hy
      simp [← hinv.delivered y, hx]
    · simp only [Function.update_of_ne hy, hinv.delivered]
  · refine ⟨fun y => ?_, hinv.nodup, hinv.bounded⟩
    by_cases hy : y = x
    · subst hy
      simp [← hinv.delivered y, hx]
    · simp only [Function.update_of_ne hy, hinv.delivered]
  · have hnot : x ∉ s.deliveredOrder := by simp [← hinv.delivered x, hx]
    refine ⟨fun y => ?_, hinv.nodup.append (List.nodup_singleton x) (by simpa using hnot), ?_⟩
    · by_cases hy : y = x
      · subst hy
        simp
      · simp only [Function.update_of_ne hy, hinv.delivered]
        simp [hy]
    · grind
  · have hnodup := hinv.nodup
    have hdelivered := hinv.delivered
    rw [horder] at hnodup hdelivered hlength
    have hnot : x ∉ oldest :: rest := by simp [← hdelivered x, hx]
    refine ⟨fun y => ?_, ?_, ?_⟩
    · by_cases hy : y = oldest
      · subst hy
        simp [(List.nodup_cons.1 hnodup).1, hne]
      · simp only [Function.update_of_ne hy]
        by_cases hyx : y = x
        · subst hyx
          simp
        · simp only [Function.update_of_ne hyx, hdelivered]
          simp [hy, hyx]
    · refine (List.nodup_cons.1 hnodup).2.append (List.nodup_singleton x) ?_
      simpa using fun h => hnot (List.mem_cons_of_mem _ h)
    · rw [List.length_append, List.length_singleton]
      exact hlength.le

/-! ## The time between two acquisitions -/

def Call.Settles (x : DeliveryIdentity) (call : Call) : Prop :=
  ∃ result, call = .markDelivered x result ∨ call = .abort x result

theorem Step.processing (hlimit : 0 < limit) (hinv : Inv limit s) (h : Step limit s call s')
    (hcall : ¬ call.Settles x) (hx : s.states x = some .processing) :
    s'.states x = some .processing := by
  rcases h.cases hlimit hinv with rfl | ⟨y, -, hy, rfl⟩ | ⟨y, rfl, -, rfl⟩ | ⟨y, rfl, -, -, rfl⟩ |
    ⟨y, oldest, rest, rfl, -, horder, -, -, rfl⟩
  · exact hx
  · grind
  · have hne : x ≠ y := fun h => hcall ⟨true, .inr (by rw [h])⟩
    exact (Function.update_of_ne hne _ _).trans hx
  · have hne : x ≠ y := fun h => hcall ⟨true, .inl (by rw [h])⟩
    exact (Function.update_of_ne hne _ _).trans hx
  · have hne : x ≠ y := fun h => hcall ⟨true, .inl (by rw [h])⟩
    have hold : x ≠ oldest := by
      rintro rfl
      have hmem := (hinv.delivered x).2 (horder ▸ List.mem_cons_self)
      rw [hx] at hmem
      cases hmem
    exact (Function.update_of_ne hold _ _).trans ((Function.update_of_ne hne _ _).trans hx)

variable {calls : List Call}

theorem run_processing (hlimit : 0 < limit) (hinv : Inv limit s)
    (h : Run (Step limit) s calls s') (hcalls : ∀ call ∈ calls, ¬ call.Settles x)
    (hx : s.states x = some .processing) : Inv limit s' ∧ s'.states x = some .processing :=
  h.invariant_of_forall (I := fun s => Inv limit s ∧ s.states x = some .processing)
    (fun _ _ _ hs hcall hstep =>
      ⟨hstep.inv hlimit hs.1, hstep.processing hlimit hs.1 hcall hs.2⟩)
    hcalls ⟨hinv, hx⟩

theorem states_of_acquired (h : Step limit s (.begin x .acquired) s') :
    s.states x = none ∧ s'.states x = some .processing := by
  generalize hcall : Call.begin x .acquired = call at h
  cases h with
  | begin y =>
    obtain ⟨rfl, hstatus⟩ := Call.begin.inj hcall
    unfold State.begin at hstatus ⊢
    split at hstatus
    · cases hstatus
    · next hvalid =>
      rw [if_neg hvalid]
      split at hstatus
      · next hnone =>
        grind
      · cases hstatus
      · cases hstatus
  | markDelivered => cases hcall
  | abort => cases hcall

/-! ## The time after a delivery -/

/-- The other identities for which `MarkDelivered` has returned true. -/
def others (x : DeliveryIdentity) (calls : List Call) : Finset DeliveryIdentity :=
  (calls.filterMap fun
    | .markDelivered y true => if y = x then none else some y
    | _ => none).toFinset

theorem others_append (x : DeliveryIdentity) (calls calls' : List Call) :
    others x (calls ++ calls') = others x calls ∪ others x calls' := by
  rw [others, List.filterMap_append, List.toFinset_append]
  rfl

theorem others_mark (h : y ≠ x) : others x [.markDelivered y true] = {y} := by
  simp [others, h]

/-- An identity that was delivered is behind those that were there before, and before those that
became delivered after it. -/
def Recent (limit : ℕ) (x : DeliveryIdentity) (calls : List Call) (s : State) : Prop :=
  limit ≤ (others x calls).card ∨
    ∃ older newer, s.deliveredOrder = older ++ x :: newer ∧ ∀ y ∈ newer, y ∈ others x calls

theorem Step.recent (hlimit : 0 < limit) (hinv : Inv limit s) (h : Step limit s call s')
    (hr : Recent limit x calls s) : Recent limit x (calls ++ [call]) s' := by
  have hmono : others x calls ⊆ others x (calls ++ [call]) := by
    rw [others_append]
    exact Finset.subset_union_left
  rcases hr with hcard | ⟨older, newer, horder, hnewer⟩
  · exact .inl (hcard.trans (Finset.card_le_card hmono))
  have hkept : s'.deliveredOrder = s.deliveredOrder → Recent limit x (calls ++ [call]) s' :=
    fun heq => .inr ⟨older, newer, heq.trans horder, fun y hy => hmono (hnewer y hy)⟩
  have hx : x ∈ s.deliveredOrder := by simp [horder]
  rcases h.cases hlimit hinv with rfl | ⟨y, -, -, rfl⟩ | ⟨y, -, -, rfl⟩ | ⟨y, rfl, hy, -, rfl⟩ |
    ⟨y, oldest, rest, rfl, hy, hfull, hlength, -, rfl⟩
  · exact hkept rfl
  · exact hkept rfl
  · exact hkept rfl
  · have hyx : y ∉ s.deliveredOrder := by simp [← hinv.delivered y, hy]
    have hne : y ≠ x := fun h => hyx (h ▸ hx)
    refine .inr ⟨older, newer ++ [y], by rw [horder, List.append_assoc]; rfl, fun z hz => ?_⟩
    rw [others_append, others_mark hne, Finset.mem_union, Finset.mem_singleton]
    rcases List.mem_append.1 hz with hz | hz
    · exact .inl (hnewer z hz)
    · exact .inr (List.mem_singleton.1 hz)
  · have hyx : y ∉ s.deliveredOrder := by simp [← hinv.delivered y, hy]
    have hne : y ≠ x := fun h => hyx (h ▸ hx)
    have hsub : ∀ z ∈ newer ++ [y], z ∈ others x (calls ++ [.markDelivered y true]) := by
      intro z hz
      rw [others_append, others_mark hne, Finset.mem_union, Finset.mem_singleton]
      rcases List.mem_append.1 hz with hz | hz
      · exact .inl (hnewer z hz)
      · exact .inr (List.mem_singleton.1 hz)
    have hsplit := hfull.symm.trans horder
    cases older with
    | nil =>
      -- the identity itself goes, so the order was full of newer ones
      obtain ⟨-, rfl⟩ := List.cons.inj hsplit
      have hnodup := hinv.nodup
      rw [horder] at hnodup hyx
      have hall : (rest ++ [y]).Nodup :=
        (List.nodup_cons.1 hnodup).2.append (List.nodup_singleton y)
          (by simpa using fun h => hyx (List.mem_cons_of_mem _ h))
      refine .inl ?_
      rw [← hlength, hfull, List.length_cons, ← List.length_singleton (a := y),
        ← List.length_append, ← List.toFinset_card_of_nodup hall]
      exact Finset.card_le_card fun z hz => hsub z (List.mem_toFinset.1 hz)
    | cons first older =>
      obtain ⟨-, rfl⟩ := List.cons.inj hsplit
      refine .inr ⟨older, newer ++ [y], ?_, hsub⟩
      exact List.append_assoc older (x :: newer) [y]

theorem trim_append (hlimit : 0 < limit) (order : List DeliveryIdentity)
    (states : DeliveryIdentity → Option Progress) :
    ∃ older, (State.trim limit states (order ++ [x])).deliveredOrder = older ++ [x] := by
  induction order generalizing states with
  | nil => exact ⟨[], by rw [trim_of_le hlimit]⟩
  | cons oldest order ih =>
    rw [List.cons_append, State.trim]
    split
    · exact ih _
    · exact ⟨oldest :: order, rfl⟩

theorem recent_of_marked (hlimit : 0 < limit) (hnew : s.states x ≠ some .delivered)
    (h : Step limit s (.markDelivered x true) s') : Recent limit x [] s' := by
  generalize hcall : Call.markDelivered x true = call at h
  cases h with
  | begin => cases hcall
  | abort => cases hcall
  | markDelivered y =>
    obtain ⟨rfl, hresult⟩ := Call.markDelivered.inj hcall
    unfold State.markDelivered at hresult ⊢
    split at hresult
    · cases hresult
    · next hvalid =>
      rw [if_neg hvalid]
      split at hresult
      · cases hresult
      · next hdelivered => exact absurd hdelivered hnew
      · obtain ⟨older, horder⟩ := trim_append hlimit s.deliveredOrder
          (Function.update s.states x (some .delivered))
        exact .inr ⟨older, [], horder, fun _ h => absurd h List.not_mem_nil⟩

theorem run_recent (hlimit : 0 < limit) (hinv : Inv limit s) (hr : Recent limit x [] s)
    (h : Run (Step limit) s calls s') :
    Inv limit s' ∧ Recent limit x calls s' :=
  h.history (I := fun calls s => Inv limit s ∧ Recent limit x calls s)
    (fun _ _ _ _ hs hstep => ⟨hstep.inv hlimit hs.1, hstep.recent hlimit hs.1 hs.2⟩) ⟨hinv, hr⟩

theorem answers_of_recent (hinv : Inv limit s) (hx : x.valid = true) (hr : Recent limit x calls s) :
    ((s.begin x).1 = .alreadyDelivered ∧ (s.abort x).1 = false) ∨ limit ≤ (others x calls).card := by
  rcases hr with hcard | ⟨older, newer, horder, -⟩
  · exact .inr hcard
  · have hdelivered : s.states x = some .delivered := (hinv.delivered x).2 (by simp [horder])
    refine .inl ⟨?_, ?_⟩
    · rw [State.begin, if_neg (by simp [hx]), hdelivered]
    · rw [State.abort, if_neg (by simp [hx]), hdelivered]

theorem valid_of_marked (h : Step limit s (.markDelivered x true) s') : x.valid = true := by
  generalize hcall : Call.markDelivered x true = call at h
  cases h with
  | begin => cases hcall
  | abort => cases hcall
  | markDelivered y =>
    obtain ⟨rfl, hresult⟩ := Call.markDelivered.inj hcall
    unfold State.markDelivered at hresult
    grind

/-! ## Deduplication -/

theorem limitOf_pos (maxRecentDelivered : ℕ) : 0 < limitOf maxRecentDelivered := by
  unfold limitOf
  omega

/-- The work on an identity is with one caller at a time; an identity that became delivered is
remembered until at least as many others have been marked; and the order holds those that are. -/
theorem deduplication (maxRecentDelivered : ℕ) {calls : List Call}
    (h : Run (Step (limitOf maxRecentDelivered)) start calls s) :
    (∀ (x : DeliveryIdentity) (s₁ : State) (between : List Call) (s₂ s₃ : State),
      Step (limitOf maxRecentDelivered) s (.begin x .acquired) s₁ →
      Run (Step (limitOf maxRecentDelivered)) s₁ between s₂ →
      Step (limitOf maxRecentDelivered) s₂ (.begin x .acquired) s₃ →
      ∃ call ∈ between, call.Settles x) ∧
    (∀ (x : DeliveryIdentity) (s₁ : State) (after : List Call) (s₂ : State),
      s.states x ≠ some .delivered →
      Step (limitOf maxRecentDelivered) s (.markDelivered x true) s₁ →
      Run (Step (limitOf maxRecentDelivered)) s₁ after s₂ →
      ((s₂.begin x).1 = .alreadyDelivered ∧ (s₂.abort x).1 = false) ∨
        limitOf maxRecentDelivered ≤ (others x after).card) ∧
    (∀ x, s.states x = some .delivered ↔ x ∈ s.deliveredOrder) ∧ s.deliveredOrder.Nodup ∧
    s.deliveredOrder.length ≤ limitOf maxRecentDelivered := by
  have hlimit := limitOf_pos maxRecentDelivered
  have hinv : Inv (limitOf maxRecentDelivered) s :=
    h.invariant (fun _ _ _ hs hstep => Step.inv hlimit hs hstep) (start_inv _)
  refine ⟨fun x s₁ between s₂ s₃ hfirst hrun hsecond => ?_, fun x s₁ after s₂ hnew hmark hrun => ?_,
    hinv.delivered, hinv.nodup, hinv.bounded⟩
  · by_contra hnone
    have hprocessing := run_processing hlimit (hfirst.inv hlimit hinv) hrun
      (fun call hmem hsettles => hnone ⟨call, hmem, hsettles⟩) (states_of_acquired hfirst).2
    rw [(states_of_acquired hsecond).1] at hprocessing
    cases hprocessing.2
  · obtain ⟨hinv₂, hrecent⟩ :=
      run_recent hlimit (hmark.inv hlimit hinv) (recent_of_marked hlimit hnew hmark) hrun
    exact answers_of_recent hinv₂ (valid_of_marked hmark) hrecent

/-! ## Identities that are delivered twice -/

def sampleIdentity (messageId : ℕ) : DeliveryIdentity := ⟨.privateMessage, messageId, 1⟩

def State.deliver (limit : ℕ) (s : State) (x : DeliveryIdentity) : State :=
  ((s.begin x).2.markDelivered limit x).2

theorem run_deliver (limit : ℕ) (s : State) (x : DeliveryIdentity) :
    Run (Step limit) s
      [.begin x (s.begin x).1, .markDelivered x ((s.begin x).2.markDelivered limit x).1]
      (s.deliver limit x) :=
  .cons (.begin s x) (.single (.markDelivered _ x))

theorem deduplication_sample :
    ∃ calls s, Run (Step (limitOf 2)) start calls s ∧ s.deliveredOrder = [sampleIdentity 7] ∧
      s.deliveredOrder.length ≤ limitOf 2 :=
  ⟨_, _, run_deliver 2 start (sampleIdentity 7), rfl,
    (deduplication 2 (run_deliver 2 start (sampleIdentity 7))).2.2.2.2⟩

/-- A second `MarkDelivered` returns true and leaves the identity at its place in the order, so one
other delivery can make it acquired again. -/
theorem marked_twice : ∃ calls s s₁ after s₂,
    Run (Step (limitOf 2)) start calls s ∧
    Step (limitOf 2) s (.markDelivered (sampleIdentity 1) true) s₁ ∧
    Run (Step (limitOf 2)) s₁ after s₂ ∧
    (s₂.begin (sampleIdentity 1)).1 = .acquired ∧ (others (sampleIdentity 1) after).card < 2 := by
  let s := (start.deliver 2 (sampleIdentity 1)).deliver 2 (sampleIdentity 2)
  have hrun := (run_deliver 2 start (sampleIdentity 1)).append (run_deliver 2 _ (sampleIdentity 2))
  have hmark : Step (limitOf 2) s (.markDelivered (sampleIdentity 1) true) s :=
    .markDelivered s (sampleIdentity 1)
  exact ⟨_, s, s, _, s.deliver 2 (sampleIdentity 3), hrun, hmark,
    run_deliver 2 s (sampleIdentity 3), rfl, by decide⟩

end TinyImx.Gateway.DeliveryDedup
