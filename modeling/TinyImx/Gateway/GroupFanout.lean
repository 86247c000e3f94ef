import TinyImx.Local.EventIds

/-!
# One iteration of the group fan-out

An iteration claims deliveries, dispatches them and reports the outcome of each.  Three switches change
how: outcomes may wait until all items are dispatched, waiting outcomes may be reported in one call,
and items may be dispatched in one call.  The callbacks have a state of their own; `Event` records
each call with its arguments and its answer.
-/

namespace TinyImx.Gateway.GroupFanout

open TinyImx.Local (Bytes ascii decimal)

/-- A claimed delivery; `content` is what the iteration only passes on. -/
structure Work (ρ : Type) where
  messageId : ℕ
  deliveryMessageId : ℕ
  recipientUserId : ℕ
  content : ρ

inductive DispatchStatus
  | submitted
  | offline
  | alreadyDelivered
  | retryableFailure

structure DispatchResult where
  status : DispatchStatus
  gatewayId : Bytes
  errorCode : Bytes

inductive AttemptOutcome
  | submitted
  | offline
  | retryableFailure
  deriving DecidableEq

structure ClaimRequest where
  leaseOwner : Bytes
  leaseToken : Bytes
  limit : ℕ
  leaseMs : ℕ
  messageId : ℕ

/-- `CompleteGroupMessageDeliveryAttemptRpcRequest`. -/
structure Completion where
  messageId : ℕ
  recipientUserId : ℕ
  leaseToken : Bytes
  outcome : AttemptOutcome
  gatewayId : Bytes
  retryAfterMs : ℕ
  errorCode : Bytes

structure Options where
  gatewayId : Bytes
  batchSize : ℕ
  leaseMs : ℕ
  submittedRetryMs : ℕ
  failureRetryMs : ℕ

structure Switches where
  deferCompletion : Bool
  completionBatch : Bool
  routeBatch : Bool

/-- The callbacks, on a state of their own; `claim` gives no items where the call fails. -/
structure Dependencies (σ ρ : Type) where
  valid : Bool
  claim : σ → ClaimRequest → Option (List (Work ρ)) × σ
  complete : σ → Completion → Bool × σ
  dispatch : σ → Work ρ → DispatchResult × σ
  completeBatch : Option (σ → List Completion → Bool × σ)
  dispatchBatch : Option (σ → List (Work ρ) → List DispatchResult × σ)

inductive Event (ρ : Type)
  | claimed (request : ClaimRequest)
  | dispatched (work : Work ρ) (result : DispatchResult)
  | batchDispatched (works : List (Work ρ)) (results : List DispatchResult)
  | completed (completion : Completion)
  | batchCompleted (completions : List Completion)

structure World (σ ρ : Type) where
  state : σ
  events : List (Event ρ)

variable {σ ρ : Type}

/-! ## Calls -/

namespace World

variable (d : Dependencies σ ρ) (w : World σ ρ)

def claim (request : ClaimRequest) : Option (List (Work ρ)) × World σ ρ :=
  let (items, state) := d.claim w.state request
  (items, ⟨state, w.events ++ [.claimed request]⟩)

def dispatch (work : Work ρ) : DispatchResult × World σ ρ :=
  let (result, state) := d.dispatch w.state work
  (result, ⟨state, w.events ++ [.dispatched work result]⟩)

def dispatchBatch (call : σ → List (Work ρ) → List DispatchResult × σ) (works : List (Work ρ)) :
    List DispatchResult × World σ ρ :=
  let (results, state) := call w.state works
  (results, ⟨state, w.events ++ [.batchDispatched works results]⟩)

def finish (completion : Completion) : World σ ρ :=
  ⟨(d.complete w.state completion).2, w.events ++ [.completed completion]⟩

def completeBatch (call : σ → List Completion → Bool × σ) (completions : List Completion) :
    World σ ρ :=
  ⟨(call w.state completions).2, w.events ++ [.batchCompleted completions]⟩

end World

/-! ## The iteration -/

def Work.valid (work : Work ρ) : Bool :=
  work.messageId ≠ 0 && work.deliveryMessageId = work.messageId && work.recipientUserId ≠ 0

def nextLeaseToken (o : Options) (micros sequence : ℕ) : Bytes :=
  o.gatewayId ++ ascii ":group-fanout:" ++ decimal micros ++ ascii ":" ++ decimal sequence

def batchMismatch : DispatchResult := ⟨.retryableFailure, [], ascii "batch_dispatch_result_mismatch"⟩

def errorOr (errorCode : Bytes) (fallback : String) : Bytes :=
  if errorCode = [] then ascii fallback else errorCode

def completion (o : Options) (leaseToken : Bytes) (work : Work ρ) (dispatched : DispatchResult) :
    Completion :=
  let complete (outcome : AttemptOutcome) (retryAfterMs : ℕ) (errorCode : Bytes) : Completion :=
    ⟨work.messageId, work.recipientUserId, leaseToken, outcome, dispatched.gatewayId, retryAfterMs,
      errorCode⟩
  match dispatched.status with
  | .submitted | .alreadyDelivered => complete .submitted o.submittedRetryMs []
  | .offline => complete .offline 0 (errorOr dispatched.errorCode "recipient_offline")
  | .retryableFailure => complete .retryableFailure o.failureRetryMs
      (errorOr dispatched.errorCode "delivery_retryable_failure")

structure Pass (σ ρ : Type) where
  world : World σ ρ
  dispatchIndex : ℕ
  pending : List Completion
  processed : ℕ

/-- The result of an item: the next one of the batch, or that of its own call; `none` reads behind the
batch. -/
def Pass.result (d : Dependencies σ ρ) (batch : Option (List DispatchResult)) (work : Work ρ)
    (p : Pass σ ρ) : Option (DispatchResult × Pass σ ρ) :=
  match batch with
  | some results =>
    results[p.dispatchIndex]?.map fun result =>
      (result, { p with dispatchIndex := p.dispatchIndex + 1 })
  | none =>
    let (result, world) := p.world.dispatch d work
    some (result, { p with world := world })

def Pass.settle (d : Dependencies σ ρ) (defer : Bool) (complete : Completion) (p : Pass σ ρ) :
    Pass σ ρ :=
  if defer then { p with pending := p.pending ++ [complete], processed := p.processed + 1 }
  else { p with world := p.world.finish d complete, processed := p.processed + 1 }

def iterate (d : Dependencies σ ρ) (o : Options) (leaseToken : Bytes) (defer : Bool)
    (batch : Option (List DispatchResult)) : List (Work ρ) → Pass σ ρ → Option (Pass σ ρ)
  | [], p => some p
  | work :: works, p =>
    if !work.valid then
      iterate d o leaseToken defer batch works { p with processed := p.processed + 1 }
    else
      match p.result d batch work with
      | none => none
      | some (dispatched, p) =>
        iterate d o leaseToken defer batch works
          (p.settle d defer (completion o leaseToken work dispatched))

def routeBatch (d : Dependencies σ ρ) (s : Switches) (defer : Bool) (items : List (Work ρ))
    (w : World σ ρ) : Option (List DispatchResult) × World σ ρ :=
  match d.dispatchBatch with
  | some call =>
    if defer && s.routeBatch then
      let works := items.filter Work.valid
      if works = [] then (some [], w)
      else
        let (results, w) := w.dispatchBatch call works
        if results.length ≠ works.length then (some (List.replicate works.length batchMismatch), w)
        else (some results, w)
    else (none, w)
  | none => (none, w)

def flush (d : Dependencies σ ρ) (s : Switches) (pending : List Completion) (w : World σ ρ) :
    World σ ρ :=
  match d.completeBatch with
  | some call =>
    if pending ≠ [] && s.completionBatch then w.completeBatch call pending
    else pending.foldl (fun w complete => w.finish d complete) w
  | none => pending.foldl (fun w complete => w.finish d complete) w

def claimRequest (o : Options) (leaseToken : Bytes) : ClaimRequest :=
  ⟨o.gatewayId, leaseToken, min o.batchSize 256, o.leaseMs, 0⟩

/-- `RunOneIteration` at a time and with a number for its lease token: how many items it processed,
and what it did. -/
def runOneIteration (d : Dependencies σ ρ) (o : Options) (s : Switches) (micros sequence : ℕ)
    (state : σ) : Option (ℕ × World σ ρ) :=
  if !d.valid then some (0, ⟨state, []⟩)
  else
    let leaseToken := nextLeaseToken o micros sequence
    let request := claimRequest o leaseToken
    match World.claim d ⟨state, []⟩ request with
    | (none, w) => some (0, w)
    | (some items, w) =>
      let defer := s.deferCompletion && items.length ≤ request.limit
      let (batch, w) := routeBatch d s defer items w
      (iterate d o leaseToken defer batch items ⟨w, 0, [], 0⟩).map fun p =>
        (p.processed, flush d s p.pending p.world)

/-! ## What a list of events says -/

def Event.works : Event ρ → List (Work ρ)
  | .dispatched work _ => [work]
  | .batchDispatched works _ => works
  | _ => []

/-- The outcome of the dispatch of each item; a reply of another length counts as a retryable failure
of all. -/
def Event.outcomes : Event ρ → List (Work ρ × DispatchResult)
  | .dispatched work result => [(work, result)]
  | .batchDispatched works results =>
    if results.length = works.length then works.zip results else works.map (·, batchMismatch)
  | _ => []

def Event.completions : Event ρ → List Completion
  | .completed completion => [completion]
  | .batchCompleted completions => completions
  | _ => []

namespace World

variable (w : World σ ρ)

def works : List (Work ρ) := w.events.flatMap Event.works

def outcomes : List (Work ρ × DispatchResult) := w.events.flatMap Event.outcomes

def completions : List Completion := w.events.flatMap Event.completions

end World

/-! ## The effect of a call -/

namespace World

variable (d : Dependencies σ ρ) (w : World σ ρ)

@[simp] theorem works_dispatch (work : Work ρ) :
    (w.dispatch d work).2.works = w.works ++ [work] := by simp [works, dispatch, Event.works]

@[simp] theorem outcomes_dispatch (work : Work ρ) :
    (w.dispatch d work).2.outcomes = w.outcomes ++ [(work, (w.dispatch d work).1)] := by
  simp [outcomes, dispatch, Event.outcomes]

@[simp] theorem completions_dispatch (work : Work ρ) :
    (w.dispatch d work).2.completions = w.completions := by
  simp [completions, dispatch, Event.completions]

@[simp] theorem works_finish (c : Completion) : (w.finish d c).works = w.works := by
  simp [works, finish, Event.works]

@[simp] theorem outcomes_finish (c : Completion) : (w.finish d c).outcomes = w.outcomes := by
  simp [outcomes, finish, Event.outcomes]

@[simp] theorem completions_finish (c : Completion) :
    (w.finish d c).completions = w.completions ++ [c] := by
  simp [completions, finish, Event.completions]

variable {d}

theorem completeBatch_spec (call : σ → List Completion → Bool × σ) (cs : List Completion) :
    (w.completeBatch call cs).works = w.works ∧ (w.completeBatch call cs).outcomes = w.outcomes ∧
      (w.completeBatch call cs).completions = w.completions ++ cs := by
  simp [works, outcomes, completions, completeBatch, Event.works, Event.outcomes, Event.completions]

theorem foldl_finish_spec (cs : List Completion) :
    (cs.foldl (fun w c => finish d w c) w).works = w.works ∧
      (cs.foldl (fun w c => finish d w c) w).outcomes = w.outcomes ∧
      (cs.foldl (fun w c => finish d w c) w).completions = w.completions ++ cs := by
  induction cs generalizing w with
  | nil => simp
  | cons c cs ih =>
    obtain ⟨hworks, houtcomes, hcompletions⟩ := ih (w.finish d c)
    simp_all

end World

variable {d : Dependencies σ ρ} {o : Options} {s : Switches} {leaseToken : Bytes}

theorem flush_spec (pending : List Completion) (w : World σ ρ) :
    (flush d s pending w).works = w.works ∧ (flush d s pending w).outcomes = w.outcomes ∧
      (flush d s pending w).completions = w.completions ++ pending := by
  unfold flush
  split
  · split
    · exact w.completeBatch_spec _ _
    · exact w.foldl_finish_spec _
  · exact w.foldl_finish_spec _

/-! ## The loop -/

def Pass.completions (p : Pass σ ρ) : List Completion := p.world.completions ++ p.pending

def completionsOf (o : Options) (leaseToken : Bytes) (outcomes : List (Work ρ × DispatchResult)) :
    List Completion := outcomes.map fun x => completion o leaseToken x.1 x.2

/-- What the loop over some items has done: how many it passed, what it dispatched, and one completion
for each outcome. -/
structure Loops (o : Options) (leaseToken : Bytes) (defer : Bool) (count : ℕ) (works : List (Work ρ))
    (dispatched results : List (Work ρ × DispatchResult)) (p p' : Pass σ ρ) : Prop where
  processed : p'.processed = p.processed + count
  works : p'.world.works = p.world.works ++ works
  outcomes : p'.world.outcomes = p.world.outcomes ++ dispatched
  completions : p'.completions = p.completions ++ completionsOf o leaseToken results
  pending : defer = false → p'.pending = []

variable {defer : Bool} {p : Pass σ ρ}

theorem settle_completions (c : Completion) (h : defer = false → p.pending = []) :
    (p.settle d defer c).completions = p.completions ++ [c] ∧
      (defer = false → (p.settle d defer c).pending = []) := by
  cases defer with
  | true => simp [Pass.settle, Pass.completions]
  | false => simp [Pass.settle, Pass.completions, h rfl]

theorem settle_fields (c : Completion) : (p.settle d defer c).processed = p.processed + 1 ∧
    (p.settle d defer c).world.works = p.world.works ∧
    (p.settle d defer c).world.outcomes = p.world.outcomes ∧
    (p.settle d defer c).dispatchIndex = p.dispatchIndex := by
  cases defer <;> simp [Pass.settle]

/-- Items dispatched one by one. -/
theorem iterate_none (items : List (Work ρ)) (h : defer = false → p.pending = []) :
    ∃ p' results, iterate d o leaseToken defer none items p = some p' ∧
      results.map Prod.fst = items.filter Work.valid ∧
      (∀ x ∈ results, ∃ state, x.2 = (d.dispatch state x.1).1) ∧
      Loops o leaseToken defer items.length (items.filter Work.valid) results results p p' := by
  induction items generalizing p with
  | nil =>
    refine ⟨p, [], rfl, rfl, by simp, rfl, ?_, ?_, ?_, h⟩
    all_goals simp [completionsOf]
  | cons work items ih =>
    rw [iterate]
    cases hvalid : work.valid with
    | false =>
      obtain ⟨p', results, hp', hfst, hfrom, hloop⟩ := @ih { p with processed := p.processed + 1 } h
      refine ⟨p', results, hp', ?_, hfrom, ?_, ?_, hloop.outcomes, hloop.completions, hloop.pending⟩
      · simpa [hvalid] using hfst
      · have hcount := hloop.processed
        grind
      · simpa [hvalid] using hloop.works
    | true =>
      let result := (p.world.dispatch d work).1
      let p₁ : Pass σ ρ := { p with world := (p.world.dispatch d work).2 }
      let p₂ := p₁.settle d defer (completion o leaseToken work result)
      obtain ⟨hsettled, hpending⟩ := @settle_completions _ _ d defer p₁
        (completion o leaseToken work result) h
      obtain ⟨hprocessed, hworks, houtcomes, -⟩ := @settle_fields _ _ d defer p₁
        (completion o leaseToken work result)
      obtain ⟨p', results, hp', hfst, hfrom, hloop⟩ := @ih p₂ hpending
      refine ⟨p', (work, result) :: results, hp', ?_, ?_, ?_, ?_, ?_, ?_, hloop.pending⟩
      · simp [hvalid, hfst]
      · exact List.forall_mem_cons.2 ⟨⟨p.world.state, rfl⟩, hfrom⟩
      · rw [hloop.processed, hprocessed, List.length_cons]
        grind
      · rw [hloop.works, hworks]
        simp [p₁, hvalid]
      · rw [hloop.outcomes, houtcomes]
        simp [p₁, result]
      · rw [hloop.completions, hsettled]
        simp [p₁, completionsOf, Pass.completions]

/-- Items whose results are those of a batch, from the running index on. -/
theorem iterate_some {results : List DispatchResult} (items : List (Work ρ))
    (h : defer = false → p.pending = [])
    (hlength : results.length = p.dispatchIndex + (items.filter Work.valid).length) :
    ∃ p', iterate d o leaseToken defer (some results) items p = some p' ∧
      Loops o leaseToken defer items.length [] []
        ((items.filter Work.valid).zip (results.drop p.dispatchIndex)) p p' := by
  induction items generalizing p with
  | nil =>
    refine ⟨p, rfl, rfl, ?_, ?_, ?_, h⟩
    all_goals simp [completionsOf]
  | cons work items ih =>
    rw [iterate]
    cases hvalid : work.valid with
    | false =>
      rw [List.filter_cons_of_neg (by simp [hvalid])] at hlength ⊢
      obtain ⟨p', hp', hloop⟩ := @ih { p with processed := p.processed + 1 } h hlength
      refine ⟨p', hp', ?_, hloop.works, hloop.outcomes, hloop.completions, hloop.pending⟩
      have hcount := hloop.processed
      dsimp only at hcount
      grind
    | true =>
      rw [List.filter_cons_of_pos hvalid, List.length_cons] at hlength
      have hindex : p.dispatchIndex < results.length := by omega
      let p₁ : Pass σ ρ := { p with dispatchIndex := p.dispatchIndex + 1 }
      let c := completion o leaseToken work results[p.dispatchIndex]
      have hresult : p.result d (some results) work = some (results[p.dispatchIndex], p₁) := by
        simp [Pass.result, hindex, p₁]
      obtain ⟨hsettled, hpending⟩ := @settle_completions _ _ d defer p₁ c h
      obtain ⟨hprocessed, hworks, houtcomes, hnext⟩ := @settle_fields _ _ d defer p₁ c
      have hrest : results.length = (p₁.settle d defer c).dispatchIndex +
          (items.filter Work.valid).length := by
        rw [hnext]
        show results.length = p.dispatchIndex + 1 + _
        omega
      obtain ⟨p', hp', hloop⟩ := @ih (p₁.settle d defer c) hpending hrest
      refine ⟨p', ?_, ?_, ?_, ?_, ?_, hloop.pending⟩
      · simp only [hresult, Bool.not_true, Bool.false_eq_true, if_false]
        exact hp'
      · rw [hloop.processed, hprocessed, List.length_cons]
        show p.processed + 1 + _ = _
        omega
      · rw [hloop.works, hworks]
      · rw [hloop.outcomes, houtcomes]
      · rw [hloop.completions, hsettled, hnext, List.filter_cons_of_pos hvalid,
          ← List.getElem_cons_drop hindex, List.zip_cons_cons, completionsOf, completionsOf,
          List.map_cons, List.append_assoc]
        rfl

/-! ## The whole iteration -/

def PerItem (d : Dependencies σ ρ) (answer : Work ρ → DispatchResult) : Prop :=
  (∀ state work, (d.dispatch state work).1 = answer work) ∧
    ∀ call, d.dispatchBatch = some call → ∀ state works, (call state works).1 = works.map answer

theorem map_pair_eq_zip (works : List (Work ρ)) (result : DispatchResult) :
    works.map (·, result) = works.zip (List.replicate works.length result) := by
  induction works with
  | nil => rfl
  | cons work works ih => rw [List.map_cons, ih, List.length_cons, List.replicate_succ,
      List.zip_cons_cons]

/-- What is dispatched in one call: nothing, or the valid items, with one result for each. -/
theorem routeBatch_spec (items : List (Work ρ)) (w : World σ ρ) :
    (routeBatch d s defer items w = (none, w)) ∨
      ∃ results w', routeBatch d s defer items w = (some results, w') ∧
        results.length = (items.filter Work.valid).length ∧
        w'.works = w.works ++ items.filter Work.valid ∧
        w'.outcomes = w.outcomes ++ (items.filter Work.valid).zip results ∧
        w'.completions = w.completions ∧
        ∀ answer, PerItem d answer → results = (items.filter Work.valid).map answer := by
  unfold routeBatch
  cases hcall : d.dispatchBatch with
  | none => exact .inl rfl
  | some call =>
    dsimp only
    split
    swap
    · exact .inl rfl
    right
    split
    · next hnil =>
      refine ⟨[], w, rfl, ?_⟩
      simp [hnil]
    · have hlength : ∀ answer, PerItem d answer →
          (call w.state (items.filter Work.valid)).1 = (items.filter Work.valid).map answer :=
        fun answer h => h.2 call hcall _ _
      split
      · next hne =>
        refine ⟨_, _, rfl, by simp, ?_, ?_, ?_, fun answer h => absurd ?_ hne⟩
        · simp [World.works, World.dispatchBatch, Event.works]
        · have hne : (call w.state (items.filter Work.valid)).1.length ≠
            (items.filter Work.valid).length := hne
          simp only [World.outcomes, World.dispatchBatch, List.flatMap_append, List.flatMap_cons,
            List.flatMap_nil, List.append_nil, Event.outcomes, if_neg hne]
          exact congrArg _ (map_pair_eq_zip _ _)
        · simp [World.completions, World.dispatchBatch, Event.completions]
        · show (call w.state (items.filter Work.valid)).1.length = _
          rw [hlength answer h, List.length_map]
      · next heq =>
        have heq : (call w.state (items.filter Work.valid)).1.length =
          (items.filter Work.valid).length := not_not.1 heq
        refine ⟨_, _, rfl, heq, ?_, ?_, ?_, hlength⟩
        · simp [World.works, World.dispatchBatch, Event.works]
        · simp only [World.outcomes, World.dispatchBatch, List.flatMap_append, List.flatMap_cons,
            List.flatMap_nil, List.append_nil, Event.outcomes, if_pos heq]
        · simp [World.completions, World.dispatchBatch, Event.completions]

theorem outcomes_eq_map {outcomes : List (Work ρ × DispatchResult)} {works : List (Work ρ)}
    {answer : Work ρ → DispatchResult} (hfst : outcomes.map Prod.fst = works)
    (h : ∀ x ∈ outcomes, x.2 = answer x.1) : outcomes = works.map fun work => (work, answer work) := by
  rw [← hfst, List.map_map]
  refine (List.map_id outcomes).symm.trans (List.map_congr_left fun x hx => ?_)
  grind

theorem iteration_spec (items : List (Work ρ)) {w : World σ ρ} (hworks : w.works = [])
    (houtcomes : w.outcomes = []) (hcompletions : w.completions = []) :
    ∃ p, iterate d o leaseToken defer (routeBatch d s defer items w).1 items
        ⟨(routeBatch d s defer items w).2, 0, [], 0⟩ = some p ∧
      p.processed = items.length ∧ p.world.works = items.filter Work.valid ∧
      p.world.outcomes.map Prod.fst = items.filter Work.valid ∧
      p.completions = completionsOf o leaseToken p.world.outcomes ∧
      ∀ answer, PerItem d answer → ∀ x ∈ p.world.outcomes, x.2 = answer x.1 := by
  rcases @routeBatch_spec _ _ d s defer items w with hroute | ⟨results, w', hroute, hlength, hworks',
    houtcomes', hcompletions', hanswer⟩
  · rw [hroute]
    obtain ⟨p, results, hp, hfst, hfrom, hloop⟩ := @iterate_none _ _ d o leaseToken defer
      ⟨w, 0, [], 0⟩ items fun _ => rfl
    have hresults : p.world.outcomes = results := by
      rw [hloop.outcomes, houtcomes, List.nil_append]
    refine ⟨p, hp, ?_, ?_, ?_, ?_, ?_⟩
    · rw [hloop.processed, Nat.zero_add]
    · rw [hloop.works, hworks, List.nil_append]
    · rw [hresults, hfst]
    · rw [hloop.completions, hresults]
      simp [Pass.completions, hcompletions]
    · intro answer h x hx
      obtain ⟨st, hst⟩ := hfrom x (hresults ▸ hx)
      exact hst.trans (h.1 st x.1)
  · rw [hroute]
    obtain ⟨p, hp, hloop⟩ := @iterate_some _ _ d o leaseToken defer ⟨w', 0, [], 0⟩ results items
      (fun _ => rfl) (by simp [hlength])
    have hresults : p.world.outcomes = (items.filter Work.valid).zip results := by
      rw [hloop.outcomes, houtcomes', houtcomes, List.nil_append, List.append_nil]
    refine ⟨p, hp, ?_, ?_, ?_, ?_, ?_⟩
    · rw [hloop.processed, Nat.zero_add]
    · rw [hloop.works, hworks', hworks, List.nil_append, List.append_nil]
    · rw [hresults, List.map_fst_zip hlength.symm.le]
    · rw [hloop.completions, hresults]
      simp [Pass.completions, hcompletions', hcompletions]
    · intro answer h x hx
      rw [hresults, hanswer answer h, ← List.map_prod_left_eq_zip] at hx
      obtain ⟨work, -, rfl⟩ := List.mem_map.1 hx
      rfl

/-- One iteration passes each valid item to dispatch once and issues one completion for it, with the
lease token of the iteration and the outcome of that item; where dispatch answers per item, the
completions do not depend on the switches. -/
theorem fanout_once (d : Dependencies σ ρ) (o : Options) (s : Switches) (micros sequence : ℕ)
    (state : σ) {items : List (Work ρ)} {state' : σ} (hvalid : d.valid = true)
    (hclaim : d.claim state (claimRequest o (nextLeaseToken o micros sequence)) =
      (some items, state')) :
    ∃ w, runOneIteration d o s micros sequence state = some (items.length, w) ∧
      w.works = items.filter Work.valid ∧ w.outcomes.map Prod.fst = items.filter Work.valid ∧
      w.completions = completionsOf o (nextLeaseToken o micros sequence) w.outcomes ∧
      ∀ answer, PerItem d answer → w.completions = (items.filter Work.valid).map fun work =>
        completion o (nextLeaseToken o micros sequence) work (answer work) := by
  let w : World σ ρ := ⟨state', [] ++ [.claimed (claimRequest o (nextLeaseToken o micros sequence))]⟩
  let defer := s.deferCompletion &&
    items.length ≤ (claimRequest o (nextLeaseToken o micros sequence)).limit
  obtain ⟨p, hp, hprocessed, hworks, hfst, hcompletions, hanswer⟩ := @iteration_spec _ _ d o s
    (nextLeaseToken o micros sequence) defer items w rfl rfl rfl
  obtain ⟨hworks', houtcomes', hcompletions'⟩ := @flush_spec _ _ d s p.pending p.world
  have hall : (flush d s p.pending p.world).completions =
      completionsOf o (nextLeaseToken o micros sequence) p.world.outcomes :=
    hcompletions'.trans hcompletions
  refine ⟨flush d s p.pending p.world, ?_, by rw [hworks', hworks], by rw [houtcomes', hfst],
    by rw [houtcomes', hall], fun answer h => ?_⟩
  · simp only [runOneIteration, hvalid, Bool.not_true, Bool.false_eq_true, if_false, World.claim,
      hclaim]
    refine (congrArg (Option.map fun p => (p.processed, flush d s p.pending p.world)) hp).trans ?_
    rw [Option.map_some, hprocessed]
  · rw [hall, outcomes_eq_map hfst (hanswer answer h), completionsOf, List.map_map]
    rfl

def sampleItems : List (Work Unit) := [⟨7001, 7001, 10002, ()⟩, ⟨7001, 7002, 10003, ()⟩,
  ⟨7001, 7001, 10004, ()⟩]

def sampleDependencies : Dependencies Unit Unit where
  valid := true
  claim := fun _ _ => (some sampleItems, ())
  complete := fun _ _ => (true, ())
  dispatch := fun _ work =>
    (if work.recipientUserId = 10002 then ⟨.submitted, [97], []⟩ else ⟨.offline, [], []⟩, ())
  completeBatch := some fun _ _ => (false, ())
  dispatchBatch := some fun _ _ => ([⟨.submitted, [97], []⟩], ())

/-- A batch of two items that answers with one result: both are reported as retryable failures. -/
theorem fanout_once_mismatch : ∃ w,
    runOneIteration sampleDependencies ⟨[103], 64, 5000, 3000, 1000⟩ ⟨true, true, true⟩ 1 2 () =
      some (3, w) ∧
    w.works.map Work.recipientUserId = [10002, 10004] ∧
    w.completions.map Completion.outcome = [.retryableFailure, .retryableFailure] := by
  obtain ⟨w, hrun, hworks, -⟩ := fanout_once sampleDependencies ⟨[103], 64, 5000, 3000, 1000⟩
    ⟨true, true, true⟩ 1 2 () rfl rfl
  refine ⟨w, hrun, ?_, ?_⟩
  · rw [hworks]
    decide
  · obtain rfl := (Prod.mk.inj (Option.some.inj (hrun.symm.trans rfl))).2
    decide

end TinyImx.Gateway.GroupFanout
