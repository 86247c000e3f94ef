import TinyImx.Registry.LeaseOwnership

/-!
# Live gateways in the index

Scripts change a lease and the index together.  What may take a live gateway out of the index is a
`SREM` outside a script: the one after the script of `UnregisterIfMatch`, whatever the script found,
and the one with which `ListActiveGateways` drops an id whose lease it did not find in an earlier
command.  Where none of them meets a live lease, the index has every live gateway, and a listing has
every gateway that is live as long as it takes.
-/

namespace TinyImx.Registry

open TinyImx.Local (Bytes)

variable {Value : Type} {json : Json Value} {s s' : State Value} {l : Label} {ls : List Label}

def Redis.Live (json : Json Value) (r : Redis Value) (id : Bytes) : Prop :=
  ∃ record, json.found id (r.lease id) = some record

def Redis.Indexed (json : Json Value) (r : Redis Value) : Prop :=
  ∀ id, r.Live json id → id ∈ r.index

/-- A `SREM` outside a script that takes effect now finds no live lease. -/
def SremSafe (json : Json Value) (s : State Value) (l : Label) : Prop :=
  ∀ c call o id, l = .command c call.request o → s.calls c = some call → call.Srem id →
    o.effective = true → ¬ s.redis.Live json id

/-! ## Discovery -/

def insertOrAssign (m : Bytes → Option GatewayInstanceRecord) (record : GatewayInstanceRecord) :
    Bytes → Option GatewayInstanceRecord :=
  Function.update m record.gatewayId (some record)

/-- `GatewayDiscovery::RefreshNow` on what the registry returned: whether it succeeded, and the
snapshot after it. -/
def refreshNow (snapshot : Bytes → Option GatewayInstanceRecord) :
    Result → Bool × (Bytes → Option GatewayInstanceRecord)
  | .list .ok instances _ =>
    (true, instances.foldl insertOrAssign fun _ => none)
  | _ => (false, snapshot)

theorem foldl_insertOrAssign_ne_none (instances : List GatewayInstanceRecord) (id : Bytes) :
    ∀ m : Bytes → Option GatewayInstanceRecord,
      (m id ≠ none ∨ ∃ record ∈ instances, record.gatewayId = id) →
      instances.foldl insertOrAssign m id ≠ none := by
  induction instances with
  | nil =>
    simp_all
  | cons record instances ih =>
    intro m h
    refine ih _ ?_
    unfold insertOrAssign
    by_cases hid : record.gatewayId = id
    · simp_all
    · rw [Function.update_of_ne (Ne.symm hid)]
      rcases h with h | ⟨record', hrecord', hid'⟩
      · exact .inl h
      · rcases List.mem_cons.1 hrecord' with rfl | hmem
        · exact absurd hid' hid
        · exact .inr ⟨record', hmem, hid'⟩

/-! ## The index -/

variable {r : Redis Value} {id : Bytes}

theorem Redis.Live.congr {r' : Redis Value} (h : r'.Live json id)
    (hlease : r'.lease id = r.lease id) : r.Live json id := by
  obtain ⟨record, hrecord⟩ := h
  exact ⟨record, hlease ▸ hrecord⟩

theorem Redis.not_live_of_none (h : r.lease id = none) : ¬ r.Live json id := by
  rintro ⟨record, hrecord⟩
  rw [h] at hrecord
  cases hrecord

theorem Redis.Indexed.del (h : r.Indexed json) (id : Bytes) : (r.del id).Indexed json := by
  intro id' hlive
  by_cases hid : id' = id
  · subst hid
    exact absurd hlive (not_live_of_none (Function.update_self ..))
  · exact h id' (hlive.congr (Function.update_of_ne hid ..))

theorem Redis.Indexed.sadd (h : r.Indexed json) (id : Bytes) : (r.sadd id).Indexed json :=
  fun id' hlive => Finset.mem_insert_of_mem (h id' hlive)

theorem Redis.Indexed.srem (h : r.Indexed json)
    (hlive : ¬ r.Live json id) : (r.srem id).Indexed json := by
  intro id' hlive'
  have hid : id' ≠ id := by
    rintro rfl
    exact hlive hlive'
  exact Finset.mem_erase.2 ⟨hid, h id' hlive'⟩

theorem Redis.Indexed.set_sadd (h : r.Indexed json) (id : Bytes) (value : Value)
    (ttl : ℤ) : ((r.set id value ttl).sadd id).Indexed json := by
  intro id' hlive
  by_cases hid : id' = id
  · subst hid
    exact Finset.mem_insert_self ..
  · exact Finset.mem_insert_of_mem (h id' (hlive.congr (Function.update_of_ne hid ..)))

theorem Change.indexed (h : s.redis.Indexed json) (hchange : Change json s l r)
    (hsafe : SremSafe json s l) : r.Indexed json := by
  cases hchange with
  | same => exact h
  | expire => exact h.del _
  | write => exact h.set_sadd _ _ _
  | remove => exact (h.del _).srem (Redis.not_live_of_none (Function.update_self ..))
  | absent hlease => exact h.srem (Redis.not_live_of_none hlease)
  | sadd => exact h.sadd _
  | rollback => exact h.del _
  | srem hcall hsrem heffective => exact h.srem (hsafe _ _ _ _ rfl hcall hsrem heffective)

theorem Step.srem {c : ℕ} {call : Call Value} {o : Outcome}
    (hs : Step json s (.command c call.request o) s') (hcall : s.calls c = some call)
    (hsrem : call.Srem id) (heffective : o.effective = true) : s'.redis = s.redis.srem id := by
  obtain ⟨req, phase⟩ := call
  have hexec : ∀ id', (s.redis.exec (fun r => (r.srem id', ())) o).1 = s.redis.srem id' := by
    intro id'
    cases o with
    | done | lost => rfl
    | rejected | broken => cases heffective
  generalize hreq : Call.request ⟨req, phase⟩ = req' at hs
  cases hs with
  | unregisterSrem hcall' hout =>
    cases hcall.symm.trans hcall'
    subst hout
    rw [show id = _ from hsrem]
    exact hexec _
  | listSrem hcall' hout =>
    cases hcall.symm.trans hcall'
    subst hout
    rw [show id = _ from hsrem]
    exact hexec _
  | registerScript hcall' | registerSadd hcall' | registerDel hcall' | refreshScript hcall'
  | unregisterScript hcall' | listMembers hcall' | listMembersFailed hcall' | listGet hcall' =>
    cases hcall.symm.trans hcall'
    exact hsrem.elim

theorem indexed_iff (hdumped : Dumped json s) (h : s.redis.Indexed json) (hs : Step json s l s') :
    s'.redis.Indexed json ↔ SremSafe json s l := by
  refine ⟨fun h' c call o id hl hcall hsrem heffective hlive => ?_, (hs.change hdumped).indexed h⟩
  subst hl
  have hredis := hs.srem hcall hsrem heffective
  have hmem := h' id (hlive.congr (by rw [hredis]; rfl))
  rw [hredis] at hmem
  exact (Finset.mem_erase.1 hmem).1 rfl

/-! ## Listings -/

theorem Json.found_gatewayId {entry : Option (Entry Value)}
    {record : GatewayInstanceRecord} (h : json.found id entry = some record) :
    record.gatewayId = id ∧ id ≠ [] := by
  unfold found at h
  split at h
  · cases h
  · split at h
    · cases h
    · rename_i hrecord
      split at h
      · cases h
      · rename_i hid
        obtain rfl := Option.some.inj h
        refine ⟨not_not.1 hid, ?_⟩
        rintro rfl
        unfold Json.deserialize at hrecord
        split at hrecord
        · cases hrecord
        · split at hrecord
          · rename_i hvalid
            obtain rfl := Option.some.inj hrecord
            simp [IsValidGatewayRecord, not_not.1 hid] at hvalid
          · cases hrecord

inductive ListMove (json : Json Value) (r : Redis Value) : Phase Value → Phase Value → Prop
  | members {ids : List Bytes} : ids.Nodup → (∀ id, id ∈ ids ↔ id ∈ r.index) →
      ListMove json r .listMembers (.listGet ids [])
  | found {id : Bytes} {rest : List Bytes} {instances : List GatewayInstanceRecord}
      {record : GatewayInstanceRecord} : json.found id (r.lease id) = some record →
      ListMove json r (.listGet (id :: rest) instances) (.listGet rest (instances ++ [record]))
  | missing {id : Bytes} {rest : List Bytes} {instances : List GatewayInstanceRecord} :
      (id = [] ∨ json.found id (r.lease id) = none) →
      ListMove json r (.listGet (id :: rest) instances) (.listSrem id rest instances)
  | dropped {id : Bytes} {rest : List Bytes} {instances : List GatewayInstanceRecord} :
      ListMove json r (.listSrem id rest instances) (.listGet rest instances)
  | done {instances : List GatewayInstanceRecord} :
      ListMove json r (.listGet [] instances)
        (.returned (.list .ok (sortInstances instances) ""))

variable {phase : Phase Value}

theorem State.listing_go {c c' : ℕ} {redis : Redis Value} {req : Request}
    {phase' : Phase Value} (h : (s.go c' redis req phase').calls c = some ⟨.list, phase⟩) :
    s.calls c = some ⟨.list, phase⟩ ∨ (c = c' ∧ req = .list ∧ phase = phase') := by
  rw [State.go_calls] at h
  grind

/-- A listing after a step: it is where it was, has begun, has failed, or has gone on. -/
theorem Step.listing {c : ℕ} (hs : Step json s l s') (hcall : s'.calls c = some ⟨.list, phase⟩) :
    s.calls c = some ⟨.list, phase⟩ ∨ phase = .listMembers ∨
      (∃ instances error, phase = .returned (.list .redisError instances error)) ∨
      ∃ before, s.calls c = some ⟨.list, before⟩ ∧ ListMove json s.redis before phase := by
  cases hs with
  | expire => exact .inl hcall
  | registerScript | registerSadd | registerDel | refreshScript | unregisterScript
  | unregisterSrem =>
    rcases State.listing_go hcall with hcall | ⟨-, hreq, -⟩
    · exact .inl hcall
    · cases hreq
  | arrive _ _ harguments =>
    rcases State.listing_go hcall with hcall | ⟨-, rfl, rfl⟩
    · exact .inl hcall
    · cases harguments
      exact .inr (.inl rfl)
  | refuse _ harguments =>
    rcases State.listing_go hcall with hcall | ⟨-, rfl, rfl⟩
    · exact .inl hcall
    · cases harguments
  | unavailable =>
    rcases State.listing_go hcall with hcall | ⟨-, rfl, rfl⟩
    · exact .inl hcall
    · exact .inr (.inr (.inl ⟨_, _, rfl⟩))
  | listMembers hbefore hnodup hmem =>
    rcases State.listing_go hcall with hcall | ⟨rfl, -, rfl⟩
    · exact .inl hcall
    · exact .inr (.inr (.inr ⟨_, hbefore, .members hnodup hmem⟩))
  | listMembersFailed hbefore =>
    rcases State.listing_go hcall with hcall | ⟨rfl, -, rfl⟩
    · exact .inl hcall
    · exact .inr (.inr (.inl ⟨_, _, rfl⟩))
  | listGetEmpty hbefore =>
    rcases State.listing_go hcall with hcall | ⟨rfl, -, rfl⟩
    · exact .inl hcall
    · exact .inr (.inr (.inr ⟨_, hbefore, .missing (.inl rfl)⟩))
  | @listGet c' id rest instances o error out hbefore hid hout =>
    rcases State.listing_go hcall with hcall | ⟨rfl, -, rfl⟩
    · exact .inl hcall
    · subst hout
      refine .inr (.inr ?_)
      cases o with
      | done =>
        cases hfound : json.found id (s.redis.lease id) with
        | none =>
          refine .inr ⟨_, hbefore, ?_⟩
          simp only [Redis.exec, afterListGet, hfound]
          exact .missing (.inr hfound)
        | some record =>
          refine .inr ⟨_, hbefore, ?_⟩
          simp only [Redis.exec, afterListGet, hfound]
          exact .found hfound
      | rejected | lost | broken => exact .inl ⟨_, _, rfl⟩
  | listSrem hbefore =>
    rcases State.listing_go hcall with hcall | ⟨rfl, -, rfl⟩
    · exact .inl hcall
    · exact .inr (.inr (.inr ⟨_, hbefore, .dropped⟩))
  | listDone hbefore =>
    rcases State.listing_go hcall with hcall | ⟨rfl, -, rfl⟩
    · exact .inl hcall
    · exact .inr (.inr (.inr ⟨_, hbefore, .done⟩))

/-- The ids that a listing has found and has yet to ask for are distinct; what it returns is sorted. -/
def Phase.Distinct : Phase Value → Prop
  | .listGet rest instances | .listSrem _ rest instances =>
    (instances.map (·.gatewayId) ++ rest).Nodup
  | .returned (.list .ok instances _) => instances.Pairwise (·.gatewayId < ·.gatewayId)
  | _ => True

theorem sortInstances_pairwise {instances : List GatewayInstanceRecord}
    (h : (instances.map (·.gatewayId)).Nodup) :
    (sortInstances instances).Pairwise (·.gatewayId < ·.gatewayId) := by
  have hperm := List.mergeSort_perm instances fun a b => !decide (b.gatewayId < a.gatewayId)
  have hnodup : ((sortInstances instances).map (·.gatewayId)).Nodup :=
    (hperm.map _).nodup_iff.2 h
  have hsorted : (sortInstances instances).Pairwise fun a b => !decide (b.gatewayId < a.gatewayId) :=
    List.pairwise_mergeSort
      (fun a b c hab hbc => by
        simp only [Bool.not_eq_true', decide_eq_false_iff_not] at hab hbc ⊢
        exact List.le_trans hab hbc)
      (fun a b => by
        simp only [Bool.or_eq_true, Bool.not_eq_true', decide_eq_false_iff_not]
        exact List.le_total _ _) instances
  refine (hsorted.and (List.pairwise_map.1 hnodup)).imp fun {a b} hab => ?_
  simp only [Bool.not_eq_true', decide_eq_false_iff_not] at hab
  grind

theorem ListMove.distinct {before : Phase Value}
    (hmove : ListMove json r before phase) (h : before.Distinct) : phase.Distinct := by
  cases hmove with
  | members hnodup => simpa [Phase.Distinct] using hnodup
  | found hfound =>
    simpa [Phase.Distinct, (Json.found_gatewayId hfound).1] using h
  | missing =>
    refine List.Nodup.sublist (List.Sublist.append_left (List.sublist_cons_self _ _) _) h
  | dropped => exact h
  | done => exact sortInstances_pairwise (by simpa [Phase.Distinct] using h)

theorem listings_distinct {redis : Redis Value} (hrun : Run (Step json) (.start redis) ls s) {c : ℕ}
    (hcall : s.calls c = some ⟨.list, phase⟩) : phase.Distinct := by
  refine hrun.invariant (I := fun s => ∀ c phase, s.calls c = some ⟨.list, phase⟩ → phase.Distinct)
    ?_ (fun c phase hcall => by cases hcall) c phase hcall
  intro s l s' h hs c phase hcall
  rcases hs.listing hcall with hcall | rfl | ⟨_, _, rfl⟩ | ⟨before, hbefore, hmove⟩
  · exact h c phase hcall
  · trivial
  · trivial
  · exact hmove.distinct (h c before hbefore)

def Phase.Covers (id : Bytes) : Phase Value → Prop
  | .listGet rest instances | .listSrem _ rest instances =>
    id ∈ rest ∨ ∃ record ∈ instances, record.gatewayId = id
  | .returned (.list .ok instances _) => ∃ record ∈ instances, record.gatewayId = id
  | _ => True

theorem ListMove.covers {before : Phase Value}
    (hmove : ListMove json r before phase) (hindexed : r.Indexed json) (hlive : r.Live json id)
    (h : before.Covers id) : phase.Covers id := by
  cases hmove with
  | members _ hmem => exact .inl ((hmem id).2 (hindexed id hlive))
  | found hfound =>
    rcases h with h | ⟨record, hrecord, hid⟩
    · rcases List.mem_cons.1 h with rfl | hrest
      · exact .inr ⟨_, by simp, (Json.found_gatewayId hfound).1⟩
      · exact .inl hrest
    · exact .inr ⟨record, by simp [hrecord], hid⟩
  | missing hmissing =>
    rcases h with h | hfound
    · rcases List.mem_cons.1 h with rfl | hrest
      · obtain ⟨record, hrecord⟩ := hlive
        rcases hmissing with hempty | hnone
        · exact absurd hempty (Json.found_gatewayId hrecord).2
        · cases hrecord.symm.trans hnone
      · exact .inl hrest
    · exact .inr hfound
  | dropped => exact h
  | done =>
    rcases h with h | ⟨record, hrecord, hid⟩
    · cases h
    · exact ⟨record, List.mem_mergeSort.2 hrecord, hid⟩

theorem listing_covers {c : ℕ} {instances : List GatewayInstanceRecord}
    {message : String} (hdumped : Dumped json s) (hindexed : s.redis.Indexed json)
    (hbegin : s.calls c = some ⟨.list, .listMembers⟩)
    (hrun : Run (fun t l t' => Step json t l t' ∧ SremSafe json t l ∧ t.redis.Live json id) s ls s')
    (hend : s'.calls c = some ⟨.list, .returned (.list .ok instances message)⟩) :
    ∃ record ∈ instances, record.gatewayId = id := by
  have hkept := hrun.invariant (I := fun t => Dumped json t ∧ t.redis.Indexed json ∧
    ∀ phase, t.calls c = some ⟨.list, phase⟩ → phase.Covers id) ?_
    ⟨hdumped, hindexed, fun phase hcall => by cases hbegin.symm.trans hcall; trivial⟩
  · exact hkept.2.2 _ hend
  · rintro t l t' ⟨hdumped, hindexed, h⟩ ⟨hs, hsafe, hlive⟩
    refine ⟨hdumped.step hs, (hs.change hdumped).indexed hindexed hsafe, fun phase hcall => ?_⟩
    rcases hs.listing hcall with hcall | rfl | ⟨_, _, rfl⟩ | ⟨before, hbefore, hmove⟩
    · exact h phase hcall
    · trivial
    · trivial
    · exact hmove.covers hindexed hlive (h before hbefore)

/-- Take any run in which no `SREM` outside a script meets a live lease.  In every state of it each live
gateway is in the index, and the next step keeps it so exactly when it is no such `SREM`.  A listing
that returns is sorted by id without duplicates; it has every gateway that is live as long as it takes,
and a refresh of the discovery with it keeps that gateway. -/
theorem live_gateways_indexed {redis : Redis Value} (hredis : redis.Indexed json)
    (hrun : Run (fun s l s' => Step json s l s' ∧ SremSafe json s l) (.start redis) ls s) :
    s.redis.Indexed json ∧
    (∀ l s', Step json s l s' → (s'.redis.Indexed json ↔ SremSafe json s l)) ∧
    (∀ c instances message, s.calls c = some ⟨.list, .returned (.list .ok instances message)⟩ →
      instances.Pairwise (·.gatewayId < ·.gatewayId)) ∧
    ∀ c id ms s' instances message, s.calls c = some ⟨.list, .listMembers⟩ →
      Run (fun t l t' => Step json t l t' ∧ SremSafe json t l ∧ t.redis.Live json id) s ms s' →
      s'.calls c = some ⟨.list, .returned (.list .ok instances message)⟩ →
      (∃ record ∈ instances, record.gatewayId = id) ∧
        ∀ snapshot, ((refreshNow snapshot (.list .ok instances message)).2 id).isSome := by
  have hstep : Run (Step json) (.start redis) ls s := hrun.imp fun _ _ _ hs => hs.1
  have hdumped := Dumped.run hstep
  have hindexed : s.redis.Indexed json := by
    have hkept := hrun.invariant (I := fun t => Dumped json t ∧ t.redis.Indexed json)
      (fun t l t' h hs => ⟨h.1.step hs.1, (hs.1.change h.1).indexed h.2 hs.2⟩)
      ⟨.start redis, hredis⟩
    exact hkept.2
  refine ⟨hindexed, fun l s' hs => indexed_iff hdumped hindexed hs,
    fun c instances message hcall => listings_distinct hstep hcall, ?_⟩
  intro c id ms s' instances message hbegin hspan hend
  have hfound := listing_covers hdumped hindexed hbegin hspan hend
  refine ⟨hfound, fun snapshot => Option.isSome_iff_ne_none.2 ?_⟩
  exact foldl_insertOrAssign_ne_none instances id _ (.inr hfound)

theorem SremSafe.silent : SremSafe json s .silent := by
  intro c call o id hl
  cases hl

theorem SremSafe.of_call {c : ℕ} {req : Request} {o : Outcome}
    (hcall : s.calls c = some ⟨req, phase⟩) (hsrem : ∀ id, ¬ Call.Srem id ⟨req, phase⟩) :
    SremSafe json s (.command c req o) := by
  intro c' call' o' id hl hcall' hsrem'
  grind

theorem register_run : ∃ ls s,
    Run (fun s l s' => Step Json.fields s l s' ∧ SremSafe Json.fields s l) (.start .empty) ls s ∧
    s.redis.lease [103] = some ⟨exampleRecord 1, 30⟩ ∧ (∀ id, id ∈ [[103]] ↔ id ∈ s.redis.index) ∧
    s.calls 1 = some ⟨.list, .listMembers⟩ := by
  have hid : [103] ≠ kIndexSuffix := by decide
  have h : Run (fun s l s' => Step Json.fields s l s' ∧ SremSafe Json.fields s l) (.start .empty) []
    _ := .nil _
  have h := h.snoc ⟨.arrive (c := 0) rfl
    (show (Request.register (exampleRecord 1) 30).Unreserved from hid) rfl, .silent⟩
  have h := h.snoc ⟨.registerScript (c := 0) (o := .done) rfl rfl, .of_call rfl fun _ => id⟩
  have h := h.snoc ⟨.arrive (c := 1) rfl (show Request.list.Unreserved from trivial) rfl, .silent⟩
  have hmembers : ∀ id, id ∈ [[103]] ↔ id ∈ insert [103] (insert [103] (∅ : Finset Bytes)) := by simp
  exact ⟨_, _, h, rfl, hmembers, rfl⟩

/-- A registered gateway is listed and discovered. -/
theorem live_gateways_indexed_register : ∃ ls s ms s' instances,
    Run (fun s l s' => Step Json.fields s l s' ∧ SremSafe Json.fields s l) (.start .empty) ls s ∧
    s.calls 1 = some ⟨.list, .listMembers⟩ ∧
    Run (fun t l t' => Step Json.fields t l t' ∧ SremSafe Json.fields t l ∧
      t.redis.Live Json.fields [103]) s ms s' ∧
    s'.calls 1 = some ⟨.list, .returned (.list .ok instances "")⟩ ∧
    [103] ∈ s.redis.index ∧ ∃ record ∈ instances, record.gatewayId = [103] := by
  obtain ⟨ls, s, h, hlease, hmembers, hcall⟩ := register_run
  have hempty : Redis.empty.Indexed Json.fields := fun id hlive =>
    absurd hlive (Redis.not_live_of_none rfl)
  have hfound : Json.fields.found [103] (s.redis.lease [103]) = some (exampleRecord 1) := by
    rw [hlease]
    rfl
  have hspan : Run (fun t l t' => Step Json.fields t l t' ∧ SremSafe Json.fields t l ∧
      t.redis.Live Json.fields [103]) s [] s := .nil _
  have hspan := hspan.snoc ⟨.listMembers hcall (List.nodup_singleton [103]) hmembers,
    .of_call hcall fun _ => id, exampleRecord 1, hfound⟩
  have hspan := hspan.snoc ⟨@Step.listGet _ _ _ 1 [103] [] [] .done "" _ rfl (by decide) rfl,
    .of_call (show _ = some (Call.mk .list (.listGet [[103]] [])) from rfl) fun _ => id,
    exampleRecord 1, hfound⟩
  have hgot : afterListGet Json.fields [103] [] [] "" (some (s.redis.lease [103])) =
      .listGet [] [exampleRecord 1] := by
    simp only [afterListGet, hfound, List.nil_append]
  have hspan := hspan.snoc ⟨.listDone (c := 1)
    (show _ = some (Call.mk .list (.listGet [] [exampleRecord 1])) from
      congrArg (fun phase => some (Call.mk .list phase)) hgot), .silent, exampleRecord 1, hfound⟩
  obtain ⟨hindexed, -, -, hlisted⟩ := live_gateways_indexed hempty h
  exact ⟨_, s, _, _, _, h, hcall, hspan, rfl, hindexed [103] ⟨exampleRecord 1, hfound⟩,
    (hlisted 1 [103] _ _ _ "" hcall hspan rfl).1⟩

/-! ## A live gateway outside the index -/

def Label.Replied : Label → Prop
  | .command _ _ o => o = .done
  | _ => True

/-- Without any failure: the gateway has registered with the token 1, an `UnregisterIfMatch` with the
token 2 has been told of the mismatch, and a listing then returns nothing. -/
theorem mismatch_hides_gateway : ∃ ls s, Run (Step Json.fields) (.start .empty) ls s ∧
    (∀ l ∈ ls, l.Replied) ∧ s.redis.Live Json.fields [103] ∧ [103] ∉ s.redis.index ∧
    s.calls 1 = some ⟨.unregister [103] [2], .returned (.unregister .mismatch "")⟩ ∧
    s.calls 2 = some ⟨.list, .returned (.list .ok [] "")⟩ := by
  have hid : [103] ≠ kIndexSuffix := by decide
  have hempty : ∀ id, id ∈ ([] : List Bytes) ↔ id ∈ (∅ : Finset Bytes) := by simp
  have h : Run (Step Json.fields) (.start .empty) [] _ := .nil _
  have h := h.snoc (.arrive (c := 0) rfl
    (show (Request.register (exampleRecord 1) 30).Unreserved from hid) rfl)
  have h := h.snoc (.registerScript (c := 0) (o := .done) rfl rfl)
  have h := h.snoc (@Step.registerSadd _ _ _ 0 _ _ true _ "" .done _ rfl (by nofun) rfl)
  have h := h.snoc (.arrive (c := 1) rfl
    (show (Request.unregister [103] [2]).Unreserved from hid) rfl)
  have h := h.snoc (@Step.unregisterScript _ _ _ 1 _ _ .done "" _ rfl rfl)
  have h := h.snoc (.unregisterSrem (c := 1) (o := .done) rfl rfl)
  have h := h.snoc (.arrive (c := 2) rfl (show Request.list.Unreserved from trivial) rfl)
  have h := h.snoc (.listMembers (c := 2) rfl List.nodup_nil hempty)
  have h := h.snoc (.listDone (c := 2) rfl)
  have hsort : some (Call.mk Request.list (.returned (.list .ok (sortInstances []) ""))) =
      some (Call.mk Request.list (.returned (.list .ok [] "") : Phase GatewayInstanceRecord)) := by
    rw [sortInstances, List.mergeSort_nil]
  exact ⟨_, _, h, by simp [Label.Replied], ⟨exampleRecord 1, rfl⟩, by decide, rfl, hsort⟩

end TinyImx.Registry
