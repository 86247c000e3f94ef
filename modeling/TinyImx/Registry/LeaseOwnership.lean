import TinyImx.Registry.GatewayRegistry

/-!
# Who changes a lease

`Change` says once what a step does to Redis.  Scripts change a lease only under its own token; the
one command that does not look is the `DEL` with which `Register` takes back its lease after a failed
`SADD`.  A run in which that `DEL` never meets another's lease leaves every lease to its owner and to
its expiry.
-/

namespace TinyImx.Registry

open TinyImx.Local (Bytes)

variable {Value : Type} {json : Json Value} {s s' : State Value} {l : Label} {ls : List Label}

def Redis.Carries (json : Json Value) (r : Redis Value) (id token : Bytes) : Prop :=
  ∃ entry, r.lease id = some entry ∧ json.tokenOf id entry.value = some token

def Redis.OpenTo (json : Json Value) (r : Redis Value) (id token : Bytes) : Prop :=
  r.lease id = none ∨ r.Carries json id token

theorem Json.tokenOf_dump {record : GatewayInstanceRecord} {value : Value}
    (h : json.dump record = some value) :
    json.tokenOf record.gatewayId value = some record.leaseToken := by
  simp [tokenOf, json.decode_dump record value h]

/-! ## Scripts -/

theorem registerScript_cases (json : Json Value) (id : Bytes) (value : Value) (ttl : ℤ)
    (token : Bytes) (r : Redis Value) :
    (registerScript json id value ttl token r).1 = r ∨ (r.OpenTo json id token ∧
      (registerScript json id value ttl token r).1 = (r.set id value ttl).sadd id) := by
  unfold registerScript
  split
  · rename_i hlease
    exact .inr ⟨.inl hlease, rfl⟩
  · rename_i entry hlease
    split
    · exact .inl rfl
    · rename_i stored hstored
      split
      · exact .inl rfl
      · rename_i htoken
        obtain rfl := not_not.1 htoken
        exact .inr ⟨.inr ⟨entry, hlease, hstored⟩, rfl⟩

theorem refreshScript_cases (json : Json Value) (id token : Bytes) (ttl : ℤ) (r : Redis Value) :
    (refreshScript json id token ttl r).1 = r ∨
      ∃ entry, r.lease id = some entry ∧ json.tokenOf id entry.value = some token ∧
        (refreshScript json id token ttl r).1 = (r.set id entry.value ttl).sadd id := by
  unfold refreshScript
  split
  · exact .inl rfl
  · rename_i entry hlease
    split
    · exact .inl rfl
    · rename_i stored hstored
      split
      · exact .inl rfl
      · rename_i htoken
        obtain rfl := not_not.1 htoken
        refine .inr ⟨entry, hlease, hstored, ?_⟩
        simp [Redis.expire, hlease]

theorem unregisterScript_cases (json : Json Value) (id token : Bytes) (r : Redis Value) :
    (unregisterScript json id token r).1 = r ∨
      (r.lease id = none ∧ (unregisterScript json id token r).1 = r.srem id) ∨
      (r.Carries json id token ∧ (unregisterScript json id token r).1 = (r.del id).srem id) := by
  unfold unregisterScript
  split
  · simp_all
  · rename_i entry hlease
    split
    · exact .inl rfl
    · rename_i stored hstored
      split
      · exact .inl rfl
      · rename_i htoken
        obtain rfl := not_not.1 htoken
        exact .inr (.inr ⟨⟨entry, hlease, hstored⟩, rfl⟩)

theorem Redis.exec_cases {α : Type} (r : Redis Value) (command : Redis Value → Redis Value × α)
    (o : Outcome) :
    (r.exec command o).1 = r ∨ (o.effective = true ∧ (r.exec command o).1 = (command r).1) := by
  cases o with
  | done => exact .inr ⟨rfl, rfl⟩
  | rejected => exact .inl rfl
  | lost => exact .inr ⟨rfl, rfl⟩
  | broken => exact .inl rfl

/-! ## Steps -/

def Call.Srem (id : Bytes) : Call Value → Prop
  | ⟨.unregister id' _, .unregisterSrem _⟩ => id = id'
  | ⟨_, .listSrem id' _ _⟩ => id = id'
  | _ => False

inductive Change (json : Json Value) (s : State Value) : Label → Redis Value → Prop
  | same {l : Label} : Change json s l s.redis
  | expire {id : Bytes} : Change json s (.expire id) (s.redis.del id)
  | write {c : ℕ} {req : Request} {o : Outcome} {id token : Bytes} {value : Value} {ttl : ℤ} :
      req.token = some token → s.redis.OpenTo json id token → json.tokenOf id value = some token →
      Change json s (.command c req o) ((s.redis.set id value ttl).sadd id)
  | remove {c : ℕ} {req : Request} {o : Outcome} {id token : Bytes} : req.token = some token →
      s.redis.Carries json id token → Change json s (.command c req o) ((s.redis.del id).srem id)
  | absent {c : ℕ} {req : Request} {o : Outcome} {id : Bytes} : s.redis.lease id = none →
      Change json s (.command c req o) (s.redis.srem id)
  | sadd {c : ℕ} {req : Request} {o : Outcome} {id : Bytes} :
      Change json s (.command c req o) (s.redis.sadd id)
  | rollback {c : ℕ} {record : GatewayInstanceRecord} {ttl : ℤ} {connected : Bool} {error : String}
      {o : Outcome} : s.calls c = some ⟨.register record ttl, .registerDel connected error⟩ →
      o.effective = true →
      Change json s (.command c (.register record ttl) o) (s.redis.del record.gatewayId)
  | srem {c : ℕ} {call : Call Value} {o : Outcome} {id : Bytes} : s.calls c = some call →
      call.Srem id → o.effective = true →
      Change json s (.command c call.request o) (s.redis.srem id)

def Dumped (json : Json Value) (s : State Value) : Prop :=
  ∀ c record ttl value, s.calls c = some ⟨.register record ttl, .registerScript value⟩ →
    json.dump record = some value

theorem Change.exec {α : Type} {command : Redis Value → Redis Value × α} {o : Outcome}
    (h : o.effective = true → Change json s l (command s.redis).1) :
    Change json s l (s.redis.exec command o).1 := by
  rcases s.redis.exec_cases command o with hsame | ⟨heffective, heffect⟩
  · rw [hsame]
    exact .same
  · rw [heffect]
    exact h heffective

theorem Step.change (h : Dumped json s) (hs : Step json s l s') : Change json s l s'.redis := by
  cases hs with
  | arrive | refuse | unavailable | listMembers | listMembersFailed | listGetEmpty | listDone =>
    exact .same
  | expire => exact .expire
  | @registerScript c record ttl value o out hcall hout =>
    subst hout
    refine Change.exec fun _ => ?_
    rcases registerScript_cases json record.gatewayId value ttl record.leaseToken s.redis with
      hsame | ⟨hopen, hset⟩
    · rw [hsame]
      exact .same
    · rw [hset]
      exact .write rfl hopen (json.tokenOf_dump (h _ _ _ _ hcall))
  | registerSadd hcall _ hout =>
    subst hout
    exact Change.exec fun _ => .sadd
  | registerDel hcall _ hout =>
    subst hout
    exact Change.exec fun heffective => .rollback hcall heffective
  | @refreshScript c id token ttl o error out hcall hout =>
    subst hout
    refine Change.exec fun _ => ?_
    rcases refreshScript_cases json id token ttl s.redis with hsame | ⟨entry, hlease, htoken, hset⟩
    · rw [hsame]
      exact .same
    · rw [hset]
      exact .write rfl (.inr ⟨entry, hlease, htoken⟩) htoken
  | @unregisterScript c id token o error out hcall hout =>
    subst hout
    refine Change.exec fun _ => ?_
    rcases unregisterScript_cases json id token s.redis with
      hsame | ⟨hlease, hsrem⟩ | ⟨hcarries, hdel⟩
    · rw [hsame]
      exact .same
    · rw [hsrem]
      exact .absent hlease
    · rw [hdel]
      exact .remove rfl hcarries
  | unregisterSrem hcall hout =>
    subst hout
    exact Change.exec fun heffective => .srem hcall rfl heffective
  | listGet hcall _ hout =>
    subst hout
    exact Change.exec fun _ => .same
  | listSrem hcall hout =>
    subst hout
    exact Change.exec fun heffective => .srem hcall rfl heffective

theorem State.go_calls {c c' : ℕ} {redis : Redis Value} {req : Request} {phase : Phase Value} :
    (s.go c redis req phase).calls c' = if c' = c then some ⟨req, phase⟩ else s.calls c' :=
  Function.update_apply ..

theorem Dumped.start (redis : Redis Value) : Dumped json (.start redis) := by
  intro c record ttl value hcall
  cases hcall

theorem Dumped.go {c : ℕ} {redis : Redis Value} {req : Request} {phase : Phase Value}
    (h : Dumped json s) (hphase : ∀ record ttl value, req = .register record ttl →
      phase = .registerScript value → json.dump record = some value) :
    Dumped json (s.go c redis req phase) := by
  intro c' record ttl value hcall
  rw [State.go_calls] at hcall
  split at hcall
  · obtain ⟨rfl, rfl⟩ := Call.mk.inj (Option.some.inj hcall)
    exact hphase record ttl value rfl rfl
  · exact h c' record ttl value hcall

theorem Request.dump_of_arguments {record : GatewayInstanceRecord} {ttl : ℤ} {value : Value}
    (h : (Request.register record ttl).arguments json = .ok (.registerScript value)) :
    json.dump record = some value := by
  simp only [arguments] at h
  split at h
  · cases h
  · grind

theorem Dumped.step (h : Dumped json s) (hs : Step json s l s') : Dumped json s' := by
  cases hs with
  | arrive hcall hunreserved harguments =>
    refine h.go fun record ttl value hreq hphase => ?_
    subst hreq hphase
    exact Request.dump_of_arguments harguments
  | expire => exact h
  | registerSadd hcall hconnected hout =>
    subst hout
    refine h.go fun record ttl value _ hphase => ?_
    unfold afterRegisterSadd at hphase
    split at hphase <;> cases hphase
  | listGet hcall hid hout => exact h.go fun record ttl value hreq _ => by cases hreq
  | unregisterScript hcall hout => exact h.go fun record ttl value hreq _ => by cases hreq
  | _ => exact h.go fun record ttl value _ hphase => by cases hphase

theorem Dumped.run {redis : Redis Value} (hrun : Run (Step json) (.start redis) ls s) :
    Dumped json s :=
  hrun.invariant (fun _ _ _ h hs => h.step hs) (.start redis)

/-! ## Ownership -/

/-- The step leaves the record of every gateway to its owner: what changes expires, or is created,
overwritten, extended or deleted by a command that carries its own token. -/
def Owned (json : Json Value) (s : State Value) (l : Label) (s' : State Value) : Prop :=
  ∀ id, s'.redis.lease id = s.redis.lease id ∨ (l = .expire id ∧ s'.redis.lease id = none) ∨
    ∃ c req o token, l = .command c req o ∧ req.token = some token ∧
      s.redis.OpenTo json id token ∧ s'.redis.OpenTo json id token

/-- A `DEL` of `Register` that takes effect now finds no record, or one with its own token. -/
def RollbackSafe (json : Json Value) (s : State Value) (l : Label) : Prop :=
  ∀ c record ttl connected error o, l = .command c (.register record ttl) o →
    s.calls c = some ⟨.register record ttl, .registerDel connected error⟩ → o.effective = true →
    s.redis.OpenTo json record.gatewayId record.leaseToken

@[simp] theorem Redis.set_lease (r : Redis Value) (id : Bytes) (value : Value) (ttl : ℤ) :
    (r.set id value ttl).lease = Function.update r.lease id (some ⟨value, ttl⟩) := rfl

@[simp] theorem Redis.del_lease (r : Redis Value) (id : Bytes) :
    (r.del id).lease = Function.update r.lease id none := rfl

@[simp] theorem Redis.sadd_lease (r : Redis Value) (id : Bytes) : (r.sadd id).lease = r.lease := rfl

@[simp] theorem Redis.srem_lease (r : Redis Value) (id : Bytes) : (r.srem id).lease = r.lease := rfl

theorem Owned.of_token {c : ℕ} {req : Request} {o : Outcome} {id token : Bytes}
    (htoken : req.token = some token) (hbefore : s.redis.OpenTo json id token)
    (hafter : s'.redis.OpenTo json id token)
    (hrest : ∀ id', id' ≠ id → s'.redis.lease id' = s.redis.lease id') :
    Owned json s (.command c req o) s' := by
  intro id'
  by_cases hid : id' = id
  · subst hid
    exact .inr (.inr ⟨c, req, o, token, rfl, htoken, hbefore, hafter⟩)
  · exact .inl (hrest id' hid)

theorem Change.owned (h : Change json s l s'.redis) (hsafe : RollbackSafe json s l) :
    Owned json s l s' := by
  generalize hredis : s'.redis = r at h
  cases h with
  | same | absent | sadd | srem =>
    intro id
    rw [hredis]
    exact .inl rfl
  | @expire id =>
    intro id'
    rw [hredis, Redis.del_lease]
    grind
  | @write c req o id token value ttl htoken hopen hvalue =>
    refine .of_token htoken hopen (.inr ⟨⟨value, ttl⟩, ?_, hvalue⟩) fun id' hid => ?_
    · simp_all
    · simp_all
  | @remove c req o id token htoken hcarries =>
    refine .of_token htoken (.inr hcarries) (.inl ?_) fun id' hid => ?_
    · rw [hredis]
      exact Function.update_self ..
    · rw [hredis]
      exact Function.update_of_ne hid ..
  | @rollback c record ttl connected error o hcall heffective =>
    refine .of_token rfl (hsafe c record ttl connected error o rfl hcall heffective) (.inl ?_)
      fun id' hid => ?_
    · rw [hredis]
      exact Function.update_self ..
    · rw [hredis]
      exact Function.update_of_ne hid ..

theorem Step.rollback {c : ℕ} {record : GatewayInstanceRecord} {ttl : ℤ} {connected : Bool}
    {error : String} {o : Outcome} (hs : Step json s (.command c (.register record ttl) o) s')
    (hcall : s.calls c = some ⟨.register record ttl, .registerDel connected error⟩)
    (heffective : o.effective = true) : s'.redis = s.redis.del record.gatewayId := by
  cases hs with
  | registerScript hcall' => cases hcall.symm.trans hcall'
  | registerSadd hcall' => cases hcall.symm.trans hcall'
  | registerDel hcall' hconnected hout =>
    subst hout
    cases o with
    | done | lost => rfl
    | rejected | broken => cases heffective

theorem Owned.safe (hs : Step json s l s') (h : Owned json s l s') : RollbackSafe json s l := by
  intro c record ttl connected error o hl hcall heffective
  subst hl
  have hdel : s'.redis.lease record.gatewayId = none := by
    rw [hs.rollback hcall heffective]
    exact Function.update_self ..
  rcases h record.gatewayId with hsame | ⟨hl, -⟩ | ⟨c', req, o', token, hl, htoken, hbefore, -⟩
  · exact .inl (hsame.symm.trans hdel)
  · cases hl
  · cases hl
    cases htoken
    exact hbefore

theorem owned_iff (h : Dumped json s) (hs : Step json s l s') :
    Owned json s l s' ↔ RollbackSafe json s l :=
  ⟨Owned.safe hs, (hs.change h).owned⟩

theorem lease_kept {id token : Bytes} {entry : Entry Value}
    (hrun : Run (fun s l s' => Step json s l s' ∧ Owned json s l s') s ls s')
    (hlease : s.redis.lease id = some entry) (htoken : json.tokenOf id entry.value = some token)
    (hnone : ∀ l ∈ ls, l ≠ .expire id ∧ ∀ c req o, l = .command c req o → req.token ≠ some token) :
    s'.redis.lease id = some entry := by
  refine hrun.invariant_of_forall (P := fun l => l ≠ .expire id ∧
    ∀ c req o, l = .command c req o → req.token ≠ some token)
    (I := fun s => s.redis.lease id = some entry) ?_ hnone hlease
  rintro s l s' hlease ⟨hexpire, hcommand⟩ ⟨-, howned⟩
  rcases howned id with hsame | ⟨hl, -⟩ | ⟨c, req, o, token', hl, htoken', hbefore, -⟩
  · exact hsame.trans hlease
  · exact absurd hl hexpire
  · rcases hbefore with hnone | ⟨entry', hentry, hstored⟩
    · cases hlease.symm.trans hnone
    · obtain rfl := Option.some.inj (hlease.symm.trans hentry)
      obtain rfl := Option.some.inj (htoken.symm.trans hstored)
      exact absurd htoken' (hcommand c req o hl)

/-- In any interleaving of commands, failures and expiries, a run leaves every record to its owner and
to its expiry exactly when each `DEL` of `Register` that takes effect finds no record or one with its
own token; and then a record that neither expires nor sees a command with its token stays as it is,
whatever calls of others do or fail to do. -/
theorem lease_ownership (json : Json Value) (redis : Redis Value) :
    (∀ ls s, Run (fun s l s' => Step json s l s' ∧ RollbackSafe json s l) (.start redis) ls s ↔
      Run (fun s l s' => Step json s l s' ∧ Owned json s l s') (.start redis) ls s) ∧
    (∀ ls s ms s' id token entry, Run (Step json) (.start redis) ls s →
      Run (fun s l s' => Step json s l s' ∧ RollbackSafe json s l) s ms s' →
      s.redis.lease id = some entry → json.tokenOf id entry.value = some token →
      (∀ l ∈ ms, l ≠ .expire id ∧ ∀ c req o, l = .command c req o → req.token ≠ some token) →
      s'.redis.lease id = some entry) := by
  have howned : ∀ {s ls s'}, Dumped json s →
      Run (fun s l s' => Step json s l s' ∧ RollbackSafe json s l) s ls s' →
      Run (fun s l s' => Step json s l s' ∧ Owned json s l s') s ls s' := fun h hrun =>
    hrun.imp_of_invariant (fun s l s' h hs => h.step hs.1)
      (fun s l s' h hs => ⟨hs.1, (owned_iff h hs.1).2 hs.2⟩) h
  refine ⟨fun ls s => ⟨howned (.start redis), fun hrun => ?_⟩, ?_⟩
  · exact hrun.imp fun s l s' hs => ⟨hs.1, Owned.safe hs.1 hs.2⟩
  · intro ls s ms s' id token entry hstart hrun hlease htoken hnone
    exact lease_kept (howned (.run hstart) hrun) hlease htoken hnone

/-! ## A lease that another's `Register` deletes -/

def Json.fields : Json GatewayInstanceRecord where
  dump := some
  parse := some
  decode record := some (record.gatewayId, record.leaseToken)
  parse_dump _ _ h := h.symm
  decode_dump _ _ h := by rw [Option.some.inj h]

/-- The record that a process with this token registers for the gateway `g`. -/
def exampleRecord (token : UInt8) : GatewayInstanceRecord := ⟨[103], [token], [104], 9000, 1⟩

def Redis.empty : Redis Value := ⟨fun _ => none, ∅⟩

theorem conflict_run : ∃ ls s, Run (Step Json.fields) (.start .empty) ls s ∧
    s.redis.lease [103] = some ⟨exampleRecord 1, 30⟩ ∧
    s.calls 1 = some ⟨.register (exampleRecord 2) 30, .registerDel true "OOM"⟩ := by
  have h : Run (Step Json.fields) (.start .empty) [] _ := .nil _
  have hid : ∀ token, (Request.register (exampleRecord token) 30).Unreserved := by
    intro token
    show [103] ≠ kIndexSuffix
    decide
  have h := h.snoc (.arrive (c := 0) rfl (hid 1) rfl)
  have h := h.snoc (.registerScript (c := 0) (o := .done) rfl rfl)
  have h := h.snoc (.arrive (c := 1) rfl (hid 2) rfl)
  have h := h.snoc (.registerScript (c := 1) (o := .done) rfl rfl)
  have h := h.snoc (@Step.registerSadd _ _ _ 1 _ _ true _ "OOM" .rejected _ rfl (by nofun) rfl)
  exact ⟨_, _, h, rfl, rfl⟩

/-- A `Register` that was rejected as a conflict deletes the lease it conflicted with. -/
theorem conflict_deletes_lease : ∃ ls s s', Run (Step Json.fields) (.start .empty) ls s ∧
    Step Json.fields s (.command 1 (.register (exampleRecord 2) 30) .done) s' ∧
    s.redis.Carries Json.fields [103] [1] ∧ s'.redis.lease [103] = none ∧
    ¬ Owned Json.fields s (.command 1 (.register (exampleRecord 2) 30) .done) s' := by
  obtain ⟨ls, s, hrun, hlease, hcall⟩ := conflict_run
  have hs : Step Json.fields s (.command 1 (.register (exampleRecord 2) 30) .done) _ :=
    .registerDel hcall (by nofun) rfl
  have hcarries : s.redis.Carries Json.fields [103] [1] := ⟨_, hlease, rfl⟩
  refine ⟨ls, s, _, hrun, hs, hcarries, rfl, fun howned => ?_⟩
  rcases howned.safe hs 1 (exampleRecord 2) 30 true "OOM" .done rfl hcall rfl with
    hnone | ⟨entry, hentry, htoken⟩
  · cases hlease.symm.trans hnone
  · obtain rfl := Option.some.inj (hlease.symm.trans hentry)
    cases htoken

end TinyImx.Registry
