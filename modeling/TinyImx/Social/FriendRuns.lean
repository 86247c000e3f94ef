import TinyImx.Social.FriendGraph

/-!
# Runs of the friend request repository

What a call relies on between its statements, and that the other calls leave it so.
-/

namespace TinyImx.Social

open TinyImx.Local (Bytes)
open Function (update_of_ne update_self)

variable {s s' : State} {db db' : Db} {l : Label} {ls : List Label} {c : ℕ} {req : Request}
  {phase : Phase}

/-! ## What a call relies on -/

def Db.Of (db : Db) (id requester receiver : ℕ) : Prop :=
  ∃ row, db.requests id = some row ∧ row.fromUserId = requester ∧ row.toUserId = receiver

def Db.Has (db : Db) (id requester receiver status : ℕ) : Prop :=
  ∃ row, db.requests id = some row ∧ row.fromUserId = requester ∧ row.toUserId = receiver ∧
    row.requestStatus = status

/-- What `CreateFriendRequest` relies on at its commit. -/
structure Creating (db : Db) (id source target : ℕ) (same : Option (ℕ × RequestRow)) : Prop where
  ne : source ≠ target
  lt : id < db.nextRequest
  direction : db.Direction source target same
  idle : db.Idle target source
  reopened : ∀ id' row, same = some (id', row) → id' = id ∧ row.requestStatus = kRejected
  inserted : same = none → db.requests id = none

def Okay (db : Db) : Request → Phase → Prop
  | .create source target _, .createUsers => source ≠ target
  | .create source target _, .createRelations => source ≠ target
  | .create source target _, .createRequests => source ≠ target ∧ db.Apart source target
  | .create source target _, .createCommit id same _ => Creating db id source target same
  | .accept id handler, .acceptUsers requester receiver =>
    db.Of id requester receiver ∧ receiver = handler
  | .accept id handler, .acceptRequest requester receiver _ _ =>
    db.Of id requester receiver ∧ receiver = handler
  | .accept id _, .acceptRelations requester receiver _ _ status =>
    db.Has id requester receiver status
  | .accept id _, .acceptReverse requester receiver => db.Has id requester receiver kPending
  | .accept id _, .acceptCommit requester receiver _ => db.Has id requester receiver kPending
  | .reject id _, .rejectCommit _ _ => ∃ q r, db.Has id q r kPending
  | .accept _ _, .acceptPreview => True
  | .reject _ _, .rejectRequest => True
  | _, .returned result => result.Consistent
  | _, _ => False

structure Inv (s : State) : Prop where
  graph : Graph s.db
  okay : ∀ c req phase, s.calls c = some ⟨req, phase⟩ → Okay s.db req phase
  users : ∀ c call u, s.calls c = some call → call.HoldsUser u → s.UserFree c u
  requests : ∀ c call id, s.calls c = some call → call.HoldsRequest id → s.RequestFree c id
  inserts : ∀ c c' req req' id reverse reverse', c ≠ c' →
    s.calls c = some ⟨req, .createCommit id none reverse⟩ →
    s.calls c' ≠ some ⟨req', .createCommit id none reverse'⟩

theorem go_calls_self (s : State) (c : ℕ) (req : Request) (phase : Phase) :
    (s.go c req phase).calls c = some ⟨req, phase⟩ := update_self ..

theorem go_calls_ne {c' : ℕ} (h : c' ≠ c) : (s.go c req phase).calls c' = s.calls c' :=
  update_of_ne h ..

variable {same : Option (ℕ × RequestRow)}

namespace Okay

/-- The rows stay as they are. -/
theorem keep (h : Okay db req phase) (hrequests : db'.requests = db.requests)
    (hrelations : db'.relations = db.relations) (hnext : db.nextRequest ≤ db'.nextRequest) :
    Okay db' req phase := by
  have hof : ∀ {id a b}, db.Of id a b → db'.Of id a b := by
    rintro id a b ⟨row, hrow, hrest⟩
    exact ⟨row, by rw [hrequests]; exact hrow, hrest⟩
  have hhas : ∀ {id a b x}, db.Has id a b x → db'.Has id a b x := by
    rintro id a b x ⟨row, hrow, hrest⟩
    exact ⟨row, by rw [hrequests]; exact hrow, hrest⟩
  cases req with
  | create source target message =>
    cases phase with
    | createRequests =>
      refine ⟨h.1, ?_⟩
      rw [Db.Apart, hrelations]
      exact h.2
    | createCommit id same reverse =>
      refine ⟨h.ne, h.lt.trans_le hnext, ?_, ?_, h.reopened, fun hnone => ?_⟩
      · cases same with
        | none =>
          intro id' row hrow
          rw [hrequests] at hrow
          exact h.direction id' row hrow
        | some p => exact ⟨by rw [hrequests]; exact h.direction.1, h.direction.2⟩
      · intro id' row hrow
        rw [hrequests] at hrow
        exact h.idle id' row hrow
      · rw [hrequests]
        exact h.inserted hnone
    | createUsers | createRelations | returned => exact h
    | _ => exact h
  | accept id handler =>
    cases phase with
    | acceptUsers => exact ⟨hof h.1, h.2⟩
    | acceptRequest => exact ⟨hof h.1, h.2⟩
    | acceptRelations | acceptReverse | acceptCommit => exact hhas h
    | returned => exact h
    | _ => exact h
  | reject id handler =>
    cases phase with
    | rejectCommit =>
      obtain ⟨q, r, hqr⟩ := h
      exact ⟨q, r, hhas hqr⟩
    | returned => exact h
    | _ => exact h

/-- Another call gives the pending request `id` a status. -/
theorem setStatus {id status : ℕ} {row : RequestRow} (h : Okay db req phase)
    (hdb : db'.requests = (db.setStatus id status).requests)
    (hnext : db'.nextRequest = db.nextRequest) (hrow : db.requests id = some row)
    (hpending : row.requestStatus = kPending) (hfree : ¬ (Call.mk req phase).HoldsRequest id)
    (hapart : ∀ source target message, req = .create source target message →
      phase = .createRequests → db'.Apart source target) :
    Okay db' req phase := by
  have hne : ∀ i, i ≠ id → db'.requests i = db.requests i := fun i hi => by
    rw [hdb]
    exact update_of_ne hi _ _
  have hof : ∀ {i a b}, db.Of i a b → db'.Of i a b := by
    rintro i a b ⟨r, hr, hrest⟩
    by_cases hi : i = id
    · subst hi
      refine ⟨{ r with requestStatus := status }, ?_, hrest⟩
      rw [hdb, Db.setStatus]
      simp only [update_self, hr, Option.map_some]
    · exact ⟨r, (hne i hi).trans hr, hrest⟩
  have hhas : ∀ {i a b x}, i ≠ id → db.Has i a b x → db'.Has i a b x := by
    rintro i a b x hi ⟨r, hr, hrest⟩
    exact ⟨r, (hne _ hi).trans hr, hrest⟩
  -- the rows that are there were there, in the same direction
  have hback : ∀ i r, db'.requests i = some r → ∃ old, db.requests i = some old ∧
      r.fromUserId = old.fromUserId ∧ r.toUserId = old.toUserId ∧ (i = id ∨ r = old) :=
    fun i r hr => by
      rw [hdb] at hr
      rcases requests_setStatus hr with ⟨rfl, old, hold, rfl⟩ | ⟨-, hr⟩
      · exact ⟨old, hold, rfl, rfl, .inl rfl⟩
      · exact ⟨r, hr, rfl, rfl, .inr rfl⟩
  cases req with
  | create source target message =>
    cases phase with
    | createRequests => exact ⟨h.1, hapart source target message rfl rfl⟩
    | createCommit i same reverse =>
      refine ⟨h.ne, hnext ▸ h.lt, ?_, fun j r hr hfrom hto => ?_, h.reopened, fun hnone => ?_⟩
      · cases same with
        | none =>
          intro j r hr
          obtain ⟨old, hold, hf, ht, -⟩ := hback j r hr
          rw [hf, ht]
          exact h.direction j old hold
        | some p =>
          have hi : p.1 ≠ id := fun heq => by
            have hold := h.direction.1
            rw [heq, hrow] at hold
            cases hold
            rw [(h.reopened p.1 p.2 rfl).2] at hpending
            cases hpending
          exact ⟨(hne p.1 hi).trans h.direction.1, h.direction.2⟩
      · obtain ⟨old, hold, hf, ht, hcase⟩ := hback j r hr
        rw [hf] at hfrom
        rw [ht] at hto
        rcases hcase with rfl | rfl
        · obtain rfl := Option.some.inj (hold.symm.trans hrow)
          exact absurd (.inl hpending) (h.idle j old hold hfrom hto)
        · exact h.idle j r hold hfrom hto
      · have hi : i ≠ id := fun heq => by
          have hold := h.inserted hnone
          rw [heq, hrow] at hold
          cases hold
        exact (hne i hi).trans (h.inserted hnone)
    | createUsers | createRelations | returned => exact h
    | _ => exact h
  | accept i handler =>
    cases phase with
    | acceptUsers => exact ⟨hof h.1, h.2⟩
    | acceptRequest => exact ⟨hof h.1, h.2⟩
    | acceptRelations => exact hhas (fun heq => hfree heq.symm) h
    | acceptReverse => exact hhas (fun heq => hfree heq.symm) h
    | acceptCommit => exact hhas (fun heq => hfree (.inl heq.symm)) h
    | returned => exact h
    | _ => exact h
  | reject i handler =>
    cases phase with
    | rejectCommit =>
      obtain ⟨q, r, hqr⟩ := h
      exact ⟨q, r, hhas (fun heq => hfree heq.symm) hqr⟩
    | returned => exact h
    | _ => exact h

/-- Another call creates a request or opens it again. -/
theorem commitCreate {id source target : ℕ} {message : Bytes}
    (h : Okay db req phase) (hc : Creating db id source target same)
    (hfree : same ≠ none → ¬ (Call.mk req phase).HoldsRequest id)
    (huser : ¬ (Call.mk req phase).HoldsUser source)
    (hinsert : same = none → ∀ reverse, phase ≠ .createCommit id none reverse) :
    Okay (db.commitCreate id source target message) req phase := by
  have hne : ∀ i, i ≠ id → (db.commitCreate id source target message).requests i = db.requests i :=
    fun i hi => update_of_ne hi _ _
  -- the row that is written was not there, or is opened again
  have hold : ∀ row, db.requests id = some row →
      same ≠ none ∧ row.fromUserId = source ∧ row.toUserId = target := fun row hrow => by
    cases same with
    | none =>
      rw [hc.inserted rfl] at hrow
      cases hrow
    | some p =>
      have hp := hc.direction
      rw [Db.Direction, (hc.reopened p.1 p.2 rfl).1, hrow] at hp
      cases hp.1
      exact ⟨(by simp), hp.2⟩
  have hof : ∀ {i a b}, db.Of i a b → (db.commitCreate id source target message).Of i a b := by
    rintro i a b ⟨r, hr, ha, hb⟩
    by_cases hi : i = id
    · subst hi
      obtain ⟨-, hf, ht⟩ := hold r hr
      exact ⟨_, update_self .., hf.symm.trans ha, ht.symm.trans hb⟩
    · exact ⟨r, (hne i hi).trans hr, ha, hb⟩
  have hhas : ∀ {i a b x}, (Call.mk req phase).HoldsRequest i → db.Has i a b x →
      (db.commitCreate id source target message).Has i a b x := by
    rintro i a b x hi ⟨r, hr, hrest⟩
    refine ⟨r, (hne i ?_).trans hr, hrest⟩
    grind
  cases req with
  | create source' target' message' =>
    cases phase with
    | createCommit i same' reverse =>
      have hs : source ≠ source' ∧ source ≠ target' := not_or.1 huser
      refine ⟨h.ne, h.lt, ?_, fun j r hr hfrom hto => ?_, h.reopened, fun hnone => ?_⟩
      · cases same' with
        | none =>
          intro j r hr
          rcases requests_commitCreate hr with ⟨-, rfl⟩ | ⟨-, hr⟩
          · exact fun hd => hs.1 hd.1
          · exact h.direction j r hr
        | some p =>
          have hi : p.1 ≠ id := fun heq => by
            have hp := h.direction
            obtain ⟨-, hf, -⟩ := hold p.2 (heq ▸ hp.1)
            exact hs.1 (hf.symm.trans hp.2.1)
          exact ⟨(hne p.1 hi).trans h.direction.1, h.direction.2⟩
      · rcases requests_commitCreate hr with ⟨-, rfl⟩ | ⟨-, hr⟩
        · exact absurd hfrom hs.2
        · exact h.idle j r hr hfrom hto
      · subst hnone
        have hi : i ≠ id := by
          rintro rfl
          cases same with
          | none => exact hinsert rfl reverse rfl
          | some p =>
            have hp := hc.direction.1
            rw [(hc.reopened p.1 p.2 rfl).1, h.inserted rfl] at hp
            cases hp
        exact (hne i hi).trans (h.inserted rfl)
    | createRequests | createUsers | createRelations | returned => exact h
    | _ => exact h
  | accept i handler =>
    cases phase with
    | acceptUsers => exact ⟨hof h.1, h.2⟩
    | acceptRequest => exact ⟨hof h.1, h.2⟩
    | acceptRelations => exact hhas rfl h
    | acceptReverse => exact hhas rfl h
    | acceptCommit => exact hhas (.inl rfl) h
    | returned => exact h
    | _ => exact h
  | reject i handler =>
    cases phase with
    | rejectCommit =>
      obtain ⟨q, r, hqr⟩ := h
      exact ⟨q, r, hhas rfl hqr⟩
    | returned => exact h
    | _ => exact h

end Okay

namespace Inv

theorem init (users : ℕ → Option ℕ) : Inv (State.initial users) where
  graph := .init users
  okay _ _ _ h := by cases h
  users _ _ _ h := by cases h
  requests _ _ _ h := by cases h
  inserts _ _ _ _ _ _ _ _ h := by cases h

/-- A call goes on, and the others may rely on what they did. -/
theorem change (h : Inv s) (hcalls : s'.calls = (s.go c req phase).calls) (hgraph : Graph s'.db)
    (hothers : ∀ c' req' phase', c' ≠ c → s.calls c' = some ⟨req', phase'⟩ → Okay s'.db req' phase')
    (hokay : Okay s'.db req phase)
    (husers : ∀ u, (Call.mk req phase).HoldsUser u → s.UserFree c u)
    (hrows : ∀ id, (Call.mk req phase).HoldsRequest id → s.RequestFree c id)
    (hinserts : ∀ c' req' id reverse reverse', c ≠ c' → phase = .createCommit id none reverse →
      s.calls c' ≠ some ⟨req', .createCommit id none reverse'⟩) : Inv s' := by
  have hself : s'.calls c = some ⟨req, phase⟩ := by
    rw [hcalls]
    exact go_calls_self ..
  have hother : ∀ c', c' ≠ c → s'.calls c' = s.calls c' := fun c' hne => by
    rw [hcalls]
    exact go_calls_ne hne
  refine ⟨hgraph, fun c' req' phase' hc' => ?_, fun c' call u hc' hholds => ?_,
    fun c' call id hc' hholds => ?_, fun c₁ c₂ req₁ req₂ id r₁ r₂ hne h₁ h₂ => ?_⟩
  · grind
  · intro c'' call' hne hc'' hholds'
    by_cases heq : c' = c
    · subst heq
      rw [hself] at hc'
      cases hc'
      rw [hother c'' hne] at hc''
      exact husers u hholds c'' call' hne hc'' hholds'
    · rw [hother c' heq] at hc'
      by_cases heq' : c'' = c
      · subst heq'
        rw [hself] at hc''
        cases hc''
        exact husers u hholds' c' call heq hc' hholds
      · rw [hother c'' heq'] at hc''
        exact h.users c' call u hc' hholds c'' call' hne hc'' hholds'
  · intro c'' call' hne hc'' hholds'
    by_cases heq : c' = c
    · subst heq
      rw [hself] at hc'
      cases hc'
      rw [hother c'' hne] at hc''
      exact hrows id hholds c'' call' hne hc'' hholds'
    · rw [hother c' heq] at hc'
      by_cases heq' : c'' = c
      · subst heq'
        rw [hself] at hc''
        cases hc''
        exact hrows id hholds' c' call heq hc' hholds
      · rw [hother c'' heq'] at hc''
        exact h.requests c' call id hc' hholds c'' call' hne hc'' hholds'
  · by_cases heq : c₁ = c
    · subst heq
      rw [hself] at h₁
      cases h₁
      rw [hother c₂ (Ne.symm hne)] at h₂
      exact hinserts c₂ req₂ id r₁ r₂ hne rfl h₂
    · rw [hother c₁ heq] at h₁
      by_cases heq' : c₂ = c
      · subst heq'
        rw [hself] at h₂
        cases h₂
        exact hinserts c₁ req₁ id r₂ r₁ (Ne.symm hne) rfl h₁
      · rw [hother c₂ heq'] at h₂
        exact h.inserts c₁ c₂ req₁ req₂ id r₁ r₂ hne h₁ h₂

theorem go (h : Inv s) (hcalls : s'.calls = (s.go c req phase).calls)
    (hrequests : s'.db.requests = s.db.requests) (hrelations : s'.db.relations = s.db.relations)
    (hnext : s.db.nextRequest ≤ s'.db.nextRequest) (hokay : Okay s'.db req phase)
    (husers : ∀ u, (Call.mk req phase).HoldsUser u → s.UserFree c u)
    (hrows : ∀ id, (Call.mk req phase).HoldsRequest id → s.RequestFree c id)
    (hinserts : ∀ c' req' id reverse reverse', c ≠ c' → phase = .createCommit id none reverse →
      s.calls c' ≠ some ⟨req', .createCommit id none reverse'⟩) : Inv s' :=
  h.change hcalls (h.graph.keep hrequests hrelations hnext)
    (fun c' req' phase' _ hc' => (h.okay c' req' phase' hc').keep hrequests hrelations hnext)
    hokay husers hrows hinserts

theorem ret {r : Result} (h : Inv s) (hr : r.Consistent) : Inv (s.go c req (.returned r)) := by
  refine h.go rfl rfl rfl le_rfl ?_ (fun u hu => ?_) (fun id hid => ?_) (by simp)
  · cases req <;> exact hr
  · cases req <;> exact hu.elim
  · cases req <;> exact hid.elim

theorem effect {r : Result} (h : Inv s) (hr : r.Consistent) (hgraph : Graph db')
    (hothers : ∀ c' req' phase', c' ≠ c → s.calls c' = some ⟨req', phase'⟩ → Okay db' req' phase') :
    Inv { s.go c req (.returned r) with db := db' } := by
  refine h.change rfl hgraph hothers ?_ (fun u hu => ?_) (fun id hid => ?_) (by simp)
  · cases req <;> exact hr
  · cases req <;> exact hu.elim
  · cases req <;> exact hid.elim

theorem decide {α ρ : Type} {result : ρ → Result} {next : α → Phase} {d : Except ρ α} (h : Inv s)
    (herror : ∀ r, d = .error r → (result r).Consistent)
    (hok : ∀ a, d = .ok a → Inv (s.go c req (next a))) :
    Inv (s.decide c req result next d).2 := by
  cases d with
  | error r => exact h.ret (herror r rfl)
  | ok a => exact hok a rfl

end Inv

namespace Inv

theorem userFree {call : Call} {u : ℕ} (h : Inv s) (hcall : s.calls c = some call)
    (hu : call.HoldsUser u) : s.UserFree c u := h.users c call u hcall hu

theorem createRequests {source target : ℕ} {message : Bytes}
    {reverse : Option (ℕ × RequestRow)} (h : Inv s)
    (hcall : s.calls c = some ⟨.create source target message, .createRequests⟩)
    (hsame : s.db.Direction source target same) (hreverse : s.db.Direction target source reverse) :
    (∃ r, Social.createRequests same reverse = .error r ∧ (Result.create r).Consistent) ∨
      Social.createRequests same reverse = .ok same ∧
        (∀ id row, same = some (id, row) → row.requestStatus = kRejected) ∧
        s.db.Idle target source := by
  obtain ⟨-, hapart⟩ := h.okay c _ _ hcall
  have hapart' : s.db.Apart target source := ⟨hapart.2, hapart.1⟩
  rcases createRequests_cases (fun _ _ => h.graph.found_status hapart hsame)
      (fun _ _ => h.graph.found_status hapart' hreverse) (h.graph.not_both hsame hreverse) with
    herror | ⟨hok, hs, hr⟩
  · exact .inl herror
  · exact .inr ⟨hok, hs, h.graph.idle_of_found hreverse hr⟩

theorem goCreate {source target id : ℕ} {message : Bytes} {reverse : Option (ℕ × RequestRow)}
    (h : Inv s) (hcall : s.calls c = some ⟨.create source target message, .createRequests⟩)
    (hcalls : s'.calls =
      (s.go c (.create source target message) (.createCommit id same reverse)).calls)
    (hrequests : s'.db.requests = s.db.requests) (hrelations : s'.db.relations = s.db.relations)
    (hnext : s.db.nextRequest ≤ s'.db.nextRequest)
    (hsame : s.FoundFree c same) (hreverse : s.FoundFree c reverse)
    (hcreating : Creating s'.db id source target same)
    (hinsert : same = none → s.db.nextRequest ≤ id) : Inv s' := by
  refine h.go hcalls hrequests hrelations hnext hcreating
    (fun u hu => h.userFree hcall hu) (fun i hi => ?_) fun c' req' i r r' _ heq hc' => ?_
  · rcases hi with ⟨row, hrow⟩ | ⟨row, hrow⟩
    · exact hsame i row hrow
    · exact hreverse i row hrow
  · cases heq
    have hok := h.okay c' req' _ hc'
    cases req' with
    | create => exact absurd hok.lt (not_lt.2 (hinsert rfl))
    | accept => exact hok
    | reject => exact hok

end Inv

theorem Graph.commitCreate' {id source target : ℕ} {message : Bytes}
    (h : Graph db) (hc : Creating db id source target same) :
    Graph (db.commitCreate id source target message) := by
  refine h.commitCreate hc.ne hc.lt (fun i row hrow hfrom hto => ?_) (fun row hrow => ?_) hc.idle
  · cases same with
    | none => exact absurd ⟨hfrom, hto⟩ (hc.direction i row hrow)
    | some p =>
      have hp := hc.direction
      rw [← (hc.reopened p.1 p.2 rfl).1]
      exact h.unique i row p.1 p.2 hrow hp.1 (hfrom.trans hp.2.1.symm) (hto.trans hp.2.2.symm)
  · cases same with
    | none =>
      rw [hc.inserted rfl] at hrow
      cases hrow
    | some p =>
      have hp := hc.direction
      obtain ⟨hid, hrejected⟩ := hc.reopened p.1 p.2 rfl
      rw [Db.Direction, hid, hrow] at hp
      cases hp.1
      refine ⟨hp.2.1, hp.2.2, fun hlive => ?_⟩
      rcases hlive with hl | hl <;> rw [hrejected] at hl <;> cases hl

namespace Inv

theorem arrive (h : Inv s) (harg : req.arguments = .ok phase) : Inv (s.go c req phase) := by
  cases req with
  | create source target message =>
    simp only [Request.arguments, createArguments] at harg
    split at harg
    · cases harg
    · rename_i hok
      cases harg
      split at hok
      · cases hok
      · split at hok
        · cases hok
        · rename_i hne
          exact h.go rfl rfl rfl le_rfl hne (fun u hu => hu.elim) (fun i hi => hi.elim) (by simp)
  | accept id handler =>
    simp only [Request.arguments] at harg
    split at harg <;> cases harg
    exact h.go rfl rfl rfl le_rfl trivial (fun u hu => hu.elim) (fun i hi => hi.elim) (by simp)
  | reject id handler =>
    simp only [Request.arguments] at harg
    split at harg <;> cases harg
    exact h.go rfl rfl rfl le_rfl trivial (fun u hu => hu.elim) (fun i hi => hi.elim) (by simp)

theorem step (h : Inv s) (hs : Step s l s') : Inv s' := by
  cases hs with
  | setUser =>
    exact ⟨h.graph.keep rfl rfl le_rfl, fun c req phase hc => (h.okay c req phase hc).keep rfl rfl le_rfl,
      h.users, h.requests, h.inserts⟩
  | skipId =>
    exact ⟨h.graph.keep rfl rfl (Nat.le_succ _),
      fun c req phase hc => (h.okay c req phase hc).keep rfl rfl (Nat.le_succ _),
      h.users, h.requests, h.inserts⟩
  | arrive hc harg => exact h.arrive harg
  | refuse _ harg => exact h.ret (arguments_consistent harg)
  | fault _ _ hr => exact h.ret (hr ▸ storageError_consistent _ _ _)
  | @createUsers c source target message next hcall hsource htarget hnext =>
    subst hnext
    have hne : source ≠ target := h.okay c _ _ hcall
    refine h.decide (fun r hr => createUsers_consistent hr) fun _ _ => ?_
    refine h.go rfl rfl rfl le_rfl hne (fun u hu => ?_) (fun id hid => hid.elim) (by simp)
    rcases hu with rfl | rfl
    · exact hsource
    · exact htarget
  | @createRelations c source target message next hcall hnext =>
    subst hnext
    have hne : source ≠ target := h.okay c _ _ hcall
    rcases h.graph.friends_or_apart source target with ⟨hs, ht⟩ | hapart
    · rw [hs, ht, createRelations_friends]
      exact h.ret ⟨(by simp), (by simp)⟩
    · rw [hapart.1, hapart.2, createRelations_apart]
      exact h.go rfl rfl rfl le_rfl ⟨hne, hapart⟩ (fun u hu => h.userFree hcall hu)
        (fun id hid => hid.elim) (by simp)
  | createRequests hcall hsame hreverse _ _ herror =>
    rcases h.createRequests hcall hsame hreverse with ⟨r', hr', hcons⟩ | ⟨hok, -⟩
    · rw [herror] at hr'
      cases hr'
      exact h.ret hcons
    · rw [herror] at hok
      cases hok
  | @reopen c source target id message row same reverse hcall hsame hreverse hf hf' hdecide =>
    rcases h.createRequests hcall hsame hreverse with ⟨r', hr', -⟩ | ⟨hok, hrejected, hidle⟩
    · rw [hdecide] at hr'
      cases hr'
    · rw [hdecide] at hok
      cases hok
      refine h.goCreate hcall rfl rfl rfl le_rfl hf hf' ⟨(h.okay c _ _ hcall).1, ?_, hsame, hidle, ?_,
        (by simp)⟩ (by simp)
      · exact h.graph.ids id row hsame.1
      · simp_all
  | @insert c source target message same reverse hcall hsame hreverse hf hf' hdecide =>
    rcases h.createRequests hcall hsame hreverse with ⟨r', hr', -⟩ | ⟨hok, hrejected, hidle⟩
    · rw [hdecide] at hr'
      cases hr'
    · rw [hdecide] at hok
      cases hok
      refine h.goCreate hcall rfl rfl rfl (Nat.le_succ _) hf hf' ⟨(h.okay c _ _ hcall).1,
        Nat.lt_succ_self _, hsame, hidle, (by simp), fun _ => ?_⟩ fun _ => le_rfl
      show s.db.requests s.db.nextRequest = none
      cases hrow : s.db.requests s.db.nextRequest with
      | none => rfl
      | some row => exact absurd (h.graph.ids _ row hrow) (lt_irrefl _)
  | @createCommit c source target id message same reverse r hcall hr =>
    have hc : Creating s.db id source target same := h.okay c _ _ hcall
    have hcons : r.Consistent := by
      rcases hr with rfl | ⟨error, rfl⟩
      · cases same with
        | none => exact ⟨by simp [createdResult], by simp [createdResult]⟩
        | some => exact ⟨by simp [createdResult], by simp [createdResult]⟩
      · exact storageError_consistent _ _ _
    refine h.effect hcons (h.graph.commitCreate' hc) fun c' req' phase' hne hc' => ?_
    refine (h.okay c' req' phase' hc').commitCreate hc (fun hsome hholds => ?_) (fun hholds => ?_)
      fun hnone reverse' heq => ?_
    · obtain ⟨p, hp⟩ := Option.ne_none_iff_exists'.1 hsome
      refine h.requests c _ id hcall (.inl ⟨p.2, ?_⟩) c' _ hne hc' hholds
      rw [hp, ← (hc.reopened p.1 p.2 hp).1]
    · exact h.users c _ source hcall (.inl rfl) c' _ hne hc' hholds
    · subst hnone heq
      exact h.inserts c c' _ _ id _ _ (Ne.symm hne) hcall hc'
  | @acceptPreview c id handler next hcall hnext =>
    subst hnext
    refine h.decide (fun r hr => acceptPreview_consistent hr) fun ids hids => ?_
    obtain ⟨row, hrow, hfrom, hto, hhandler⟩ := acceptPreview_ok hids
    exact h.go rfl rfl rfl le_rfl ⟨⟨row, hrow, hfrom, hto⟩, hhandler⟩ (fun u hu => hu.elim)
      (fun i hi => hi.elim) (by simp)
  | @acceptUsers c id handler requester receiver next hcall hq hr hnext =>
    subst hnext
    refine h.decide (fun r hr => acceptUsers_consistent hr) fun statuses _ => ?_
    refine h.go rfl rfl rfl le_rfl (h.okay c _ _ hcall :) (fun u hu => ?_) (fun i hi => hi.elim) (by simp)
    rcases hu with rfl | rfl
    · exact hq
    · exact hr
  | @acceptRequest c id handler requester receiver a b next hcall hfree hnext =>
    subst hnext
    obtain ⟨⟨row, hrow, rfl, rfl⟩, hhandler⟩ := h.okay c _ _ hcall
    rw [hrow, acceptRequest_eq hhandler]
    refine h.go rfl rfl rfl le_rfl ⟨row, hrow, rfl, rfl, rfl⟩ (fun u hu => h.userFree hcall hu)
      (fun i hi => ?_) (by simp)
    obtain rfl : i = id := hi
    exact hfree
  | @acceptRelations c id handler requester receiver a b status next hcall hnext =>
    subst hnext
    obtain ⟨row, hrow, rfl, rfl, rfl⟩ := h.okay c _ _ hcall
    refine h.decide (fun r hr => acceptRelations_consistent hr (fun hacc => ?_) fun hpending => ?_)
      fun _ hok => ?_
    · have hab := (h.graph.friends _ _).2 ⟨id, row, hrow, hacc, .inl ⟨rfl, rfl⟩⟩
      exact ⟨hab, h.graph.symm hab⟩
    · exact h.graph.apart_of_pending hrow hpending
    · refine h.go rfl rfl rfl le_rfl ⟨row, hrow, rfl, rfl, acceptRelations_ok hok⟩
        (fun u hu => h.userFree hcall hu) (fun i hi => ?_) (by simp)
      exact h.requests c _ i hcall hi
  | @acceptReverse c id handler requester receiver reverse next hcall hreverse hfree hnext =>
    subst hnext
    obtain ⟨row, hrow, rfl, rfl, hpending⟩ := h.okay c _ _ hcall
    rw [acceptReverse_idle fun i r heq => ?_]
    · refine h.go rfl rfl rfl le_rfl ⟨row, hrow, rfl, rfl, hpending⟩
        (fun u hu => h.userFree hcall hu) (fun i hi => ?_) (by simp)
      rcases hi with rfl | ⟨r, hr⟩
      · exact h.requests c _ i hcall rfl
      · exact hfree i r hr
    · subst heq
      exact h.graph.opposite id row i r hrow hreverse.1 hreverse.2.2.symm hreverse.2.1.symm
        (.inl hpending)
  | @acceptCommit c id handler requester receiver row reverse r hcall _ _ hrow hto hpending hr =>
    obtain ⟨row', hrow', rfl, rfl, -⟩ := h.okay c _ _ hcall
    obtain rfl := Option.some.inj (hrow.symm.trans hrow')
    have hcons : r.Consistent := by
      rcases hr with rfl | ⟨error, rfl⟩
      · exact ⟨(by simp), (by simp)⟩
      · exact storageError_consistent _ _ _
    refine h.effect hcons (h.graph.accept hrow hpending) fun c' req' phase' hne hc' => ?_
    refine (h.okay c' req' phase' hc').setStatus rfl rfl hrow hpending (fun hholds => ?_)
      fun source target message hreq hphase => ?_
    · exact h.requests c _ id hcall (.inl rfl) c' _ hne hc' hholds
    · -- the users of the other call are not those of the request
      subst hreq hphase
      have hapart := (h.okay c' _ _ hc').2
      have hsource := h.users c' _ source hc' (.inl rfl) c _ (Ne.symm hne) hcall
      have hs : source ≠ row.fromUserId ∧ source ≠ row.toUserId := not_or.1 hsource
      have hno : ∀ x y, (x = source ∨ y = source) →
          ¬ (x = row.fromUserId ∧ y = row.toUserId ∨ x = row.toUserId ∧ y = row.fromUserId) := by
        grind
      refine ⟨?_, ?_⟩
      · simp only [Db.setStatus, Db.addRelations]
        rw [if_neg (hno source target (.inl rfl))]
        exact hapart.1
      · simp only [Db.setStatus, Db.addRelations]
        rw [if_neg (hno target source (.inr rfl))]
        exact hapart.2
  | @rejectRequest c id handler next hcall hfree hnext =>
    subst hnext
    refine h.decide (fun r hr => rejectRequest_consistent hr fun row hrow =>
      h.graph.status id row hrow) fun ids hids => ?_
    obtain ⟨row, hrow, hto, hpending⟩ := rejectRequest_ok hids
    refine h.go rfl rfl rfl le_rfl ⟨_, _, row, hrow, rfl, rfl, hpending⟩ (fun u hu => hu.elim)
      (fun i hi => ?_) (by simp)
    obtain rfl : i = id := hi
    exact hfree
  | @rejectCommit c id handler requester receiver row r hcall hrow hto hpending hr =>
    have hcons : r.Consistent := by
      rcases hr with rfl | ⟨error, rfl⟩
      · simp [Result.Consistent]
      · exact storageError_consistent _ _ _
    refine h.effect hcons (h.graph.reject hrow hpending) fun c' req' phase' hne hc' => ?_
    refine (h.okay c' req' phase' hc').setStatus rfl rfl hrow hpending (fun hholds => ?_)
      fun source target message hreq hphase => ?_
    · exact h.requests c _ id hcall rfl c' _ hne hc' hholds
    · subst hreq hphase
      exact (h.okay c' _ _ hc').2

end Inv

theorem Inv.run {users : ℕ → Option ℕ} (hrun : Run Step (.initial users) ls s) : Inv s :=
  hrun.invariant (I := Inv) (fun _ _ _ h hs => h.step hs) (.init users)

/-! ## What a step does to a row -/

/-- A row of the request `id` from `old` to `new` in a step with the label `l`. -/
inductive Moves (s : State) (l : Label) (id : ℕ) : Option RequestRow → Option RequestRow → Prop
  | stay {row : Option RequestRow} : Moves s l id row row
  | created {c : ℕ} {r : Result} {row : RequestRow} {phase : Phase} : l = .effect c r →
      s.calls c = some ⟨.create row.fromUserId row.toUserId row.requestMessage, phase⟩ →
      row.requestStatus = kPending → Moves s l id none (some row)
  | accepted {c : ℕ} {r : Result} {row : RequestRow} {phase : Phase} : l = .effect c r →
      s.calls c = some ⟨.accept id row.toUserId, phase⟩ → row.requestStatus = kPending →
      Moves s l id (some row) (some { row with requestStatus := kAccepted })
  | rejected {c : ℕ} {r : Result} {row : RequestRow} {phase : Phase} : l = .effect c r →
      s.calls c = some ⟨.reject id row.toUserId, phase⟩ → row.requestStatus = kPending →
      Moves s l id (some row) (some { row with requestStatus := kRejected })
  | reopened {c : ℕ} {r : Result} {row : RequestRow} {message : Bytes} {phase : Phase} :
      l = .effect c r → s.calls c = some ⟨.create row.fromUserId row.toUserId message, phase⟩ →
      row.requestStatus = kRejected →
      Moves s l id (some row)
        (some { row with requestMessage := message, requestStatus := kPending })

theorem decide_requests {α ρ : Type} (result : ρ → Result) (next : α → Phase) (d : Except ρ α) :
    (s.decide c req result next d).2.db = s.db := by
  cases d <;> rfl

theorem moves_step (h : Inv s) (hs : Step s l s') (id : ℕ) :
    Moves s l id (s.db.requests id) (s'.db.requests id) := by
  cases hs with
  | setUser | skipId | arrive _ _ | refuse _ _ | fault _ _ _ => exact .stay
  | createRequests _ _ _ _ _ _ | reopen _ _ _ _ _ _ | insert _ _ _ _ _ _ => exact .stay
  | createUsers _ _ _ hnext =>
    rw [hnext, decide_requests]
    exact .stay
  | createRelations _ hnext =>
    rw [hnext, decide_requests]
    exact .stay
  | acceptPreview _ hnext =>
    rw [hnext, decide_requests]
    exact .stay
  | acceptUsers _ _ _ hnext =>
    rw [hnext, decide_requests]
    exact .stay
  | acceptRequest _ _ hnext =>
    rw [hnext, decide_requests]
    exact .stay
  | acceptRelations _ hnext =>
    rw [hnext, decide_requests]
    exact .stay
  | acceptReverse _ _ _ hnext =>
    rw [hnext, decide_requests]
    exact .stay
  | rejectRequest _ _ hnext =>
    rw [hnext, decide_requests]
    exact .stay
  | @createCommit c source target id' message same reverse r hcall _ =>
    by_cases heq : id = id'
    · subst heq
      have hc : Creating s.db id source target same := h.okay c _ _ hcall
      simp only [Db.commitCreate, update_self]
      cases same with
      | none =>
        rw [hc.inserted rfl]
        exact .created rfl hcall rfl
      | some p =>
        obtain ⟨hrow, hfrom, hto⟩ := hc.direction
        obtain ⟨hid, hrejected⟩ := hc.reopened p.1 p.2 rfl
        rw [hid] at hrow
        subst hfrom hto
        rw [hrow]
        exact .reopened rfl hcall hrejected
    · simp only [Db.commitCreate, update_of_ne heq]
      exact .stay
  | @acceptCommit c id' handler requester receiver row reverse r hcall _ _ hrow hto hpending _ =>
    by_cases heq : id = id'
    · subst heq hto
      simp only [Db.setStatus, Db.addRelations, update_self, hrow, Option.map_some]
      exact .accepted rfl hcall hpending
    · simp only [Db.setStatus, Db.addRelations, update_of_ne heq]
      exact .stay
  | @rejectCommit c id' handler requester receiver row r hcall hrow hto hpending _ =>
    by_cases heq : id = id'
    · subst heq hto
      simp only [Db.setStatus, update_self, hrow, Option.map_some]
      exact .rejected rfl hcall hpending
    · simp only [Db.setStatus, update_of_ne heq]
      exact .stay

/-! ## Results -/

def Label.Returned (s : State) : Label → Prop
  | .silent => True
  | .effect c r | .returned c r => ∃ req, s.calls c = some ⟨req, .returned r⟩

theorem decide_returned {α ρ : Type} (result : ρ → Result) (next : α → Phase) (d : Except ρ α) :
    (s.decide c req result next d).1.Returned (s.decide c req result next d).2 := by
  cases d with
  | error r => exact ⟨req, go_calls_self ..⟩
  | ok a => trivial

theorem returned_step (hs : Step s l s') : l.Returned s' := by
  cases hs with
  | setUser | skipId | arrive _ _ => trivial
  | reopen _ _ _ _ _ _ | insert _ _ _ _ _ _ => trivial
  | refuse _ _ => exact ⟨_, go_calls_self ..⟩
  | fault _ _ _ => exact ⟨_, go_calls_self ..⟩
  | createRequests _ _ _ _ _ _ => exact ⟨_, go_calls_self ..⟩
  | createCommit _ _ => exact ⟨_, go_calls_self ..⟩
  | acceptCommit _ _ _ _ _ _ _ => exact ⟨_, go_calls_self ..⟩
  | rejectCommit _ _ _ _ _ => exact ⟨_, go_calls_self ..⟩
  | createUsers _ _ _ hnext => exact hnext ▸ decide_returned ..
  | createRelations _ hnext => exact hnext ▸ decide_returned ..
  | acceptPreview _ hnext => exact hnext ▸ decide_returned ..
  | acceptUsers _ _ _ hnext => exact hnext ▸ decide_returned ..
  | acceptRequest _ _ hnext => exact hnext ▸ decide_returned ..
  | acceptRelations _ hnext => exact hnext ▸ decide_returned ..
  | acceptReverse _ _ _ hnext => exact hnext ▸ decide_returned ..
  | rejectRequest _ _ hnext => exact hnext ▸ decide_returned ..

def Label.Consistent : Label → Prop
  | .silent => True
  | .effect _ r | .returned _ r => r.Consistent

theorem consistent_step (h : Inv s) (hs : Step s l s') : l.Consistent := by
  have hreturned := returned_step hs
  have h' := h.step hs
  have hof : ∀ c r, (∃ req, s'.calls c = some ⟨req, .returned r⟩) → r.Consistent := by
    rintro c r ⟨req, hcall⟩
    have hok := h'.okay c req _ hcall
    cases req <;> exact hok
  cases l with
  | silent => trivial
  | effect c r => exact hof c r hreturned
  | returned c r => exact hof c r hreturned

theorem consistent_run {users : ℕ → Option ℕ} (hrun : Run Step (.initial users) ls s) :
    ∀ l ∈ ls, l.Consistent := by
  have hall := hrun.history (I := fun ls s => Inv s ∧ ∀ l ∈ ls, Label.Consistent l)
    (fun ls s l s' h hs => ⟨h.1.step hs, fun l' hl' => by
      rcases List.mem_append.1 hl' with hl' | hl'
      · exact h.2 l' hl'
      · exact List.mem_singleton.1 hl' ▸ consistent_step h.1 hs⟩)
    ⟨.init users, fun _ hl => by cases hl⟩
  exact hall.2

def Db.Accepted (db : Db) (a b : ℕ) : Prop :=
  ∃ id row, db.requests id = some row ∧ row.requestStatus = kAccepted ∧ row.fromUserId = a ∧
    row.toUserId = b

/-- Whatever calls are made by whatever users, with whatever failures and lost replies: a direction
has at most one request row, and the two directions are never both pending; relations are symmetric,
and hold between two users exactly when one and only one of their rows is accepted; no request is
pending between friends; a row is created pending by its sender, and moves only from pending to
accepted or rejected, by its receiver, and from rejected to pending, by its sender; and no call finds
the tables inconsistent. -/
theorem friend_graph {users : ℕ → Option ℕ} (hrun : Run Step (.initial users) ls s) :
    (∀ id row id' row', s.db.requests id = some row → s.db.requests id' = some row' →
      row.fromUserId = row'.fromUserId → row.toUserId = row'.toUserId → id = id') ∧
    (∀ id row id' row', s.db.requests id = some row → s.db.requests id' = some row' →
      row.fromUserId = row'.toUserId → row.toUserId = row'.fromUserId →
      ¬ (row.requestStatus = kPending ∧ row'.requestStatus = kPending)) ∧
    (∀ a b, s.db.relations a b = s.db.relations b a) ∧
    (∀ a b, s.db.relations a b ≠ none ↔
      (s.db.Accepted a b ∨ s.db.Accepted b a) ∧ ¬ (s.db.Accepted a b ∧ s.db.Accepted b a)) ∧
    (∀ id row, s.db.requests id = some row → row.requestStatus = kPending →
      s.db.Apart row.fromUserId row.toUserId) ∧
    (∀ l s', Step s l s' → ∀ id, Moves s l id (s.db.requests id) (s'.db.requests id)) ∧
    ∀ l ∈ ls, l.Consistent := by
  have h := Inv.run hrun
  have hg := h.graph
  refine ⟨hg.unique, ?_, fun a b => ?_, fun a b => ⟨fun hab => ?_, ?_⟩,
    fun id row hrow => hg.apart_of_pending hrow, fun l s' hs id => moves_step h hs id,
    consistent_run hrun⟩
  · intro id row id' row' hrow hrow' hfrom hto hboth
    exact hg.opposite id row id' row' hrow hrow' hfrom hto (.inl hboth.1) (.inl hboth.2)
  · rcases hg.friends_or_apart a b with ⟨hab, hba⟩ | ⟨hab, hba⟩
    · rw [hab, hba]
    · rw [hab, hba]
  · obtain ⟨x, hx⟩ := Option.ne_none_iff_exists'.1 hab
    obtain rfl := hg.relation a b x hx
    obtain ⟨id, row, hrow, hstatus, hbetween⟩ := (hg.friends a b).1 hx
    refine ⟨?_, ?_⟩
    · rcases hbetween with ⟨hfrom, hto⟩ | ⟨hfrom, hto⟩
      · exact .inl ⟨id, row, hrow, hstatus, hfrom, hto⟩
      · exact .inr ⟨id, row, hrow, hstatus, hfrom, hto⟩
    · rintro ⟨⟨i, r, hr, hs, hf, ht⟩, j, r', hr', hs', hf', ht'⟩
      exact hg.opposite i r j r' hr hr' (hf.trans ht'.symm) (ht.trans hf'.symm) (.inr hs) (.inr hs')
  · rintro ⟨⟨id, row, hrow, hstatus, hf, ht⟩ | ⟨id, row, hrow, hstatus, hf, ht⟩, -⟩
    · rw [(hg.friends a b).2 ⟨id, row, hrow, hstatus, .inl ⟨hf, ht⟩⟩]
      simp
    · rw [(hg.friends a b).2 ⟨id, row, hrow, hstatus, .inr ⟨hf, ht⟩⟩]
      simp

def State.Alone (s : State) (c : ℕ) : Prop :=
  ∀ c' call, c' ≠ c → s.calls c' = some call → ∃ result, call.phase = .returned result

theorem State.Alone.userFree {s : State} {c : ℕ} (h : s.Alone c) (u : ℕ) : s.UserFree c u := by
  intro c' call hne hcall
  obtain ⟨result, hphase⟩ := h c' call hne hcall
  obtain ⟨req, phase⟩ := call
  subst hphase
  cases req <;> exact id

theorem State.Alone.requestFree {s : State} {c : ℕ} (h : s.Alone c) (r : ℕ) :
    s.RequestFree c r := by
  intro c' call hne hcall
  obtain ⟨result, hphase⟩ := h c' call hne hcall
  obtain ⟨req, phase⟩ := call
  subst hphase
  cases req <;> exact id

theorem State.Alone.foundFree {s : State} {c : ℕ} (h : s.Alone c)
    (request : Option (ℕ × RequestRow)) : s.FoundFree c request :=
  fun id _ _ => h.requestFree id

theorem State.Alone.go {s : State} {c : ℕ} (h : s.Alone c) (req : Request) (phase : Phase) :
    (s.go c req phase).Alone c := by
  intro c' call hne hcall
  refine h c' call hne ?_
  rwa [show (s.go c req phase).calls c' = s.calls c' from update_of_ne hne _ _] at hcall

theorem create_run : ∃ ls s, Run Step (.initial fun _ => some kActiveUserStatus) ls s ∧
    s.db = ⟨fun _ => some kActiveUserStatus, fun _ _ => none,
      Function.update (fun _ => none) 1 (some ⟨1, 2, [], kPending⟩), 2⟩ ∧
    s.calls 1 = none ∧ s.Alone 1 := by
  let req := Request.create 1 2 []
  have h : Run Step (.initial fun _ => some kActiveUserStatus) [] _ := .nil _
  have halone : (State.initial fun _ => some kActiveUserStatus).Alone 0 := fun c call _ hcall => by
    cases hcall
  have h := h.snoc (.arrive (c := 0) (show _ = none from rfl)
    (show req.arguments = .ok .createUsers from rfl))
  have halone := halone.go req .createUsers
  have h := h.snoc (.createUsers (c := 0)
    (show _ = some (Call.mk (.create 1 2 []) Phase.createUsers) from rfl)
    (halone.userFree 1) (halone.userFree 2) rfl)
  have halone := halone.go req .createRelations
  have h := h.snoc (.createRelations (c := 0)
    (show _ = some (Call.mk (.create 1 2 []) Phase.createRelations) from rfl) rfl)
  have halone := halone.go req .createRequests
  have h := h.snoc (.insert (c := 0)
    (show _ = some (Call.mk (.create 1 2 []) Phase.createRequests) from rfl)
    (show Db.Direction _ _ _ none from fun _ _ hrow => by cases hrow)
    (show Db.Direction _ _ _ none from fun _ _ hrow => by cases hrow)
    (halone.foundFree none) (halone.foundFree none) rfl)
  have h := h.snoc (.createCommit (c := 0)
    (show _ = some (Call.mk (.create 1 2 []) (Phase.createCommit 1 none none)) from rfl) (.inl rfl))
  refine ⟨_, _, h, rfl, rfl, ?_⟩
  intro c call _ hcall
  by_cases hc : c = 0
  · subst hc
    obtain rfl := Option.some.inj hcall
    exact ⟨_, rfl⟩
  · exact ((halone.go req (.createCommit 1 none none)).go req
      (.returned (.create (createdResult 1 none)))) c call hc hcall

theorem accept_run : ∃ ls s, Run Step (.initial fun _ => some kActiveUserStatus) ls s ∧
    s.db.relations 1 2 = some kFriend := by
  obtain ⟨ls, ⟨db, calls⟩, h, rfl, hcalls, halone⟩ := create_run
  let req := Request.accept 1 2
  have hcall : ∀ (t : State) phase, (t.go 1 req phase).calls 1 = some ⟨req, phase⟩ :=
    fun t phase => rfl
  have h := h.snoc (.arrive (c := 1) hcalls (show req.arguments = .ok .acceptPreview from rfl))
  have halone := halone.go req .acceptPreview
  have h := h.snoc (.acceptPreview (hcall _ _) rfl)
  have halone := halone.go req (.acceptUsers 1 2)
  have h := h.snoc (.acceptUsers (hcall _ _) (halone.userFree 1) (halone.userFree 2) rfl)
  have halone := halone.go req (.acceptRequest 1 2 kActiveUserStatus kActiveUserStatus)
  have h := h.snoc (.acceptRequest (hcall _ _) (halone.requestFree 1) rfl)
  have h := h.snoc (.acceptRelations (hcall _ _) rfl)
  have halone := halone.go req
    (.acceptRelations 1 2 kActiveUserStatus kActiveUserStatus kPending)
  have halone := halone.go req (.acceptReverse 1 2)
  have hreverse : Db.Direction ⟨fun _ => some kActiveUserStatus, fun _ _ => none,
      Function.update (fun _ => none) 1 (some ⟨1, 2, [], kPending⟩), 2⟩ 2 1 none := by
    intro id row hrow
    by_cases hid : id = 1
    · subst hid
      obtain rfl := Option.some.inj hrow
      decide
    · have hrow : Function.update (fun _ => none) 1 (some (RequestRow.mk 1 2 [] kPending)) id =
        some row := hrow
      rw [update_of_ne hid] at hrow
      cases hrow
  have h := h.snoc (.acceptReverse (hcall _ _) hreverse (halone.foundFree none) rfl)
  have h := h.snoc (.acceptCommit (hcall _ _) rfl rfl
    (show _ = some (RequestRow.mk 1 2 [] kPending) from rfl) rfl rfl (.inl rfl))
  exact ⟨_, _, h, rfl⟩

theorem friend_graph_accept : ∃ ls s, Run Step (.initial fun _ => some kActiveUserStatus) ls s ∧
    s.db.relations 1 2 ≠ none ∧ (s.db.Accepted 1 2 ∨ s.db.Accepted 2 1) := by
  obtain ⟨ls, s, hrun, hfriends⟩ := accept_run
  have hne : s.db.relations 1 2 ≠ none := by
    rw [hfriends]
    simp
  obtain ⟨-, -, -, hiff, -⟩ := friend_graph hrun
  exact ⟨ls, s, hrun, hne, ((hiff 1 2).1 hne).1⟩

end TinyImx.Social
