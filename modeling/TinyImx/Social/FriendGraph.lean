import TinyImx.Social.FriendCalls

/-!
# The friend graph

Of the two request rows of a pair at most one is pending or accepted, and two users are friends
exactly when one of their rows is accepted.  A call that has read a row it will write holds the lock
that every other writer of it needs, so what it has read is still so at its commit.
-/

namespace TinyImx.Social

open TinyImx.Local (Bytes)

variable {s s' : State} {db : Db} {l : Label} {ls : List Label} {c : ℕ} {req : Request}
  {phase : Phase}

/-! ## The tables -/

def RequestRow.Between (row : RequestRow) (a b : ℕ) : Prop :=
  row.fromUserId = a ∧ row.toUserId = b ∨ row.fromUserId = b ∧ row.toUserId = a

def RequestRow.Live (row : RequestRow) : Prop :=
  row.requestStatus = kPending ∨ row.requestStatus = kAccepted

structure Graph (db : Db) : Prop where
  ids : ∀ id row, db.requests id = some row → id < db.nextRequest
  proper : ∀ id row, db.requests id = some row → row.fromUserId ≠ row.toUserId
  status : ∀ id row, db.requests id = some row → row.Live ∨ row.requestStatus = kRejected
  unique : ∀ id row id' row', db.requests id = some row → db.requests id' = some row' →
    row.fromUserId = row'.fromUserId → row.toUserId = row'.toUserId → id = id'
  opposite : ∀ id row id' row', db.requests id = some row → db.requests id' = some row' →
    row.fromUserId = row'.toUserId → row.toUserId = row'.fromUserId → row.Live → ¬ row'.Live
  relation : ∀ a b x, db.relations a b = some x → x = kFriend
  friends : ∀ a b, db.relations a b = some kFriend ↔
    ∃ id row, db.requests id = some row ∧ row.requestStatus = kAccepted ∧ row.Between a b

variable {a b : ℕ}

theorem RequestRow.Between.symm {row : RequestRow} (h : row.Between a b) :
    row.Between b a := Or.symm h

def Db.Apart (db : Db) (a b : ℕ) : Prop := db.relations a b = none ∧ db.relations b a = none

variable {id : ℕ}

namespace Graph

theorem init (users : ℕ → Option ℕ) : Graph (State.initial users).db where
  ids _ _ h := by cases h
  proper _ _ h := by cases h
  status _ _ h := by cases h
  unique _ _ _ _ h := by cases h
  opposite _ _ _ _ h := by cases h
  relation _ _ _ h := by cases h
  friends a b := ⟨fun h => (by cases h), fun ⟨_, _, h, _⟩ => (by cases h)⟩

theorem keep {db' : Db} (h : Graph db) (hrequests : db'.requests = db.requests)
    (hrelations : db'.relations = db.relations) (hnext : db.nextRequest ≤ db'.nextRequest) :
    Graph db' := by
  refine ⟨fun id row hrow => ?_, ?_, ?_, ?_, ?_, ?_, ?_⟩
  · rw [hrequests] at hrow
    exact (h.ids id row hrow).trans_le hnext
  · rw [hrequests]
    exact h.proper
  · rw [hrequests]
    exact h.status
  · rw [hrequests]
    exact h.unique
  · rw [hrequests]
    exact h.opposite
  · rw [hrelations]
    exact h.relation
  · rw [hrequests, hrelations]
    exact h.friends

theorem symm (h : Graph db) (hab : db.relations a b = some kFriend) :
    db.relations b a = some kFriend := by
  obtain ⟨id, row, hrow, hstatus, hbetween⟩ := (h.friends a b).1 hab
  exact (h.friends b a).2 ⟨id, row, hrow, hstatus, hbetween.symm⟩

theorem friends_or_apart (h : Graph db) (a b : ℕ) :
    db.relations a b = some kFriend ∧ db.relations b a = some kFriend ∨ db.Apart a b := by
  cases hab : db.relations a b with
  | some x =>
    obtain rfl := h.relation a b x hab
    exact .inl ⟨rfl, h.symm hab⟩
  | none =>
    cases hba : db.relations b a with
    | some x =>
      obtain rfl := h.relation b a x hba
      rw [h.symm hba] at hab
      cases hab
    | none => exact .inr ⟨hab, hba⟩

theorem not_friend_of_apart (ha : db.Apart a b) : db.relations a b ≠ some kFriend := by
  rw [ha.1]
  nofun

theorem not_accepted_of_apart (h : Graph db) {row : RequestRow} (ha : db.Apart a b)
    (hrow : db.requests id = some row) (hbetween : row.Between a b) :
    row.requestStatus ≠ kAccepted := fun hstatus =>
  not_friend_of_apart ha ((h.friends a b).2 ⟨id, row, hrow, hstatus, hbetween⟩)

end Graph

theorem Graph.apart_of_pending {row : RequestRow} (h : Graph db)
    (hrow : db.requests id = some row) (hpending : row.requestStatus = kPending) :
    db.Apart row.fromUserId row.toUserId := by
  rcases h.friends_or_apart row.fromUserId row.toUserId with ⟨hf, -⟩ | hapart
  · obtain ⟨i, r, hr, hstatus, ⟨hfrom, hto⟩ | ⟨hfrom, hto⟩⟩ := (h.friends _ _).1 hf
    · obtain rfl := h.unique i r id row hr hrow hfrom hto
      obtain rfl := Option.some.inj (hr.symm.trans hrow)
      rw [hpending] at hstatus
      cases hstatus
    · exact absurd (.inr hstatus) (h.opposite id row i r hrow hr hto.symm hfrom.symm (.inl hpending))
  · exact hapart

theorem Graph.found_status {request : Option (ℕ × RequestRow)} {row : RequestRow}
    (h : Graph db) (hapart : db.Apart a b) (hd : db.Direction a b request)
    (heq : request = some (id, row)) :
    row.requestStatus = kPending ∨ row.requestStatus = kRejected := by
  subst heq
  have hnot := h.not_accepted_of_apart hapart hd.1 (.inl hd.2)
  rcases h.status id row hd.1 with (hp | hp) | hp
  · exact .inl hp
  · exact absurd hp hnot
  · exact .inr hp

variable {reverse : Option (ℕ × RequestRow)}

theorem Graph.not_both {same : Option (ℕ × RequestRow)} (h : Graph db)
    (hsame : db.Direction a b same) (hreverse : db.Direction b a reverse) :
    ¬ (statusOf same = some kPending ∧ statusOf reverse = some kPending) := by
  rintro ⟨hs, hr⟩
  cases same with
  | none => cases hs
  | some p =>
    cases reverse with
    | none => cases hr
    | some q =>
      have hp := hsame
      have hq := hreverse
      exact h.opposite p.1 p.2 q.1 q.2 hp.1 hq.1 (hp.2.1.trans hq.2.2.symm)
        (hp.2.2.trans hq.2.1.symm) (.inl (Option.some.inj hs)) (.inl (Option.some.inj hr))

def Db.Idle (db : Db) (source target : ℕ) : Prop :=
  ∀ id row, db.requests id = some row → row.fromUserId = source → row.toUserId = target →
    ¬ row.Live

theorem Graph.idle_of_found {request : Option (ℕ × RequestRow)} (h : Graph db)
    (hd : db.Direction a b request)
    (hrejected : ∀ id row, request = some (id, row) → row.requestStatus = kRejected) :
    db.Idle a b := by
  intro id row hrow hfrom hto hlive
  cases request with
  | none => exact hd id row hrow ⟨hfrom, hto⟩
  | some p =>
    have hp := hd
    obtain rfl := h.unique id row p.1 p.2 hrow hp.1 (hfrom.trans hp.2.1.symm)
      (hto.trans hp.2.2.symm)
    obtain rfl := Option.some.inj (hrow.symm.trans hp.1)
    have hst := hrejected p.1 p.2 rfl
    rcases hlive with hl | hl <;> rw [hst] at hl <;> cases hl

/-! ## Commits -/

theorem requests_commitCreate {id id' source target : ℕ} {message : Bytes} {row : RequestRow}
    (h : (db.commitCreate id source target message).requests id' = some row) :
    id' = id ∧ row = ⟨source, target, message, kPending⟩ ∨ id' ≠ id ∧ db.requests id' = some row := by
  by_cases heq : id' = id
  · subst heq
    simp only [Db.commitCreate, Function.update_self, Option.some.injEq] at h
    exact .inl ⟨rfl, h.symm⟩
  · simp only [Db.commitCreate, Function.update_of_ne heq] at h
    exact .inr ⟨heq, h⟩

theorem requests_setStatus {id id' status : ℕ} {row : RequestRow}
    (h : (db.setStatus id status).requests id' = some row) :
    (id' = id ∧ ∃ old, db.requests id = some old ∧ row = { old with requestStatus := status }) ∨
      id' ≠ id ∧ db.requests id' = some row := by
  by_cases heq : id' = id
  · subst heq
    simp only [Db.setStatus, Function.update_self, Option.map_eq_some_iff] at h
    obtain ⟨old, hold, hrow⟩ := h
    exact .inl ⟨rfl, old, hold, hrow.symm⟩
  · simp only [Db.setStatus, Function.update_of_ne heq] at h
    exact .inr ⟨heq, h⟩

namespace Graph

/-- `CreateFriendRequest` takes effect. -/
theorem commitCreate {source target : ℕ} {message : Bytes} (h : Graph db)
    (hne : source ≠ target) (hid : id < db.nextRequest)
    (hsame : ∀ id' row, db.requests id' = some row → row.fromUserId = source →
      row.toUserId = target → id' = id)
    (hold : ∀ row, db.requests id = some row → row.fromUserId = source ∧ row.toUserId = target ∧
      ¬ row.Live)
    (hidle : db.Idle target source) : Graph (db.commitCreate id source target message) := by
  have hcases := @requests_commitCreate db id
  refine ⟨fun id' row hrow => ?_, fun id' row hrow => ?_, fun id' row hrow => ?_,
    fun i row j row' hrow hrow' hfrom hto => ?_,
    fun i row j row' hrow hrow' hfrom hto hlive => ?_, h.relation, fun a b => ?_⟩
  · rcases hcases hrow with ⟨rfl, -⟩ | ⟨-, hrow⟩
    · exact hid
    · exact h.ids id' row hrow
  · rcases hcases hrow with ⟨-, rfl⟩ | ⟨-, hrow⟩
    · exact hne
    · exact h.proper id' row hrow
  · rcases hcases hrow with ⟨-, rfl⟩ | ⟨-, hrow⟩
    · exact .inl (.inl rfl)
    · exact h.status id' row hrow
  · rcases hcases hrow with ⟨hi, rfl⟩ | ⟨-, hi⟩ <;> rcases hcases hrow' with ⟨hj, rfl⟩ | ⟨-, hj⟩
    · rw [hi, hj]
    · rw [hi, hsame j row' hj hfrom.symm hto.symm]
    · rw [hj, hsame i row hi hfrom hto]
    · exact h.unique i row j row' hi hj hfrom hto
  · rcases hcases hrow with ⟨hi, rfl⟩ | ⟨-, hi⟩ <;> rcases hcases hrow' with ⟨hj, rfl⟩ | ⟨-, hj⟩
    · exact absurd hfrom hne
    · exact hidle j row' hj hto.symm hfrom.symm
    · exact absurd hlive (hidle i row hi hfrom hto)
    · exact h.opposite i row j row' hi hj hfrom hto hlive
  · refine (h.friends a b).trans ⟨?_, ?_⟩
    · rintro ⟨i, row, hrow, hstatus, hbetween⟩
      refine ⟨i, row, ?_, hstatus, hbetween⟩
      have hi : i ≠ id := by
        rintro rfl
        exact (hold row hrow).2.2 (.inr hstatus)
      exact (Function.update_of_ne hi _ _).trans hrow
    · rintro ⟨i, row, hrow, hstatus, hbetween⟩
      rcases hcases hrow with ⟨rfl, rfl⟩ | ⟨-, hrow⟩
      · cases hstatus
      · exact ⟨i, row, hrow, hstatus, hbetween⟩

/-- A pending request is rejected. -/
theorem reject {id : ℕ} {row : RequestRow} (h : Graph db) (hrow : db.requests id = some row)
    (hpending : row.requestStatus = kPending) : Graph (db.setStatus id kRejected) := by
  have hcases := @requests_setStatus db id
  -- a row that is live was so before
  have hlive : ∀ i r, (db.setStatus id kRejected).requests i = some r →
      ∃ old, db.requests i = some old ∧ r.fromUserId = old.fromUserId ∧ r.toUserId = old.toUserId ∧
        (r.Live → old.Live) := fun i r hr => by
    rcases hcases hr with ⟨rfl, old, hold, rfl⟩ | ⟨-, hr⟩
    · refine ⟨old, hold, rfl, rfl, fun hlive => ?_⟩
      rcases hlive with hlive | hlive <;> cases hlive
    · exact ⟨r, hr, rfl, rfl, fun hl => hl⟩
  refine ⟨fun i r hr => ?_, fun i r hr => ?_, fun i r hr => ?_,
    fun i r j r' hr hr' hfrom hto => ?_, fun i r j r' hr hr' hfrom hto hl => ?_, h.relation,
    fun a b => (h.friends a b).trans ⟨?_, ?_⟩⟩
  · obtain ⟨old, hold, -⟩ := hlive i r hr
    exact h.ids i old hold
  · obtain ⟨old, hold, hf, ht, -⟩ := hlive i r hr
    rw [hf, ht]
    exact h.proper i old hold
  · rcases hcases hr with ⟨rfl, old, hold, rfl⟩ | ⟨-, hr⟩
    · exact .inr rfl
    · exact h.status i r hr
  · obtain ⟨old, hold, hf, ht, -⟩ := hlive i r hr
    obtain ⟨old', hold', hf', ht', -⟩ := hlive j r' hr'
    exact h.unique i old j old' hold hold' (by rw [← hf, ← hf', hfrom]) (by rw [← ht, ← ht', hto])
  · obtain ⟨old, hold, hf, ht, hl₁⟩ := hlive i r hr
    obtain ⟨old', hold', hf', ht', hl₂⟩ := hlive j r' hr'
    exact fun hl' => h.opposite i old j old' hold hold' (by rw [← hf, ← ht', hfrom])
      (by rw [← ht, ← hf', hto]) (hl₁ hl) (hl₂ hl')
  · rintro ⟨i, r, hr, hstatus, hbetween⟩
    have hi : i ≠ id := by
      rintro rfl
      rw [hrow] at hr
      cases hr
      rw [hpending] at hstatus
      cases hstatus
    exact ⟨i, r, (Function.update_of_ne hi _ _).trans hr, hstatus, hbetween⟩
  · rintro ⟨i, r, hr, hstatus, hbetween⟩
    rcases hcases hr with ⟨rfl, old, hold, rfl⟩ | ⟨-, hr⟩
    · cases hstatus
    · exact ⟨i, r, hr, hstatus, hbetween⟩

/-- A pending request is accepted. -/
theorem accept {id : ℕ} {row : RequestRow} (h : Graph db) (hrow : db.requests id = some row)
    (hpending : row.requestStatus = kPending) :
    Graph ((db.addRelations row.fromUserId row.toUserId).setStatus id kAccepted) := by
  have hcases := @requests_setStatus (db.addRelations row.fromUserId row.toUserId) id
  -- the rows are the same ones, and as live as before
  have hlive : ∀ i r,
      ((db.addRelations row.fromUserId row.toUserId).setStatus id kAccepted).requests i = some r →
      ∃ old, db.requests i = some old ∧ r.fromUserId = old.fromUserId ∧ r.toUserId = old.toUserId ∧
        (r.Live → old.Live) := fun i r hr => by
    rcases hcases hr with ⟨rfl, old, hold, rfl⟩ | ⟨-, hr⟩
    · obtain rfl : old = row := Option.some.inj (hold.symm.trans hrow)
      exact ⟨old, hold, rfl, rfl, fun _ => .inl hpending⟩
    · exact ⟨r, hr, rfl, rfl, fun hl => hl⟩
  refine ⟨fun i r hr => ?_, fun i r hr => ?_, fun i r hr => ?_,
    fun i r j r' hr hr' hfrom hto => ?_, fun i r j r' hr hr' hfrom hto hl => ?_,
    fun a b x hx => ?_, fun a b => ⟨fun hab => ?_, ?_⟩⟩
  · obtain ⟨old, hold, -⟩ := hlive i r hr
    exact h.ids i old hold
  · obtain ⟨old, hold, hf, ht, -⟩ := hlive i r hr
    rw [hf, ht]
    exact h.proper i old hold
  · rcases hcases hr with ⟨rfl, old, hold, rfl⟩ | ⟨-, hr⟩
    · exact .inl (.inr rfl)
    · exact h.status i r hr
  · obtain ⟨old, hold, hf, ht, -⟩ := hlive i r hr
    obtain ⟨old', hold', hf', ht', -⟩ := hlive j r' hr'
    exact h.unique i old j old' hold hold' (by rw [← hf, ← hf', hfrom]) (by rw [← ht, ← ht', hto])
  · obtain ⟨old, hold, hf, ht, hl₁⟩ := hlive i r hr
    obtain ⟨old', hold', hf', ht', hl₂⟩ := hlive j r' hr'
    exact fun hl' => h.opposite i old j old' hold hold' (by rw [← hf, ← ht', hfrom])
      (by rw [← ht, ← hf', hto]) (hl₁ hl) (hl₂ hl')
  · simp only [Db.setStatus, Db.addRelations] at hx
    split at hx
    · exact (Option.some.inj hx).symm
    · exact h.relation a b x hx
  · simp only [Db.setStatus, Db.addRelations] at hab
    split at hab
    · rename_i hpair
      refine ⟨id, { row with requestStatus := kAccepted }, ?_, rfl, ?_⟩
      · simp only [Db.setStatus, Db.addRelations, Function.update_self, hrow, Option.map_some]
      · rcases hpair with ⟨rfl, rfl⟩ | ⟨rfl, rfl⟩
        · exact .inl ⟨rfl, rfl⟩
        · exact .inr ⟨rfl, rfl⟩
    · obtain ⟨i, r, hr, hstatus, hbetween⟩ := (h.friends a b).1 hab
      have hi : i ≠ id := by
        rintro rfl
        rw [hrow] at hr
        cases hr
        rw [hpending] at hstatus
        cases hstatus
      exact ⟨i, r, (Function.update_of_ne hi _ _).trans hr, hstatus, hbetween⟩
  · rintro ⟨i, r, hr, hstatus, hbetween⟩
    simp only [Db.setStatus, Db.addRelations]
    split
    · rfl
    · rename_i hpair
      rcases hcases hr with ⟨rfl, old, hold, rfl⟩ | ⟨-, hr⟩
      · obtain rfl : old = row := Option.some.inj (hold.symm.trans hrow)
        refine absurd ?_ hpair
        rcases hbetween with ⟨hf, ht⟩ | ⟨hf, ht⟩
        · exact .inl ⟨hf.symm, ht.symm⟩
        · exact .inr ⟨ht.symm, hf.symm⟩
      · exact (h.friends a b).2 ⟨i, r, hr, hstatus, hbetween⟩

end Graph

/-! ## Decisions -/

def Result.Consistent : Result → Prop
  | .create r => r.status ≠ .relationDataInconsistent ∧ r.status ≠ .requestDataInconsistent
  | .accept r => r.status ≠ .relationDataInconsistent ∧ r.status ≠ .requestDataInconsistent
  | .reject r => r.status ≠ .requestDataInconsistent

theorem storageError_consistent (message : String) (requester receiver : ℕ) :
    (req.storageError message requester receiver).Consistent := by
  cases req with
  | create => exact ⟨nofun, nofun⟩
  | accept => exact ⟨nofun, nofun⟩
  | reject => nofun

theorem arguments_consistent {r : Result} (h : req.arguments = .error r) : r.Consistent := by
  cases req with
  | create source target message =>
    simp only [Request.arguments, createArguments] at h
    split at h
    · rename_i r' hr'
      cases h
      split at hr'
      · cases hr'
        exact ⟨nofun, nofun⟩
      · split at hr'
        · cases hr'
          exact ⟨nofun, nofun⟩
        · split at hr' <;> cases hr'
          exact ⟨nofun, nofun⟩
    · cases h
  | accept id handler =>
    simp only [Request.arguments, acceptArguments] at h
    split at h
    · rename_i r' hr'
      cases h
      split at hr' <;> cases hr'
      exact ⟨nofun, nofun⟩
    · cases h
  | reject id handler =>
    simp only [Request.arguments, rejectArguments] at h
    split at h
    · rename_i r' hr'
      cases h
      split at hr' <;> cases hr'
      nofun
    · cases h

theorem createUsers_consistent {source target : Option ℕ} {r : CreateResult}
    (h : createUsers source target = .error r) : (Result.create r).Consistent := by
  unfold createUsers at h
  split at h
  · cases h
    exact ⟨nofun, nofun⟩
  · cases h
    exact ⟨nofun, nofun⟩
  · split at h
    · cases h
      exact ⟨nofun, nofun⟩
    · split at h <;> cases h
      exact ⟨nofun, nofun⟩

theorem createRelations_friends : createRelations (some kFriend) (some kFriend) =
    .error ⟨.alreadyFriend, 0, "users are already friends"⟩ := rfl

theorem createRelations_apart : createRelations none none = .ok () := rfl

theorem createRequests_cases {same : Option (ℕ × RequestRow)}
    (hsame : ∀ id row, same = some (id, row) →
      row.requestStatus = kPending ∨ row.requestStatus = kRejected)
    (hreverse : ∀ id row, reverse = some (id, row) →
      row.requestStatus = kPending ∨ row.requestStatus = kRejected)
    (hboth : ¬ (statusOf same = some kPending ∧ statusOf reverse = some kPending)) :
    (∃ r, createRequests same reverse = .error r ∧ (Result.create r).Consistent) ∨
      createRequests same reverse = .ok same ∧
        (∀ id row, same = some (id, row) → row.requestStatus = kRejected) ∧
        ∀ id row, reverse = some (id, row) → row.requestStatus = kRejected := by

  have hvalue : ∀ request : Option (ℕ × RequestRow), (∀ id row, request = some (id, row) →
      row.requestStatus = kPending ∨ row.requestStatus = kRejected) →
      statusOf request = none ∧ request = none ∨ statusOf request = some kPending ∨
        statusOf request = some kRejected := fun request hrequest => by
    cases request with
    | none => exact .inl ⟨rfl, rfl⟩
    | some p =>
      rcases hrequest p.1 p.2 rfl with hp | hp
      · exact .inr (.inl (congrArg some hp))
      · exact .inr (.inr (congrArg some hp))
  have hrejected : ∀ request : Option (ℕ × RequestRow), statusOf request ≠ some kPending →
      (∀ id row, request = some (id, row) →
        row.requestStatus = kPending ∨ row.requestStatus = kRejected) →
      ∀ id row, request = some (id, row) → row.requestStatus = kRejected :=
    fun request hne hrequest id row heq => by
      rcases hrequest id row heq with hp | hp
      · exact absurd (by rw [heq]; exact congrArg some hp) hne
      · exact hp
  unfold createRequests
  rw [if_neg hboth]
  by_cases hr : statusOf reverse = some kPending
  · rw [if_pos hr]
    exact .inl ⟨_, rfl, nofun, nofun⟩
  rw [if_neg hr]
  by_cases hs : statusOf same = some kPending
  · rw [if_pos hs]
    exact .inl ⟨_, rfl, nofun, nofun⟩
  rw [if_neg hs]
  refine .inr ⟨?_, hrejected same hs hsame, hrejected reverse hr hreverse⟩
  have hnot : ¬ (statusOf same = some kAccepted ∨ statusOf reverse = some kAccepted) := by
    rintro (hacc | hacc)
    · rcases hvalue same hsame with ⟨h, -⟩ | h | h <;> rw [hacc] at h <;> cases h
    · rcases hvalue reverse hreverse with ⟨h, -⟩ | h | h <;> rw [hacc] at h <;> cases h
  rw [if_neg hnot]
  rcases hvalue same hsame with ⟨-, rfl⟩ | h | h
  · rfl
  · exact absurd h hs
  · rw [if_pos (.inl h)]

variable {row : Option RequestRow} {handler : ℕ}

theorem acceptPreview_consistent {r : AcceptResult}
    (h : acceptPreview id handler row = .error r) : (Result.accept r).Consistent := by
  cases row with
  | none =>
    cases h
    exact ⟨nofun, nofun⟩
  | some row =>
    simp only [acceptPreview] at h
    split at h <;> cases h
    exact ⟨nofun, nofun⟩

theorem acceptPreview_ok {ids : ℕ × ℕ}
    (h : acceptPreview id handler row = .ok ids) : ∃ row', row = some row' ∧
      row'.fromUserId = ids.1 ∧ row'.toUserId = ids.2 ∧ ids.2 = handler := by
  cases row with
  | none => cases h
  | some row =>
    simp only [acceptPreview] at h
    grind

theorem acceptUsers_consistent {requester receiver : ℕ} {a b : Option ℕ} {r : AcceptResult}
    (h : acceptUsers id requester receiver a b = .error r) : (Result.accept r).Consistent := by
  unfold acceptUsers at h
  split at h <;> cases h
  · exact ⟨nofun, nofun⟩
  · exact ⟨nofun, nofun⟩

theorem acceptRequest_eq {row : RequestRow} (h : row.toUserId = handler) :
    acceptRequest id handler row.fromUserId row.toUserId (some row) = .ok row.requestStatus := by
  simp [acceptRequest, h]

theorem acceptRelations_consistent {requester receiver status : ℕ} {x y : Option ℕ}
    {r : AcceptResult}
    (h : acceptRelations id requester receiver status x y a b = .error r)
    (hfriends : status = kAccepted → x = some kFriend ∧ y = some kFriend)
    (hapart : status = kPending → x = none ∧ y = none) : (Result.accept r).Consistent := by
  by_cases hacc : status = kAccepted
  · obtain ⟨rfl, rfl⟩ := hfriends hacc
    subst hacc
    cases h
    exact ⟨nofun, nofun⟩
  · by_cases hpending : status = kPending
    · obtain ⟨rfl, rfl⟩ := hapart hpending
      subst hpending
      have heq : acceptRelations id requester receiver kPending none none a b =
          if a ≠ kActiveUserStatus then
            .error ⟨.requesterDisabled, id, requester, receiver, "requester user disabled"⟩
          else if b ≠ kActiveUserStatus then
            .error ⟨.receiverDisabled, id, requester, receiver, "receiver user disabled"⟩
          else .ok () := rfl
      rw [heq] at h
      split at h
      · cases h
        exact ⟨nofun, nofun⟩
      · split at h <;> cases h
        exact ⟨nofun, nofun⟩
    · simp only [acceptRelations, if_neg hacc, if_pos hpending] at h
      cases h
      exact ⟨nofun, nofun⟩

theorem acceptRelations_ok {requester receiver status : ℕ} {x y : Option ℕ}
    (h : acceptRelations id requester receiver status x y a b = .ok ()) : status = kPending := by
  by_contra hne
  simp only [acceptRelations, if_pos hne] at h
  grind

theorem acceptReverse_idle {requester receiver : ℕ}
    (h : ∀ id row, reverse = some (id, row) → ¬ row.Live) :
    acceptReverse id requester receiver reverse = .ok () := by
  refine if_neg ?_
  cases reverse with
  | none => rintro (h | h) <;> cases h
  | some p =>
    rintro (hp | hp)
    · exact h p.1 p.2 rfl (.inl (Option.some.inj hp))
    · exact h p.1 p.2 rfl (.inr (Option.some.inj hp))

theorem rejectRequest_consistent {r : RejectResult} (h : rejectRequest id handler row = .error r)
    (hstatus : ∀ row', row = some row' → row'.Live ∨ row'.requestStatus = kRejected) :
    (Result.reject r).Consistent := by
  cases row with
  | none =>
    cases h
    nofun
  | some row =>
    simp only [rejectRequest] at h
    split at h
    · cases h
      nofun
    · split at h
      · cases h
        nofun
      · rename_i hrejected
        split at h
        · cases h
          nofun
        · rename_i haccepted
          split at h
          · cases h
            nofun
          · split at h
            · rename_i hpending
              rcases hstatus row rfl with (hp | hp) | hp
              · exact absurd hp hpending
              · exact absurd hp haccepted
              · exact absurd hp hrejected
            · cases h

theorem rejectRequest_ok {ids : ℕ × ℕ}
    (h : rejectRequest id handler row = .ok ids) : ∃ row', row = some row' ∧
      row'.toUserId = handler ∧ row'.requestStatus = kPending := by
  cases row with
  | none => cases h
  | some row =>
    simp only [rejectRequest] at h
    split at h
    · cases h
    · rename_i hto
      split at h
      · cases h
      · split at h
        · cases h
        · split at h
          · cases h
          · split at h
            · cases h
            · rename_i hpending
              exact ⟨row, rfl, not_not.1 hto, not_not.1 hpending⟩

end TinyImx.Social
