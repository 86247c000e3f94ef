import TinyImx.Group.Commands

/-!
# What a command changes

`Change actor now command r r'` says everything that a transaction of `command` by `actor` can do to
the rows `r` of its group, with all it has checked.  Every command is inverted into it once; the
results about groups look at `Change` and not at the commands.
-/

namespace TinyImx.Group

open TinyImx.Local (Bytes)
open Act (bind_eq_ok)

variable {e : Env} {r r' : Rows} {p : Prepared} {actor groupId target : ℕ}

/-! ## Statements that succeed -/

variable {member : Option MemberRow}

section Statements

variable {α : Type} {statement : Statement} {text : String} {status : Status}

@[simp] theorem require_eq_ok {value : Bool} {u : Unit} :
    require value status text = .ok u ↔ value = true := by
  cases value <;> simp [require]

@[simp] theorem execute_eq_ok {value value' : α} :
    e.execute statement text value = .ok value' ↔ e.fault statement = none ∧ value = value' := by
  unfold Env.execute
  cases e.fault statement <;> simp

theorem affected_eq_ok {x : Except Failure (ℕ × Rows)} :
    affected text x = .ok r ↔ x = .ok (1, r) := by
  cases x with
  | error f => simp [affected, bind, Except.bind]
  | ok a =>
    obtain ⟨n, r₀⟩ := a
    by_cases hn : n = 1
    · simp [affected, bind, Except.bind, require, hn, pure, Except.pure]
    · simp [affected, bind, Except.bind, require, hn]

theorem durable_eq_ok {x : Except Failure (ℕ × Rows)} :
    durable text x = .ok r ↔ x = .ok (1, r) := by
  cases x with
  | error f => simp [durable]
  | ok a =>
    obtain ⟨n, r₀⟩ := a
    by_cases hn : n = 1 <;> simp [durable, hn]

theorem activeMember_eq_ok {m : MemberRow} :
    activeMember status text member = .ok m ↔ member = some m ∧ m.status = .active := by
  cases member with
  | none => simp [activeMember]
  | some m₀ =>
    by_cases hm : m₀.status = .active
    · simp only [activeMember, if_pos hm, Except.ok.injEq, Option.some.injEq]
      exact ⟨fun h => ⟨h, h ▸ hm⟩, And.left⟩
    · simp only [activeMember, if_neg hm, Option.some.injEq, reduceCtorEq, false_iff]
      rintro ⟨rfl, h⟩
      exact hm h

theorem findMember_eq {user : ℕ} (h : findMember e statement user r = .ok member) :
    member = r.members.lookup user ∧ user ≠ 0 ∧ ∀ m, member = some m → m.membershipEpoch ≠ 0 := by
  obtain ⟨_, huser, h⟩ := bind_eq_ok.1 h
  obtain ⟨_, -, h⟩ := bind_eq_ok.1 h
  obtain ⟨_, hepoch, h⟩ := bind_eq_ok.1 h
  cases h
  refine ⟨rfl, by simpa using huser, fun m hm => ?_⟩
  rw [require_eq_ok, hm] at hepoch
  simpa using hepoch

theorem lockActorAndTarget_eq {a t : Option MemberRow}
    (h : lockActorAndTarget e actor target r = .ok (a, t)) :
    a = r.members.lookup actor ∧ t = r.members.lookup target ∧ target ≠ 0 ∧
      ∀ m, t = some m → m.membershipEpoch ≠ 0 := by
  unfold lockActorAndTarget at h
  split at h
  · obtain ⟨_, ha, h⟩ := bind_eq_ok.1 h
    obtain ⟨_, ht, h⟩ := bind_eq_ok.1 h
    cases h
    exact ⟨(findMember_eq ha).1, findMember_eq ht⟩
  · obtain ⟨_, ht, h⟩ := bind_eq_ok.1 h
    obtain ⟨_, ha, h⟩ := bind_eq_ok.1 h
    cases h
    exact ⟨(findMember_eq ha).1, findMember_eq ht⟩

theorem ensureCapacity_eq {u : Unit} (h : ensureCapacity e r = .ok u) :
    r.activeCount < r.group.maxMembers := by
  obtain ⟨count, hcount, h⟩ := bind_eq_ok.1 h
  rw [countActiveMembers, execute_eq_ok] at hcount
  rw [hcount.2]
  simpa using h

end Statements

/-! ## The rows after a change -/

def enteredRow (now epoch : ℕ) : MemberRow := ⟨.member, .active, epoch, none, now, none, now⟩

def GroupRow.touch (now : ℕ) (group : GroupRow) : GroupRow :=
  { group with
    version := next group.version
    memberVersion := next group.memberVersion
    updatedAt := now }

def Rows.enter (now user epoch : ℕ) (r : Rows) : Rows where
  group := r.group.touch now
  members := r.members.insert user (enteredRow now epoch)
  history := r.history.insert (user, epoch) ⟨.member, now, none, none, none⟩

def MemberRow.exit (now : ℕ) (status : MemberStatus) (m : MemberRow) : MemberRow :=
  { m with status := status, mutedUntil := none, leftAt := some now, updatedAt := now }

def HistoryRow.close (now reason endedBy : ℕ) (h : HistoryRow) : HistoryRow :=
  { h with endedAt := some now, endReason := some reason, endedBy := some endedBy }

def Rows.exit (now user : ℕ) (status : MemberStatus) (reason endedBy : ℕ) (m : MemberRow)
    (h : HistoryRow) (r : Rows) : Rows where
  group := r.group.touch now
  members := r.members.insert user (m.exit now status)
  history := r.history.insert (user, m.membershipEpoch) (h.close now reason endedBy)

def MemberRow.setRole (now : ℕ) (role : Role) (m : MemberRow) : MemberRow :=
  { m with
    role := role
    mutedUntil := if role = .owner then none else m.mutedUntil
    updatedAt := now }

def MemberRow.setMute (now : ℕ) (mutedUntil : Bytes) (m : MemberRow) : MemberRow :=
  { m with
    mutedUntil := if mutedUntil = [] then none else some mutedUntil
    updatedAt := now }

def Rows.setMember (now user : ℕ) (m : MemberRow) (r : Rows) : Rows :=
  { r with group := r.group.touch now, members := r.members.insert user m }

def Rows.transfer (now actor target : ℕ) (m m' : MemberRow) (r : Rows) : Rows :=
  { r with
    group := { r.group.touch now with ownerUserId := target }
    members := (r.members.insert actor (m.setRole now .admin)).insert target
      (m'.setRole now .owner) }

def createdRows (now actor : ℕ) (name description avatarUrl : Bytes) (joinPolicy : JoinPolicy)
    (maxMembers : ℕ) : Rows where
  group := ⟨name, description, avatarUrl, actor, .active, joinPolicy, maxMembers, 1, 1, now, now,
    none, none⟩
  members := (∅ : AList fun _ : ℕ => MemberRow).insert actor
    ⟨.owner, .active, 1, none, now, none, now⟩
  history := (∅ : AList fun _ : ℕ × ℕ => HistoryRow).insert (actor, 1)
    ⟨.owner, now, none, none, none⟩

def GroupRow.describe (now : ℕ) (name description avatarUrl : Option Bytes)
    (joinPolicy : Option JoinPolicy) (group : GroupRow) : GroupRow :=
  { group with
    name := name.getD group.name
    description := description.getD group.description
    avatarUrl := avatarUrl.getD group.avatarUrl
    joinPolicy := joinPolicy.getD group.joinPolicy
    version := next group.version
    updatedAt := now }

def GroupRow.disband (now actor : ℕ) (group : GroupRow) : GroupRow :=
  { group.touch now with
    status := .disbanded
    disbandedAt := some now
    disbandedBy := some actor }

def GroupRow.Grows (group : GroupRow) : Prop := next group.version ≠ 0 ∧ next group.memberVersion ≠ 0

def nextEpoch (member : Option MemberRow) : ℕ := member.elim 1 fun m => next m.membershipEpoch

inductive Change (actor now : ℕ) (r : Rows) : Command → Rows → Prop
  | update {groupId version : ℕ} {name description avatarUrl : Option Bytes}
      {joinPolicy : Option JoinPolicy} {m : MemberRow} :
      r.members.lookup actor = some m → m.status = .active →
      canUpdateMetadata m.role = true ∨ name = none ∧ description = none ∧ avatarUrl = none →
      canUpdateJoinPolicy m.role = true ∨ joinPolicy = none → next r.group.version ≠ 0 →
      Change actor now r (.updateGroup groupId version name description avatarUrl joinPolicy)
        { r with group := r.group.describe now name description avatarUrl joinPolicy }
  | disband {groupId version : ℕ} {m : MemberRow} : r.members.lookup actor = some m →
      m.status = .active → m.role = .owner → actor = r.group.ownerUserId → r.group.Grows →
      Change actor now r (.disbandGroup groupId version)
        { r with group := r.group.disband now actor }
  | join {groupId : ℕ} : (∀ m, r.members.lookup actor = some m → m.status = .left) →
      r.activeCount < r.group.maxMembers → nextEpoch (r.members.lookup actor) ≠ 0 →
      r.history.lookup (actor, nextEpoch (r.members.lookup actor)) = none → r.group.Grows →
      Change actor now r (.joinGroup groupId)
        (r.enter now actor (nextEpoch (r.members.lookup actor)))
  | leave {groupId : ℕ} {m : MemberRow} {h : HistoryRow} : r.members.lookup actor = some m →
      m.status = .active → m.role ≠ .owner →
      r.history.lookup (actor, m.membershipEpoch) = some h → h.endedAt = none → r.group.Grows →
      Change actor now r (.leaveGroup groupId) (r.exit now actor .left 1 actor m h)
  | invite {groupId target : ℕ} {m : MemberRow} : r.members.lookup actor = some m →
      m.status = .active → m.role = .owner ∨ m.role = .admin →
      (∀ m', r.members.lookup target = some m' → m'.status ≠ .active) →
      r.activeCount < r.group.maxMembers → nextEpoch (r.members.lookup target) ≠ 0 →
      r.history.lookup (target, nextEpoch (r.members.lookup target)) = none → r.group.Grows →
      Change actor now r (.inviteMember groupId target)
        (r.enter now target (nextEpoch (r.members.lookup target)))
  | kick {groupId target : ℕ} {m m' : MemberRow} {h : HistoryRow} :
      r.members.lookup actor = some m → m.status = .active → r.members.lookup target = some m' →
      m'.status = .active → canKick m.role m'.role = true →
      r.history.lookup (target, m'.membershipEpoch) = some h → h.endedAt = none → r.group.Grows →
      Change actor now r (.kickMember groupId target) (r.exit now target .kicked 2 actor m' h)
  | setRole {groupId target : ℕ} {role : Role} {m m' : MemberRow} :
      r.members.lookup actor = some m → m.status = .active → r.members.lookup target = some m' →
      m'.status = .active → canSetRole m.role m'.role = true → m'.role ≠ role → r.group.Grows →
      Change actor now r (.setMemberRole groupId target role)
        (r.setMember now target (m'.setRole now role))
  | setMute {groupId target : ℕ} {mutedUntil : Bytes} {m m' : MemberRow} :
      r.members.lookup actor = some m → m.status = .active → r.members.lookup target = some m' →
      m'.status = .active → canMute m.role m'.role = true → r.group.Grows →
      Change actor now r (.setMemberMute groupId target mutedUntil)
        (r.setMember now target (m'.setMute now mutedUntil))
  | transfer {groupId target : ℕ} {m m' : MemberRow} : r.members.lookup actor = some m →
      m.status = .active → m.role = .owner → r.group.ownerUserId = actor →
      r.members.lookup target = some m' → m'.status = .active → m'.role ≠ .owner →
      r.group.Grows →
      Change actor now r (.transferOwnership groupId target) (r.transfer now actor target m m')

/-! ## Statements that change a row -/

section Writes

variable {user epoch : ℕ} {role : Role} {n : ℕ}

theorem insertMember_eq (h : insertMember e user role epoch r = .ok (n, r')) :
    epoch ≠ 0 ∧ r.members.lookup user = none ∧ r' = { r with
      members := r.members.insert user ⟨role, .active, epoch, none, e.now, none, e.now⟩ } := by
  obtain ⟨_, hargs, h⟩ := bind_eq_ok.1 h
  obtain ⟨_, -, h⟩ := bind_eq_ok.1 h
  obtain ⟨_, hnone, h⟩ := bind_eq_ok.1 h
  rw [execute_eq_ok, Prod.mk.injEq] at h
  simp_all

theorem reactivateMember_eq (h : reactivateMember e user epoch role r = .ok (1, r')) :
    epoch ≠ 0 ∧ r' = { r with
      members := r.members.insert user ⟨role, .active, epoch, none, e.now, none, e.now⟩ } := by
  obtain ⟨_, hargs, h⟩ := bind_eq_ok.1 h
  obtain ⟨_, -, h⟩ := bind_eq_ok.1 h
  simp only [require_eq_ok, Bool.and_eq_true, decide_eq_true_eq] at hargs
  rw [execute_eq_ok] at h
  grind

theorem activate_eq (h : (if member.isSome then reactivateMember e user epoch .member r
      else insertMember e user .member epoch r) = .ok (1, r')) :
    epoch ≠ 0 ∧ r' = { r with members := r.members.insert user (enteredRow e.now epoch) } := by
  split at h
  · exact reactivateMember_eq h
  · exact ⟨(insertMember_eq h).1, (insertMember_eq h).2.2⟩

theorem insertMembershipHistory_eq (h : insertMembershipHistory e user epoch role r = .ok (n, r')) :
    r.history.lookup (user, epoch) = none ∧ r' = { r with
      history := r.history.insert (user, epoch) ⟨role, e.now, none, none, none⟩ } := by
  obtain ⟨_, -, h⟩ := bind_eq_ok.1 h
  obtain ⟨_, -, h⟩ := bind_eq_ok.1 h
  obtain ⟨_, hnone, h⟩ := bind_eq_ok.1 h
  simp_all

theorem closeMembershipHistory_eq {reason endedBy : ℕ}
    (h : closeMembershipHistory e user epoch reason endedBy r = .ok (1, r')) :
    ∃ row, r.history.lookup (user, epoch) = some row ∧ row.endedAt = none ∧ r' = { r with
      history := r.history.insert (user, epoch) (row.close e.now reason endedBy) } := by
  obtain ⟨_, -, h⟩ := bind_eq_ok.1 h
  obtain ⟨_, -, h⟩ := bind_eq_ok.1 h
  rw [execute_eq_ok] at h
  have hrows := h.2
  split at hrows
  · next row hrow =>
    split at hrows
    · next hopen => exact ⟨row, hrow, hopen, (Prod.mk.inj hrows).2.symm⟩
    · cases hrows
  · cases hrows

theorem updateMember_eq {statement : Statement} {text : String} {f : MemberRow → MemberRow}
    (h : updateMember e statement text user f r = .ok (1, r')) :
    ∃ m, r.members.lookup user = some m ∧ m.status = .active ∧ r' = { r with
      members := r.members.insert user { f m with updatedAt := e.now } } := by
  rw [updateMember, execute_eq_ok] at h
  have hrows := h.2
  split at hrows
  · next m hm =>
    split at hrows
    · next hactive => exact ⟨m, hm, hactive, (Prod.mk.inj hrows).2.symm⟩
    · cases hrows
  · cases hrows

theorem updateRow_eq {statement : Statement} {text : String} {f : GroupRow → GroupRow}
    (h : updateRow e statement text f r = .ok (1, r')) :
    r.group.status = .active ∧ r' = { r with group := { f r.group with updatedAt := e.now } } := by
  rw [updateRow, execute_eq_ok] at h
  grind

theorem markMemberInactive_eq {status : MemberStatus}
    (h : markMemberInactive e user status r = .ok (1, r')) :
    ∃ m, r.members.lookup user = some m ∧ m.status = .active ∧
      r' = { r with members := r.members.insert user (m.exit e.now status) } :=
  updateMember_eq (bind_eq_ok.1 h).choose_spec.2

theorem updateMemberRole_eq {statement : Statement}
    (h : updateMemberRole e statement user role r = .ok (1, r')) :
    ∃ m, r.members.lookup user = some m ∧ m.status = .active ∧
      r' = { r with members := r.members.insert user (m.setRole e.now role) } :=
  updateMember_eq (bind_eq_ok.1 h).choose_spec.2

theorem updateMemberMute_eq {mutedUntil : Bytes}
    (h : updateMemberMute e user mutedUntil r = .ok (1, r')) :
    ∃ m, r.members.lookup user = some m ∧ m.status = .active ∧
      r' = { r with members := r.members.insert user (m.setMute e.now mutedUntil) } :=
  updateMember_eq (bind_eq_ok.1 h).choose_spec.2

theorem updateGroupVersions_eq {version memberVersion : ℕ}
    (h : updateGroupVersions e version memberVersion r = .ok (1, r')) :
    version ≠ 0 ∧ memberVersion ≠ 0 ∧ r' = { r with
      group := { r.group with version, memberVersion, updatedAt := e.now } } := by
  obtain ⟨_, hargs, h⟩ := bind_eq_ok.1 h
  simp only [require_eq_ok, Bool.and_eq_true, decide_eq_true_eq] at hargs
  exact ⟨hargs.1, hargs.2, (updateRow_eq h).2⟩

end Writes

/-! ## Commands that succeed -/

theorem createGroup_eq {name description avatarUrl : Bytes} {joinPolicy : JoinPolicy}
    {maxMembers : ℕ}
    (h : createGroup e actor groupId name description avatarUrl joinPolicy maxMembers = .ok p) :
    2 ≤ maxMembers ∧
      p.rows = createdRows e.now actor name description avatarUrl joinPolicy maxMembers := by
  obtain ⟨_, -, h⟩ := bind_eq_ok.1 h
  obtain ⟨_, -, h⟩ := bind_eq_ok.1 h
  obtain ⟨_, hargs, h⟩ := bind_eq_ok.1 h
  obtain ⟨_, -, h⟩ := bind_eq_ok.1 h
  obtain ⟨_, -, h⟩ := bind_eq_ok.1 h
  obtain ⟨_, -, h⟩ := bind_eq_ok.1 h
  obtain ⟨_, -, h⟩ := bind_eq_ok.1 h
  obtain ⟨⟨_, rows⟩, hhistory, h⟩ := bind_eq_ok.1 h
  obtain ⟨_, -, h⟩ := bind_eq_ok.1 h
  cases h
  simp only [require_eq_ok, Bool.and_eq_true, decide_eq_true_eq] at hargs
  exact ⟨hargs.1.2, (insertMembershipHistory_eq hhistory).2⟩

theorem updateGroup_change {version : ℕ} {name description avatarUrl : Option Bytes}
    {joinPolicy : Option JoinPolicy}
    (h : updateGroup e actor groupId version name description avatarUrl joinPolicy r = .ok p) :
    r.group.status = .active ∧ Change actor e.now r
      (.updateGroup groupId version name description avatarUrl joinPolicy) p.rows := by
  obtain ⟨_, hactive, h⟩ := bind_eq_ok.1 h
  obtain ⟨_, -, h⟩ := bind_eq_ok.1 h
  obtain ⟨_, hmember, h⟩ := bind_eq_ok.1 h
  obtain ⟨m, hm, h⟩ := bind_eq_ok.1 h
  obtain ⟨_, hallowed, h⟩ := bind_eq_ok.1 h
  obtain ⟨r', hrow, h⟩ := bind_eq_ok.1 h
  obtain ⟨_, -, h⟩ := bind_eq_ok.1 h
  cases h
  obtain ⟨hm, hstatus⟩ := activeMember_eq_ok.1 hm
  obtain ⟨_, hargs, hrow⟩ := bind_eq_ok.1 (affected_eq_ok.1 hrow)
  obtain ⟨-, rfl⟩ := updateRow_eq hrow
  simp only [require_eq_ok, Bool.and_eq_true, decide_eq_true_eq] at hactive hargs
  refine ⟨hactive, .update ((findMember_eq hmember).1 ▸ hm) hstatus ?_ ?_ hargs.1⟩
  · rcases hmeta : canUpdateMetadata m.role with - | -
    · refine .inr ?_
      simp only [require_eq_ok, hmeta, Bool.not_false, Bool.and_true, Bool.not_or,
        Bool.and_eq_true, Bool.not_eq_true', Option.isSome_eq_false_iff,
        Option.isNone_iff_eq_none] at hallowed
      exact ⟨hallowed.1.1.1, hallowed.1.1.2, hallowed.1.2⟩
    · exact .inl rfl
  · rcases hpolicy : canUpdateJoinPolicy m.role with - | -
    · refine .inr ?_
      simp only [require_eq_ok, hpolicy, Bool.not_false, Bool.and_true, Bool.not_or,
        Bool.and_eq_true, Bool.not_eq_true', Option.isSome_eq_false_iff,
        Option.isNone_iff_eq_none] at hallowed
      exact hallowed.2
    · exact .inl rfl

theorem disbandGroup_change {version : ℕ}
    (h : disbandGroup e actor groupId version r = .ok p) :
    r.group.status = .active ∧ Change actor e.now r (.disbandGroup groupId version) p.rows := by
  obtain ⟨_, hactive, h⟩ := bind_eq_ok.1 h
  obtain ⟨_, -, h⟩ := bind_eq_ok.1 h
  obtain ⟨_, hmember, h⟩ := bind_eq_ok.1 h
  obtain ⟨m, hm, h⟩ := bind_eq_ok.1 h
  obtain ⟨_, howner, h⟩ := bind_eq_ok.1 h
  obtain ⟨r', hrow, h⟩ := bind_eq_ok.1 h
  obtain ⟨_, -, h⟩ := bind_eq_ok.1 h
  cases h
  obtain ⟨hm, hstatus⟩ := activeMember_eq_ok.1 hm
  obtain ⟨_, hargs, hrow⟩ := bind_eq_ok.1 (affected_eq_ok.1 hrow)
  obtain ⟨_, -, hrow⟩ := bind_eq_ok.1 hrow
  obtain ⟨-, rfl⟩ := updateRow_eq hrow
  simp only [require_eq_ok, canDisband, Bool.and_eq_true, decide_eq_true_eq]
    at hactive howner hargs
  exact ⟨hactive, .disband ((findMember_eq hmember).1 ▸ hm) hstatus howner.2 howner.1
    ⟨hargs.1.2, hargs.2⟩⟩

theorem versions_eq {r₀ : Rows}
    (h : updateGroupVersions e (next r.group.version) (next r.group.memberVersion) r₀ = .ok (1, r'))
    (hgroup : r₀.group = r.group) :
    r.group.Grows ∧ r' = { r₀ with group := r.group.touch e.now } := by
  obtain ⟨hversion, hmember, rfl⟩ := updateGroupVersions_eq h
  refine ⟨⟨hversion, hmember⟩, ?_⟩
  rw [hgroup]
  rfl

theorem enter_eq {user epoch : ℕ} {r₁ r₂ r₃ : Rows}
    (hmember : (if member.isSome then reactivateMember e user epoch .member r
      else insertMember e user .member epoch r) = .ok (1, r₁))
    (hhistory : insertMembershipHistory e user epoch .member r₁ = .ok (1, r₂))
    (hversions : updateGroupVersions e (next r.group.version) (next r.group.memberVersion) r₂ =
      .ok (1, r₃)) :
    epoch ≠ 0 ∧ r.history.lookup (user, epoch) = none ∧ r.group.Grows ∧
      r₃ = r.enter e.now user epoch := by
  obtain ⟨hepoch, rfl⟩ := activate_eq hmember
  obtain ⟨hnone, rfl⟩ := insertMembershipHistory_eq hhistory
  obtain ⟨hgrows, rfl⟩ := versions_eq hversions rfl
  exact ⟨hepoch, hnone, hgrows, rfl⟩

theorem exit_eq {user reason endedBy : ℕ} {status : MemberStatus} {m : MemberRow}
    {r₁ r₂ r₃ : Rows} (hm : r.members.lookup user = some m)
    (hmember : markMemberInactive e user status r = .ok (1, r₁))
    (hhistory : closeMembershipHistory e user m.membershipEpoch reason endedBy r₁ = .ok (1, r₂))
    (hversions : updateGroupVersions e (next r.group.version) (next r.group.memberVersion) r₂ =
      .ok (1, r₃)) :
    ∃ row, r.history.lookup (user, m.membershipEpoch) = some row ∧ row.endedAt = none ∧
      r.group.Grows ∧ r₃ = r.exit e.now user status reason endedBy m row := by
  obtain ⟨m₀, hm₀, -, rfl⟩ := markMemberInactive_eq hmember
  obtain rfl : m₀ = m := Option.some.inj (hm₀.symm.trans hm)
  obtain ⟨row, hrow, hopen, rfl⟩ := closeMembershipHistory_eq hhistory
  obtain ⟨hgrows, rfl⟩ := versions_eq hversions rfl
  exact ⟨row, hrow, hopen, hgrows, rfl⟩

theorem requireActive_eq {u : Unit} (h : requireActive r = .ok u) : r.group.status = .active := by
  simpa [requireActive] using h

theorem joinGroup_change (h : joinGroup e actor groupId r = .ok p) :
    r.group.status = .active ∧ Change actor e.now r (.joinGroup groupId) p.rows := by
  obtain ⟨_, hactive, h⟩ := bind_eq_ok.1 h
  obtain ⟨_, -, h⟩ := bind_eq_ok.1 h
  obtain ⟨_, -, h⟩ := bind_eq_ok.1 h
  obtain ⟨_, -, h⟩ := bind_eq_ok.1 h
  obtain ⟨member, hmember, h⟩ := bind_eq_ok.1 h
  obtain ⟨_, hinactive, h⟩ := bind_eq_ok.1 h
  obtain ⟨_, hkicked, h⟩ := bind_eq_ok.1 h
  obtain ⟨_, hcapacity, h⟩ := bind_eq_ok.1 h
  obtain ⟨r₁, h₁, h⟩ := bind_eq_ok.1 h
  obtain ⟨r₂, h₂, h⟩ := bind_eq_ok.1 h
  obtain ⟨r₃, h₃, h⟩ := bind_eq_ok.1 h
  obtain ⟨_, -, h⟩ := bind_eq_ok.1 h
  cases h
  obtain ⟨rfl, -⟩ := findMember_eq hmember
  obtain ⟨hepoch, hnone, hgrows, rfl⟩ :=
    enter_eq (affected_eq_ok.1 h₁) (affected_eq_ok.1 h₂) (affected_eq_ok.1 h₃)
  refine ⟨requireActive_eq hactive, .join (fun m hm => ?_) (ensureCapacity_eq hcapacity) hepoch
    hnone hgrows⟩
  rw [require_eq_ok, hm] at hinactive hkicked
  cases hstatus : m.status with
  | left => rfl
  | active => simp [hstatus] at hinactive
  | kicked => simp [hstatus] at hkicked

theorem leaveGroup_change (h : leaveGroup e actor groupId r = .ok p) :
    r.group.status = .active ∧ Change actor e.now r (.leaveGroup groupId) p.rows := by
  obtain ⟨_, hactive, h⟩ := bind_eq_ok.1 h
  obtain ⟨_, hmember, h⟩ := bind_eq_ok.1 h
  obtain ⟨m, hm, h⟩ := bind_eq_ok.1 h
  obtain ⟨_, hleave, h⟩ := bind_eq_ok.1 h
  obtain ⟨r₁, h₁, h⟩ := bind_eq_ok.1 h
  obtain ⟨r₂, h₂, h⟩ := bind_eq_ok.1 h
  obtain ⟨r₃, h₃, h⟩ := bind_eq_ok.1 h
  obtain ⟨_, -, h⟩ := bind_eq_ok.1 h
  cases h
  obtain ⟨hm, hstatus⟩ := activeMember_eq_ok.1 hm
  have hm : r.members.lookup actor = some m := (findMember_eq hmember).1 ▸ hm
  obtain ⟨row, hrow, hopen, hgrows, rfl⟩ :=
    exit_eq hm (durable_eq_ok.1 h₁) (durable_eq_ok.1 h₂) (durable_eq_ok.1 h₃)
  exact ⟨requireActive_eq hactive,
    .leave hm hstatus (by simpa [canLeave] using hleave) hrow hopen hgrows⟩

theorem inviteMember_change (h : inviteMember e actor groupId target r = .ok p) :
    r.group.status = .active ∧ Change actor e.now r (.inviteMember groupId target) p.rows := by
  obtain ⟨_, hactive, h⟩ := bind_eq_ok.1 h
  obtain ⟨_, -, h⟩ := bind_eq_ok.1 h
  obtain ⟨_, -, h⟩ := bind_eq_ok.1 h
  obtain ⟨⟨a, t⟩, hpair, h⟩ := bind_eq_ok.1 h
  obtain ⟨m, hm, h⟩ := bind_eq_ok.1 h
  obtain ⟨_, hinvite, h⟩ := bind_eq_ok.1 h
  obtain ⟨_, hinactive, h⟩ := bind_eq_ok.1 h
  obtain ⟨_, hcapacity, h⟩ := bind_eq_ok.1 h
  obtain ⟨r₁, h₁, h⟩ := bind_eq_ok.1 h
  obtain ⟨r₂, h₂, h⟩ := bind_eq_ok.1 h
  obtain ⟨r₃, h₃, h⟩ := bind_eq_ok.1 h
  obtain ⟨_, -, h⟩ := bind_eq_ok.1 h
  cases h
  obtain ⟨rfl, rfl, -⟩ := lockActorAndTarget_eq hpair
  obtain ⟨hm, hstatus⟩ := activeMember_eq_ok.1 hm
  obtain ⟨hepoch, hnone, hgrows, rfl⟩ :=
    enter_eq (durable_eq_ok.1 h₁) (durable_eq_ok.1 h₂) (durable_eq_ok.1 h₃)
  refine ⟨requireActive_eq hactive, .invite hm hstatus (by simpa [canInvite] using hinvite)
    (fun m' hm' => ?_) (ensureCapacity_eq hcapacity) hepoch hnone hgrows⟩
  rw [require_eq_ok, hm'] at hinactive
  simpa using hinactive

theorem kickMember_change (h : kickMember e actor groupId target r = .ok p) :
    r.group.status = .active ∧ Change actor e.now r (.kickMember groupId target) p.rows := by
  obtain ⟨_, hactive, h⟩ := bind_eq_ok.1 h
  obtain ⟨⟨a, t⟩, hpair, h⟩ := bind_eq_ok.1 h
  obtain ⟨m, hm, h⟩ := bind_eq_ok.1 h
  obtain ⟨m', hm', h⟩ := bind_eq_ok.1 h
  obtain ⟨_, hkick, h⟩ := bind_eq_ok.1 h
  obtain ⟨r₁, h₁, h⟩ := bind_eq_ok.1 h
  obtain ⟨r₂, h₂, h⟩ := bind_eq_ok.1 h
  obtain ⟨r₃, h₃, h⟩ := bind_eq_ok.1 h
  obtain ⟨_, -, h⟩ := bind_eq_ok.1 h
  cases h
  obtain ⟨rfl, rfl, -⟩ := lockActorAndTarget_eq hpair
  obtain ⟨hm, hstatus⟩ := activeMember_eq_ok.1 hm
  obtain ⟨hm', hstatus'⟩ := activeMember_eq_ok.1 hm'
  obtain ⟨row, hrow, hopen, hgrows, rfl⟩ :=
    exit_eq hm' (durable_eq_ok.1 h₁) (durable_eq_ok.1 h₂) (durable_eq_ok.1 h₃)
  exact ⟨requireActive_eq hactive,
    .kick hm hstatus hm' hstatus' (require_eq_ok.1 hkick) hrow hopen hgrows⟩

theorem setMemberRole_change {role : Role}
    (h : setMemberRole e actor groupId target role r = .ok p) :
    r.group.status = .active ∧ Change actor e.now r (.setMemberRole groupId target role) p.rows := by
  obtain ⟨_, hactive, h⟩ := bind_eq_ok.1 h
  obtain ⟨⟨a, t⟩, hpair, h⟩ := bind_eq_ok.1 h
  obtain ⟨m, hm, h⟩ := bind_eq_ok.1 h
  obtain ⟨m', hm', h⟩ := bind_eq_ok.1 h
  obtain ⟨_, hallowed, h⟩ := bind_eq_ok.1 h
  obtain ⟨_, hother, h⟩ := bind_eq_ok.1 h
  obtain ⟨r₁, h₁, h⟩ := bind_eq_ok.1 h
  obtain ⟨r₂, h₂, h⟩ := bind_eq_ok.1 h
  obtain ⟨_, -, h⟩ := bind_eq_ok.1 h
  cases h
  obtain ⟨rfl, rfl, -⟩ := lockActorAndTarget_eq hpair
  obtain ⟨hm, hstatus⟩ := activeMember_eq_ok.1 hm
  obtain ⟨hm', hstatus'⟩ := activeMember_eq_ok.1 hm'
  obtain ⟨m₀, hm₀, -, rfl⟩ := updateMemberRole_eq (durable_eq_ok.1 h₁)
  obtain rfl : m₀ = m' := Option.some.inj (hm₀.symm.trans hm')
  obtain ⟨hgrows, rfl⟩ := versions_eq (durable_eq_ok.1 h₂) rfl
  exact ⟨requireActive_eq hactive,
    .setRole hm hstatus hm' hstatus' (require_eq_ok.1 hallowed) (by simpa using hother) hgrows⟩

theorem setMemberMute_change {mutedUntil : Bytes}
    (h : setMemberMute e actor groupId target mutedUntil r = .ok p) :
    r.group.status = .active ∧
      Change actor e.now r (.setMemberMute groupId target mutedUntil) p.rows := by
  obtain ⟨_, hactive, h⟩ := bind_eq_ok.1 h
  obtain ⟨⟨a, t⟩, hpair, h⟩ := bind_eq_ok.1 h
  obtain ⟨m, hm, h⟩ := bind_eq_ok.1 h
  obtain ⟨m', hm', h⟩ := bind_eq_ok.1 h
  obtain ⟨_, hallowed, h⟩ := bind_eq_ok.1 h
  obtain ⟨_, -, h⟩ := bind_eq_ok.1 h
  obtain ⟨r₁, h₁, h⟩ := bind_eq_ok.1 h
  obtain ⟨r₂, h₂, h⟩ := bind_eq_ok.1 h
  obtain ⟨_, -, h⟩ := bind_eq_ok.1 h
  cases h
  obtain ⟨rfl, rfl, -⟩ := lockActorAndTarget_eq hpair
  obtain ⟨hm, hstatus⟩ := activeMember_eq_ok.1 hm
  obtain ⟨hm', hstatus'⟩ := activeMember_eq_ok.1 hm'
  obtain ⟨m₀, hm₀, -, rfl⟩ := updateMemberMute_eq (durable_eq_ok.1 h₁)
  obtain rfl : m₀ = m' := Option.some.inj (hm₀.symm.trans hm')
  obtain ⟨hgrows, rfl⟩ := versions_eq (durable_eq_ok.1 h₂) rfl
  exact ⟨requireActive_eq hactive,
    .setMute hm hstatus hm' hstatus' (require_eq_ok.1 hallowed) hgrows⟩

theorem transferOwnership_change (h : transferOwnership e actor groupId target r = .ok p) :
    r.group.status = .active ∧ Change actor e.now r (.transferOwnership groupId target) p.rows := by
  obtain ⟨_, hactive, h⟩ := bind_eq_ok.1 h
  obtain ⟨⟨a, t⟩, hpair, h⟩ := bind_eq_ok.1 h
  obtain ⟨m, hm, h⟩ := bind_eq_ok.1 h
  obtain ⟨m', hm', h⟩ := bind_eq_ok.1 h
  obtain ⟨_, hallowed, h⟩ := bind_eq_ok.1 h
  obtain ⟨r₁, h₁, h⟩ := bind_eq_ok.1 h
  obtain ⟨r₂, h₂, h⟩ := bind_eq_ok.1 h
  obtain ⟨r₃, h₃, h⟩ := bind_eq_ok.1 h
  obtain ⟨_, -, h⟩ := bind_eq_ok.1 h
  cases h
  obtain ⟨rfl, rfl, -⟩ := lockActorAndTarget_eq hpair
  obtain ⟨hm, hstatus⟩ := activeMember_eq_ok.1 hm
  obtain ⟨hm', hstatus'⟩ := activeMember_eq_ok.1 hm'
  simp only [require_eq_ok, canTransferOwnership, Bool.and_eq_true, decide_eq_true_eq] at hallowed
  obtain ⟨⟨howner, hrole⟩, -, hrole'⟩ := hallowed
  obtain ⟨_, hargs, h₁⟩ := bind_eq_ok.1 (durable_eq_ok.1 h₁)
  obtain ⟨_, -, h₁⟩ := bind_eq_ok.1 h₁
  obtain ⟨-, rfl⟩ := updateRow_eq h₁
  obtain ⟨m₀, hm₀, -, rfl⟩ := updateMemberRole_eq (durable_eq_ok.1 h₂)
  obtain ⟨m₀', hm₀', -, rfl⟩ := updateMemberRole_eq (durable_eq_ok.1 h₃)
  obtain rfl : m₀ = m := Option.some.inj (hm₀.symm.trans hm)
  -- the row of the target is read after that of the actor was written
  have hne : target ≠ actor := by
    rintro rfl
    simp_all
  obtain rfl : m₀' = m' := by
    rw [AList.lookup_insert_ne hne] at hm₀'
    exact Option.some.inj (hm₀'.symm.trans hm')
  simp only [require_eq_ok, Bool.and_eq_true, decide_eq_true_eq] at hargs
  exact ⟨requireActive_eq hactive, .transfer hm hstatus hrole howner hm' hstatus' hrole'
    ⟨hargs.1.2, hargs.2⟩⟩

theorem transact_cases {req : Request} {fresh : ℕ} {rows : Option Rows}
    (h : req.transact e fresh rows = .ok p) :
    (∃ name description avatarUrl joinPolicy maxMembers,
      req.command = .createGroup name description avatarUrl joinPolicy maxMembers ∧
      2 ≤ maxMembers ∧
      p.rows = createdRows e.now req.actor name description avatarUrl joinPolicy maxMembers) ∨
    ∃ r, rows = some r ∧ r.group.status = .active ∧
      Change req.actor e.now r req.command p.rows := by
  obtain ⟨actor, id, command⟩ := req
  cases rows with
  | none =>
    cases command with
    | createGroup name description avatarUrl joinPolicy maxMembers =>
      obtain ⟨hmax, hrows⟩ := createGroup_eq h
      exact .inl ⟨_, _, _, _, _, rfl, hmax, hrows⟩
    | _ => cases h
  | some r =>
    cases command with
    | createGroup name description avatarUrl joinPolicy maxMembers =>
      obtain ⟨hmax, hrows⟩ := createGroup_eq h
      exact .inl ⟨_, _, _, _, _, rfl, hmax, hrows⟩
    | updateGroup => exact .inr ⟨r, rfl, updateGroup_change h⟩
    | disbandGroup => exact .inr ⟨r, rfl, disbandGroup_change h⟩
    | joinGroup => exact .inr ⟨r, rfl, joinGroup_change h⟩
    | leaveGroup => exact .inr ⟨r, rfl, leaveGroup_change h⟩
    | inviteMember => exact .inr ⟨r, rfl, inviteMember_change h⟩
    | kickMember => exact .inr ⟨r, rfl, kickMember_change h⟩
    | setMemberRole => exact .inr ⟨r, rfl, setMemberRole_change h⟩
    | setMemberMute => exact .inr ⟨r, rfl, setMemberMute_change h⟩
    | transferOwnership => exact .inr ⟨r, rfl, transferOwnership_change h⟩

end TinyImx.Group
